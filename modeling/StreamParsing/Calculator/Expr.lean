import StreamParsing.Described

/-!
Arithmetic expressions: trees, values and the indented listing.
-/

namespace StreamParsing.Calculator

set_option autoImplicit false

inductive Operation where
  | add
  | subtract
  | multiply
  | divide
  | power
  deriving DecidableEq, Repr

namespace Operation

def name : Operation → String
  | add => "Add"
  | subtract => "Subtract"
  | multiply => "Multiply"
  | divide => "Divide"
  | power => "Power"

def apply : Operation → Float → Float → Float
  | add, x, y => x + y
  | subtract, x, y => x - y
  | multiply, x, y => x * y
  | divide, x, y => x / y
  | power, x, y => x.pow y

end Operation

inductive Expr where
  | number (value : Float)
  | negate (inner : Expr)
  | binary (op : Operation) (left right : Expr)

namespace Expr

def eval : Expr → Float
  | number value => value
  | negate inner => -inner.eval
  | binary op left right => op.apply left.eval right.eval

/-- The lines of the listing, two blanks deeper with each level; they come after `lines`. -/
def listing (lines : Array String) (depth : Nat) : Expr → Array String
  | number value => lines.push (indent ++ describe value)
  | negate inner => inner.listing (lines.push (indent ++ "Negate")) (depth + 1)
  | binary op left right =>
    right.listing (left.listing (lines.push (indent ++ op.name)) (depth + 1)) (depth + 1)
where
  indent : String := String.ofList (List.replicate (2 * depth) ' ')

end Expr

end StreamParsing.Calculator
