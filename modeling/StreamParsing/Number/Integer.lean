/-!
Runs of decimal digits, and integers of a bounded range: which texts are read, and why one is refused.
-/

namespace StreamParsing.Number

set_option autoImplicit false

/-- A two's complement or plain binary integer of `bits` bits. -/
structure IntegerType where
  signed : Bool
  bits : Nat
  deriving DecidableEq, Repr

namespace IntegerType

def lowest (t : IntegerType) : Int :=
  if t.signed then -(Nat.pow 2 (t.bits - 1) : Int) else 0

def highest (t : IntegerType) : Int :=
  (Nat.pow 2 (if t.signed then t.bits - 1 else t.bits) : Int) - 1

/-- The type's name: a letter for its sign and its width. -/
def name (t : IntegerType) : String :=
  (if t.signed then "i" else "u") ++ toString t.bits

def all : List IntegerType :=
  [8, 16, 32, 64, 128].flatMap fun bits => [⟨true, bits⟩, ⟨false, bits⟩]

def ofName? (name : String) : Option IntegerType := all.find? fun t => t.name == name

end IntegerType

inductive IntegerFault where
  | empty
  | invalidDigit
  | tooLarge
  | tooSmall
  deriving DecidableEq, Repr

def IntegerFault.message : IntegerFault → String
  | .empty => "cannot parse integer from empty string"
  | .invalidDigit => "invalid digit found in string"
  | .tooLarge => "number too large to fit in target type"
  | .tooSmall => "number too small to fit in target type"

def digitValue? (c : Char) : Option Nat :=
  if '0' ≤ c ∧ c ≤ '9' then some (c.toNat - '0'.toNat) else none

def isDigit (c : Char) : Bool := (digitValue? c).isSome

def digitsValue (digits : List Char) : Nat :=
  digits.foldl (fun n c => n * 10 + (digitValue? c).getD 0) 0

/-- Whether a text begins with a minus sign, and the text behind its sign. -/
def splitSign : List Char → Bool × List Char
  | '-' :: rest => (true, rest)
  | '+' :: rest => (false, rest)
  | rest => (false, rest)

namespace IntegerType

/-- Reads digits from the left onto `acc`, away from zero on the side `negative` says. The first character
that is no digit, or that takes the value out of range, decides the fault. -/
def readDigits (t : IntegerType) (negative : Bool) : List Char → Int → Except IntegerFault Int
  | [], acc => .ok acc
  | c :: rest, acc =>
    match digitValue? c with
    | none => .error .invalidDigit
    | some d =>
      if negative then
        let next := acc * 10 - d
        if next < t.lowest then .error .tooSmall else t.readDigits negative rest next
      else
        let next := acc * 10 + d
        if t.highest < next then .error .tooLarge else t.readDigits negative rest next

/-- An optional sign and digits. Types without negative values take a minus sign for a wrong digit, and a
sign alone is no number. -/
def read (t : IntegerType) (text : List Char) : Except IntegerFault Int :=
  match text with
  | [] => .error .empty
  | ['+'] => .error .invalidDigit
  | ['-'] => .error .invalidDigit
  | '+' :: digits => t.readDigits false digits 0
  | '-' :: digits => if t.signed then t.readDigits true digits 0 else .error .invalidDigit
  | digits => t.readDigits false digits 0

end IntegerType

end StreamParsing.Number
