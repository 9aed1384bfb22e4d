import StreamParsing.Calculator.Expr
import StreamParsing.Calculator.Lexeme
import StreamParsing.Parser.Rules

/-!
The calculator's grammar: sums of products of powers of atoms. Powers group to the right, all else to the left,
and a minus sign binds tighter than any operator.
-/

namespace StreamParsing.Calculator

set_option autoImplicit false

open StreamParsing.Parser

abbrev Phrase (α : Type) := Parser Lexeme LinearPosition Expr α

def operator (t : Lexeme) (op : Operation) : Phrase (Expr → Expr → Expr) :=
  (token t).as (Expr.binary op)

def numeral : Phrase Expr :=
  (satisfy fun t => t.number?.isSome).map fun t => .number (t.number?.getD 0)

/-- An expression in parentheses; once it was opened, a missing end is final. -/
def group (expr : Phrase Expr) : Phrase Expr :=
  between (token .opening) expr ((token .closing).label "expected ')'").required

/-- A number, a group or an atom with a minus sign before it. -/
def atomBody (expr atom : Phrase Expr) : Phrase Expr :=
  let negated := ((token .minus).keepRight atom).map Expr.negate
  ((numeral.orElse (group expr)).orElse negated).label "expected a number, '(' or '-'"

def exprBody (atom : Phrase Expr) : Phrase Expr :=
  let power := chainRight1 atom (operator .caret .power)
  let product := chainLeft1 power ((operator .times .multiply).orElse (operator .slash .divide))
  chainLeft1 product ((operator .plus .add).orElse (operator .minus .subtract))

def grammar : Builder Lexeme LinearPosition Expr (Phrase Expr) := do
  let expr ← Builder.fix fun expr => do
    let atom ← Builder.fix fun atom => Builder.pure (atomBody expr atom)
    Builder.pure (exprBody atom)
  Builder.pure (expr.keepLeft endOfInput)

end StreamParsing.Calculator
