import StreamParsing.Number.Binary
import StreamParsing.Number.Integer

/-!
Decimal literals: which texts are read, the parts of one, and the binary number nearest to it.
-/

namespace StreamParsing.Number

set_option autoImplicit false

/-- A decimal literal taken apart: its sign, its digits without the point, how many of them stand behind the
point, and the exponent. -/
structure Literal where
  negative : Bool
  digits : List Char
  places : Nat
  exponent : Int
  deriving DecidableEq, Repr

inductive LiteralFault where
  | empty
  | malformed
  deriving DecidableEq, Repr

def LiteralFault.message : LiteralFault → String
  | .empty => "cannot parse float from empty string"
  | .malformed => "invalid float literal"

namespace Literal

/-- Splits digits with a point among them, or none, into those before and those behind it, and what follows. -/
def splitPoint (text : List Char) : List Char × List Char × List Char :=
  let whole := text.takeWhile isDigit
  match text.dropWhile isDigit with
  | '.' :: rest => (whole, rest.takeWhile isDigit, rest.dropWhile isDigit)
  | rest => (whole, [], rest)

/-- Exponents grow no further once they are this large. -/
def exponentLimit : Nat := 65536

/-- The size of an exponent. Digits behind the one that takes it to the limit are passed over. -/
def exponentSize (digits : List Char) : Nat :=
  digits.foldl (fun n c => if n < exponentLimit then n * 10 + (digitValue? c).getD 0 else n) 0

/-- Reads an exponent: nothing at all, or its mark, an optional sign and digits. -/
def exponent? : List Char → Option Int
  | [] => some 0
  | mark :: rest =>
    let (negative, digits) := splitSign rest
    if (mark = 'e' ∨ mark = 'E') ∧ digits ≠ [] ∧ digits.all isDigit then
      let size : Int := exponentSize digits
      some (if negative then -size else size)
    else none

def ofChars (text : List Char) : Except LiteralFault Literal :=
  if text = [] then .error .empty
  else
    let (negative, body) := splitSign text
    let (whole, fraction, rest) := splitPoint body
    if whole ++ fraction = [] then .error .malformed
    else
      match exponent? rest with
      | some exponent => .ok ⟨negative, whole ++ fraction, fraction.length, exponent⟩
      | none => .error .malformed

/-- The number of leading digits that decide to which number a literal rounds. No number half-way between two
neighbours of a format here has as many, so the digits behind them count only as zero or not. -/
def decisiveDigits : Nat := 800

/-- The digits as a natural number with one decimal place more than `decisiveDigits` keeps, which says whether
anything but zeros follows. -/
def significand (digits : List Char) : Nat :=
  digitsValue (digits.take decisiveDigits) * 10 +
    (if (digits.drop decisiveDigits).any (· != '0') then 1 else 0)

/-- The word nearest to the literal, without its sign. Literals far outside the format's range are settled by
their size alone. -/
def word (l : Literal) (f : BinaryFormat) : Nat :=
  let digits := l.digits.dropWhile (· == '0')
  let top := l.exponent - l.places + digits.length
  if digits = [] then 0
  else if 400 ≤ top then f.infinity
  else if top ≤ -400 then 0
  else
    let exponent := top - min digits.length decisiveDigits - 1
    f.nearest (significand digits * powerNum 10 exponent) (powerDen 10 exponent)

def signedWord (l : Literal) (f : BinaryFormat) : Nat :=
  (if l.negative then f.signWeight else 0) + l.word f

end Literal

end StreamParsing.Number
