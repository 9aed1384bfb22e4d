import StreamParsing.Number.Power

/-!
Binary floating point as exact arithmetic: the fields of a word, the number it stands for, and the word
nearest to a fraction. Words are natural numbers without their sign.
-/

namespace StreamParsing.Number

set_option autoImplicit false

/-- A binary interchange format: `precision` counts the leading bit, and `floor` is the exponent of the
smallest positive number, which is `2 ^ floor`. -/
structure BinaryFormat where
  precision : Nat
  exponentBits : Nat
  floor : Int
  deriving DecidableEq, Repr

namespace BinaryFormat

def double : BinaryFormat := ⟨53, 11, -1074⟩

def single : BinaryFormat := ⟨24, 8, -149⟩

/-- The weight of the exponent field's lowest bit. -/
def hidden (f : BinaryFormat) : Nat := Nat.pow 2 (f.precision - 1)

/-- The word of infinity: all exponent bits set and no fraction. -/
def infinity (f : BinaryFormat) : Nat := (Nat.pow 2 f.exponentBits - 1) * f.hidden

def signWeight (f : BinaryFormat) : Nat := Nat.pow 2 f.exponentBits * f.hidden

/-- The number `significand * 2 ^ exponent` that a finite word stands for. -/
structure Scaled where
  significand : Nat
  exponent : Int
  /-- Whether the next smaller number is only half a step away. -/
  narrowBelow : Bool
  deriving DecidableEq, Repr

def scaled (f : BinaryFormat) (word : Nat) : Scaled :=
  let field := word / f.hidden
  let fraction := word % f.hidden
  if field = 0 then ⟨fraction, f.floor, false⟩
  else ⟨f.hidden + fraction, f.floor + (field - 1 : Nat), fraction == 0 && field != 1⟩

end BinaryFormat

/-- `num / den` to the nearest integer, a half to the even one. -/
def roundHalfEven (num den : Nat) : Nat :=
  let low := num / den
  let twice := 2 * (num % den)
  if twice < den then low
  else if den < twice then low + 1
  else if low % 2 = 0 then low else low + 1

/-- `num / den * 2 ^ (-shift)` to the nearest integer, a half to the even one. -/
def roundScaled (num den : Nat) (shift : Int) : Nat :=
  roundHalfEven (num * powerDen 2 shift) (den * powerNum 2 shift)

namespace BinaryFormat

/-- The exponent at which `num / den` has a significand of full length, or `floor` below that. -/
def exponentFor (f : BinaryFormat) (num den : Nat) : Int :=
  let guess : Int := (num.log2 : Int) - den.log2 - f.precision
  let full : Int :=
    if den * powerNum 2 guess * Nat.pow 2 f.precision ≤ num * powerDen 2 guess then guess + 1 else guess
  max full f.floor

/-- The word nearest to `num / den`, ties to the even word, and infinity above the largest number. A
significand that rounds up to the next power of two carries into the exponent field by itself. -/
def nearest (f : BinaryFormat) (num den : Nat) : Nat :=
  if num = 0 then 0
  else
    let exponent := f.exponentFor num den
    let word := (exponent - f.floor).toNat * f.hidden + roundScaled num den exponent
    min word f.infinity

end BinaryFormat

end StreamParsing.Number
