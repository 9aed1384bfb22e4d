/-!
Powers with an integer exponent, as fractions in lowest terms: numerator and denominator apart.
-/

namespace StreamParsing.Number

set_option autoImplicit false

/-- The numerator of the power; one for a negative exponent. -/
def powerNum (base : Nat) (exponent : Int) : Nat := Nat.pow base exponent.toNat

/-- The denominator of the power; one for an exponent that is not negative. -/
def powerDen (base : Nat) (exponent : Int) : Nat := Nat.pow base (-exponent).toNat

end StreamParsing.Number
