import StreamParsing.Number.Binary

/-!
Decimal numbers: the shortest one that reads back as a given binary number, and its written forms.
-/

namespace StreamParsing.Number

set_option autoImplicit false

structure Decimal where
  significand : Nat
  exponent : Int
  deriving DecidableEq, Repr

def digitCount (n : Nat) : Nat :=
  if n = 0 then 0 else (Nat.toDigits 10 n).length

namespace Decimal

/-- The `e` with `10 ^ (e - 1) ≤ num / den < 10 ^ e`, for a positive fraction. -/
def magnitude (num den : Nat) : Int :=
  if den ≤ num then digitCount (num / den)
  else 1 - (digitCount ((den + num - 1) / num - 1) : Int)

def unscale (num den : Nat) (e : Int) : Nat × Nat :=
  (num * powerDen 10 e, den * powerNum 10 e)

def trimZeros : Nat → Decimal → Decimal
  | 0, d => d
  | fuel + 1, d =>
    if d.significand % 10 = 0 ∧ d.significand ≠ 0 then
      trimZeros fuel ⟨d.significand / 10, d.exponent + 1⟩
    else d

/-- The numbers that round to one binary number, all over `den`: the number itself, the ends of its interval,
and whether the ends belong to it. -/
structure Interval where
  num : Nat
  low : Nat
  high : Nat
  den : Nat
  closed : Bool

namespace Interval

/-- The interval of `s`, measured in quarters of its last place. -/
def ofScaled (s : BinaryFormat.Scaled) : Interval :=
  let up := powerNum 2 s.exponent
  let m := 4 * s.significand
  ⟨m * up, (m - (if s.narrowBelow then 1 else 2)) * up, (m + 2) * up, 4 * powerDen 2 s.exponent,
    s.significand % 2 == 0⟩

/-- Whether `k` grid steps of width `10 ^ e` lie inside. -/
def holds (i : Interval) (k : Nat) (e : Int) : Bool :=
  let point := k * powerNum 10 e * i.den
  let scale := powerDen 10 e
  if i.closed then i.low * scale ≤ point && point ≤ i.high * scale
  else i.low * scale < point && point < i.high * scale

/-- The grid points of width `10 ^ e` next to the number that read back as it; of two the nearer, and the
upper one of a tie. -/
def onGrid (i : Interval) (e : Int) : Option Nat :=
  let (num, den) := unscale i.num i.den e
  let below := num / den
  match i.holds below e, i.holds (below + 1) e with
  | true, true => some (if 2 * (num % den) < den then below else below + 1)
  | true, false => some below
  | false, true => some (below + 1)
  | false, false => none

def search (i : Interval) (magnitude : Int) : Nat → Nat → Decimal
  | 0, digits =>
    let (num, den) := unscale i.num i.den (magnitude - digits)
    ⟨num / den, magnitude - digits⟩
  | fuel + 1, digits =>
    match i.onGrid (magnitude - digits) with
    | some k => ⟨k, magnitude - digits⟩
    | none => i.search magnitude fuel (digits + 1)

end Interval

/-- The decimal with the fewest digits that reads back as `s`, the nearest of those. Seventeen digits tell any
two numbers of the formats here apart. -/
def shortest (s : BinaryFormat.Scaled) : Decimal :=
  let i := Interval.ofScaled s
  trimZeros 20 (i.search (magnitude i.num i.den) 17 1)

def positional (d : Decimal) : String :=
  let digits := Nat.toDigits 10 d.significand
  if 0 ≤ d.exponent then String.ofList (digits ++ List.replicate d.exponent.toNat '0')
  else
    let places := (-d.exponent).toNat
    let padded := List.replicate (places + 1 - digits.length) '0' ++ digits
    let whole := padded.length - places
    String.ofList (padded.take whole ++ '.' :: padded.drop whole)

def scientific (d : Decimal) : String :=
  match Nat.toDigits 10 d.significand with
  | [] => "0e0"
  | first :: rest =>
    let point := if rest.isEmpty then "" else "." ++ String.ofList rest
    first.toString ++ point ++ "e" ++ toString (d.exponent + rest.length)

end Decimal

structure FloatStyle where
  /-- Write whole numbers with a zero after the point. -/
  keepPoint : Bool
  /-- Write numbers below `1e-4` and from `1e16` on with an exponent. -/
  exponents : Bool
  deriving DecidableEq, Repr

namespace FloatStyle

/-- For readers: never an exponent, whole numbers without a point. -/
def plain : FloatStyle := ⟨false, false⟩

/-- For debugging output: always recognisable as floating point. -/
def exact : FloatStyle := ⟨true, true⟩

def decimal (style : FloatStyle) (d : Decimal) : String :=
  let top := d.exponent + digitCount d.significand
  if style.exponents && (top ≤ -4 || 17 ≤ top) then d.scientific
  else if style.keepPoint && 0 ≤ d.exponent then d.positional ++ ".0"
  else d.positional

def write (style : FloatStyle) (f : BinaryFormat) (negative : Bool) (word : Nat) : String :=
  if f.infinity < word then "NaN"
  else
    let sign := if negative then "-" else ""
    if word = f.infinity then sign ++ "inf"
    else if word = 0 then sign ++ (if style.keepPoint then "0.0" else "0")
    else sign ++ style.decimal (Decimal.shortest (f.scaled word))

def writeSigned (style : FloatStyle) (f : BinaryFormat) (word : Nat) : String :=
  style.write f (decide (f.signWeight ≤ word)) (word % f.signWeight)

end FloatStyle

end StreamParsing.Number
