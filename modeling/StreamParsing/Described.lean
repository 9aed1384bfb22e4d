import StreamParsing.Number.Word
import StreamParsing.Text.Quoted

/-!
The two written forms of tokens and positions.
-/

namespace StreamParsing

set_option autoImplicit false

/-- `describe` is the form used in messages, `inspect` the one used in debugging output. -/
class Described (α : Type) where
  describe : α → String
  inspect : α → String

export Described (describe inspect)

instance : Described Char where
  describe := Text.escapeChar ⟨true, true⟩
  inspect := Text.quotedChar

/-- Two hexadecimal digits, in capitals. -/
def hexByte (b : UInt8) : String :=
  let digits := (Nat.toDigits 16 b.toNat).map Char.toUpper
  String.ofList (List.replicate (2 - digits.length) '0' ++ digits)

/-- Bytes that print are named by their character, the others by their code. -/
def describeByte (b : UInt8) : String :=
  if 0x20 ≤ b ∧ b ≤ 0x7E then (Char.ofNat b.toNat).toString else "0x" ++ hexByte b

instance : Described UInt8 where
  describe := describeByte
  inspect b := toString b.toNat

instance : Described String where
  describe s := s
  inspect := Text.quoted

instance : Described Bool where
  describe b := if b then "true" else "false"
  inspect b := if b then "true" else "false"

def decimalInt (n : Int) : String :=
  if n < 0 then "-" ++ toString n.natAbs else toString n.natAbs

instance : Described Int where
  describe := decimalInt
  inspect := decimalInt

instance : Described Float where
  describe := Number.writeFloat .plain
  inspect := Number.writeFloat .exact

instance : Described Float32 where
  describe := Number.writeFloat32 .plain
  inspect := Number.writeFloat32 .exact

end StreamParsing
