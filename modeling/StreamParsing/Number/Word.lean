import StreamParsing.Number.Decimal
import StreamParsing.Number.Literal

/-!
Machine floating-point numbers through their words: written forms, and the numbers that texts denote.
-/

namespace StreamParsing.Number

set_option autoImplicit false

def writeFloat (style : FloatStyle) (x : Float) : String := style.writeSigned .double x.toBits.toNat

def writeFloat32 (style : FloatStyle) (x : Float32) : String := style.writeSigned .single x.toBits.toNat

namespace Literal

def toFloat (l : Literal) : Float := Float.ofBits (UInt64.ofNat (l.signedWord .double))

def toFloat32 (l : Literal) : Float32 := Float32.ofBits (UInt32.ofNat (l.signedWord .single))

end Literal

inductive Numeral where
  | nan
  | infinity (negative : Bool)
  | finite (literal : Literal)
  deriving DecidableEq, Repr

namespace Numeral

/-- Reads a literal, or one of the names of infinity and of what is no number, in letters of any case. -/
def ofChars (text : List Char) : Except LiteralFault Numeral :=
  let (negative, body) := splitSign (text.map Char.toLower)
  if body = ['n', 'a', 'n'] then .ok .nan
  else if body = ['i', 'n', 'f'] ∨ body = ['i', 'n', 'f', 'i', 'n', 'i', 't', 'y'] then
    .ok (.infinity negative)
  else (Literal.ofChars text).map .finite

def toFloat : Numeral → Float
  | nan => 0.0 / 0.0
  | infinity negative => if negative then -1.0 / 0.0 else 1.0 / 0.0
  | finite literal => literal.toFloat

def toFloat32 : Numeral → Float32
  | nan => 0.0 / 0.0
  | infinity negative => if negative then -1.0 / 0.0 else 1.0 / 0.0
  | finite literal => literal.toFloat32

end Numeral

end StreamParsing.Number
