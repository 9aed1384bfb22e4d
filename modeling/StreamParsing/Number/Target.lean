import StreamParsing.Cause
import StreamParsing.Number.Word

/-!
Kinds of numbers that a matched text can be converted to, and the error of a text that is none of the wanted
kind.
-/

namespace StreamParsing.Number

set_option autoImplicit false

/-- A text that matched as a number but is none of the wanted kind. -/
structure ConversionError where
  text : String
  target : String
  reason : String
  deriving DecidableEq, Repr

def ConversionError.cause (e : ConversionError) : Cause :=
  ⟨"'" ++ e.text ++ "' is not a valid " ++ e.target, [e.reason]⟩

structure Target (α : Type) where
  name : String
  read : List Char → Except String α

namespace Target

def integer (t : IntegerType) : Target Int where
  name := t.name
  read text := (t.read text).mapError IntegerFault.message

def double : Target Float where
  name := "f64"
  read text := ((Numeral.ofChars text).map Numeral.toFloat).mapError LiteralFault.message

def single : Target Float32 where
  name := "f32"
  read text := ((Numeral.ofChars text).map Numeral.toFloat32).mapError LiteralFault.message

/-- Converts a text; the error quotes it. -/
def convert {α : Type} (t : Target α) (text : String) : Except Cause α :=
  (t.read text.toList).mapError fun reason => ConversionError.cause ⟨text, t.name, reason⟩

end Target

end StreamParsing.Number
