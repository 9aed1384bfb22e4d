import StreamParsing.Number.Target
import StreamParsing.Parser.Repetition
import StreamParsing.Text.Alphanumeric
import StreamParsing.Text.Blank

/-!
Parsers of characters and bytes: character classes, literals and numbers.
-/

namespace StreamParsing.Parser

set_option autoImplicit false

open Number (Target)

variable {π ρ α : Type}

def character (c : Char) : Parser Char π ρ Char := token c

/-- The characters of `text` in turn; a mismatch is reported where it is. -/
def string (text : String) : Parser Char π ρ String :=
  (sequence (text.toList.map character)).as text

def bytes (data : List UInt8) : Parser UInt8 π ρ (Array UInt8) := sequence (data.map token)

def digit : Parser Char π ρ Char := satisfy Number.isDigit

def letter : Parser Char π ρ Char := satisfy Text.isAlphabetic

def alphanumeric : Parser Char π ρ Char := satisfy Text.isAlphanumeric

def whitespace : Parser Char π ρ Char := satisfy Text.isBlank

/-- A line end, alone or after a carriage return. -/
def newline : Parser Char π ρ Char :=
  (character '\n').orElse ((character '\r').keepRight (character '\n'))

def spaces : Parser Char π ρ Unit := whitespace.skipMany

def spaces1 : Parser Char π ρ Unit := whitespace.skipMany1

def oneOfText (set : String) : Parser Char π ρ Char := satisfy set.toList.contains

def noneOfText (set : String) : Parser Char π ρ Char := satisfy fun c => !set.toList.contains c

def asText (p : Parser Char π ρ (Array Char)) : Parser Char π ρ String :=
  p.map fun cs => String.ofList cs.toList

def sign : Parser Char π ρ String := ((oneOfText "+-").map Char.toString).withDefault ""

def digits : Parser Char π ρ String := digit.many1.asText

def signedDigits : Parser Char π ρ String := zipWith (· ++ ·) sign digits

def fraction : Parser Char π ρ String := ((character '.').keepRight digits).map ("." ++ ·)

/-- The text of an exponent, its mark in lower case. -/
def exponent : Parser Char π ρ String :=
  zipWith (fun sign digits => "e" ++ sign ++ digits) ((oneOfText "eE").keepRight sign) digits

def integer (t : Target α) : Parser Char π ρ α := signedDigits.tryMap t.convert

/-- A decimal number with an optional fraction and exponent, converted to the wanted kind. -/
def float (t : Target α) : Parser Char π ρ α :=
  let mantissa : Parser Char π ρ String := zipWith (· ++ ·) signedDigits (fraction.withDefault "")
  (zipWith (· ++ ·) mantissa (exponent.withDefault "")).tryMap t.convert

end StreamParsing.Parser
