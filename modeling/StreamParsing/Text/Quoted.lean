import StreamParsing.Text.Extending
import StreamParsing.Text.Unprintable

/-!
Escaped characters and quoted texts, as they stand in messages and in debugging output.
-/

namespace StreamParsing.Text

set_option autoImplicit false

structure QuoteStyle where
  single : Bool
  double : Bool

def codeEscape (c : Char) : String :=
  "\\u\x7b" ++ String.ofList (Nat.toDigits 16 c.toNat) ++ "\x7d"

/-- Control characters with a letter of their own get it, guarded quotes and the backslash get a backslash,
and what cannot be seen alone is written by its code point. -/
def escapeChar (style : QuoteStyle) (c : Char) : String :=
  if c == '\x00' then "\\0"
  else if c == '\t' then "\\t"
  else if c == '\r' then "\\r"
  else if c == '\n' then "\\n"
  else if c == '\\' then "\\\\"
  else if c == '\x27' then if style.single then "\\'" else "'"
  else if c == '"' then if style.double then "\\\"" else "\""
  else if isExtending c || isUnprintable c then codeEscape c
  else c.toString

/-- A text in double quotes; single quotes stay as they are. -/
def quoted (s : String) : String :=
  "\"" ++ s.foldl (fun out c => out ++ escapeChar ⟨false, true⟩ c) "" ++ "\""

/-- A character in single quotes; double quotes stay as they are. -/
def quotedChar (c : Char) : String :=
  "'" ++ escapeChar ⟨true, false⟩ c ++ "'"

end StreamParsing.Text
