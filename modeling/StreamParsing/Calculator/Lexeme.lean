import StreamParsing.Described
import StreamParsing.Parser.Shaping
import StreamParsing.Parser.Text

/-!
The calculator's lexemes, and the lexer that reads one of them with the blanks around it.
-/

namespace StreamParsing.Calculator

set_option autoImplicit false

inductive Lexeme where
  | number (value : Float)
  | plus
  | minus
  | times
  | slash
  | caret
  | opening
  | closing

namespace Lexeme

/-- Whether two tokens are alike, numbers by their value. -/
def beq : Lexeme → Lexeme → Bool
  | number x, number y => x == y
  | plus, plus => true
  | minus, minus => true
  | times, times => true
  | slash, slash => true
  | caret, caret => true
  | opening, opening => true
  | closing, closing => true
  | _, _ => false

instance : BEq Lexeme := ⟨beq⟩

def text : Lexeme → String
  | number value => describe value
  | plus => "+"
  | minus => "-"
  | times => "*"
  | slash => "/"
  | caret => "^"
  | opening => "("
  | closing => ")"

instance : Described Lexeme where
  describe := text
  inspect := text

def number? : Lexeme → Option Float
  | number value => some value
  | _ => none

end Lexeme

open StreamParsing.Parser

variable {ρ : Type}

/-- The token of an operator or parenthesis. -/
def symbol (c : Char) : Lexeme :=
  if c = '+' then .plus
  else if c = '-' then .minus
  else if c = '*' then .times
  else if c = '/' then .slash
  else if c = '^' then .caret
  else if c = '(' then .opening
  else .closing

/-- One token with the blanks around it. A number begins with a digit, so that signs stay operators. -/
def lexer : Parser Char TextPosition ρ Lexeme :=
  let number := (digit.lookAhead.keepRight (float .double)).map Lexeme.number
  let operator := (oneOfText "+-*/^()").map symbol
  (spaces.keepRight (number.orElse operator)).keepLeft spaces

end StreamParsing.Calculator
