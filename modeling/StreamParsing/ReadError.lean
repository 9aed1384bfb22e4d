/-!
Why reading from a token source fails.
-/

namespace StreamParsing

set_option autoImplicit false

inductive ReadError where
  /-- The device behind the source reported `reason`. -/
  | device (reason : String)
  /-- The bytes at `offset` are no sequence of the encoding. -/
  | malformed (encoding : String) (offset : Nat)
  /-- The source was let go before the wanted tokens were read. -/
  | released
  /-- A lexer could not produce the next token. -/
  | unlexable (reason : String)
  deriving DecidableEq, Repr

namespace ReadError

def message : ReadError → String
  | device reason => "failed to read from source: " ++ reason
  | malformed encoding offset =>
    "invalid " ++ encoding ++ " sequence at byte offset " ++ toString offset
  | released => "the underlying source has already been released"
  | unlexable reason => "tokenizer stopped: " ++ reason

end ReadError

end StreamParsing
