import StreamParsing.Position
import StreamParsing.ReadError

/-!
What streams, parsers and tokenizers report while they work.
-/

namespace StreamParsing

set_option autoImplicit false

inductive Event where
  /-- Chunk number `index` was read. -/
  | chunkRead (index tokens : Nat)
  /-- The source had nothing left after `chunks` chunks. -/
  | exhausted (chunks : Nat)
  | readFailed (error : ReadError)
  /-- The source was let go on request. -/
  | released (chunks : Nat)
  /-- A parse is over and lets its input go. -/
  | parseOver
  /-- A repetition stopped because its item consumed nothing. -/
  | stalled (place : Place)
  /-- The lexer met the end of its input. -/
  | lexedAll (place : Place)
  /-- A handle was used whose definition is gone. -/
  | dangling (place : Place)
  deriving DecidableEq, Repr

inductive Level where
  | trace
  | debug
  | warn
  deriving DecidableEq, Repr

def Level.name : Level → String
  | trace => "TRACE"
  | debug => "DEBUG"
  | warn => "WARN"

/-- The message for a handle whose definition is gone. -/
def danglingMessage : String := "recursive parser used after its definition was dropped"

namespace Event

def level : Event → Level
  | chunkRead .. => .trace
  | dangling _ => .warn
  | _ => .debug

def message : Event → String
  | chunkRead index tokens =>
    "read chunk " ++ toString index ++ " (" ++ toString tokens ++ " tokens)"
  | exhausted chunks => "source exhausted after " ++ toString chunks ++ " chunks; released"
  | readFailed error => "source read failed, released: " ++ error.message
  | released chunks => "released source after " ++ toString chunks ++ " chunks"
  | parseOver => "releasing input after parse"
  | stalled place => "repetition stopped at " ++ describe place ++ ": item consumed nothing"
  | lexedAll place => "tokenizer reached end of input at " ++ describe place
  | dangling place => danglingMessage ++ " at " ++ describe place

/-- The event as a line of a log. -/
def line (e : Event) : String := e.level.name ++ " " ++ e.message

end Event

end StreamParsing
