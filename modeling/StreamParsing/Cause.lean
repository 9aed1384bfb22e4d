/-!
Errors that callbacks raise. A cause keeps the messages of all errors behind it, so that a failure can still
be traced to them.
-/

namespace StreamParsing

set_option autoImplicit false

/-- The error that a callback raised: its message, and the messages of the errors behind it. -/
structure Cause where
  message : String
  behind : List String
  deriving DecidableEq, Repr

namespace Cause

def ofMessage (message : String) : Cause := ⟨message, []⟩

/-- All messages, the outermost first. -/
def messages (c : Cause) : List String := c.message :: c.behind

end Cause

end StreamParsing
