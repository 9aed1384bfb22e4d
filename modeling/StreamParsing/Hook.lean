import StreamParsing.Reply

/-!
Hooks reshape the reply of a parser, given the place where the parser began. Those of this module look ahead,
turn failures into aborts and back, and set messages; only `recover` changes an abort.
-/

namespace StreamParsing

set_option autoImplicit false

abbrev Hook (τ π α β : Type) := Cursor τ π → Reply τ π α → Reply τ π β

namespace Hook

variable {τ π α : Type}

/-- Takes a match back to the start. -/
def lookAhead : Hook τ π α α
  | start, .success value _ => .success value start
  | _, reply => reply

/-- Exchanges match and failure, both at the start. -/
def not : Hook τ π α Unit
  | start, .success _ _ => .failure (.unexpected start)
  | start, .failure _ => .success () start
  | _, .abort fault => .abort fault

/-- Refuses, at the start, a value that does not pass the test. -/
def guarded (test : α → Bool) : Hook τ π α α
  | start, .success value c => if test value then .success value c else .failure (.unexpected start)
  | _, reply => reply

def label (message : String) : Hook τ π α α
  | _, .failure fault => .failure (fault.withMessage message)
  | _, reply => reply

def required : Hook τ π α α
  | _, .failure fault => .abort fault
  | _, reply => reply

/-- Turns a failure into an abort once something was consumed. -/
def commit : Hook τ π α α
  | start, .failure fault => if fault.cursor.same start then .failure fault else .abort fault
  | _, reply => reply

/-- Turns an abort back into a failure. -/
def recover : Hook τ π α α
  | _, .abort fault => .failure fault
  | _, reply => reply

def noProgressMessage : String := "parser succeeded without consuming input"

/-- Refuses a match that consumed nothing. -/
def consuming : Hook τ π α α
  | start, .success value c =>
    if c.same start then .failure (.ofMessage noProgressMessage c) else .success value c
  | _, reply => reply

end Hook

end StreamParsing
