import StreamParsing.Cause
import StreamParsing.Stream.Basic

/-!
Outcomes of running a parser at a place of a stream, and their written forms.
-/

namespace StreamParsing

set_option autoImplicit false

/-- What went wrong and where. Without a message of its own a fault speaks of the token it stands at. -/
structure Fault (τ π : Type) where
  custom : Option String
  cause : Option Cause
  cursor : Cursor τ π

/-- The three outcomes of a run. A failure lets an enclosing alternative try its other branch, an abort does
not. -/
inductive Reply (τ π α : Type) where
  | success (value : α) (cursor : Cursor τ π)
  | failure (fault : Fault τ π)
  | abort (fault : Fault τ π)

variable {τ π α β : Type}

namespace Fault

/-- A fault at a token that does not fit. -/
def unexpected (c : Cursor τ π) : Fault τ π := ⟨none, none, c⟩

def ofMessage (message : String) (c : Cursor τ π) : Fault τ π := ⟨some message, none, c⟩

def ofCause (cause : Cause) (c : Cursor τ π) : Fault τ π := ⟨some cause.message, some cause, c⟩

def message [Described τ] (f : Fault τ π) : String :=
  match f.custom with
  | some message => message
  | none =>
    match f.cursor.current with
    | some t => "Unexpected '" ++ describe t ++ "'"
    | none => "Unexpected '<EndOfStream>'"

def location [Described π] (f : Fault τ π) : String := describe f.cursor.position

def withMessage (f : Fault τ π) (message : String) : Fault τ π := { f with custom := some message }

def withCursor (f : Fault τ π) (c : Cursor τ π) : Fault τ π := { f with cursor := c }

/-- Faults of one stream that agree in message, place and cause. -/
def same (f g : Fault τ π) : Bool :=
  f.custom == g.custom && f.cursor.same g.cursor &&
    f.cause.map Cause.message == g.cause.map Cause.message

def inspect [Described τ] [Described π] (f : Fault τ π) : String :=
  let cause := match f.cause with
    | some cause => "Some(" ++ Text.quoted cause.message ++ ")"
    | none => "None"
  "Fault \x7b message: " ++ Text.quoted f.message ++ ", position: " ++
    StreamParsing.inspect f.cursor.position ++ ", cause: " ++ cause ++ " \x7d"

end Fault

inductive FaultKind where
  | failure
  | abort
  deriving DecidableEq, Repr

def FaultKind.name : FaultKind → String
  | failure => "Failure"
  | abort => "Abort"

/-- A fault apart from the stream it arose in. -/
structure ParseError where
  kind : FaultKind
  location : String
  message : String
  cause : Option Cause
  deriving DecidableEq, Repr

def ParseError.describe (e : ParseError) : String :=
  e.kind.name ++ " (" ++ e.location ++ "): " ++ e.message

def Fault.toError [Described τ] [Described π] (f : Fault τ π) (kind : FaultKind) : ParseError :=
  ⟨kind, f.location, f.message, f.cause⟩

namespace Reply

/-- The place after a success, or the place of the fault. -/
def cursor : Reply τ π α → Cursor τ π
  | success _ c => c
  | failure f => f.cursor
  | abort f => f.cursor

def fault? : Reply τ π α → Option (FaultKind × Fault τ π)
  | success _ _ => none
  | failure f => some (.failure, f)
  | abort f => some (.abort, f)

def map (f : α → β) : Reply τ π α → Reply τ π β
  | success value c => success (f value) c
  | failure fault => failure fault
  | abort fault => abort fault

/-- The value, or the error that takes its place. -/
def toExcept [Described τ] [Described π] : Reply τ π α → Except ParseError α
  | success value _ => .ok value
  | failure fault => .error (fault.toError .failure)
  | abort fault => .error (fault.toError .abort)

/-- Replies over one stream that agree in kind, in value or fault, and in place. -/
def same [BEq α] : Reply τ π α → Reply τ π α → Bool
  | success a c, success b d => a == b && c.same d
  | failure f, failure g => f.same g
  | abort f, abort g => f.same g
  | _, _ => false

def describe [Described τ] [Described π] (showValue : α → String) : Reply τ π α → String
  | success value c => "Success (" ++ StreamParsing.describe c.position ++ "): " ++ showValue value
  | failure fault => (fault.toError .failure).describe
  | abort fault => (fault.toError .abort).describe

def inspect [Described τ] [Described π] (showValue : α → String) : Reply τ π α → String
  | success value c =>
    "Success \x7b value: " ++ showValue value ++ ", position: " ++
      StreamParsing.inspect c.position ++ " \x7d"
  | failure fault => "Failure(" ++ fault.inspect ++ ")"
  | abort fault => "Abort(" ++ fault.inspect ++ ")"

end Reply

end StreamParsing
