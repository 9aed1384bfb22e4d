import StreamParsing.Parser.Combinators

/-!
Parsers with reshaped replies: looking ahead, turning failures into aborts and back, and messages.
-/

namespace StreamParsing.Parser

set_option autoImplicit false

variable {τ π ρ α : Type}

def lookAhead (p : Parser τ π ρ α) : Parser τ π ρ α := p.reshape Hook.lookAhead

/-- Succeeds, without consuming, exactly where `p` fails. -/
def not (p : Parser τ π ρ α) : Parser τ π ρ Unit := p.reshape Hook.not

def guarded (p : Parser τ π ρ α) (test : α → Bool) : Parser τ π ρ α := p.reshape (Hook.guarded test)

def label (p : Parser τ π ρ α) (message : String) : Parser τ π ρ α := p.reshape (Hook.label message)

def required (p : Parser τ π ρ α) : Parser τ π ρ α := p.reshape Hook.required

/-- Turns a failure into an abort once something was consumed. -/
def commit (p : Parser τ π ρ α) : Parser τ π ρ α := p.reshape Hook.commit

def recover (p : Parser τ π ρ α) : Parser τ π ρ α := p.reshape Hook.recover

/-- Fails where `p` succeeds without consuming. -/
def consuming (p : Parser τ π ρ α) : Parser τ π ρ α := p.reshape Hook.consuming

end StreamParsing.Parser
