import StreamParsing.Parser.Basic

/-!
Single tokens, transformed values, sequences and choices.
-/

namespace StreamParsing.Parser

set_option autoImplicit false

variable {τ π ρ α β γ : Type}

def any : Parser τ π ρ τ := satisfy fun _ => true

def token [BEq τ] (t : τ) : Parser τ π ρ τ := satisfy (· == t)

def oneOf [BEq τ] (set : List τ) : Parser τ π ρ τ := satisfy set.contains

def noneOf [BEq τ] (set : List τ) : Parser τ π ρ τ := satisfy fun t => !set.contains t

/-- Fails at whatever token is there. -/
def never : Parser τ π ρ α := fail none

def failWith (message : String) : Parser τ π ρ α := fail (some message)

def position : Parser τ π ρ π := peek Cursor.position

def here : Parser τ π ρ (Cursor τ π) := peek id

def map (f : α → β) (p : Parser τ π ρ α) : Parser τ π ρ β := p.tryMap fun a => .ok (f a)

def as (p : Parser τ π ρ α) (value : β) : Parser τ π ρ β := p.map fun _ => value

def andThen (p : Parser τ π ρ α) (next : α → Parser τ π ρ β) : Parser τ π ρ β :=
  p.tryBind Except.ok next

def both (p : Parser τ π ρ α) (q : Parser τ π ρ β) : Parser τ π ρ (α × β) :=
  zipWith Prod.mk p q

def keepRight (p : Parser τ π ρ α) (q : Parser τ π ρ β) : Parser τ π ρ β :=
  zipWith (fun _ b => b) p q

def keepLeft (p : Parser τ π ρ α) (q : Parser τ π ρ β) : Parser τ π ρ α :=
  zipWith (fun a _ => a) p q

def between (opening : Parser τ π ρ α) (p : Parser τ π ρ β) (closing : Parser τ π ρ γ) :
    Parser τ π ρ β :=
  (opening.keepRight p).keepLeft closing

/-- Yields `none`, and consumes nothing, where `p` fails. -/
def optional (p : Parser τ π ρ α) : Parser τ π ρ (Option α) := (p.map some).orElse (pure none)

/-- Yields `value`, and consumes nothing, where `p` fails. -/
def withDefault (p : Parser τ π ρ α) (value : α) : Parser τ π ρ α := p.orElse (pure value)

/-- The first of the parsers that does not fail; none of them fails like `never`. -/
def choice : List (Parser τ π ρ α) → Parser τ π ρ α
  | [] => never
  | [p] => p
  | p :: rest => p.orElse (choice rest)

def sequence (ps : List (Parser τ π ρ α)) : Parser τ π ρ (Array α) :=
  ps.foldl (zipWith Array.push) (pure #[])

/-- Pairs the value with the position where `p` began. -/
def located (p : Parser τ π ρ α) : Parser τ π ρ (π × α) := position.both p

end StreamParsing.Parser
