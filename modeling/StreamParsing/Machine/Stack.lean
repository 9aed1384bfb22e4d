import StreamParsing.Parser.Rules

/-!
Pending work of a run: what is to be done with the reply that is being computed. This module also says which
rules are held by the parsers in the pending work.
-/

namespace StreamParsing

set_option autoImplicit false

structure Loop (τ π ρ α β : Type) : Type 1 where
  seed : Parser τ π ρ β
  item : Parser τ π ρ α
  step : β → α → β
  bounds : Bounds

/-- A loop with an end of its own that is running. -/
structure LoopTill (τ π ρ α β γ : Type) : Type 1 extends Loop τ π ρ α β where
  stop : Parser τ π ρ γ

/-- How far a loop is: the value so far, the number of items in it, and the place where the next is tried. -/
structure Round (τ π β : Type) where
  acc : β
  count : Nat
  before : Cursor τ π

/-- One pending piece of work, from a reply with a value of type `α` to one with a value of type `β`. -/
inductive Frame (τ π ρ : Type) : Type → Type → Type 1 where
  | tryMap {α β : Type} (f : α → Except Cause β) (start : Cursor τ π) : Frame τ π ρ α β
  | tryBind {α β γ : Type} (check : α → Except Cause β) (next : β → Parser τ π ρ γ)
      (start : Cursor τ π) : Frame τ π ρ α γ
  | zipLeft {α β γ : Type} (f : α → β → γ) (q : Parser τ π ρ β) : Frame τ π ρ α γ
  | zipRight {α β γ : Type} (f : α → β → γ) (first : α) : Frame τ π ρ β γ
  | orElse {α : Type} (q : Parser τ π ρ α) (start : Cursor τ π) : Frame τ π ρ α α
  | reshape {α β : Type} (hook : Hook τ π α β) (start : Cursor τ π) : Frame τ π ρ α β
  /-- The first value of a loop is being computed. -/
  | seed {α β : Type} (loop : Loop τ π ρ α β) : Frame τ π ρ β β
  | item {α β : Type} (loop : Loop τ π ρ α β) (round : Round τ π β) : Frame τ π ρ α β
  | seedTill {α β γ : Type} (loop : LoopTill τ π ρ α β γ) : Frame τ π ρ β β
  /-- The end of a loop is being tried. -/
  | stopTill {α β γ : Type} (loop : LoopTill τ π ρ α β γ) (round : Round τ π β) : Frame τ π ρ γ β
  | itemTill {α β γ : Type} (loop : LoopTill τ π ρ α β γ) (round : Round τ π β) : Frame τ π ρ α β

/-- Pending work, innermost first, that ends in a reply with a value of type `ω`. -/
inductive Stack (τ π ρ : Type) : Type → Type → Type 1 where
  | nil {ω : Type} : Stack τ π ρ ω ω
  | cons {α β ω : Type} (frame : Frame τ π ρ α β) (rest : Stack τ π ρ β ω) : Stack τ π ρ α ω

variable {τ π ρ α β γ ω : Type}

namespace Stack

def depth {α ω : Type} : Stack τ π ρ α ω → Nat
  | nil => 0
  | cons _ rest => rest.depth + 1

end Stack

namespace Parser

/-- The rules that a parser holds through its parts. Those that its callbacks capture cannot be seen here; a machine
has its own way to know of them. -/
def holds {α : Type} : Parser τ π ρ α → List Nat
  | tryMap p _ => p.holds
  | tryBind p _ _ => p.holds
  | zipWith _ p q => p.holds ++ q.holds
  | orElse p q => p.holds ++ q.holds
  | reshape p _ => p.holds
  | loop seed item _ _ => seed.holds ++ item.holds
  | loopTill seed item stop _ _ => seed.holds ++ item.holds ++ stop.holds
  | rule number => [number]
  | _ => []

end Parser

def Loop.holds (l : Loop τ π ρ α β) : List Nat := l.seed.holds ++ l.item.holds

def LoopTill.holds (l : LoopTill τ π ρ α β γ) : List Nat := l.toLoop.holds ++ l.stop.holds

namespace Frame

/-- The rules that a piece of work holds through its parsers, those it may still run or has run. -/
def holds : Frame τ π ρ α β → List Nat
  | zipLeft _ q => q.holds
  | orElse q _ => q.holds
  | seed loop => loop.holds
  | item loop _ => loop.holds
  | seedTill loop => loop.holds
  | stopTill loop _ => loop.holds
  | itemTill loop _ => loop.holds
  | _ => []

end Frame

namespace Stack

def holds {α ω : Type} : Stack τ π ρ α ω → List Nat
  | nil => []
  | cons frame rest => frame.holds ++ rest.holds

end Stack

namespace Rules

def heldBy (r : Rules τ π ρ) (number : Nat) : List Nat :=
  match r.entries[number]? with
  | some ⟨.defined parser, _⟩ => parser.holds
  | _ => []

/-- The given rules and those they hold, directly or through at most `fuel` others. -/
def reach (r : Rules τ π ρ) : Nat → List Nat → List Nat
  | 0, numbers => numbers
  | fuel + 1, numbers => r.reach fuel (numbers ++ numbers.flatMap r.heldBy).eraseDups

/-- Whether a rule is one of those in `held`, or is held by one of them. -/
def isHeld (r : Rules τ π ρ) (held : List Nat) (number : Nat) : Bool :=
  (r.reach r.entries.size held).contains number

end Rules

end StreamParsing
