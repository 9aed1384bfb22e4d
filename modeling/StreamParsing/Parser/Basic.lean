import StreamParsing.Hook

/-!
Parsers as descriptions. A parser is a finite tree whose leaves inspect or consume a token; running one is the
machine's work. Recursive and delayed parsers stand in a table of rules and are named by their number.
-/

namespace StreamParsing

set_option autoImplicit false

/-- How often a loop runs: at least `min` times, and at most `max` times if that is given. -/
structure Bounds where
  min : Nat
  max : Option Nat
  deriving DecidableEq, Repr

namespace Bounds

def exactly (n : Nat) : Bounds := ⟨n, some n⟩

def atLeast (n : Nat) : Bounds := ⟨n, none⟩

def reached (b : Bounds) (count : Nat) : Bool :=
  match b.max with
  | some max => decide (max ≤ count)
  | none => false

/-- Whether a round that consumed nothing ends the loop after `count` rounds: it would go on for ever. -/
def stallsAt (b : Bounds) (count : Nat) : Bool := b.max.isNone && decide (b.min ≤ count)

end Bounds

mutual

/-- Parsers of tokens `τ` at positions `π` that yield values of the type given as index. The rules they name
all yield values of type `ρ`. -/
inductive Parser (τ π ρ : Type) : Type → Type 1 where
  | pure {α : Type} (value : α) : Parser τ π ρ α
  | peek {α : Type} (read : Cursor τ π → α) : Parser τ π ρ α
  | satisfy (test : τ → Bool) : Parser τ π ρ τ
  | endOfInput : Parser τ π ρ Unit
  | fail {α : Type} (message : Option String) : Parser τ π ρ α
  | abort {α : Type} (message : String) : Parser τ π ρ α
  /-- An error of `f` is a failure at the place where `p` began. -/
  | tryMap {α β : Type} (p : Parser τ π ρ α) (f : α → Except Cause β) : Parser τ π ρ β
  /-- Runs the parser that `next` gives for the checked value; an error of `check` is a failure at the place
  where `p` began. -/
  | tryBind {α β γ : Type} (p : Parser τ π ρ α) (check : α → Except Cause β)
      (next : β → Parser τ π ρ γ) : Parser τ π ρ γ
  | zipWith {α β γ : Type} (f : α → β → γ) (p : Parser τ π ρ α) (q : Parser τ π ρ β) :
      Parser τ π ρ γ
  /-- Tries `q` from the same place if `p` fails. -/
  | orElse {α : Type} (p q : Parser τ π ρ α) : Parser τ π ρ α
  /-- Reshapes the reply of `p`, given the place where it began. -/
  | reshape {α β : Type} (p : Parser τ π ρ α) (hook : Hook τ π α β) : Parser τ π ρ β
  /-- Runs `seed`, then `item` again and again, adding each value to the first. -/
  | loop {α β : Type} (seed : Parser τ π ρ β) (item : Parser τ π ρ α) (step : β → α → β)
      (bounds : Bounds) : Parser τ π ρ β
  /-- Like `loop`, ending where `stop` matches, which is tried before each item. -/
  | loopTill {α β γ : Type} (seed : Parser τ π ρ β) (item : Parser τ π ρ α)
      (stop : Parser τ π ρ γ) (step : β → α → β) (bounds : Bounds) : Parser τ π ρ β
  /-- A rule, held by whoever holds this parser. -/
  | rule (number : Nat) : Parser τ π ρ ρ
  /-- A handle to a rule, which does not keep the rule alive. -/
  | handle (number : Nat) : Parser τ π ρ ρ
  /-- Makes new rules each time it runs, numbered from the given number on, and runs the parser that came with
  them. -/
  | draft {α : Type} (parser : Nat → Parser τ π ρ α) (rules : Nat → List (Rule τ π ρ)) :
      Parser τ π ρ α

inductive Rule (τ π ρ : Type) : Type 1 where
  | defined (parser : Parser τ π ρ ρ)
  /-- A parser to be made when the rule is first entered, with further rules numbered from the given number
  on. -/
  | delayed (parser : Nat → Parser τ π ρ ρ) (rules : Nat → List (Rule τ π ρ))
  /-- A definition that is gone. -/
  | dropped

end

end StreamParsing
