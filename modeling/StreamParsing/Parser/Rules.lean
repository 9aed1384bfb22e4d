import StreamParsing.Parser.Basic

/-!
The table of rules that a parser is run with, and builders, which make parsers together with their rules.
-/

namespace StreamParsing

set_option autoImplicit false

universe u v

variable {τ π ρ : Type}

/-- A rule in the table. A retained rule is held by the caller for good; any other lives only as long as a
pending part of the run holds it. -/
structure RuleEntry (τ π ρ : Type) : Type 1 where
  rule : Rule τ π ρ
  retained : Bool

/-- The rules made so far, and how often a delayed one was built. -/
structure Rules (τ π ρ : Type) : Type 1 where
  entries : Array (RuleEntry τ π ρ)
  builds : Nat

namespace Rules

def empty : Rules τ π ρ := ⟨#[], 0⟩

def append (r : Rules τ π ρ) (rules : List (Rule τ π ρ)) (retained : Bool) : Rules τ π ρ :=
  { r with entries := r.entries ++ (rules.map fun rule => ⟨rule, retained⟩).toArray }

def isRetained (r : Rules τ π ρ) (number : Nat) : Bool :=
  match r.entries[number]? with
  | some entry => entry.retained
  | none => false

/-- The parser of a rule. A delayed rule is built the first time, and the rules that come with it are held as
long as it is. -/
def force (r : Rules τ π ρ) (number : Nat) : Option (Parser τ π ρ ρ × Rules τ π ρ) :=
  match r.entries[number]? with
  | some ⟨.defined parser, _⟩ => some (parser, r)
  | some ⟨.delayed parser rules, retained⟩ =>
    let first := r.entries.size
    let built : Rules τ π ρ :=
      ⟨r.entries.setIfInBounds number ⟨.defined (parser first), retained⟩, r.builds + 1⟩
    some (parser first, built.append (rules first) retained)
  | some ⟨.dropped, _⟩ => none
  | none => none

end Rules

/-- Makes a value together with the rules it needs: given the number of the first new rule and the rules made
before, gives the value and the rules made by then. -/
def Builder (τ π ρ : Type) (α : Type v) : Type (max 1 v) :=
  Nat → Array (Rule τ π ρ) → α × Array (Rule τ π ρ)

namespace Builder

variable {α β : Type 1}

protected def pure (a : α) : Builder τ π ρ α := fun _ made => (a, made)

protected def bind (b : Builder τ π ρ α) (f : α → Builder τ π ρ β) : Builder τ π ρ β :=
  fun first made =>
    let (a, made) := b first made
    f a first made

instance : Monad (Builder τ π ρ : Type 1 → Type 1) where
  pure := Builder.pure
  bind := Builder.bind

/-- A recursive rule: `body` gets a handle to the rule it defines. -/
def fix (body : Parser τ π ρ ρ → Builder τ π ρ (Parser τ π ρ ρ)) : Builder τ π ρ (Parser τ π ρ ρ) :=
  fun first made =>
    let index := made.size
    let (parser, made) := body (.handle (first + index)) first (made.push .dropped)
    (.rule (first + index), made.setIfInBounds index (.defined parser))

/-- A handle whose definition is already gone. -/
def orphan : Builder τ π ρ (Parser τ π ρ ρ) :=
  fun first made => (.handle (first + made.size), made.push .dropped)

def delay (build : Builder τ π ρ (Parser τ π ρ ρ)) : Builder τ π ρ (Parser τ π ρ ρ) :=
  fun first made =>
    (.rule (first + made.size),
      made.push (.delayed (fun n => (build n #[]).1) (fun n => (build n #[]).2.toList)))

/-- Adds the rules made to a table whose caller retains them. -/
def run {α : Type v} (b : Builder τ π ρ α) (r : Rules τ π ρ) : α × Rules τ π ρ :=
  let (a, made) := b r.entries.size #[]
  (a, r.append made.toList true)

end Builder

/-- Builds the parser anew each time it runs, and holds its rules no longer than the run itself does. -/
def Parser.drafted {α : Type} (build : Builder τ π ρ (Parser τ π ρ α)) : Parser τ π ρ α :=
  .draft (fun n => (build n #[]).1) (fun n => (build n #[]).2.toList)

end StreamParsing
