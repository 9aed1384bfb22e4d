import StreamParsing.Machine.Basic

/-!
Running a parser against a stream: with or without letting the stream go afterwards, or one stage at a time.
-/

namespace StreamParsing

set_option autoImplicit false

universe u

/-- More steps than any run that is worth waiting for. -/
def ampleFuel : Nat := Nat.pow 2 60

namespace Store

variable {σ : Type u} {τ π ρ : Type}

def ofStream (stream : TokenStream σ τ) (rules : Rules τ π ρ) : Store σ τ π ρ := ⟨stream, rules, #[]⟩

def access {α : Type} (store : Store σ τ π ρ) (f : TokenStream σ τ → Option (Access σ τ α)) :
    Option (Store σ τ π ρ × Except ReadError α) :=
  let ⟨stream, rules, log⟩ := store
  (f stream).map fun ⟨stream, result, events⟩ => (⟨stream, rules, log ++ events⟩, result)

/-- Lets the stream's source go, and tells whether there was one. -/
def release [Source σ τ] (store : Store σ τ π ρ) : Store σ τ π ρ × Bool :=
  let ⟨stream, rules, log⟩ := store
  let (stream, was, events) := stream.release
  (⟨stream, rules, log ++ events⟩, was)

def build {α : Type} (store : Store σ τ π ρ) (b : Builder τ π ρ (Parser τ π ρ α)) :
    Parser τ π ρ α × Store σ τ π ρ :=
  let ⟨stream, rules, log⟩ := store
  let (p, rules) := b.run rules
  (p, ⟨stream, rules, log⟩)

/-- How often a delayed rule was built, for this stream or for one below it. -/
def builds [Source σ τ] (store : Store σ τ π ρ) : Nat :=
  store.rules.builds + (Source.tally store.stream.source).builds

end Store

namespace Parser

variable {σ : Type u} {τ π ρ α : Type}
variable [Source σ τ] [Position π τ]

def run (p : Parser τ π ρ α) (fuel : Nat) (store : Store σ τ π ρ) (c : Cursor τ π) :
    Option (Machine.Finish σ τ π ρ α) :=
  Machine.run .counted fuel store (.eval p c .nil)

/-- Runs a parser at `c` and lets the source go, whatever the outcome. Tokens already read stay readable. -/
def parse (p : Parser τ π ρ α) (fuel : Nat) (store : Store σ τ π ρ) (c : Cursor τ π) :
    Option (Machine.Finish σ τ π ρ α) :=
  (p.run fuel store c).map fun ⟨store, result⟩ =>
    ⟨{ store with log := store.log.push .parseOver }.release.1, result⟩

/-- Where to go on after a reply to a parser run at `c`: behind a match, else at `c` again. -/
def rest (c : Cursor τ π) : Reply τ π α → Cursor τ π
  | .success _ next => next
  | _ => c

structure Stage (σ : Type u) (τ π ρ α : Type) : Type (max u 1) where
  store : Store σ τ π ρ
  result : Except ReadError (Reply τ π α × Cursor τ π)

def parseStage (p : Parser τ π ρ α) (fuel : Nat) (store : Store σ τ π ρ) (c : Cursor τ π) :
    Option (Stage σ τ π ρ α) :=
  (p.run fuel store c).map fun ⟨store, result⟩ =>
    ⟨store, result.map fun reply => (reply, rest c reply)⟩

end Parser

def Parser.parseList {τ π ρ α : Type} [Position π τ] (p : Parser τ π ρ α) (fuel : Nat)
    (rules : Rules τ π ρ) (tokens : List τ) : Option (Machine.Finish (NoSource τ) τ π ρ α) :=
  let stream := TokenStream.ofList tokens
  p.parse fuel (.ofStream stream rules) stream.start

end StreamParsing
