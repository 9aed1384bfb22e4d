import StreamParsing.Event

/-!
Token sources: what a stream reads its chunks from. This module holds the interface, sources without tokens
and sources over a sequence of items or of prepared chunks.
-/

namespace StreamParsing

set_option autoImplicit false

universe u

/-- What a call for tokens leaves behind. The buffer is kept also when the call fails. -/
structure Fill (σ : Type u) (τ : Type) where
  source : σ
  buffer : Array τ
  result : Except ReadError Unit
  events : Array Event

/-- How much a source was used: tokens or bytes handed out by the innermost source, calls answered by it, and
delayed rules built on the way. -/
structure Tally where
  pulled : Nat
  calls : Nat
  builds : Nat
  deriving DecidableEq, Repr

class Source (σ : Type u) (τ : outParam Type) where
  /-- Appends the next tokens to the buffer, about `max` of them; appending none says that there are no more.
  Gives `none` only if the work on a token takes more than `fuel` steps. -/
  fill (fuel : Nat) (source : σ) (buffer : Array τ) (max : Nat) : Option (Fill σ τ)
  /-- Lets go of what the source itself reads from. -/
  close : σ → σ × Array Event
  /-- Whether the streams that the source reads from still have their sources, outermost first. -/
  below : σ → List Bool
  tally : σ → Tally

/-- The source of a stream whose tokens are all there from the start. -/
structure NoSource (τ : Type) where

instance {τ : Type} : Source (NoSource τ) τ where
  fill _ source buffer _ := some ⟨source, buffer, .ok (), #[]⟩
  close source := (source, #[])
  below _ := []
  tally _ := ⟨0, 0, 0⟩

/-- A sequence of items handed out one at a time. An entry `none` is a moment at which the sequence answers
that nothing is left, whatever stands behind it. -/
structure Items (τ : Type) where
  rest : List (Option τ)
  pulled : Nat

namespace Items

variable {τ : Type}

def ofList (items : List τ) : Items τ := ⟨items.map some, 0⟩

/-- Takes up to `max` items. Once the sequence answered that nothing is left, it is not asked again. -/
def take : Nat → Items τ → Array τ → Items τ × Array τ
  | 0, items, buffer => (items, buffer)
  | max + 1, items, buffer =>
    match items.rest with
    | some t :: rest => take max ⟨rest, items.pulled + 1⟩ (buffer.push t)
    | _ => (⟨[], items.pulled⟩, buffer)

end Items

instance {τ : Type} : Source (Items τ) τ where
  fill _ source buffer max :=
    let (source, buffer) := source.take max buffer
    some ⟨source, buffer, .ok (), #[]⟩
  close source := (source, #[])
  below _ := []
  tally source := ⟨source.pulled, 0, 0⟩

/-- One prepared answer of a source: tokens, and the error that follows them, if any. -/
structure Batch (τ : Type) where
  tokens : Array τ
  error : Option ReadError

/-- Prepared answers given in turn, whatever amount is asked for. -/
structure Batches (τ : Type) where
  rest : List (Batch τ)
  pulled : Nat
  calls : Nat

namespace Batches

variable {τ : Type}

def ofList (batches : List (Batch τ)) : Batches τ := ⟨batches, 0, 0⟩

def next (b : Batches τ) (buffer : Array τ) : Fill (Batches τ) τ :=
  match b.rest with
  | [] => ⟨{ b with calls := b.calls + 1 }, buffer, .ok (), #[]⟩
  | batch :: rest =>
    let result := match batch.error with
      | some e => .error e
      | none => .ok ()
    ⟨⟨rest, b.pulled + batch.tokens.size, b.calls + 1⟩, buffer ++ batch.tokens, result, #[]⟩

end Batches

instance {τ : Type} : Source (Batches τ) τ where
  fill _ source buffer _ := some (source.next buffer)
  close source := (source, #[])
  below _ := []
  tally source := ⟨source.pulled, source.calls, 0⟩

end StreamParsing
