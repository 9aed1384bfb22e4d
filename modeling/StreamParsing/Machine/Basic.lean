import StreamParsing.Machine.Stack

/-!
The machine that runs parsers. It keeps pending work on a stack of its own, so neither long inputs nor deep
parsers need more than the stack's length; the only step that can fail is reading the next chunk.
-/

namespace StreamParsing

set_option autoImplicit false

universe u

/-- What a run works on: the stream, the rules, and the reports so far. -/
structure Store (σ : Type u) (τ π ρ : Type) : Type (max u 1) where
  stream : TokenStream σ τ
  rules : Rules τ π ρ
  log : Array Event

namespace Machine

/-- Where a run stands: about to run a parser, or back with a reply. -/
inductive Control (τ π ρ ω : Type) : Type 1 where
  | eval {α : Type} (parser : Parser τ π ρ α) (cursor : Cursor τ π) (stack : Stack τ π ρ α ω)
  | back {α : Type} (reply : Reply τ π α) (stack : Stack τ π ρ α ω)

inductive Progress (σ : Type u) (τ π ρ ω : Type) : Type (max u 1) where
  | next (store : Store σ τ π ρ) (control : Control τ π ρ ω)
  | done (store : Store σ τ π ρ) (reply : Reply τ π ω)
  | broken (store : Store σ τ π ρ) (error : ReadError)
  /-- A read took too many steps. -/
  | starved

structure Finish (σ : Type u) (τ π ρ ω : Type) : Type (max u 1) where
  store : Store σ τ π ρ
  result : Except ReadError (Reply τ π ω)

variable {σ : Type u} {τ π ρ α β γ ω : Type}

/-- How a machine knows whether the definition behind a handle is still there, given the rules and the pending work:
someone holds it, if only in what a callback captured. -/
abbrev Upkeep (τ π ρ ω : Type) := Rules τ π ρ → Stack τ π ρ ρ ω → Nat → Bool

/-- Counts the caller and the parsers in the pending work, and no callbacks. -/
def Upkeep.counted : Upkeep τ π ρ ω := fun rules k number => rules.isRetained number || rules.isHeld k.holds number

/-- The next round of a loop at `c`, or its end if it has run often enough. -/
def nextRound (loop : Loop τ π ρ α β) (acc : β) (count : Nat) (c : Cursor τ π)
    (k : Stack τ π ρ β ω) : Control τ π ρ ω :=
  if loop.bounds.reached count then .back (.success acc c) k
  else .eval loop.item c (.cons (.item loop ⟨acc, count, c⟩) k)

/-- The next round of a loop that first tries its end. -/
def nextRoundTill (loop : LoopTill τ π ρ α β γ) (acc : β) (count : Nat) (c : Cursor τ π)
    (k : Stack τ π ρ β ω) : Control τ π ρ ω :=
  if loop.bounds.reached count then .back (.success acc c) k
  else .eval loop.stop c (.cons (.stopTill loop ⟨acc, count, c⟩) k)

/-- The message for a loop that can neither end nor consume anything. -/
def stalledMessage : String := "repetition item succeeded without consuming input"

def unboundMessage : String := "recursive parser used before its definition was bound"

/-- What becomes of a reply in a piece of pending work. Aborts pass through all but `reshape`. -/
def resume [Position π τ] (store : Store σ τ π ρ) :
    {α β : Type} → Frame τ π ρ α β → Reply τ π α → Stack τ π ρ β ω → Progress σ τ π ρ ω
  | _, _, .tryMap f start, reply, k =>
    match reply with
    | .success value c =>
      match f value with
      | .ok value => .next store (.back (.success value c) k)
      | .error cause => .next store (.back (.failure (.ofCause cause start)) k)
    | .failure fault => .next store (.back (.failure fault) k)
    | .abort fault => .next store (.back (.abort fault) k)
  | _, _, .tryBind check next start, reply, k =>
    match reply with
    | .success value c =>
      match check value with
      | .ok value => .next store (.eval (next value) c k)
      | .error cause => .next store (.back (.failure (.ofCause cause start)) k)
    | .failure fault => .next store (.back (.failure fault) k)
    | .abort fault => .next store (.back (.abort fault) k)
  | _, _, .zipLeft f q, reply, k =>
    match reply with
    | .success value c => .next store (.eval q c (.cons (.zipRight f value) k))
    | .failure fault => .next store (.back (.failure fault) k)
    | .abort fault => .next store (.back (.abort fault) k)
  | _, _, .zipRight f first, reply, k => .next store (.back (reply.map (f first)) k)
  | _, _, .orElse q start, reply, k =>
    match reply with
    | .failure _ => .next store (.eval q start k)
    | reply => .next store (.back reply k)
  | _, _, .reshape hook start, reply, k => .next store (.back (hook start reply) k)
  | _, _, .seed loop, reply, k =>
    match reply with
    | .success acc c => .next store (nextRound loop acc 0 c k)
    | reply => .next store (.back reply k)
  | _, _, .item loop ⟨acc, count, before⟩, reply, k =>
    match reply with
    | .success value c =>
      let acc := loop.step acc value
      if c.same before && loop.bounds.stallsAt (count + 1) then
        .next { store with log := store.log.push (.stalled (Position.place τ c.position)) }
          (.back (.success acc c) k)
      else .next store (nextRound loop acc (count + 1) c k)
    | .failure fault =>
      if count < loop.bounds.min then .next store (.back (.failure fault) k)
      else .next store (.back (.success acc before) k)
    | .abort fault => .next store (.back (.abort fault) k)
  | _, _, .seedTill loop, reply, k =>
    match reply with
    | .success acc c => .next store (nextRoundTill loop acc 0 c k)
    | reply => .next store (.back reply k)
  | _, _, .stopTill loop ⟨acc, count, before⟩, reply, k =>
    match reply with
    | .success _ c => .next store (.back (.success acc c) k)
    | .failure _ => .next store (.eval loop.item before (.cons (.itemTill loop ⟨acc, count, before⟩) k))
    | .abort fault => .next store (.back (.abort fault) k)
  | _, _, .itemTill loop ⟨acc, count, before⟩, reply, k =>
    match reply with
    | .success value c =>
      if c.same before && loop.bounds.stallsAt (count + 1) then
        .next store (.back (.failure (.ofMessage stalledMessage c)) k)
      else .next store (nextRoundTill loop (loop.step acc value) (count + 1) c k)
    | .failure fault => .next store (.back (.failure fault) k)
    | .abort fault => .next store (.back (.abort fault) k)

def evaluate [Source σ τ] [Position π τ] (upkeep : Upkeep τ π ρ ω) (fuel : Nat) (store : Store σ τ π ρ)
    (c : Cursor τ π) : {α : Type} → Parser τ π ρ α → Stack τ π ρ α ω → Progress σ τ π ρ ω
  | _, .pure value, k => .next store (.back (.success value c) k)
  | _, .peek read, k => .next store (.back (.success (read c) c) k)
  | _, .satisfy test, k =>
    match c.current with
    | none => .next store (.back (.failure (.unexpected c)) k)
    | some t =>
      if test t then
        let ⟨stream, rules, log⟩ := store
        match stream.advance fuel c with
        | none => .starved
        | some ⟨stream, .ok next, events⟩ =>
          .next ⟨stream, rules, log ++ events⟩ (.back (.success t next) k)
        | some ⟨stream, .error e, events⟩ => .broken ⟨stream, rules, log ++ events⟩ e
      else .next store (.back (.failure (.unexpected c)) k)
  | _, .endOfInput, k =>
    if c.hasToken then .next store (.back (.failure (.unexpected c)) k)
    else .next store (.back (.success () c) k)
  | _, .fail message, k =>
    match message with
    | some message => .next store (.back (.failure (.ofMessage message c)) k)
    | none => .next store (.back (.failure (.unexpected c)) k)
  | _, .abort message, k => .next store (.back (.abort (.ofMessage message c)) k)
  | _, .tryMap p f, k => .next store (.eval p c (.cons (.tryMap f c) k))
  | _, .tryBind p check next, k => .next store (.eval p c (.cons (.tryBind check next c) k))
  | _, .zipWith f p q, k => .next store (.eval p c (.cons (.zipLeft f q) k))
  | _, .orElse p q, k => .next store (.eval p c (.cons (.orElse q c) k))
  | _, .reshape p hook, k => .next store (.eval p c (.cons (.reshape hook c) k))
  | _, .loop seed item step bounds, k =>
    .next store (.eval seed c (.cons (.seed ⟨seed, item, step, bounds⟩) k))
  | _, .loopTill seed item stop step bounds, k =>
    .next store (.eval seed c (.cons (.seedTill ⟨⟨seed, item, step, bounds⟩, stop⟩) k))
  | _, .rule number, k =>
    let ⟨stream, rules, log⟩ := store
    match rules.force number with
    | some (p, rules) => .next ⟨stream, rules, log⟩ (.eval p c k)
    | none => .next ⟨stream, rules, log⟩ (.back (.abort (.ofMessage unboundMessage c)) k)
  | _, .handle number, k =>
    let ⟨stream, rules, log⟩ := store
    match if upkeep rules k number then rules.force number else none with
    | some (p, rules) => .next ⟨stream, rules, log⟩ (.eval p c k)
    | none =>
      .next ⟨stream, rules, log.push (.dangling (Position.place τ c.position))⟩
        (.back (.abort (.ofMessage danglingMessage c)) k)
  | _, .draft parser new, k =>
    let ⟨stream, rules, log⟩ := store
    let first := rules.entries.size
    .next ⟨stream, rules.append (new first) false, log⟩ (.eval (parser first) c k)

variable [Source σ τ] [Position π τ] (upkeep : Upkeep τ π ρ ω)

/-- One step. A read may take up to `fuel` steps of its own. -/
def step (fuel : Nat) (store : Store σ τ π ρ) : Control τ π ρ ω → Progress σ τ π ρ ω
  | .eval parser cursor stack => evaluate upkeep fuel store cursor parser stack
  | .back reply .nil => .done store reply
  | .back reply (.cons frame stack) => resume store frame reply stack

/-- Steps until the run ends, at most `fuel` of them. -/
def run (fuel : Nat) (store : Store σ τ π ρ) (control : Control τ π ρ ω) :
    Option (Finish σ τ π ρ ω) :=
  match fuel with
  | 0 => none
  | fuel + 1 =>
    match step upkeep fuel store control with
    | .next store control => run fuel store control
    | .done store reply => some ⟨store, .ok reply⟩
    | .broken store error => some ⟨store, .error error⟩
    | .starved => none

end Machine

end StreamParsing
