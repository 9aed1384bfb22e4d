import StreamParsing.Proofs.Fuel

/-!
What one step can do. A parser is entered by running one of its parts under a frame, by going on with a rule, by an
answer, or by a read; a frame goes on with a reply by an answer or by a parser that it keeps. Which parsers come next
and at which cursors is said here once for all invariants of a run; the values of replies are left open.
-/

namespace StreamParsing

set_option autoImplicit false

universe u

variable {σ : Type u} {τ π ρ α β γ δ ω : Type}

def Parser.Parts (good : {γ : Type} → Parser τ π ρ γ → Prop) : Parser τ π ρ α → Prop
  | .tryMap p _ => good p
  | .tryBind p _ next => good p ∧ ∀ b, good (next b)
  | .zipWith _ p q => good p ∧ good q
  | .orElse p q => good p ∧ good q
  | .reshape p _ => good p
  | .loop seed item _ _ => good seed ∧ good item
  | .loopTill seed item stop _ _ => (good seed ∧ good item) ∧ good stop
  | _ => True

/-- A parser that is done in one step of its own. -/
def Parser.IsLeaf : Parser τ π ρ α → Prop
  | .pure _ => True
  | .peek _ => True
  | .satisfy _ => True
  | .endOfInput => True
  | .fail _ => True
  | .abort _ => True
  | _ => False

def Loop.Every (good : {γ : Type} → Parser τ π ρ γ → Prop) (loop : Loop τ π ρ α β) : Prop :=
  good loop.seed ∧ good loop.item

def LoopTill.Every (good : {γ : Type} → Parser τ π ρ γ → Prop) (loop : LoopTill τ π ρ α β γ) : Prop :=
  loop.toLoop.Every good ∧ good loop.stop

namespace Frame

def Every (good : {γ : Type} → Parser τ π ρ γ → Prop) : Frame τ π ρ α β → Prop
  | tryBind _ next _ => ∀ b, good (next b)
  | zipLeft _ q => good q
  | orElse q _ => good q
  | seed loop => loop.Every good
  | item loop _ => loop.Every good
  | seedTill loop => loop.Every good
  | stopTill loop _ => loop.Every good
  | itemTill loop _ => loop.Every good
  | _ => True

def marks : Frame τ π ρ α β → List (Cursor τ π)
  | tryMap _ start => [start]
  | tryBind _ _ start => [start]
  | orElse _ start => [start]
  | reshape _ start => [start]
  | item _ round => [round.before]
  | stopTill _ round => [round.before]
  | itemTill _ round => [round.before]
  | _ => []

/-- With a reply at hand a frame knows the reply's cursor and those it may go back to. -/
def Recalls (frame : Frame τ π ρ α β) (reply : Reply τ π α) (c : Cursor τ π) : Prop :=
  c = reply.cursor ∨ c ∈ frame.marks

end Frame

namespace Machine

/-- How a frame goes on with a reply. Only a hook may answer with a cursor of its own choice. -/
inductive Resumed (frame : Frame τ π ρ α β) (reply : Reply τ π α) (k : Stack τ π ρ β ω) :
    Control τ π ρ ω → Prop where
  | back {answer : Reply τ π β} (hc : frame.Recalls reply answer.cursor) : Resumed frame reply k (.back answer k)
  | hook {hook : Hook τ π α β} {start : Cursor τ π} (hf : frame = .reshape hook start) :
      Resumed frame reply k (.back (hook start reply) k)
  | eval {q : Parser τ π ρ β} {c : Cursor τ π} (hc : frame.Recalls reply c)
      (hq : ∀ good : {γ : Type} → Parser τ π ρ γ → Prop, frame.Every good → good q) :
      Resumed frame reply k (.eval q c k)
  | push {γ : Type} {q : Parser τ π ρ γ} {c : Cursor τ π} {next : Frame τ π ρ γ β} (hc : frame.Recalls reply c)
      (hm : ∀ d ∈ next.marks, frame.Recalls reply d)
      (hq : ∀ good : {γ : Type} → Parser τ π ρ γ → Prop, frame.Every good → good q ∧ next.Every good) :
      Resumed frame reply k (.eval q c (.cons next k))

section

variable {frame : Frame τ π ρ δ β} {reply : Reply τ π δ} {c : Cursor τ π} {k : Stack τ π ρ β ω}

theorem resumed_nextRound {loop : Loop τ π ρ α β} {acc : β} {count : Nat} (hc : frame.Recalls reply c)
    (hl : ∀ good : {γ : Type} → Parser τ π ρ γ → Prop, frame.Every good → loop.Every good) :
    Resumed frame reply k (nextRound loop acc count c k) := by
  unfold nextRound
  split
  · exact .back hc
  · exact .push hc (by simpa [Frame.marks] using hc) fun good h => ⟨(hl good h).2, hl good h⟩

theorem resumed_nextRoundTill {loop : LoopTill τ π ρ α β γ} {acc : β} {count : Nat} (hc : frame.Recalls reply c)
    (hl : ∀ good : {γ : Type} → Parser τ π ρ γ → Prop, frame.Every good → loop.Every good) :
    Resumed frame reply k (nextRoundTill loop acc count c k) := by
  unfold nextRoundTill
  split
  · exact .back hc
  · exact .push hc (by simpa [Frame.marks] using hc) fun good h => ⟨(hl good h).2, hl good h⟩

end

variable [Position π τ] {store : Store σ τ π ρ}

/-- Pending work always goes on: it neither ends the run nor reads, and it makes no rules. -/
theorem exists_resumed (frame : Frame τ π ρ α β) (reply : Reply τ π α) (k : Stack τ π ρ β ω) :
    ∃ log control, resume store frame reply k = .next { store with log := log } control ∧
      Resumed frame reply k control := by
  have here {answer : Reply τ π β} (h : answer.cursor = reply.cursor) : Resumed frame reply k (.back answer k) :=
    .back (.inl h)
  cases frame with
  | tryMap f start =>
    cases reply with
    | success value c =>
      simp only [resume]
      split
      · exact ⟨_, _, rfl, here rfl⟩
      · exact ⟨_, _, rfl, .back (.inr (List.mem_singleton_self _))⟩
    | failure fault | abort fault => exact ⟨_, _, rfl, here rfl⟩
  | tryBind check next start =>
    cases reply with
    | success value c =>
      simp only [resume]
      split
      · exact ⟨_, _, rfl, .eval (.inl rfl) fun good h => h _⟩
      · exact ⟨_, _, rfl, .back (.inr (List.mem_singleton_self _))⟩
    | failure fault | abort fault => exact ⟨_, _, rfl, here rfl⟩
  | zipLeft f q =>
    cases reply with
    | success value c => exact ⟨_, _, rfl, .push (.inl rfl) (by simp [Frame.marks]) fun good h => ⟨h, trivial⟩⟩
    | failure fault | abort fault => exact ⟨_, _, rfl, here rfl⟩
  | zipRight f first => exact ⟨_, _, rfl, here (by cases reply <;> rfl)⟩
  | orElse q start =>
    cases reply with
    | failure fault => exact ⟨_, _, rfl, .eval (.inr (List.mem_singleton_self _)) fun good h => h⟩
    | success value c | abort fault => exact ⟨_, _, rfl, here rfl⟩
  | reshape hook start => exact ⟨_, _, rfl, .hook rfl⟩
  | seed loop =>
    cases reply with
    | success acc c => exact ⟨_, _, rfl, resumed_nextRound (.inl rfl) fun good h => h⟩
    | failure fault | abort fault => exact ⟨_, _, rfl, here rfl⟩
  | item loop round =>
    cases reply with
    | success value c =>
      simp only [resume]
      split
      · exact ⟨_, _, rfl, here rfl⟩
      · exact ⟨_, _, rfl, resumed_nextRound (.inl rfl) fun good h => h⟩
    | failure fault =>
      simp only [resume]
      split
      · exact ⟨_, _, rfl, here rfl⟩
      · exact ⟨_, _, rfl, .back (.inr (List.mem_singleton_self _))⟩
    | abort fault => exact ⟨_, _, rfl, here rfl⟩
  | seedTill loop =>
    cases reply with
    | success acc c => exact ⟨_, _, rfl, resumed_nextRoundTill (.inl rfl) fun good h => h⟩
    | failure fault | abort fault => exact ⟨_, _, rfl, here rfl⟩
  | stopTill loop round =>
    cases reply with
    | failure fault =>
      refine ⟨_, _, rfl, .push (.inr (List.mem_singleton_self _)) ?_ fun good h => ⟨h.1.2, h⟩⟩
      exact fun d hd => .inr hd
    | success value c | abort fault => exact ⟨_, _, rfl, here rfl⟩
  | itemTill loop round =>
    cases reply with
    | success value c =>
      simp only [resume]
      split
      · exact ⟨_, _, rfl, here rfl⟩
      · exact ⟨_, _, rfl, resumed_nextRoundTill (.inl rfl) fun good h => h⟩
    | failure fault | abort fault => exact ⟨_, _, rfl, here rfl⟩

variable [Source σ τ]

/-- How a parser is entered. Tokens are read by `satisfy` only, and rules made by delays and drafts only. -/
inductive Entered (upkeep : Upkeep τ π ρ ω) (fuel : Nat) (store : Store σ τ π ρ) (c : Cursor τ π) :
    {α : Type} → Parser τ π ρ α → Stack τ π ρ α ω → Progress σ τ π ρ ω → Prop where
  | back {α : Type} {p : Parser τ π ρ α} {k : Stack τ π ρ α ω} {answer : Reply τ π α} {log : Array Event}
      (hc : answer.cursor = c) : Entered upkeep fuel store c p k (.next { store with log := log } (.back answer k))
  | push {α γ : Type} {p : Parser τ π ρ α} {k : Stack τ π ρ α ω} {q : Parser τ π ρ γ} {frame : Frame τ π ρ γ α}
      (hm : ∀ d ∈ frame.marks, d = c)
      (hq : ∀ good : {γ : Type} → Parser τ π ρ γ → Prop, p.Parts good → good q ∧ frame.Every good) :
      Entered upkeep fuel store c p k (.next store (.eval q c (.cons frame k)))
  | rule {number : Nat} {k : Stack τ π ρ ρ ω} {q : Parser τ π ρ ρ} {rules : Rules τ π ρ}
      (hf : store.rules.force number = some (q, rules)) :
      Entered upkeep fuel store c (.rule number) k (.next { store with rules := rules } (.eval q c k))
  | handle {number : Nat} {k : Stack τ π ρ ρ ω} {q : Parser τ π ρ ρ} {rules : Rules τ π ρ}
      (ha : upkeep store.rules k number = true)
      (hf : store.rules.force number = some (q, rules)) :
      Entered upkeep fuel store c (.handle number) k (.next { store with rules := rules } (.eval q c k))
  | draft {α : Type} {parser : Nat → Parser τ π ρ α} {new : Nat → List (Rule τ π ρ)} {k : Stack τ π ρ α ω} :
      Entered upkeep fuel store c (.draft parser new) k
        (.next { store with rules := store.rules.append (new store.rules.entries.size) false }
          (.eval (parser store.rules.entries.size) c k))
  | taken {test : τ → Bool} {t : τ} {k : Stack τ π ρ τ ω} {store' : Store σ τ π ρ} {next : Cursor τ π}
      (hc : c.current.filter test = some t) (ha : store.access (·.advance fuel c) = some (store', .ok next)) :
      Entered upkeep fuel store c (.satisfy test) k (.next store' (.back (.success t next) k))
  | broken {test : τ → Bool} {t : τ} {k : Stack τ π ρ τ ω} {store' : Store σ τ π ρ} {e : ReadError}
      (hc : c.current.filter test = some t) (ha : store.access (·.advance fuel c) = some (store', .error e)) :
      Entered upkeep fuel store c (.satisfy test) k (.broken store' e)
  | starved {test : τ → Bool} {t : τ} {k : Stack τ π ρ τ ω}
      (hc : c.current.filter test = some t) (ha : store.access (·.advance fuel c) = none) :
      Entered upkeep fuel store c (.satisfy test) k .starved

theorem entered (upkeep : Upkeep τ π ρ ω) (fuel : Nat) (store : Store σ τ π ρ) (c : Cursor τ π) (p : Parser τ π ρ α)
    (k : Stack τ π ρ α ω) : Entered upkeep fuel store c p k (evaluate upkeep fuel store c p k) := by
  cases p with
  | pure value | peek read | abort message => exact .back rfl
  | satisfy test =>
    change Entered upkeep fuel store c (.satisfy test) k (step upkeep fuel store (.eval (.satisfy test) c k))
    cases hc : c.current.filter test with
    | none =>
      rw [step_satisfy_refused hc]
      exact .back rfl
    | some t =>
      rw [step_satisfy_taken hc]
      rcases ha : store.access (·.advance fuel c) with _ | ⟨store', e | next⟩
      · exact .starved hc ha
      · exact .broken hc ha
      · exact .taken hc ha
  | endOfInput =>
    simp only [evaluate]
    split <;> exact .back rfl
  | fail message => cases message <;> exact .back rfl
  | tryMap p f => exact .push (by simp [Frame.marks]) fun good h => ⟨h, trivial⟩
  | tryBind p check next => exact .push (by simp [Frame.marks]) fun good h => h
  | zipWith f p q => exact .push (by simp [Frame.marks]) fun good h => h
  | orElse p q => exact .push (by simp [Frame.marks]) fun good h => h
  | reshape p hook => exact .push (by simp [Frame.marks]) fun good h => ⟨h, trivial⟩
  | loop seed item f bounds => exact .push (by simp [Frame.marks]) fun good h => ⟨h.1, h⟩
  | loopTill seed item stop f bounds => exact .push (by simp [Frame.marks]) fun good h => ⟨h.1.1, h⟩
  | rule number =>
    simp only [evaluate]
    split
    · exact .rule ‹_›
    · exact .back rfl
  | handle number =>
    simp only [evaluate]
    cases ha : upkeep store.rules k number with
    | false => exact .back rfl
    | true =>
      cases hf : store.rules.force number with
      | none => exact .back rfl
      | some found => exact .handle ha hf
  | draft parser new => exact .draft

variable {upkeep : Upkeep τ π ρ ω}

theorem back_of_leaf {fuel : Nat} {store' : Store σ τ π ρ} {c : Cursor τ π} {p : Parser τ π ρ α} {k : Stack τ π ρ α ω}
    {control : Control τ π ρ ω} (hp : p.IsLeaf) (h : step upkeep fuel store (.eval p c k) = .next store' control) :
    ∃ reply, control = .back reply k := by
  have hentered := entered upkeep fuel store c p k
  rw [← step, h] at hentered
  cases hentered with
  | back | taken => exact ⟨_, rfl⟩
  | rule | handle | draft => exact hp.elim
  | push _ hq =>
    have hparts : p.Parts (fun _ => False) := by
      cases p with
      | pure | peek | satisfy | endOfInput | fail | abort => trivial
      | _ => exact hp.elim
    exact (hq _ hparts).1.elim

/-- Only a reply with nothing pending is the end. -/
theorem control_of_done {fuel : Nat} {store' : Store σ τ π ρ} {control : Control τ π ρ ω} {reply : Reply τ π ω}
    (h : step upkeep fuel store control = .done store' reply) : control = .back reply .nil ∧ store' = store := by
  cases control with
  | eval p c k =>
    have hentered := entered upkeep fuel store c p k
    rw [← step, h] at hentered
    cases hentered
  | back answer k =>
    cases k with
    | nil =>
      cases h
      exact ⟨rfl, rfl⟩
    | cons frame k =>
      obtain ⟨log, between, heq, -⟩ := exists_resumed frame answer k
      rw [step, heq] at h
      cases h

end Machine

end StreamParsing
