import StreamParsing.Proofs.Evaluation
import StreamParsing.Proofs.Machine.Path

/-!
The steps of the machine in the words of the direct reading: where it stands when it begins a job, what it makes
of each parser, and what each frame makes of a reply.
-/

namespace StreamParsing

set_option autoImplicit false

universe u

/-- Where the machine stands when it begins a job over `k`. -/
def Job.control {τ π ρ α ω : Type} (job : Job τ π ρ α) (k : Stack τ π ρ α ω) : Machine.Control τ π ρ ω :=
  match job with
  | .run p c => .eval p c k
  | .rounds loop acc count c => Machine.nextRound loop acc count c k
  | .roundsTill loop acc count c => Machine.nextRoundTill loop acc count c k

namespace Machine

variable {σ : Type u} {τ π ρ α β γ δ ω : Type} [Source σ τ] [Position π τ]

/-- Every definition is there. -/
def Upkeep.lasting : Upkeep τ π ρ ω := fun _ _ _ => true

/-- Each handle to a definition that a run from here on meets is alive for the machine exactly if `alive` says
so. -/
def Agrees (alive : Liveness τ π ρ) (upkeep : Upkeep τ π ρ ω) (store : Store σ τ π ρ) (control : Control τ π ρ ω) :
    Prop :=
  ∀ (store' : Store σ τ π ρ) (number : Nat) (c : Cursor τ π) (k : Stack τ π ρ ρ ω),
    Path upkeep store control store' (.eval (.handle number) c k) → store'.rules.force number ≠ none →
      alive store'.rules k.holds number = upkeep store'.rules k number

/-- The definitions of all handles that a run from here on meets are still there. -/
def StaysAlive (upkeep : Upkeep τ π ρ ω) (store : Store σ τ π ρ) (control : Control τ π ρ ω) : Prop :=
  Agrees .lasting upkeep store control

theorem agrees_counted (store : Store σ τ π ρ) (control : Control τ π ρ ω) :
    Agrees .counted .counted store control := fun _ _ _ _ _ _ => rfl

theorem staysAlive_lasting (store : Store σ τ π ρ) (control : Control τ π ρ ω) :
    StaysAlive .lasting store control := fun _ _ _ _ _ _ => rfl

variable {alive : Liveness τ π ρ} {upkeep : Upkeep τ π ρ ω} {store mid store' : Store σ τ π ρ}
variable {control between : Control τ π ρ ω}

theorem Agrees.of_path (h : Agrees alive upkeep store control) (hp : Path upkeep store control mid between) :
    Agrees alive upkeep mid between := fun _ _ _ _ hp' => h _ _ _ _ (hp.trans hp')

theorem Agrees.of_moves (h : Agrees alive upkeep store control) (hm : Moves upkeep store control mid between) :
    Agrees alive upkeep mid between := h.of_path (.cons hm (.refl _ _))

section Steps

variable {k : Stack τ π ρ β ω} {c c' : Cursor τ π}

theorem moves_fail (message : Option String) :
    Moves upkeep store (.eval (.fail message) c k) store (.back (.failure (.given message c)) k) := by
  cases message <;> exact ⟨0, rfl⟩

theorem moves_endOfInput {k : Stack τ π ρ Unit ω} :
    Moves upkeep store (.eval .endOfInput c k) store
      (.back (if c.hasToken then .failure (.unexpected c) else .success () c) k) := by
  refine ⟨0, ?_⟩
  simp only [step, evaluate]
  split <;> rfl

theorem moves_taken {k : Stack τ π ρ τ ω} {test : τ → Bool} {t : τ} {fuel : Nat}
    (hc : c.current.filter test = some t) (ha : store.access (·.advance fuel c) = some (store', .ok c')) :
    Moves upkeep store (.eval (.satisfy test) c k) store' (.back (.success t c') k) :=
  ⟨fuel, by rw [step_satisfy_taken hc, ha]⟩

theorem breaks_unread {k : Stack τ π ρ τ ω} {test : τ → Bool} {t : τ} {fuel : Nat} {e : ReadError}
    (hc : c.current.filter test = some t) (ha : store.access (·.advance fuel c) = some (store', .error e)) :
    Breaks upkeep store (.eval (.satisfy test) c k) store' e :=
  ⟨fuel, by rw [step_satisfy_taken hc, ha]⟩

theorem moves_rule {k : Stack τ π ρ ρ ω} {number : Nat} {p : Parser τ π ρ ρ} {rules : Rules τ π ρ}
    (hf : store.rules.force number = some (p, rules)) :
    Moves upkeep store (.eval (.rule number) c k) { store with rules } (.eval p c k) :=
  ⟨0, by simp [step, evaluate, hf]⟩

theorem moves_unbound {k : Stack τ π ρ ρ ω} {number : Nat} (hf : store.rules.force number = none) :
    Moves upkeep store (.eval (.rule number) c k) store (.back (.abort (.ofMessage unboundMessage c)) k) :=
  ⟨0, by simp [step, evaluate, hf]⟩

theorem moves_handle {k : Stack τ π ρ ρ ω} {number : Nat} {p : Parser τ π ρ ρ} {rules : Rules τ π ρ}
    (ha : upkeep store.rules k number = true)
    (hf : store.rules.force number = some (p, rules)) :
    Moves upkeep store (.eval (.handle number) c k) { store with rules } (.eval p c k) := by
  refine ⟨0, ?_⟩
  simp [step, evaluate, ha, hf]

theorem moves_dangling {k : Stack τ π ρ ρ ω} {number : Nat}
    (h : upkeep store.rules k number = false ∨ store.rules.force number = none) :
    Moves upkeep store (.eval (.handle number) c k)
      { store with log := store.log.push (.dangling (Position.place τ c.position)) }
      (.back (.abort (.ofMessage danglingMessage c)) k) := by
  refine ⟨0, ?_⟩
  rcases h with ha | hf
  · simp [step, evaluate, ha]
  · simp [step, evaluate, hf]

theorem moves_convert {f : α → Except Cause β} (reply : Reply τ π α) :
    Moves upkeep store (.back reply (.cons (.tryMap f c) k)) store (.back (reply.convert f c) k) := by
  refine ⟨0, ?_⟩
  cases reply with
  | success value after =>
    cases hf : f value <;> simp only [step, resume, Reply.convert, hf]
  | failure fault => rfl
  | abort fault => rfl

theorem moves_checked {check : α → Except Cause γ} {next : γ → Parser τ π ρ β} {value : α} {checked : γ}
    (h : check value = .ok checked) :
    Moves upkeep store (.back (.success value c') (.cons (.tryBind check next c) k)) store
      (.eval (next checked) c' k) :=
  ⟨0, by simp [step, resume, h]⟩

theorem moves_refused {check : α → Except Cause γ} {next : γ → Parser τ π ρ β} {value : α} {cause : Cause}
    (h : check value = .error cause) :
    Moves upkeep store (.back (.success value c') (.cons (.tryBind check next c) k)) store
      (.back (.failure (.ofCause cause c)) k) :=
  ⟨0, by simp [step, resume, h]⟩

theorem moves_stalled {loop : Loop τ π ρ α β} {acc : β} {count : Nat} {value : α}
    (h : (c'.same c && loop.bounds.stallsAt (count + 1)) = true) :
    Moves upkeep store (.back (.success value c') (.cons (.item loop ⟨acc, count, c⟩) k))
      { store with log := store.log.push (.stalled (Position.place τ c'.position)) }
      (.back (.success (loop.step acc value) c') k) :=
  ⟨0, by simp only [step, resume, h, if_true]⟩

theorem moves_item {loop : Loop τ π ρ α β} {acc : β} {count : Nat} {value : α}
    (h : (c'.same c && loop.bounds.stallsAt (count + 1)) = false) :
    Moves upkeep store (.back (.success value c') (.cons (.item loop ⟨acc, count, c⟩) k)) store
      (nextRound loop (loop.step acc value) (count + 1) c' k) := by
  refine ⟨0, ?_⟩
  simp only [step, resume, h]
  rfl

theorem moves_missing {loop : Loop τ π ρ α β} {acc : β} {count : Nat} (fault : Fault τ π) :
    Moves upkeep store (.back (.failure fault) (.cons (.item loop ⟨acc, count, c⟩) k)) store
      (.back (if count < loop.bounds.min then .failure fault else .success acc c) k) := by
  refine ⟨0, ?_⟩
  simp only [step, resume]
  split <;> rfl

theorem moves_stalledTill {loop : LoopTill τ π ρ α β γ} {acc : β} {count : Nat} {value : α}
    (h : (c'.same c && loop.bounds.stallsAt (count + 1)) = true) :
    Moves upkeep store (.back (.success value c') (.cons (.itemTill loop ⟨acc, count, c⟩) k)) store
      (.back (.failure (.ofMessage stalledMessage c')) k) :=
  ⟨0, by simp only [step, resume, h, if_true]⟩

theorem moves_itemTill {loop : LoopTill τ π ρ α β γ} {acc : β} {count : Nat} {value : α}
    (h : (c'.same c && loop.bounds.stallsAt (count + 1)) = false) :
    Moves upkeep store (.back (.success value c') (.cons (.itemTill loop ⟨acc, count, c⟩) k)) store
      (nextRoundTill loop (loop.step acc value) (count + 1) c' k) := by
  refine ⟨0, ?_⟩
  simp only [step, resume, h]
  rfl

section Relays

variable {reply : Reply τ π α} {reply' : Reply τ π β}

theorem relays_tryBind {check : α → Except Cause γ} {next : γ → Parser τ π ρ β}
    (hp : Passes (.ok reply) (.ok reply')) :
    Moves upkeep store (.back reply (.cons (.tryBind check next c) k)) store (.back reply' k) := by
  cases hp <;> exact ⟨0, rfl⟩

theorem relays_zipLeft {f : α → γ → β} {q : Parser τ π ρ γ} (hp : Passes (.ok reply) (.ok reply')) :
    Moves upkeep store (.back reply (.cons (.zipLeft f q) k)) store (.back reply' k) := by
  cases hp <;> exact ⟨0, rfl⟩

theorem relays_seed {loop : Loop τ π ρ γ β} {reply : Reply τ π β} (hp : Passes (.ok reply) (.ok reply')) :
    Moves upkeep store (.back reply (.cons (.seed loop) k)) store (.back reply' k) := by
  cases hp <;> exact ⟨0, rfl⟩

theorem relays_seedTill {loop : LoopTill τ π ρ γ β δ} {reply : Reply τ π β}
    (hp : Passes (.ok reply) (.ok reply')) :
    Moves upkeep store (.back reply (.cons (.seedTill loop) k)) store (.back reply' k) := by
  cases hp <;> exact ⟨0, rfl⟩

theorem relays_itemTill {loop : LoopTill τ π ρ α β γ} {round : Round τ π β}
    (hp : Passes (.ok reply) (.ok reply')) :
    Moves upkeep store (.back reply (.cons (.itemTill loop round) k)) store (.back reply' k) := by
  cases hp <;> exact ⟨0, rfl⟩

end Relays

end Steps

end Machine

end StreamParsing
