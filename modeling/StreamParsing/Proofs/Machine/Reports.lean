import StreamParsing.Machine.Basic

/-!
Reports are only written. A run that begins with some reports does what it does without them, and puts its own
behind.
-/

namespace StreamParsing

set_option autoImplicit false

universe u

variable {σ : Type u} {τ π ρ α β ω : Type}

/-- The store with earlier reports in front of its own. -/
def Store.after (log : Array Event) (store : Store σ τ π ρ) : Store σ τ π ρ := { store with log := log ++ store.log }

namespace Machine

def Progress.after (log : Array Event) : Progress σ τ π ρ ω → Progress σ τ π ρ ω
  | .next store control => .next (store.after log) control
  | .done store reply => .done (store.after log) reply
  | .broken store error => .broken (store.after log) error
  | .starved => .starved

def Finish.after (log : Array Event) (finish : Finish σ τ π ρ ω) : Finish σ τ π ρ ω :=
  { finish with store := finish.store.after log }

variable [Position π τ] {store : Store σ τ π ρ}

theorem resume_after (log : Array Event) (frame : Frame τ π ρ α β) (reply : Reply τ π α) (k : Stack τ π ρ β ω) :
    resume (store.after log) frame reply k = (resume store frame reply k).after log := by
  cases frame with
  | item loop round =>
    cases reply with
    | success value d =>
      simp only [resume]
      split
      · simp only [Progress.after, Store.after, Array.append_push]
      · rfl
    | failure fault =>
      simp only [resume]
      split <;> rfl
    | abort fault => rfl
  -- No other piece of work reports anything.
  | tryMap | tryBind | itemTill =>
    cases reply with
    | success value d =>
      simp only [resume]
      split <;> rfl
    | failure | abort => rfl
  | _ => cases reply <;> rfl

variable [Source σ τ] {upkeep : Upkeep τ π ρ ω}

theorem evaluate_after (log : Array Event) (fuel : Nat) (c : Cursor τ π) (p : Parser τ π ρ α) (k : Stack τ π ρ α ω) :
    evaluate upkeep fuel (store.after log) c p k = (evaluate upkeep fuel store c p k).after log := by
  cases p with
  | satisfy test =>
    simp only [evaluate]
    split
    · rfl
    split
    · simp only [Store.after]
      rcases store.stream.advance fuel c with _ | ⟨stream, _ | next, events⟩
      · rfl
      all_goals simp only [Progress.after, Store.after, Array.append_assoc]
    · rfl
  | fail message => cases message <;> rfl
  | endOfInput =>
    simp only [evaluate]
    split <;> rfl
  | rule number =>
    simp only [evaluate, Store.after]
    split <;> rfl
  | handle number =>
    cases ha : upkeep store.rules k number with
    | false => simp [evaluate, Store.after, ha, Progress.after]
    | true => cases hf : store.rules.force number <;> simp [evaluate, Store.after, ha, hf, Progress.after]
  | _ => rfl

theorem step_after (log : Array Event) (fuel : Nat) (control : Control τ π ρ ω) :
    step upkeep fuel (store.after log) control = (step upkeep fuel store control).after log := by
  cases control with
  | eval p c k => exact evaluate_after log fuel c p k
  | back reply k =>
    cases k with
    | nil => rfl
    | cons frame k => exact resume_after log frame reply k

theorem run_after (log : Array Event) (fuel : Nat) (store : Store σ τ π ρ) (control : Control τ π ρ ω) :
    run upkeep fuel (store.after log) control = (run upkeep fuel store control).map (Finish.after log) := by
  induction fuel generalizing store control with
  | zero => rfl
  | succ fuel ih =>
    simp only [run, step_after]
    cases step upkeep fuel store control with
    | next store' control' => exact ih store' control'
    | done | broken | starved => rfl

end Machine

end StreamParsing
