import StreamParsing.Proofs.Machine.Steps

/-!
Runs of the machine over pending work that was there before. `Leaves k` follows a run from a parser started
over the stack `k` up to the moment at which the work above `k` is done, or a read breaks it off; what becomes
of `k` afterwards is left open. A run over the empty stack is left exactly when the machine's own loop ends.
-/

namespace StreamParsing

set_option autoImplicit false

universe u

namespace Stack

variable {τ π ρ : Type}

def append {α β ω : Type} : Stack τ π ρ α β → Stack τ π ρ β ω → Stack τ π ρ α ω
  | nil, k => k
  | cons frame rest, k => cons frame (rest.append k)

theorem append_nil {α ω : Type} (k : Stack τ π ρ α ω) : k.append nil = k := by
  induction k with
  | nil => rfl
  | cons frame rest ih => exact congrArg (cons frame) ih

theorem append_cons {α β γ ω : Type} (above : Stack τ π ρ α β) (frame : Frame τ π ρ β γ)
    (k : Stack τ π ρ γ ω) :
    above.append (cons frame k) = (above.append (cons frame nil)).append k := by
  induction above with
  | nil => rfl
  | cons top rest ih => exact congrArg (cons top) (ih frame)

theorem depth_append {α β ω : Type} (above : Stack τ π ρ α β) (k : Stack τ π ρ β ω) :
    (above.append k).depth = above.depth + k.depth := by
  induction above with
  | nil => simp [append, depth]
  | cons top rest ih =>
    simp only [append, depth, ih k]
    omega

end Stack

namespace Machine

variable {σ : Type u} {τ π ρ α β γ ω : Type}

section Frames

/-- The pending work of `control` ends in `k`. -/
inductive Over (k : Stack τ π ρ β ω) : Control τ π ρ ω → Prop where
  | eval {α : Type} (p : Parser τ π ρ α) (c : Cursor τ π) (above : Stack τ π ρ α β) :
      Over k (.eval p c (above.append k))
  | back {α : Type} (reply : Reply τ π α) (above : Stack τ π ρ α β) : Over k (.back reply (above.append k))

/-- The run is still above `k`: it has not come back to `k` with a reply. -/
inductive Within (k : Stack τ π ρ β ω) : Control τ π ρ ω → Prop where
  | eval {α : Type} (p : Parser τ π ρ α) (c : Cursor τ π) (above : Stack τ π ρ α β) :
      Within k (.eval p c (above.append k))
  | back {α γ : Type} (reply : Reply τ π α) (frame : Frame τ π ρ α γ) (above : Stack τ π ρ γ β) :
      Within k (.back reply (.cons frame (above.append k)))

variable {k : Stack τ π ρ β ω} {control : Control τ π ρ ω}

theorem Over.push {α γ : Type} (p : Parser τ π ρ α) (c : Cursor τ π) (frame : Frame τ π ρ α γ)
    (above : Stack τ π ρ γ β) : Over k (.eval p c (.cons frame (above.append k))) :=
  .eval p c (.cons frame above)

theorem Over.within_or_back (h : Over k control) : Within k control ∨ ∃ reply, control = .back reply k := by
  cases h with
  | eval p c above => exact .inl (.eval p c above)
  | back reply above =>
    cases above with
    | nil => exact .inr ⟨reply, rfl⟩
    | cons frame above => exact .inl (.back reply frame above)

theorem within_eval (p : Parser τ π ρ β) (c : Cursor τ π) (k : Stack τ π ρ β ω) :
    Within k (.eval p c k) := .eval p c .nil

theorem within_back (reply : Reply τ π α) (frame : Frame τ π ρ α β) (k : Stack τ π ρ β ω) :
    Within k (.back reply (.cons frame k)) := .back reply frame .nil

/-- What is above more pending work is above less of it. -/
theorem Within.of_cons {frame : Frame τ π ρ γ β} (h : Within (.cons frame k) control) : Within k control := by
  cases h with
  | eval p c above =>
    rw [Stack.append_cons]
    exact .eval p c _
  | back reply top above =>
    rw [Stack.append_cons]
    exact .back reply top _

theorem Within.depth_lt {α : Type} {reply : Reply τ π α} {k' : Stack τ π ρ α ω}
    (h : Within k (.back reply k')) : k.depth < k'.depth := by
  generalize hc : Control.back reply k' = control at h
  cases h with
  | eval p c above => cases hc
  | back reply frame above =>
    cases hc
    simp only [Stack.depth, Stack.depth_append]
    omega

theorem not_within_back {reply : Reply τ π β} : ¬ Within k (.back reply k) :=
  fun h => Nat.lt_irrefl _ h.depth_lt

theorem not_within_cons_back {frame : Frame τ π ρ γ β} {reply : Reply τ π β} :
    ¬ Within (.cons frame k) (.back reply k) :=
  fun h => not_within_back h.of_cons

theorem nextRound_reached {loop : Loop τ π ρ α β} {acc : β} {count : Nat} {c : Cursor τ π}
    (h : loop.bounds.reached count = true) : nextRound loop acc count c k = .back (.success acc c) k := by
  simp [nextRound, h]

theorem nextRound_open {loop : Loop τ π ρ α β} {acc : β} {count : Nat} {c : Cursor τ π}
    (h : loop.bounds.reached count = false) :
    nextRound loop acc count c k = .eval loop.item c (.cons (.item loop ⟨acc, count, c⟩) k) := by
  simp [nextRound, h]

theorem nextRoundTill_reached {loop : LoopTill τ π ρ α β γ} {acc : β} {count : Nat} {c : Cursor τ π}
    (h : loop.bounds.reached count = true) :
    nextRoundTill loop acc count c k = .back (.success acc c) k := by
  simp [nextRoundTill, h]

theorem nextRoundTill_open {loop : LoopTill τ π ρ α β γ} {acc : β} {count : Nat} {c : Cursor τ π}
    (h : loop.bounds.reached count = false) :
    nextRoundTill loop acc count c k = .eval loop.stop c (.cons (.stopTill loop ⟨acc, count, c⟩) k) := by
  simp [nextRoundTill, h]

/-- Every place of a run is above the empty stack. -/
theorem within_nil (control : Control τ π ρ ω) :
    Within .nil control ∨ ∃ reply, control = .back reply .nil := by
  cases control with
  | eval p c k =>
    left
    rw [← Stack.append_nil k]
    exact .eval p c k
  | back reply k =>
    cases k with
    | nil => exact .inr ⟨reply, rfl⟩
    | cons frame rest =>
      left
      rw [← Stack.append_nil rest]
      exact .back reply frame rest

end Frames

variable [Position π τ]
variable {store store' : Store σ τ π ρ} {control control' : Control τ π ρ ω}

theorem over_of_resume {k : Stack τ π ρ β ω} {frame : Frame τ π ρ α γ} {reply : Reply τ π α}
    {above : Stack τ π ρ γ β}
    (h : resume store frame reply (above.append k) = .next store' control') : Over k control' := by
  obtain ⟨log, between, heq, hresumed⟩ := exists_resumed frame reply (above.append k)
  rw [heq] at h
  cases h
  cases hresumed with
  | back => exact .back _ above
  | hook => exact .back _ above
  | eval => exact .eval _ _ above
  | push => exact .push _ _ _ above

variable [Source σ τ] {upkeep : Upkeep τ π ρ ω} {fuel : Nat}

theorem over_of_evaluate {k : Stack τ π ρ β ω} {p : Parser τ π ρ α} {c : Cursor τ π}
    {above : Stack τ π ρ α β}
    (h : evaluate upkeep fuel store c p (above.append k) = .next store' control') : Over k control' := by
  have hentered := entered upkeep fuel store c p (above.append k)
  rw [h] at hentered
  cases hentered with
  | back | taken => exact .back _ above
  | push => exact .push _ _ _ above
  | rule | handle | draft => exact .eval _ _ above

/-- A step never touches the pending work below the top. -/
theorem over_of_step {k : Stack τ π ρ β ω} (hw : Within k control)
    (h : step upkeep fuel store control = .next store' control') : Over k control' := by
  cases hw with
  | eval p c above => exact over_of_evaluate h
  | back reply frame above => exact over_of_resume h

/-- One step of a run, with however much fuel its read takes. -/
def Moves (upkeep : Upkeep τ π ρ ω) (store : Store σ τ π ρ) (control : Control τ π ρ ω) (store' : Store σ τ π ρ)
    (control' : Control τ π ρ ω) : Prop :=
  ∃ fuel, step upkeep fuel store control = .next store' control'

/-- A run that ends here because a read fails. -/
def Breaks (upkeep : Upkeep τ π ρ ω) (store : Store σ τ π ρ) (control : Control τ π ρ ω) (store' : Store σ τ π ρ)
    (error : ReadError) : Prop :=
  ∃ fuel, step upkeep fuel store control = .broken store' error

theorem Within.moves {k : Stack τ π ρ β ω} (hw : Within k control)
    (hm : Moves upkeep store control store' control') : Within k control' ∨ ∃ reply, control' = .back reply k := by
  obtain ⟨fuel, hs⟩ := hm
  exact (over_of_step hw hs).within_or_back

inductive Path (upkeep : Upkeep τ π ρ ω) :
    Store σ τ π ρ → Control τ π ρ ω → Store σ τ π ρ → Control τ π ρ ω → Prop where
  | refl (store : Store σ τ π ρ) (control : Control τ π ρ ω) : Path upkeep store control store control
  | cons {store mid store' : Store σ τ π ρ} {control between control' : Control τ π ρ ω} :
      Moves upkeep store control mid between → Path upkeep mid between store' control' →
        Path upkeep store control store' control'

theorem Path.trans {mid : Store σ τ π ρ} {between : Control τ π ρ ω} (h : Path upkeep store control mid between)
    (h' : Path upkeep mid between store' control') : Path upkeep store control store' control' := by
  induction h with
  | refl => exact h'
  | cons hm _ ih => exact .cons hm (ih h')

/-- Where a run stands after the given number of steps. -/
def after (upkeep : Upkeep τ π ρ ω) (fuel : Nat) (store : Store σ τ π ρ) (control : Control τ π ρ ω) :
    Nat → Option (Store σ τ π ρ × Control τ π ρ ω)
  | 0 => some (store, control)
  | n + 1 =>
    match step upkeep fuel store control with
    | .next store control => after upkeep fuel store control n
    | _ => none

theorem path_of_after {n : Nat} (h : after upkeep fuel store control n = some (store', control')) :
    Path upkeep store control store' control' := by
  induction n generalizing store control with
  | zero =>
    cases h
    exact .refl _ _
  | succ n ih =>
    rw [after] at h
    split at h
    · rename_i hs
      exact .cons ⟨fuel, hs⟩ (ih h)
    · cases h

/-- A run that starts above `k` and, after the given number of steps, comes back to `k` with a reply or is
broken off by a read. -/
inductive Leaves (upkeep : Upkeep τ π ρ ω) (k : Stack τ π ρ β ω) :
    Nat → Store σ τ π ρ → Control τ π ρ ω → Store σ τ π ρ → Except ReadError (Reply τ π β) → Prop where
  | back (store : Store σ τ π ρ) (reply : Reply τ π β) : Leaves upkeep k 0 store (.back reply k) store (.ok reply)
  | broken {store store' : Store σ τ π ρ} {control : Control τ π ρ ω} {error : ReadError} :
      Within k control → Breaks upkeep store control store' error →
        Leaves upkeep k 0 store control store' (.error error)
  | step {n : Nat} {store mid store' : Store σ τ π ρ} {control between : Control τ π ρ ω}
      {result : Except ReadError (Reply τ π β)} :
      Within k control → Moves upkeep store control mid between → Leaves upkeep k n mid between store' result →
        Leaves upkeep k (n + 1) store control store' result

namespace Leaves

variable {k : Stack τ π ρ β ω} {n m : Nat} {mid : Store σ τ π ρ} {result : Except ReadError (Reply τ π β)}

theorem eq_of_back {reply : Reply τ π β} (h : Leaves upkeep k n store (.back reply k) store' result) :
    store' = store ∧ result = .ok reply := by
  cases h with
  | back => exact ⟨rfl, rfl⟩
  | broken hw _ => exact absurd hw not_within_back
  | step hw _ _ => exact absurd hw not_within_back

theorem path {reply : Reply τ π β} (h : Leaves upkeep k n store control store' (.ok reply)) :
    Path upkeep store control store' (.back reply k) := by
  generalize hr : (Except.ok reply : Except ReadError (Reply τ π β)) = result at h
  induction h with
  | back store reply' =>
    cases hr
    exact .refl _ _
  | broken _ _ => cases hr
  | step _ hm _ ih => exact .cons hm (ih hr)

/-- A run above a frame is a run above the work below the frame, which goes on with what the frame makes of the
reply. -/
theorem lift {frame : Frame τ π ρ γ β} {reply : Reply τ π γ}
    (h : Leaves upkeep (.cons frame k) n store control mid (.ok reply))
    (h' : Leaves upkeep k m mid (.back reply (.cons frame k)) store' result) :
    Leaves upkeep k (n + m) store control store' result := by
  generalize hr : (Except.ok reply : Except ReadError (Reply τ π γ)) = first at h
  induction h with
  | back store reply' =>
    cases hr
    simpa using h'
  | broken _ _ => cases hr
  | @step n _ _ _ _ _ _ hw hm _ ih =>
    rw [Nat.add_right_comm]
    exact .step hw.of_cons hm (ih h' hr)

theorem lift_error {frame : Frame τ π ρ γ β} {error : ReadError}
    (h : Leaves upkeep (.cons frame k) n store control store' (.error error)) :
    Leaves upkeep k n store control store' (.error error) := by
  generalize hr : (Except.error error : Except ReadError (Reply τ π γ)) = first at h
  induction h with
  | back => cases hr
  | broken hw hb =>
    cases hr
    exact .broken hw.of_cons hb
  | step hw hm _ ih => exact .step hw.of_cons hm (ih hr)

/-- A run that leaves `k` from above a frame has to come back to the frame first, unless it breaks off. -/
theorem split {frame : Frame τ π ρ γ β} (h : Leaves upkeep k n store control store' result)
    (hw : Within (.cons frame k) control) :
    (∃ i j mid reply, i + j = n ∧ Leaves upkeep (.cons frame k) i store control mid (.ok reply) ∧
        Leaves upkeep k j mid (.back reply (.cons frame k)) store' result) ∨
      ∃ error, result = .error error ∧ Leaves upkeep (.cons frame k) n store control store' (.error error) := by
  induction h with
  | back => exact absurd hw not_within_cons_back
  | @broken _ _ _ error _ hb => exact .inr ⟨error, rfl, .broken hw hb⟩
  | @step n _ _ _ _ between _ _ hm hl ih =>
    rcases hw.moves hm with hw' | ⟨reply, rfl⟩
    · rcases ih hw' with ⟨i, j, mid, reply, hij, hi, hj⟩ | ⟨error, he, hl'⟩
      · exact .inl ⟨i + 1, j, mid, reply, by omega, .step hw hm hi, hj⟩
      · exact .inr ⟨error, he, .step hw hm hl'⟩
    · exact .inl ⟨1, n, _, reply, by omega, .step hw hm (.back _ reply), hl⟩

end Leaves

section Lawful

variable [LawfulSource σ τ] {mid : Store σ τ π ρ} {between : Control τ π ρ ω}

theorem Moves.deterministic (h : Moves upkeep store control mid between)
    (h' : Moves upkeep store control store' control') : mid = store' ∧ between = control' := by
  obtain ⟨fuel, hs⟩ := h
  obtain ⟨fuel', hs'⟩ := h'
  have h₁ := step_of_le (Nat.le_max_left fuel fuel') hs (by simp)
  have h₂ := step_of_le (Nat.le_max_right fuel fuel') hs' (by simp)
  rw [h₁] at h₂
  cases h₂
  exact ⟨rfl, rfl⟩

theorem Moves.not_breaks {error : ReadError} (h : Moves upkeep store control mid between) :
    ¬ Breaks upkeep store control store' error := by
  rintro ⟨fuel', hs'⟩
  obtain ⟨fuel, hs⟩ := h
  have h₁ := step_of_le (Nat.le_max_left fuel fuel') hs (by simp)
  have h₂ := step_of_le (Nat.le_max_right fuel fuel') hs' (by simp)
  rw [h₁] at h₂
  cases h₂

/-- The rest of a run after a step that is known. -/
theorem Leaves.after {k : Stack τ π ρ β ω} {n : Nat} {result : Except ReadError (Reply τ π β)}
    (h : Leaves upkeep k n store control store' result) (hw : Within k control)
    (hm : Moves upkeep store control mid between) : ∃ m, m < n ∧ Leaves upkeep k m mid between store' result := by
  cases h with
  | back => exact absurd hw not_within_back
  | broken _ hb => exact absurd hb hm.not_breaks
  | @step m _ _ _ _ _ _ _ hm' hl =>
    obtain ⟨rfl, rfl⟩ := hm.deterministic hm'
    exact ⟨m, by omega, hl⟩

end Lawful

section Runs

theorem leaves_of_run {finish : Finish σ τ π ρ ω} (h : run upkeep fuel store control = some finish) :
    ∃ n, Leaves upkeep .nil n store control finish.store finish.result := by
  induction fuel generalizing store control with
  | zero => simp [run] at h
  | succ fuel ih =>
    rw [run] at h
    rcases within_nil control with hw | ⟨reply, rfl⟩
    · cases hs : step upkeep fuel store control with
      | next mid between =>
        simp only [hs] at h
        obtain ⟨n, hl⟩ := ih h
        exact ⟨n + 1, .step hw ⟨fuel, hs⟩ hl⟩
      | broken mid error =>
        simp only [hs, Option.some.injEq] at h
        subst h
        exact ⟨0, .broken hw ⟨fuel, hs⟩⟩
      | starved => simp [hs] at h
      | done mid reply =>
        obtain ⟨rfl, -⟩ := control_of_done hs
        exact absurd hw not_within_back
    · simp only [step, Option.some.injEq] at h
      subst h
      exact ⟨0, .back _ _⟩

variable [LawfulSource σ τ]

theorem run_of_leaves {n : Nat} {result : Except ReadError (Reply τ π ω)}
    (h : Leaves upkeep .nil n store control store' result) :
    ∃ fuel, run upkeep fuel store control = some ⟨store', result⟩ := by
  induction h with
  | back store reply => exact ⟨1, rfl⟩
  | broken _ hb =>
    obtain ⟨fuel, hs⟩ := hb
    exact ⟨fuel + 1, by rw [run, hs]⟩
  | step _ hm _ ih =>
    obtain ⟨fuel, hs⟩ := hm
    obtain ⟨fuel', hr⟩ := ih
    refine ⟨max fuel fuel' + 1, ?_⟩
    rw [run, step_of_le (Nat.le_max_left fuel fuel') hs (by simp)]
    exact run_of_le (Nat.le_max_right fuel fuel') hr

theorem run_iff_leaves {result : Except ReadError (Reply τ π ω)} :
    (∃ fuel, run upkeep fuel store control = some ⟨store', result⟩) ↔
      ∃ n, Leaves upkeep .nil n store control store' result :=
  ⟨fun ⟨_, h⟩ => leaves_of_run h, fun ⟨_, h⟩ => run_of_leaves h⟩

end Runs

end Machine

end StreamParsing
