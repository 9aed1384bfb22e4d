import StreamParsing.Parser.Repetition
import StreamParsing.Proofs.Machine.Retention
import StreamParsing.Proofs.Machine.Soundness

/-!
From the machine to the direct reading, and the agreement of the two. The proof is by the number of steps: a run
above a frame is cut where it first comes back to that frame, so the parts are shorter runs.
-/

namespace StreamParsing

set_option autoImplicit false

universe u

namespace Machine

variable {σ : Type u} {τ π ρ α β γ ω : Type} [Source σ τ] [Position π τ]
variable {alive : Liveness τ π ρ} {store mid store' : Store σ τ π ρ}

/-- Runs of this many steps that begin the job end as the job evaluates. -/
def Reflects (alive : Liveness τ π ρ) (σ : Type u) [Source σ τ] (job : Job τ π ρ α) (n : Nat) : Prop :=
  ∀ {ω : Type} {upkeep : Upkeep τ π ρ ω} (k : Stack τ π ρ α ω) (store store' : Store σ τ π ρ)
      (result : Outcome τ π α),
    Agrees alive upkeep store (job.control k) → Leaves upkeep k n store (job.control k) store' result →
      Evaluates alive k.holds store job store' result

def ReflectsBelow (alive : Liveness τ π ρ) (σ : Type u) [Source σ τ] (n : Nat) : Prop :=
  ∀ m < n, ∀ {α : Type} (job : Job τ π ρ α), Reflects alive σ job m

variable {upkeep : Upkeep τ π ρ ω} {n : Nat} {k : Stack τ π ρ β ω} {start : Control τ π ρ ω} {result : Outcome τ π β}

/-- A run that begins above a frame first evaluates the parser there; then it either resumes the frame or is
broken off. -/
theorem Leaves.enter {frame : Frame τ π ρ α β} {p : Parser τ π ρ α} {c : Cursor τ π}
    (hp : ∀ m ≤ n, Reflects alive σ (.run p c) m) (ha : Agrees alive upkeep store (.eval p c (.cons frame k)))
    (hl : Leaves upkeep k n store (.eval p c (.cons frame k)) store' result) :
    (∃ m mid reply, m ≤ n ∧ Evaluates alive (frame.holds ++ k.holds) store (.run p c) mid (.ok reply) ∧
        Agrees alive upkeep mid (.back reply (.cons frame k)) ∧
        Leaves upkeep k m mid (.back reply (.cons frame k)) store' result) ∨
      ∃ e, result = .error e ∧
        Evaluates alive (frame.holds ++ k.holds) store (.run p c) store' (.error e) := by
  rcases hl.split (within_eval p c (.cons frame k)) with ⟨i, j, mid, reply, hij, hi, hj⟩ | ⟨e, he, hl'⟩
  · exact .inl ⟨j, mid, reply, by omega, hp i (by omega) _ _ _ _ ha hi, ha.of_path hi.path, hj⟩
  · exact .inr ⟨e, he, hp n (Nat.le_refl n) _ _ _ _ ha hl'⟩

section Complete

variable [LawfulSource σ τ]

theorem Leaves.push {frame : Frame τ π ρ α β} {p : Parser τ π ρ α} {c : Cursor τ π}
    (ih : ReflectsBelow alive σ n) (ha : Agrees alive upkeep store start)
    (hl : Leaves upkeep k n store start store' result) (hw : Within k start)
    (hm : Moves upkeep store start mid (.eval p c (.cons frame k))) :
    (∃ m mid' reply, m < n ∧ Evaluates alive (frame.holds ++ k.holds) mid (.run p c) mid' (.ok reply) ∧
        Agrees alive upkeep mid' (.back reply (.cons frame k)) ∧
        Leaves upkeep k m mid' (.back reply (.cons frame k)) store' result) ∨
      ∃ e, result = .error e ∧
        Evaluates alive (frame.holds ++ k.holds) mid (.run p c) store' (.error e) := by
  obtain ⟨m, hmn, hl'⟩ := hl.after hw hm
  have hp : ∀ i ≤ m, Reflects alive σ (.run p c) i := fun i hi => ih i (by omega) (.run p c)
  rcases hl'.enter hp (ha.of_moves hm) with ⟨i, mid', reply, hi, hp, ha', hr⟩ | ⟨e, he, hp⟩
  · exact .inl ⟨i, mid', reply, by omega, hp, ha', hr⟩
  · exact .inr ⟨e, he, hp⟩

/-- A run whose next step brings it back to `k` ends there. -/
theorem Leaves.eq_of_moves_back {reply : Reply τ π β} (hl : Leaves upkeep k n store start store' result)
    (hw : Within k start) (hm : Moves upkeep store start mid (.back reply k)) :
    store' = mid ∧ result = .ok reply := by
  obtain ⟨m, _, hl'⟩ := hl.after hw hm
  exact hl'.eq_of_back

/-- A run whose next step begins another job over `k` ends as that job does. -/
theorem Leaves.continue {job : Job τ π ρ β} (ih : ReflectsBelow alive σ n) {m : Nat} (hmn : m ≤ n)
    (ha : Agrees alive upkeep store start) (hl : Leaves upkeep k m store start store' result) (hw : Within k start)
    (hm : Moves upkeep store start mid (job.control k)) : Evaluates alive k.holds mid job store' result := by
  obtain ⟨i, hi, hl'⟩ := hl.after hw hm
  exact ih i (by omega) job k _ _ _ (ha.of_moves hm) hl'

section Parsers

variable {p : Parser τ π ρ α} {c : Cursor τ π}

theorem evaluates_satisfy {test : τ → Bool} {k : Stack τ π ρ τ ω} {result : Outcome τ π τ}
    (hl : Leaves upkeep k n store (.eval (.satisfy test) c k) store' result) :
    Evaluates alive k.holds store (.run (.satisfy test) c) store' result := by
  cases hc : c.current.filter test with
  | none =>
    obtain ⟨rfl, rfl⟩ := hl.eq_of_moves_back (within_eval _ _ k) ⟨0, step_satisfy_refused hc⟩
    exact .refused hc
  | some t =>
    cases hl with
    | broken hw hb =>
      obtain ⟨fuel, hs⟩ := hb
      rw [step_satisfy_taken hc] at hs
      split at hs <;> cases hs
      rename_i ha
      exact .unread hc ha
    | step hw hm hl' =>
      obtain ⟨fuel, hs⟩ := hm
      rw [step_satisfy_taken hc] at hs
      split at hs <;> cases hs
      rename_i ha
      obtain ⟨rfl, rfl⟩ := hl'.eq_of_back
      exact .taken hc ha

theorem evaluates_tryMap {f : α → Except Cause β} (ih : ReflectsBelow alive σ n)
    (ha : Agrees alive upkeep store (.eval (.tryMap p f) c k))
    (hl : Leaves upkeep k n store (.eval (.tryMap p f) c k) store' result) :
    Evaluates alive k.holds store (.run (.tryMap p f) c) store' result := by
  rcases hl.push ih ha (within_eval _ _ k) ⟨0, rfl⟩ with ⟨m, mid, reply, _, hp, _, hr⟩ | ⟨e, rfl, hp⟩
  · obtain ⟨rfl, rfl⟩ := hr.eq_of_moves_back (within_back _ _ k) (moves_convert reply)
    exact .tryMap hp
  · exact .tryMap hp

theorem evaluates_tryBind {check : α → Except Cause γ} {next : γ → Parser τ π ρ β}
    (ih : ReflectsBelow alive σ n) (ha : Agrees alive upkeep store (.eval (.tryBind p check next) c k))
    (hl : Leaves upkeep k n store (.eval (.tryBind p check next) c k) store' result) :
    Evaluates alive k.holds store (.run (.tryBind p check next) c) store' result := by
  rcases hl.push ih ha (within_eval _ _ k) ⟨0, rfl⟩ with ⟨m, mid, reply, hm, hp, ha', hr⟩ | ⟨e, rfl, hp⟩
  · cases reply with
    | success value c' =>
      cases hc : check value with
      | ok checked =>
        have hq : Evaluates alive k.holds mid (.run (next checked) c') store' result :=
          hr.continue ih (Nat.le_of_lt hm) ha' (within_back _ _ k) (moves_checked hc)
        exact .bind_next hp hc hq
      | error cause =>
        obtain ⟨rfl, rfl⟩ := hr.eq_of_moves_back (within_back _ _ k) (moves_refused hc)
        exact .bind_refused hp hc
    | failure fault =>
      obtain ⟨rfl, rfl⟩ := hr.eq_of_moves_back (within_back _ _ k) ⟨0, rfl⟩
      exact .bind_stopped hp (.failure fault)
    | abort fault =>
      obtain ⟨rfl, rfl⟩ := hr.eq_of_moves_back (within_back _ _ k) ⟨0, rfl⟩
      exact .bind_stopped hp (.abort fault)
  · exact .bind_stopped hp (.error e)

theorem evaluates_zipWith {f : α → γ → β} {q : Parser τ π ρ γ} (ih : ReflectsBelow alive σ n)
    (ha : Agrees alive upkeep store (.eval (.zipWith f p q) c k))
    (hl : Leaves upkeep k n store (.eval (.zipWith f p q) c k) store' result) :
    Evaluates alive k.holds store (.run (.zipWith f p q) c) store' result := by
  rcases hl.push ih ha (within_eval _ _ k) ⟨0, rfl⟩ with ⟨m, mid, reply, hm, hp, ha', hr⟩ | ⟨e, rfl, hp⟩
  · cases reply with
    | success value c' =>
      have ih' : ReflectsBelow alive σ m := fun i hi => ih i (by omega)
      rcases hr.push ih' ha' (within_back _ _ k) ⟨0, rfl⟩ with ⟨_, _, second, _, hq, _, hr'⟩ | ⟨e, rfl, hq⟩
      · obtain ⟨rfl, rfl⟩ := hr'.eq_of_moves_back (within_back _ _ k) ⟨0, rfl⟩
        exact .zip_next hp hq
      · exact .zip_next hp hq
    | failure fault =>
      obtain ⟨rfl, rfl⟩ := hr.eq_of_moves_back (within_back _ _ k) ⟨0, rfl⟩
      exact .zip_stopped hp (.failure fault)
    | abort fault =>
      obtain ⟨rfl, rfl⟩ := hr.eq_of_moves_back (within_back _ _ k) ⟨0, rfl⟩
      exact .zip_stopped hp (.abort fault)
  · exact .zip_stopped hp (.error e)

theorem evaluates_orElse {p q : Parser τ π ρ β} (ih : ReflectsBelow alive σ n)
    (ha : Agrees alive upkeep store (.eval (.orElse p q) c k))
    (hl : Leaves upkeep k n store (.eval (.orElse p q) c k) store' result) :
    Evaluates alive k.holds store (.run (.orElse p q) c) store' result := by
  rcases hl.push ih ha (within_eval _ _ k) ⟨0, rfl⟩ with ⟨m, mid, reply, hm, hp, ha', hr⟩ | ⟨e, rfl, hp⟩
  · cases reply with
    | success value c' =>
      obtain ⟨rfl, rfl⟩ := hr.eq_of_moves_back (within_back _ _ k) ⟨0, rfl⟩
      exact .else_first hp (by simp [Firm])
    | failure fault =>
      have hq : Evaluates alive k.holds mid (.run q c) store' result :=
        hr.continue ih (Nat.le_of_lt hm) ha' (within_back _ _ k) ⟨0, rfl⟩
      exact .else_second hp hq
    | abort fault =>
      obtain ⟨rfl, rfl⟩ := hr.eq_of_moves_back (within_back _ _ k) ⟨0, rfl⟩
      exact .else_first hp (by simp [Firm])
  · exact .else_first hp (by simp [Firm])

theorem evaluates_reshape {hook : Hook τ π α β} (ih : ReflectsBelow alive σ n)
    (ha : Agrees alive upkeep store (.eval (.reshape p hook) c k))
    (hl : Leaves upkeep k n store (.eval (.reshape p hook) c k) store' result) :
    Evaluates alive k.holds store (.run (.reshape p hook) c) store' result := by
  rcases hl.push ih ha (within_eval _ _ k) ⟨0, rfl⟩ with ⟨m, mid, reply, _, hp, _, hr⟩ | ⟨e, rfl, hp⟩
  · obtain ⟨rfl, rfl⟩ := hr.eq_of_moves_back (within_back _ _ k) ⟨0, rfl⟩
    exact .reshape hp
  · exact .reshape hp

theorem evaluates_loop {seed : Parser τ π ρ β} {item : Parser τ π ρ α} {add : β → α → β} {bounds : Bounds}
    (ih : ReflectsBelow alive σ n) (ha : Agrees alive upkeep store (.eval (.loop seed item add bounds) c k))
    (hl : Leaves upkeep k n store (.eval (.loop seed item add bounds) c k) store' result) :
    Evaluates alive k.holds store (.run (.loop seed item add bounds) c) store' result := by
  rcases hl.push ih ha (within_eval _ _ k) ⟨0, rfl⟩ with ⟨m, mid, reply, hm, hp, ha', hr⟩ | ⟨e, rfl, hp⟩
  · cases reply with
    | success acc c' =>
      have hq : Evaluates alive k.holds mid (.rounds ⟨seed, item, add, bounds⟩ acc 0 c') store' result :=
        hr.continue ih (Nat.le_of_lt hm) ha' (within_back _ _ k) ⟨0, rfl⟩
      exact .loop_seeded hp hq
    | failure fault =>
      obtain ⟨rfl, rfl⟩ := hr.eq_of_moves_back (within_back _ _ k) ⟨0, rfl⟩
      exact .loop_stopped hp (.failure fault)
    | abort fault =>
      obtain ⟨rfl, rfl⟩ := hr.eq_of_moves_back (within_back _ _ k) ⟨0, rfl⟩
      exact .loop_stopped hp (.abort fault)
  · exact .loop_stopped hp (.error e)

theorem evaluates_loopTill {seed : Parser τ π ρ β} {item : Parser τ π ρ α} {stop : Parser τ π ρ γ}
    {add : β → α → β} {bounds : Bounds} (ih : ReflectsBelow alive σ n)
    (ha : Agrees alive upkeep store (.eval (.loopTill seed item stop add bounds) c k))
    (hl : Leaves upkeep k n store (.eval (.loopTill seed item stop add bounds) c k) store' result) :
    Evaluates alive k.holds store (.run (.loopTill seed item stop add bounds) c) store' result := by
  rcases hl.push ih ha (within_eval _ _ k) ⟨0, rfl⟩ with ⟨m, mid, reply, hm, hp, ha', hr⟩ | ⟨e, rfl, hp⟩
  · cases reply with
    | success acc c' =>
      have hq : Evaluates alive k.holds mid (.roundsTill ⟨⟨seed, item, add, bounds⟩, stop⟩ acc 0 c') store'
          result :=
        hr.continue ih (Nat.le_of_lt hm) ha' (within_back _ _ k) ⟨0, rfl⟩
      exact .till_seeded hp hq
    | failure fault =>
      obtain ⟨rfl, rfl⟩ := hr.eq_of_moves_back (within_back _ _ k) ⟨0, rfl⟩
      exact .till_stopped hp (.failure fault)
    | abort fault =>
      obtain ⟨rfl, rfl⟩ := hr.eq_of_moves_back (within_back _ _ k) ⟨0, rfl⟩
      exact .till_stopped hp (.abort fault)
  · exact .till_stopped hp (.error e)

theorem evaluates_rule {number : Nat} {k : Stack τ π ρ ρ ω} {result : Outcome τ π ρ}
    (ih : ReflectsBelow alive σ n) (ha : Agrees alive upkeep store (.eval (.rule number) c k))
    (hl : Leaves upkeep k n store (.eval (.rule number) c k) store' result) :
    Evaluates alive k.holds store (.run (.rule number) c) store' result := by
  cases hf : store.rules.force number with
  | none =>
    obtain ⟨rfl, rfl⟩ := hl.eq_of_moves_back (within_eval _ _ k) (moves_unbound hf)
    exact .unbound hf
  | some found =>
    obtain ⟨p, rules⟩ := found
    have hp : Evaluates alive k.holds { store with rules } (.run p c) store' result :=
      hl.continue ih (Nat.le_refl n) ha (within_eval _ _ k) (moves_rule hf)
    exact .rule hf hp

theorem evaluates_handle {number : Nat} {k : Stack τ π ρ ρ ω} {result : Outcome τ π ρ}
    (ih : ReflectsBelow alive σ n) (ha : Agrees alive upkeep store (.eval (.handle number) c k))
    (hl : Leaves upkeep k n store (.eval (.handle number) c k) store' result) :
    Evaluates alive k.holds store (.run (.handle number) c) store' result := by
  cases hf : store.rules.force number with
  | none =>
    obtain ⟨rfl, rfl⟩ := hl.eq_of_moves_back (within_eval _ _ k) (moves_dangling (.inr hf))
    exact .dangling (.inr hf)
  | some found =>
    obtain ⟨p, rules⟩ := found
    have hc := ha _ _ _ _ (.refl _ _) (by simp [hf])
    cases hlive : alive store.rules k.holds number with
    | false =>
      obtain ⟨rfl, rfl⟩ := hl.eq_of_moves_back (within_eval _ _ k) (moves_dangling (.inl (hc ▸ hlive)))
      exact .dangling (.inl hlive)
    | true =>
      have hp : Evaluates alive k.holds { store with rules } (.run p c) store' result :=
        hl.continue ih (Nat.le_refl n) ha (within_eval _ _ k) (moves_handle (hc ▸ hlive) hf)
      exact .handle hlive hf hp

theorem evaluates_run {p : Parser τ π ρ β} (ih : ReflectsBelow alive σ n)
    (ha : Agrees alive upkeep store (.eval p c k)) (hl : Leaves upkeep k n store (.eval p c k) store' result) :
    Evaluates alive k.holds store (.run p c) store' result := by
  cases p with
  | pure value =>
    obtain ⟨rfl, rfl⟩ := hl.eq_of_moves_back (within_eval _ _ k) ⟨0, rfl⟩
    exact .pure
  | peek read =>
    obtain ⟨rfl, rfl⟩ := hl.eq_of_moves_back (within_eval _ _ k) ⟨0, rfl⟩
    exact .peek
  | satisfy test => exact evaluates_satisfy hl
  | endOfInput =>
    obtain ⟨rfl, rfl⟩ := hl.eq_of_moves_back (within_eval _ _ k) moves_endOfInput
    exact .endOfInput
  | fail message =>
    obtain ⟨rfl, rfl⟩ := hl.eq_of_moves_back (within_eval _ _ k) (moves_fail message)
    exact .fail
  | abort message =>
    obtain ⟨rfl, rfl⟩ := hl.eq_of_moves_back (within_eval _ _ k) ⟨0, rfl⟩
    exact .abort
  | tryMap p f => exact evaluates_tryMap ih ha hl
  | tryBind p check next => exact evaluates_tryBind ih ha hl
  | zipWith f p q => exact evaluates_zipWith ih ha hl
  | orElse p q => exact evaluates_orElse ih ha hl
  | reshape p hook => exact evaluates_reshape ih ha hl
  | loop seed item add bounds => exact evaluates_loop ih ha hl
  | loopTill seed item stop add bounds => exact evaluates_loopTill ih ha hl
  | rule number => exact evaluates_rule ih ha hl
  | handle number => exact evaluates_handle ih ha hl
  | draft parser new =>
    exact .draft (hl.continue ih (Nat.le_refl n) ha (within_eval _ _ k) ⟨0, rfl⟩)

theorem reflects_run (ih : ReflectsBelow alive σ n) (p : Parser τ π ρ β) (c : Cursor τ π) :
    ∀ m ≤ n, Reflects alive σ (.run p c) m := by
  intro m hm ω upkeep k store store' result ha hl
  have ih' : ReflectsBelow alive σ m := fun i hi => ih i (by omega)
  exact evaluates_run ih' ha hl

theorem evaluates_rounds {loop : Loop τ π ρ α β} {acc : β} {count : Nat}
    (ih : ReflectsBelow alive σ n) (ha : Agrees alive upkeep store (nextRound loop acc count c k))
    (hl : Leaves upkeep k n store (nextRound loop acc count c k) store' result) :
    Evaluates alive k.holds store (.rounds loop acc count c) store' result := by
  cases hr : loop.bounds.reached count with
  | true =>
    rw [nextRound_reached hr] at hl
    obtain ⟨rfl, rfl⟩ := hl.eq_of_back
    exact .rounds_reached hr
  | false =>
    rw [nextRound_open hr] at hl ha
    rcases hl.enter (reflects_run ih _ c) ha with ⟨m, mid, reply, hm, hp, ha', hl'⟩ | ⟨e, rfl, hp⟩
    · cases reply with
      | success value c' =>
        cases hs : c'.same c && loop.bounds.stallsAt (count + 1) with
        | true =>
          obtain ⟨rfl, rfl⟩ := hl'.eq_of_moves_back (within_back _ _ k) (moves_stalled hs)
          exact .rounds_stalled hr hp hs
        | false =>
          have hq : Evaluates alive k.holds mid (.rounds loop (loop.step acc value) (count + 1) c') store'
              result :=
            hl'.continue ih hm ha' (within_back _ _ k) (moves_item hs)
          exact .rounds_next hr hp hs hq
      | failure fault =>
        obtain ⟨rfl, rfl⟩ := hl'.eq_of_moves_back (within_back _ _ k) (moves_missing fault)
        exact .rounds_failed hr hp
      | abort fault =>
        obtain ⟨rfl, rfl⟩ := hl'.eq_of_moves_back (within_back _ _ k) ⟨0, rfl⟩
        exact .rounds_stopped hr hp (by simp [Firm]) (.abort fault)
    · exact .rounds_stopped hr hp (by simp [Firm]) (.error e)

theorem evaluates_roundsTill {loop : LoopTill τ π ρ α β γ} {acc : β} {count : Nat}
    (ih : ReflectsBelow alive σ n) (ha : Agrees alive upkeep store (nextRoundTill loop acc count c k))
    (hl : Leaves upkeep k n store (nextRoundTill loop acc count c k) store' result) :
    Evaluates alive k.holds store (.roundsTill loop acc count c) store' result := by
  cases hr : loop.bounds.reached count with
  | true =>
    rw [nextRoundTill_reached hr] at hl
    obtain ⟨rfl, rfl⟩ := hl.eq_of_back
    exact .till_reached hr
  | false =>
    rw [nextRoundTill_open hr] at hl ha
    rcases hl.enter (reflects_run ih _ c) ha with ⟨m, mid, reply, hm, hp, ha', hl'⟩ | ⟨e, rfl, hp⟩
    · cases reply with
      | success value c' =>
        obtain ⟨rfl, rfl⟩ := hl'.eq_of_moves_back (within_back _ _ k) ⟨0, rfl⟩
        exact .till_ended hr hp
      | abort fault =>
        obtain ⟨rfl, rfl⟩ := hl'.eq_of_moves_back (within_back _ _ k) ⟨0, rfl⟩
        exact .till_barred hr hp (by simp [Firm]) (.abort fault)
      | failure fault =>
        -- The end does not match here, so an item is tried.
        have ih' : ReflectsBelow alive σ m := fun i hi => ih i (by omega)
        rcases hl'.push ih' ha' (within_back _ _ k) ⟨0, rfl⟩ with
          ⟨m', mid', reply, hm', hq, ha'', hl''⟩ | ⟨e, rfl, hq⟩
        · cases reply with
          | success value c' =>
            cases hs : c'.same c && loop.bounds.stallsAt (count + 1) with
            | true =>
              obtain ⟨rfl, rfl⟩ := hl''.eq_of_moves_back (within_back _ _ k) (moves_stalledTill hs)
              exact .till_stalled hr hp hq hs
            | false =>
              have hn : Evaluates alive k.holds mid'
                  (.roundsTill loop (loop.step acc value) (count + 1) c') store' result :=
                hl''.continue ih (by omega) ha'' (within_back _ _ k) (moves_itemTill hs)
              exact .till_next hr hp hq hs hn
          | failure fault' =>
            obtain ⟨rfl, rfl⟩ := hl''.eq_of_moves_back (within_back _ _ k) ⟨0, rfl⟩
            exact .till_lacking hr hp hq (.failure fault')
          | abort fault' =>
            obtain ⟨rfl, rfl⟩ := hl''.eq_of_moves_back (within_back _ _ k) ⟨0, rfl⟩
            exact .till_lacking hr hp hq (.abort fault')
        · exact .till_lacking hr hp hq (.error e)
    · exact .till_barred hr hp (by simp [Firm]) (.error e)

end Parsers

theorem reflectsBelow (n : Nat) : ReflectsBelow alive σ n := by
  induction n with
  | zero => exact fun m hm => absurd hm (Nat.not_lt_zero m)
  | succ n ih =>
    intro m hm α job ω upkeep k store store' result ha hl
    have ih' : ReflectsBelow alive σ m := fun i hi => ih i (by omega)
    cases job with
    | run p c => exact evaluates_run ih' ha hl
    | rounds loop acc count c => exact evaluates_rounds ih' ha hl
    | roundsTill loop acc count c => exact evaluates_roundsTill ih' ha hl

/-- Over any pending work the machine ends a job exactly as the job evaluates. -/
theorem finishes_iff_evaluates (job : Job τ π ρ β) (ha : Agrees alive upkeep store (job.control k)) :
    Finishes upkeep k store (job.control k) store' result ↔ Evaluates alive k.holds store job store' result := by
  constructor
  · rintro ⟨n, hl⟩
    exact reflectsBelow (n + 1) n (Nat.lt_succ_self n) job k _ _ _ ha hl
  · intro h
    exact finishes_of_evaluates h k rfl ha

/-- With handles read as the machine reads them, nothing need be known of the definitions. -/
theorem finishes_iff_counted (job : Job τ π ρ β) :
    Finishes .counted k store (job.control k) store' result ↔ Evaluates .counted k.holds store job store' result :=
  finishes_iff_evaluates job (agrees_counted store (job.control k))

/-- Where definitions last, neither the pending work matters nor what it is that keeps them. -/
theorem finishes_iff_lasting {p : Parser τ π ρ β} {c : Cursor τ π} (ha : StaysAlive upkeep store (.eval p c k)) :
    Finishes upkeep k store (.eval p c k) store' result ↔ Evaluates .lasting [] store (.run p c) store' result := by
  have h : Finishes upkeep k store (.eval p c k) store' result ↔
      Evaluates .lasting k.holds store (.run p c) store' result :=
    finishes_iff_evaluates (.run p c) ha
  rw [h]
  exact ⟨fun h => h.of_lasting [], fun h => h.of_lasting k.holds⟩

end Complete

end Machine

namespace Parser

variable {σ : Type u} {τ π ρ α : Type} [Source σ τ] [LawfulSource σ τ] [Position π τ]

/-- The machine refines the direct reading of parsers, whatever it is that keeps the definitions. -/
theorem machine_refines_evaluation (p : Parser τ π ρ α) (store : Store σ τ π ρ) (c : Cursor τ π) :
    (∀ {ω : Type} (upkeep : Machine.Upkeep τ π ρ ω) (k : Stack τ π ρ α ω),
      Machine.StaysAlive upkeep store (.eval p c k) → ∀ store' : Store σ τ π ρ,
        (∀ reply, Machine.Finishes upkeep k store (.eval p c k) store' (.ok reply) ↔
          Evaluates .lasting [] store (.run p c) store' (.ok reply)) ∧
        ∀ e, Machine.Finishes upkeep k store (.eval p c k) store' (.error e) ↔
          Evaluates .lasting [] store (.run p c) store' (.error e)) ∧
    ∀ upkeep : Machine.Upkeep τ π ρ α, Machine.StaysAlive upkeep store (.eval p c .nil) →
      (∀ store' result, (∃ fuel, Machine.run upkeep fuel store (.eval p c .nil) = some ⟨store', result⟩) ↔
        Evaluates .lasting [] store (.run p c) store' result) ∧
      ((∀ fuel, Machine.run upkeep fuel store (.eval p c .nil) = none) ↔
        ¬ ∃ store' result, Evaluates .lasting [] store (.run p c) store' result) := by
  constructor
  · intro ω upkeep k ha store'
    constructor
    · intro reply
      exact Machine.finishes_iff_lasting ha
    · intro e
      exact Machine.finishes_iff_lasting ha
  · intro upkeep ha
    have hrun : ∀ store' result, (∃ fuel, Machine.run upkeep fuel store (.eval p c .nil) = some ⟨store', result⟩) ↔
        Evaluates .lasting [] store (.run p c) store' result := by
      intro store' result
      exact Machine.run_iff_leaves.trans (Machine.finishes_iff_lasting ha)
    refine ⟨hrun, ?_⟩
    constructor
    · rintro hnone ⟨store', result, h⟩
      obtain ⟨fuel, hf⟩ := (hrun store' result).mpr h
      rw [hnone fuel] at hf
      cases hf
    · intro h fuel
      cases hf : Machine.run upkeep fuel store (.eval p c .nil) with
      | none => rfl
      | some finish => exact absurd ⟨_, _, (hrun finish.store finish.result).mp ⟨fuel, hf⟩⟩ h

end Parser

/-- Nested brackets; the value is their depth. -/
def nesting : Builder Char TextPosition Nat (Parser Char TextPosition Nat Nat) :=
  Builder.fix fun self =>
    Builder.pure (((Parser.between (.token '(') self (.token ')')).map (· + 1)).withDefault 0)

def nestingStore (text : String) : Store (NoSource Char) Char TextPosition Nat :=
  .ofStream (.ofText text) (nesting.run .empty).2

/-- Rows of brackets, each behind an `a`. The definition of the brackets is made when the run begins, and from then
on only the callback of an item has it. -/
def rows : Parser Char TextPosition Nat (Array Nat) :=
  .drafted (nesting >>= fun self => Builder.pure (((Parser.token 'a').andThen fun _ => self).many))

theorem machine_refines_evaluation_rows :
    let store : Store (NoSource Char) Char TextPosition Nat := .ofStream (.ofText "a(())a") .empty
    let c : Cursor Char TextPosition := store.stream.start
    let k : Stack Char TextPosition Nat (Array Nat) Nat := .cons (.zipRight (fun first row => first + row.size) 5) .nil
    Machine.StaysAlive .lasting store (.eval rows c k) ∧ Machine.StaysAlive .lasting store (.eval rows c .nil) ∧
      ∃ store', Machine.Finishes .lasting k store (.eval rows c k) store'
        (.ok (.success #[2, 0] ⟨1, 0, ⟨1, 7, 6⟩, none⟩)) := by
  intro store c k
  have below : Machine.StaysAlive .lasting store (.eval rows c k) := Machine.staysAlive_lasting _ _
  have alone : Machine.StaysAlive .lasting store (.eval rows c .nil) := Machine.staysAlive_lasting _ _
  obtain ⟨above, whole⟩ := Parser.machine_refines_evaluation rows store c
  have evaluated := ((whole .lasting alone).1 _ (.ok (.success #[2, 0] ⟨1, 0, ⟨1, 7, 6⟩, none⟩))).mp ⟨80, rfl⟩
  exact ⟨below, alone, _, ((above .lasting k below _).1 _).mpr evaluated⟩

end StreamParsing
