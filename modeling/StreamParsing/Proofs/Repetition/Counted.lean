import StreamParsing.Parser.Repetition
import StreamParsing.Proofs.Machine.Refinement

/-!
Counted loops against one reference: the successive matches of the item, cut where the greatest number is reached, where
the item does not match, or where an unbounded loop that has its least number stands still. What the values are gathered
into is left open, so the reference serves loops that collect and loops that fold.
-/

namespace StreamParsing

set_option autoImplicit false

universe u

variable {σ : Type u} {τ π ρ α β ω : Type}

/-- How a parser ends when it is run on a store at a cursor. -/
abbrev Runs (σ : Type u) (τ π ρ α : Type) := Store σ τ π ρ → Cursor τ π → Store σ τ π ρ → Outcome τ π α → Prop

/-- An unbounded loop that has enough matches, the last of which moved from `before` to `c`, stands still. -/
structure Bounds.Stalled (b : Bounds) (count : Nat) (before : Option (Cursor τ π)) (c : Cursor τ π) : Prop where
  unbounded : b.max = none
  enough : b.min ≤ count
  still : ∃ d, before = some d ∧ c.same d = true

/-- No further match is tried after this many. -/
def Bounds.Cuts (b : Bounds) (count : Nat) (before : Option (Cursor τ π)) (c : Cursor τ π) : Prop :=
  b.max = some count ∨ b.Stalled count before c

/-- The values of the first matches from `c` on, each tried where the one before it ended and none of them after a cut;
then the place before the last of them, and the store and the place behind it. -/
inductive Series (runs : Runs σ τ π ρ α) (b : Bounds) (store : Store σ τ π ρ) (c : Cursor τ π) :
    List α → Option (Cursor τ π) → Store σ τ π ρ → Cursor τ π → Prop where
  | none : Series runs b store c [] none store c
  | more {values : List α} {value : α} {before : Option (Cursor τ π)} {mid store' : Store σ τ π ρ}
      {d d' : Cursor τ π} :
      Series runs b store c values before mid d → ¬ b.Cuts values.length before d →
        runs mid d store' (.ok (.success value d')) → Series runs b store c (values ++ [value]) (some d) store' d'

/-- How a counted loop over the matches ends, with the values gathered. -/
inductive Counted [Position π τ] (runs : Runs σ τ π ρ α) (b : Bounds) (gather : List α → β) (store : Store σ τ π ρ)
    (c : Cursor τ π) : Store σ τ π ρ → Outcome τ π β → Prop where
  | full {values : List α} {before : Option (Cursor τ π)} {store' : Store σ τ π ρ} {d : Cursor τ π} :
      Series runs b store c values before store' d → b.max = some values.length →
        Counted runs b gather store c store' (.ok (.success (gather values) d))
  | stalled {values : List α} {before : Option (Cursor τ π)} {store' : Store σ τ π ρ} {d : Cursor τ π} :
      Series runs b store c values before store' d → b.Stalled values.length before d →
        Counted runs b gather store c
          { store' with log := store'.log.push (.stalled (Position.place τ d.position)) }
          (.ok (.success (gather values) d))
  | missed {values : List α} {before : Option (Cursor τ π)} {mid store' : Store σ τ π ρ} {d : Cursor τ π}
      {fault : Fault τ π} :
      Series runs b store c values before mid d → ¬ b.Cuts values.length before d →
        runs mid d store' (.ok (.failure fault)) →
          Counted runs b gather store c store'
            (.ok (if values.length < b.min then .failure fault else .success (gather values) d))
  | stopped {values : List α} {before : Option (Cursor τ π)} {mid store' : Store σ τ π ρ} {d : Cursor τ π}
      {first : Outcome τ π α} {result : Outcome τ π β} :
      Series runs b store c values before mid d → ¬ b.Cuts values.length before d →
        runs mid d store' first → Firm first → Passes first result → Counted runs b gather store c store' result

namespace Series

variable {runs runs' : Runs σ τ π ρ α} {b : Bounds} {store mid : Store σ τ π ρ} {c d : Cursor τ π} {values : List α}
variable {before : Option (Cursor τ π)}

theorem length_le (h : Series runs b store c values before mid d) {max : Nat} (hmax : b.max = some max) :
    values.length ≤ max := by
  induction h with
  | none => exact Nat.zero_le _
  | more _ huncut _ ih =>
    rw [List.length_append, List.length_singleton]
    refine Nat.lt_of_le_of_ne ih ?_
    intro heq
    exact huncut (.inl (heq ▸ hmax))

/-- The loop may go on unless it has reached its greatest number exactly. -/
theorem reached_iff (h : Series runs b store c values before mid d) :
    b.reached values.length = true ↔ b.max = some values.length := by
  cases hmax : b.max with
  | none => simp [Bounds.reached, hmax]
  | some max =>
    have hle := h.length_le hmax
    simp only [Bounds.reached, hmax, decide_eq_true_eq, Option.some.injEq]
    omega

theorem not_reached (h : Series runs b store c values before mid d) (huncut : ¬ b.Cuts values.length before d) :
    b.reached values.length = false := by
  rw [Bool.eq_false_iff, ne_eq, h.reached_iff]
  exact fun hfull => huncut (.inl hfull)

theorem not_cuts (h : Series runs b store c values before mid d) (hopen : b.reached values.length = false)
    (hstill : ¬ b.Stalled values.length before d) : ¬ b.Cuts values.length before d := by
  rintro (hfull | hstalled)
  · rw [h.reached_iff.mpr hfull] at hopen
    cases hopen
  · exact hstill hstalled

end Series

theorem Bounds.stalled_iff {b : Bounds} {count : Nat} {c d : Cursor τ π} :
    b.Stalled count (some c) d ↔ (d.same c && b.stallsAt count) = true := by
  simp only [stallsAt, Bool.and_eq_true, Option.isNone_iff_eq_none, decide_eq_true_eq]
  constructor
  · rintro ⟨hmax, hmin, _, ⟨⟩, hsame⟩
    exact ⟨hsame, hmax, hmin⟩
  · rintro ⟨hsame, hmax, hmin⟩
    exact ⟨hmax, hmin, c, rfl, hsame⟩

section Rounds

variable [Source σ τ] [Position π τ] {alive : Liveness τ π ρ} {held : List Nat}
variable {store mid store' : Store σ τ π ρ} {c d : Cursor τ π} {loop : Loop τ π ρ α β} {acc : β}
variable {values : List α} {before : Option (Cursor τ π)} {result : Outcome τ π β}

/-- The item of a loop, evaluated while the loop is pending. -/
def Loop.runs (loop : Loop τ π ρ α β) (alive : Liveness τ π ρ) (held : List Nat) : Runs σ τ π ρ α :=
  fun store c store' result => Evaluates alive (loop.holds ++ held) store (.run loop.item c) store' result

/-- A loop that goes on after some matches is a loop that begins before them. -/
theorem Series.evaluates_rounds
    (h : Series (loop.runs alive held) loop.bounds store c values before mid d)
    (hstill : ¬ loop.bounds.Stalled values.length before d)
    (hrest : Evaluates alive held mid (.rounds loop (values.foldl loop.step acc) values.length d) store' result) :
    Evaluates alive held store (.rounds loop acc 0 c) store' result := by
  induction h generalizing store' result with
  | none => exact hrest
  | @more values value before mid _ d d' hseries huncut hrun ih =>
    rw [List.foldl_append, List.length_append] at hrest
    rw [List.length_append, Bounds.stalled_iff, Bool.not_eq_true] at hstill
    exact ih (fun h => huncut (.inr h)) (.rounds_next (hseries.not_reached huncut) hrun hstill hrest)

/-- A loop that has come so far ends as the reference says of the whole. -/
theorem Series.counted
    (h : Series (loop.runs alive held) loop.bounds store c values before mid d)
    (hstill : ¬ loop.bounds.Stalled values.length before d)
    (hrest : Evaluates alive held mid (.rounds loop (values.foldl loop.step acc) values.length d) store' result) :
    Counted (loop.runs alive held) loop.bounds (·.foldl loop.step acc) store c store' result := by
  generalize hjob : Job.rounds loop (values.foldl loop.step acc) values.length d = job at hrest
  induction hrest generalizing values before d with
  | rounds_reached hreached =>
    cases hjob
    exact .full h (h.reached_iff.mp hreached)
  | rounds_stalled hopen hrun hstalled =>
    cases hjob
    have hmore := h.more (h.not_cuts hopen hstill) hrun
    have hstalled' := Bounds.stalled_iff.mpr hstalled
    rw [← List.length_singleton, ← List.length_append] at hstalled'
    have hclosed : Counted (loop.runs alive _) loop.bounds (·.foldl loop.step acc) store c _ _ :=
      .stalled hmore hstalled'
    rwa [List.foldl_append] at hclosed
  | rounds_next hopen hrun hmoving _ _ ih =>
    cases hjob
    have hmore := h.more (h.not_cuts hopen hstill) hrun
    refine ih hmore ?_ ?_
    · rw [List.length_append, Bounds.stalled_iff, List.length_singleton, hmoving]
      exact Bool.false_ne_true
    · rw [List.foldl_append, List.length_append, List.length_singleton]
      rfl
  | rounds_failed hopen hrun =>
    cases hjob
    exact .missed h (h.not_cuts hopen hstill) hrun
  | rounds_stopped hopen hrun firm pass =>
    cases hjob
    exact .stopped h (h.not_cuts hopen hstill) hrun firm pass
  | _ => cases hjob

theorem evaluates_rounds_iff_counted :
    Evaluates alive held store (.rounds loop acc 0 c) store' result ↔
      Counted (loop.runs alive held) loop.bounds (·.foldl loop.step acc) store c store' result := by
  constructor
  · intro h
    refine Series.none.counted ?_ h
    rintro ⟨-, -, _, ⟨⟩, -⟩
  · intro h
    cases h with
    | full hseries hfull =>
      refine hseries.evaluates_rounds (fun hstalled => ?_) (.rounds_reached (hseries.reached_iff.mpr hfull))
      rw [hstalled.unbounded] at hfull
      cases hfull
    | stalled hseries hstalled =>
      cases hseries with
      | none =>
        obtain ⟨-, -, _, ⟨⟩, -⟩ := hstalled
      | more hseries huncut hrun =>
        rw [List.length_append, Bounds.stalled_iff] at hstalled
        rw [List.foldl_append]
        exact hseries.evaluates_rounds (fun h => huncut (.inr h))
          (.rounds_stalled (hseries.not_reached huncut) hrun hstalled)
    | missed hseries huncut hrun =>
      exact hseries.evaluates_rounds (fun h => huncut (.inr h)) (.rounds_failed (hseries.not_reached huncut) hrun)
    | stopped hseries huncut hrun firm pass =>
      exact hseries.evaluates_rounds (fun h => huncut (.inr h))
        (.rounds_stopped (hseries.not_reached huncut) hrun firm pass)

end Rounds

section Seeded

variable [Source σ τ] [Position π τ] {alive : Liveness τ π ρ} {held : List Nat} {store store' : Store σ τ π ρ}
variable {c : Cursor τ π} {item : Parser τ π ρ α} {step : β → α → β} {b : Bounds} {acc : β}

theorem evaluates_loop_pure_iff {result : Outcome τ π β} :
    Evaluates alive held store (.run (.loop (.pure acc) item step b) c) store' result ↔
      Evaluates alive held store (.rounds ⟨.pure acc, item, step, b⟩ acc 0 c) store' result := by
  constructor
  · intro h
    cases h with
    | loop_seeded hseed hrounds =>
      cases hseed
      exact hrounds
    | loop_stopped hseed pass =>
      cases hseed
      cases pass
  · exact .loop_seeded .pure

def Parser.runs (p : Parser τ π ρ α) (alive : Liveness τ π ρ) (held : List Nat) : Runs σ τ π ρ α :=
  fun store c store' result => Evaluates alive (p.holds ++ held) store (.run p c) store' result

theorem evaluates_collect_iff_counted {p : Parser τ π ρ α} {result : Outcome τ π (Array α)} :
    Evaluates alive held store (.run (p.collect b) c) store' result ↔
      Counted (p.runs alive held) b List.toArray store c store' result := by
  have hgather : (fun values : List α => values.foldl Array.push #[]) = List.toArray := by
    funext values
    simp
  rw [Parser.collect, evaluates_loop_pure_iff, evaluates_rounds_iff_counted, ← hgather]
  rfl

end Seeded

namespace Counted

variable [Position π τ] {runs : Runs σ τ π ρ α} {b : Bounds} {gather : List α → β} {store store' : Store σ τ π ρ}
variable {c d : Cursor τ π} {fault : Fault τ π}

/-- A loop that fails has too few matches, and the item failed with the same fault. -/
theorem exists_of_failure (h : Counted runs b gather store c store' (.ok (.failure fault))) :
    ∃ values before mid d, Series runs b store c values before mid d ∧ values.length < b.min ∧
      runs mid d store' (.ok (.failure fault)) := by
  generalize hr : (Except.ok (.failure fault) : Outcome τ π β) = result at h
  cases h with
  | full | stalled => cases hr
  | missed hseries _ hrun =>
    split at hr
    · rename_i hfew
      cases hr
      exact ⟨_, _, _, _, hseries, hfew, hrun⟩
    · cases hr
  | stopped _ _ _ firm pass =>
    subst hr
    cases pass
    exact absurd rfl (firm fault)

/-- A loop that succeeds has gathered all matches up to the place where it ends, and enough of them. -/
theorem exists_of_success {value : β} (h : Counted runs b gather store c store' (.ok (.success value d))) :
    ∃ values before mid, Series runs b store c values before mid d ∧ value = gather values ∧
      (b.max = some values.length ∨ b.min ≤ values.length) := by
  generalize hr : (Except.ok (.success value d) : Outcome τ π β) = result at h
  cases h with
  | full hseries hfull =>
    cases hr
    exact ⟨_, _, _, hseries, rfl, .inl hfull⟩
  | stalled hseries hstalled =>
    cases hr
    exact ⟨_, _, _, hseries, rfl, .inr hstalled.enough⟩
  | missed hseries _ hrun =>
    split at hr
    · cases hr
    · rename_i henough
      cases hr
      exact ⟨_, _, _, hseries, rfl, .inr (Nat.le_of_not_lt henough)⟩
  | stopped _ _ _ _ pass =>
    subst hr
    cases pass

theorem not_failure (h : Counted runs (.atLeast 0) gather store c store' (.ok (.failure fault))) : False := by
  obtain ⟨values, _, _, _, _, hfew, _⟩ := h.exists_of_failure
  exact Nat.not_lt_zero _ hfew

theorem failure_iff : Counted runs (.atLeast 1) gather store c store' (.ok (.failure fault)) ↔
    runs store c store' (.ok (.failure fault)) := by
  constructor
  · intro h
    obtain ⟨values, _, _, _, hseries, hfew, hrun⟩ := h.exists_of_failure
    cases hseries with
    | none => exact hrun
    | more =>
      rw [List.length_append, List.length_singleton] at hfew
      simp [Bounds.atLeast] at hfew
  · intro hrun
    have huncut : ¬ (Bounds.atLeast 1).Cuts 0 none c := by
      rintro (⟨⟨⟩⟩ | ⟨-, -, _, ⟨⟩, -⟩)
    exact .missed .none huncut hrun

theorem length_eq {n : Nat} {value : β} (h : Counted runs (.exactly n) gather store c store' (.ok (.success value d))) :
    ∃ values, value = gather values ∧ values.length = n := by
  obtain ⟨values, before, mid, hseries, rfl, hcount⟩ := h.exists_of_success
  have hle : values.length ≤ n := hseries.length_le rfl
  refine ⟨values, rfl, ?_⟩
  rcases hcount with hfull | henough
  · exact (Option.some.inj hfull).symm
  · exact Nat.le_antisymm hle henough

end Counted

section Runs

variable {runs runs' : Runs σ τ π ρ α} {b : Bounds} {gather : List α → β} (good : Store σ τ π ρ → Prop)
variable {store mid store' : Store σ τ π ρ} {c d : Cursor τ π} {values : List α} {before : Option (Cursor τ π)}
variable (himp : ∀ s d s' r, good s → runs s d s' r → runs' s d s' r)
variable (hkeep : ∀ s d s' v d', good s → runs s d s' (.ok (.success v d')) → good s')
include himp hkeep

theorem Series.imp (hgood : good store) (h : Series runs b store c values before mid d) :
    Series runs' b store c values before mid d ∧ good mid := by
  induction h with
  | none => exact ⟨.none, hgood⟩
  | more _ huncut hrun ih => exact ⟨.more ih.1 huncut (himp _ _ _ _ ih.2 hrun), hkeep _ _ _ _ _ ih.2 hrun⟩

theorem Counted.imp [Position π τ] {result : Outcome τ π β} (hgood : good store) (h : Counted runs b gather store c store' result) :
    Counted runs' b gather store c store' result := by
  cases h with
  | full hseries hfull => exact .full (hseries.imp good himp hkeep hgood).1 hfull
  | stalled hseries hstalled => exact .stalled (hseries.imp good himp hkeep hgood).1 hstalled
  | missed hseries huncut hrun =>
    obtain ⟨hseries, hmid⟩ := hseries.imp good himp hkeep hgood
    exact .missed hseries huncut (himp _ _ _ _ hmid hrun)
  | stopped hseries huncut hrun firm pass =>
    obtain ⟨hseries, hmid⟩ := hseries.imp good himp hkeep hgood
    exact .stopped hseries huncut (himp _ _ _ _ hmid hrun) firm pass

end Runs

namespace Parser

variable [Source σ τ] [LawfulSource σ τ] [Position π τ] {store store' : Store σ τ π ρ} {c : Cursor τ π}
variable {p : Parser τ π ρ α}

def ends (p : Parser τ π ρ α) : Runs σ τ π ρ α :=
  fun store c store' result => ∃ fuel, p.run fuel store c = some ⟨store', result⟩

theorem ends_iff_finishes {result : Outcome τ π α} :
    p.ends store c store' result ↔ Machine.Finishes .counted .nil store (.eval p c .nil) store' result :=
  Machine.run_iff_leaves

theorem ends_iff_counted {result : Outcome τ π α} :
    p.ends store c store' result ↔ Evaluates .counted [] store (.run p c) store' result :=
  ends_iff_finishes.trans (Machine.finishes_iff_counted (k := .nil) (.run p c))

/-- Where the caller holds all rules, it does not matter what else holds them. -/
theorem ends_iff_evaluates (hrules : store.rules.Kept) (hp : p.Steady) {result : Outcome τ π α}
    {k : Stack τ π ρ α ω} (hk : k.Steady) :
    p.ends store c store' result ↔ Evaluates .counted k.holds store (.run p c) store' result := by
  have halone : Machine.StaysAlive .counted store (.eval p c .nil) := Machine.staysAlive_of_kept hrules ⟨hp, trivial⟩
  have hheld : Machine.StaysAlive .counted store (.eval p c k) := Machine.staysAlive_of_kept hrules ⟨hp, hk⟩
  calc p.ends store c store' result
    _ ↔ Machine.Finishes .counted .nil store (.eval p c .nil) store' result := ends_iff_finishes
    _ ↔ Evaluates .lasting [] store (.run p c) store' result := Machine.finishes_iff_lasting halone
    _ ↔ Machine.Finishes .counted k store (.eval p c k) store' result := (Machine.finishes_iff_lasting hheld).symm
    _ ↔ Evaluates .counted k.holds store (.run p c) store' result := Machine.finishes_iff_counted (.run p c)

theorem ends_iff_runs (hrules : store.rules.Kept) (hp : p.Steady) {result : Outcome τ π α} :
    p.ends store c store' result ↔ p.runs .counted [] store c store' result := by
  let k : Stack τ π ρ α α := .cons (.orElse p c) .nil
  have hk : k.Steady := ⟨hp, trivial⟩
  exact ends_iff_evaluates hrules hp hk

theorem kept_of_ends (hrules : store.rules.Kept) (hp : p.Steady) {reply : Reply τ π α}
    (h : p.ends store c store' (.ok reply)) : store'.rules.Kept := by
  have hpath := (ends_iff_finishes.mp h).path
  exact (Machine.steady_of_path hpath hrules ⟨hp, trivial⟩).1

/-- The loop `q` ends as the reference says of the matches of `p`: over any pending work; and by itself, with plain runs
of `p`, where the caller holds all rules. -/
structure Repeats (σ : Type u) [Source σ τ] (q : Parser τ π ρ (Array α)) (p : Parser τ π ρ α) (b : Bounds) :
    Prop where
  pending : ∀ {ω : Type} (k : Stack τ π ρ (Array α) ω) (store store' : Store σ τ π ρ) (c : Cursor τ π)
    (result : Outcome τ π (Array α)), Machine.Finishes .counted k store (.eval q c k) store' result ↔
      Counted (p.runs .counted k.holds) b List.toArray store c store' result
  alone : p.Steady → ∀ (store store' : Store σ τ π ρ) (c : Cursor τ π) (result : Outcome τ π (Array α)),
    store.rules.Kept →
      ((∃ fuel, q.run fuel store c = some ⟨store', result⟩) ↔
        Counted p.ends b List.toArray store c store' result)

theorem repeats_collect (p : Parser τ π ρ α) (b : Bounds) : (p.collect b).Repeats σ p b := by
  have pending {ω : Type} (k : Stack τ π ρ (Array α) ω) (store store' : Store σ τ π ρ) (c : Cursor τ π)
      (result : Outcome τ π (Array α)) : Machine.Finishes .counted k store (.eval (p.collect b) c k) store' result ↔
        Counted (p.runs .counted k.holds) b List.toArray store c store' result :=
    (Machine.finishes_iff_counted (.run (p.collect b) c)).trans evaluates_collect_iff_counted
  refine ⟨pending, ?_⟩
  intro hp store store' c result hrules
  refine ends_iff_finishes.trans ((pending .nil store store' c result).trans ?_)
  -- The rules stay held from one match to the next.
  have hiff (s : Store σ τ π ρ) (d : Cursor τ π) (s' : Store σ τ π ρ) (r : Outcome τ π α) (hs : s.rules.Kept) :
      p.ends s d s' r ↔ p.runs .counted [] s d s' r := ends_iff_runs hs hp
  constructor
  · refine Counted.imp (·.rules.Kept) (fun s d s' r hs => (hiff s d s' r hs).mpr) ?_ hrules
    exact fun s d s' v d' hs hrun => kept_of_ends hs hp ((hiff s d s' _ hs).mpr hrun)
  · refine Counted.imp (·.rules.Kept) (fun s d s' r hs => (hiff s d s' r hs).mp) ?_ hrules
    exact fun s d s' v d' hs hrun => kept_of_ends hs hp hrun

/-- The counted loops meet the reference; so an unbounded loop without a least number never fails, one that needs a match
fails just as its item does, and one with a given number of matches has that many. -/
theorem counted_loops_repeat (p : Parser τ π ρ α) :
    p.many.Repeats σ p ⟨0, none⟩ ∧ p.many1.Repeats σ p ⟨1, none⟩ ∧ (∀ n, (p.atLeast n).Repeats σ p ⟨n, none⟩) ∧
    (∀ n, (p.times n).Repeats σ p ⟨n, some n⟩) ∧
    (∀ low high, (p.repeatBetween low high).Repeats σ p ⟨low, some (max low high)⟩) ∧
    ∀ {ω : Type} (k : Stack τ π ρ (Array α) ω) (store store' : Store σ τ π ρ) (c : Cursor τ π),
      (∀ fault, ¬ Machine.Finishes .counted k store (.eval p.many c k) store' (.ok (.failure fault))) ∧
      (∀ fault, Machine.Finishes .counted k store (.eval p.many1 c k) store' (.ok (.failure fault)) ↔
        p.runs .counted k.holds store c store' (.ok (.failure fault))) ∧
      ∀ n values d, Machine.Finishes .counted k store (.eval (p.times n) c k) store' (.ok (.success values d)) →
        values.size = n := by
  refine ⟨repeats_collect p _, repeats_collect p _, fun n => repeats_collect p _, fun n => repeats_collect p _, ?_, ?_⟩
  · intro low high
    rw [Nat.max_comm]
    exact repeats_collect p _
  · intro ω k store store' c
    refine ⟨?_, ?_, ?_⟩
    · intro fault h
      exact (((repeats_collect p (.atLeast 0)).pending k store store' c _).mp h).not_failure
    · intro fault
      exact ((repeats_collect p (.atLeast 1)).pending k store store' c _).trans Counted.failure_iff
    · intro n values d h
      obtain ⟨matched, rfl, hlength⟩ :=
        (((repeats_collect p (.exactly n)).pending k store store' c _).mp h).length_eq
      rw [List.size_toArray, hlength]

/-- Two letters, and a third that is no match. -/
theorem counted_loops_repeat_letters :
    let p : Parser Char LinearPosition Empty Char := .satisfy (· == 'a')
    let store : Store (NoSource Char) Char LinearPosition Empty := .ofStream (.ofText "aab") .empty
    let c : Cursor Char LinearPosition := store.stream.start
    p.Steady ∧ store.rules.Kept ∧
      Counted p.ends ⟨0, none⟩ List.toArray store c store (.ok (.success #['a', 'a'] ⟨0, 2, ⟨2⟩, some 'b'⟩)) ∧
      Counted p.ends ⟨3, some 3⟩ List.toArray store c store (.ok (.failure (.unexpected ⟨0, 2, ⟨2⟩, some 'b'⟩))) := by
  intro p store c
  have hp : p.Steady := .satisfy _
  have hrules : store.rules.Kept := by
    intro entry hmem
    cases Array.not_mem_empty entry hmem
  obtain ⟨many, -, -, times, -⟩ := counted_loops_repeat (σ := NoSource Char) p
  exact ⟨hp, hrules, (many.alone hp store store c _ hrules).mp ⟨20, rfl⟩,
    ((times 3).alone hp store store c _ hrules).mp ⟨20, rfl⟩⟩

end Parser

end StreamParsing
