import StreamParsing.Proofs.Machine.Holding
import StreamParsing.Proofs.Repetition.Counted

/-!
How composed parsers end, in terms of how their parts end. Two ways to combine outcomes suffice: to go on with the value
of a success, and to change it. Loops over a first value are added to the counted ones.
-/

namespace StreamParsing

set_option autoImplicit false

universe u

variable {σ : Type u} {τ π ρ α β γ δ ω : Type}

/-- Only the members of what the pending work holds matter to an evaluation. -/
theorem Evaluates.of_members [Source σ τ] [Position π τ] {held held' : List Nat} {store store' : Store σ τ π ρ}
    {job : Job τ π ρ α} {result : Outcome τ π α} (h : Evaluates .counted held store job store' result)
    (hheld : ∀ n, n ∈ held ↔ n ∈ held') : Evaluates .counted held' store job store' result := by
  refine h.of_held (R := fun _ held held' => ∀ n, n ∈ held ↔ n ∈ held') ?_ ?_ ?_ hheld
  · exact fun held held' => ⟨fun h _ => h, fun _ h => h⟩
  · intro rules held held' own h n
    rw [List.mem_append, List.mem_append, h]
  · intro rules held held' h number
    rw [Liveness.counted, Liveness.counted, Rules.isHeld_congr h]

namespace Runs

def Mapped (f : α → β) (runs : Runs σ τ π ρ α) : Runs σ τ π ρ β :=
  fun store c store' result => ∃ first, runs store c store' first ∧ result = first.map (Reply.map f)

/-- One run and, behind its success, another that is given the value; what is no success ends both. -/
inductive Then (first : Runs σ τ π ρ α) (next : α → Runs σ τ π ρ β) (store : Store σ τ π ρ) (c : Cursor τ π) :
    Store σ τ π ρ → Outcome τ π β → Prop where
  | next {mid store' : Store σ τ π ρ} {value : α} {d : Cursor τ π} {result : Outcome τ π β} :
      first store c mid (.ok (.success value d)) → next value mid d store' result → Then first next store c store' result
  | stopped {store' : Store σ τ π ρ} {outcome : Outcome τ π α} {result : Outcome τ π β} :
      first store c store' outcome → Passes outcome result → Then first next store c store' result

/-- One run and, if it fails, another from the same place. -/
inductive Else (first second : Runs σ τ π ρ α) (store : Store σ τ π ρ) (c : Cursor τ π) :
    Store σ τ π ρ → Outcome τ π α → Prop where
  | first {store' : Store σ τ π ρ} {result : Outcome τ π α} :
      first store c store' result → Firm result → Else first second store c store' result
  | second {mid store' : Store σ τ π ρ} {fault : Fault τ π} {result : Outcome τ π α} :
      first store c mid (.ok (.failure fault)) → second mid c store' result → Else first second store c store' result

protected theorem ext {runs runs' : Runs σ τ π ρ α}
    (h : ∀ store c store' result, runs store c store' result ↔ runs' store c store' result) : runs = runs' := by
  funext store c store' result
  exact propext (h store c store' result)

section

variable {runs first : Runs σ τ π ρ α} {next : α → Runs σ τ π ρ β}

theorem passes_of_map {f : α → β} {outcome : Outcome τ π α} {result : Outcome τ π γ}
    (h : Passes (outcome.map (Reply.map f)) result) : Passes outcome result := by
  cases outcome with
  | error e => cases h; exact .error e
  | ok reply =>
    cases reply with
    | success value d => cases h
    | failure fault => cases h; exact .failure fault
    | abort fault => cases h; exact .abort fault

theorem map_of_passes {f : β → γ} {outcome : Outcome τ π α} {result : Outcome τ π β} (h : Passes outcome result) :
    Passes outcome (result.map (Reply.map f)) := by
  cases h with
  | failure fault => exact .failure fault
  | abort fault => exact .abort fault
  | error e => exact .error e

theorem mapped_mapped (f : α → β) (g : β → γ) : Mapped g (Mapped f runs) = Mapped (g ∘ f) runs := by
  have hcomp (outcome : Outcome τ π α) :
      (outcome.map (Reply.map f)).map (Reply.map g) = outcome.map (Reply.map (g ∘ f)) := by
    rcases outcome with e | (_ | _ | _) <;> rfl
  refine Runs.ext fun store c store' result => ?_
  constructor
  · rintro ⟨_, ⟨outcome, h, rfl⟩, rfl⟩
    exact ⟨outcome, h, hcomp outcome⟩
  · rintro ⟨outcome, h, rfl⟩
    exact ⟨_, ⟨outcome, h, rfl⟩, (hcomp outcome).symm⟩

theorem mapped_id : Mapped id runs = runs := by
  have hid (outcome : Outcome τ π α) : outcome.map (Reply.map id) = outcome := by
    rcases outcome with e | (_ | _ | _) <;> rfl
  refine Runs.ext fun store c store' result => ?_
  constructor
  · rintro ⟨outcome, h, rfl⟩
    rwa [hid]
  · exact fun h => ⟨result, h, (hid result).symm⟩

theorem then_mapped (f : γ → α) (first : Runs σ τ π ρ γ) : Then (Mapped f first) next = Then first fun c => next (f c) := by
  refine Runs.ext fun store c store' result => ?_
  constructor
  · intro h
    cases h with
    | next hfirst hnext =>
      obtain ⟨outcome, hfirst, heq⟩ := hfirst
      rcases outcome with e | (⟨value, d⟩ | fault | fault) <;> cases heq
      exact .next hfirst hnext
    | stopped hfirst pass =>
      obtain ⟨outcome, hfirst, rfl⟩ := hfirst
      exact .stopped hfirst (passes_of_map pass)
  · intro h
    cases h with
    | next hfirst hnext => exact .next ⟨_, hfirst, rfl⟩ hnext
    | @stopped _ outcome _ hfirst pass =>
      refine .stopped ⟨outcome, hfirst, rfl⟩ ?_
      cases pass with
      | failure fault => exact .failure fault
      | abort fault => exact .abort fault
      | error e => exact .error e

theorem mapped_then (f : β → γ) : Mapped f (Then first next) = Then first fun a => Mapped f (next a) := by
  refine Runs.ext fun store c store' result => ?_
  constructor
  · rintro ⟨outcome, h, rfl⟩
    cases h with
    | next hfirst hnext => exact .next hfirst ⟨_, hnext, rfl⟩
    | stopped hfirst pass => exact .stopped hfirst (map_of_passes pass)
  · intro h
    cases h with
    | next hfirst hnext =>
      obtain ⟨outcome, hnext, rfl⟩ := hnext
      exact ⟨outcome, .next hfirst hnext, rfl⟩
    | stopped hfirst pass =>
      cases pass with
      | failure fault => exact ⟨_, .stopped hfirst (.failure fault), rfl⟩
      | abort fault => exact ⟨_, .stopped hfirst (.abort fault), rfl⟩
      | error e => exact ⟨_, .stopped hfirst (.error e), rfl⟩

theorem success_of_then {store store' : Store σ τ π ρ} {c d : Cursor τ π} {value : β}
    (h : Then first next store c store' (.ok (.success value d))) :
    ∃ a mid e, first store c mid (.ok (.success a e)) ∧ next a mid e store' (.ok (.success value d)) := by
  generalize hr : (Except.ok (.success value d) : Outcome τ π β) = result at h
  cases h with
  | next hfirst hnext => exact ⟨_, _, _, hfirst, hr ▸ hnext⟩
  | stopped _ pass =>
    subst hr
    cases pass

theorem failure_of_mapped {f : α → β} {store store' : Store σ τ π ρ} {c : Cursor τ π} {fault : Fault τ π} :
    Mapped f runs store c store' (.ok (.failure fault)) ↔ runs store c store' (.ok (.failure fault)) := by
  constructor
  · rintro ⟨outcome, h, heq⟩
    rcases outcome with e | (_ | _ | _) <;> cases heq
    exact h
  · exact fun h => ⟨_, h, rfl⟩

theorem success_of_mapped {f : α → β} {store store' : Store σ τ π ρ} {c d : Cursor τ π} {value : β}
    (h : Mapped f runs store c store' (.ok (.success value d))) :
    ∃ a, runs store c store' (.ok (.success a d)) ∧ value = f a := by
  obtain ⟨outcome, h, heq⟩ := h
  rcases outcome with e | (⟨a, e⟩ | fault | fault) <;> cases heq
  exact ⟨a, h, rfl⟩

/-- What a counted loop gathers may be changed afterwards. -/
theorem mapped_counted [Position π τ] {b : Bounds} {gather : List α → β} (f : β → γ) :
    Mapped f (Counted runs b gather) = Counted runs b (f ∘ gather) := by
  refine Runs.ext fun store c store' result => ?_
  constructor
  · rintro ⟨outcome, h, rfl⟩
    cases h with
    | full hseries hfull => exact .full hseries hfull
    | stalled hseries hstalled => exact .stalled hseries hstalled
    | @missed values _ _ _ _ fault hseries huncut hrun =>
      have h : Counted runs b (f ∘ gather) store c _ _ := .missed hseries huncut hrun
      by_cases hfew : values.length < b.min
      · rw [if_pos hfew] at h ⊢
        exact h
      · rw [if_neg hfew] at h ⊢
        exact h
    | stopped hseries huncut hrun firm pass => exact .stopped hseries huncut hrun firm (map_of_passes pass)
  · intro h
    cases h with
    | full hseries hfull => exact ⟨_, .full hseries hfull, rfl⟩
    | stalled hseries hstalled => exact ⟨_, .stalled hseries hstalled, rfl⟩
    | @missed values _ _ _ _ fault hseries huncut hrun =>
      refine ⟨_, .missed hseries huncut hrun, ?_⟩
      split <;> rfl
    | stopped hseries huncut hrun firm pass =>
      cases pass with
      | failure fault => exact ⟨_, .stopped hseries huncut hrun firm (.failure fault), rfl⟩
      | abort fault => exact ⟨_, .stopped hseries huncut hrun firm (.abort fault), rfl⟩
      | error e => exact ⟨_, .stopped hseries huncut hrun firm (.error e), rfl⟩

end

end Runs

/-- From good stores the first run ends only as the second does, and its replies leave good stores. -/
structure Runs.Refines (good : Store σ τ π ρ → Prop) (runs runs' : Runs σ τ π ρ α) : Prop where
  imp : ∀ {store store' : Store σ τ π ρ} {c : Cursor τ π} {result : Outcome τ π α},
    good store → runs store c store' result → runs' store c store' result
  keep : ∀ {store store' : Store σ τ π ρ} {c : Cursor τ π} {reply : Reply τ π α},
    good store → runs store c store' (.ok reply) → good store'

theorem Runs.Refines.andThen {good : Store σ τ π ρ → Prop} {first first' : Runs σ τ π ρ α}
    {next next' : α → Runs σ τ π ρ β} (h : Runs.Refines good first first')
    (h' : ∀ a, Runs.Refines good (next a) (next' a)) :
    Runs.Refines good (Runs.Then first next) (Runs.Then first' next') where
  imp hgood hrun := by
    cases hrun with
    | next hfirst hnext => exact .next (h.imp hgood hfirst) ((h' _).imp (h.keep hgood hfirst) hnext)
    | stopped hfirst pass => exact .stopped (h.imp hgood hfirst) pass
  keep {store store' c reply} hgood hrun := by
    generalize hr : (Except.ok reply : Outcome τ π β) = result at hrun
    cases hrun with
    | next hfirst hnext =>
      subst hr
      exact (h' _).keep (h.keep hgood hfirst) hnext
    | stopped hfirst pass =>
      subst hr
      cases pass <;> exact h.keep hgood hfirst

namespace Parser

variable [Source σ τ] [Position π τ] {alive : Liveness τ π ρ} {held held' : List Nat}

/-- How the parser ends while the rules `held` are held by what surrounds it. -/
def outcomes (p : Parser τ π ρ α) (alive : Liveness τ π ρ) (held : List Nat) : Runs σ τ π ρ α :=
  fun store c store' result => Evaluates alive held store (.run p c) store' result

variable {p : Parser τ π ρ α} {q : Parser τ π ρ β} {seed : Parser τ π ρ β} {item : Parser τ π ρ α}
variable {step : β → α → β} {b : Bounds}

theorem outcomes_congr (h : ∀ n, n ∈ held ↔ n ∈ held') :
    (p.outcomes .counted held : Runs σ τ π ρ α) = p.outcomes .counted held' :=
  Runs.ext fun _ _ _ _ => ⟨fun hp => hp.of_members h, fun hp => hp.of_members fun n => (h n).symm⟩

theorem outcomes_map (f : α → β) :
    ((p.map f).outcomes alive held : Runs σ τ π ρ β) = Runs.Mapped f (p.outcomes alive held) := by
  have hconvert (c : Cursor τ π) (outcome : Outcome τ π α) :
      outcome.map (Reply.convert (fun a => .ok (f a)) c) = outcome.map (Reply.map f) := by
    rcases outcome with e | (_ | _ | _) <;> rfl
  refine Runs.ext fun store c store' result => ?_
  constructor
  · intro h
    cases h with
    | tryMap h => exact ⟨_, h, hconvert c _⟩
  · rintro ⟨outcome, h, rfl⟩
    rw [← hconvert c]
    exact .tryMap h

theorem outcomes_zipWith (f : α → β → γ) : ((zipWith f p q).outcomes alive held : Runs σ τ π ρ γ) =
    Runs.Then (p.outcomes alive (q.holds ++ held)) fun a => Runs.Mapped (f a) (q.outcomes alive held) := by
  refine Runs.ext fun store c store' result => ?_
  constructor
  · intro h
    cases h with
    | zip_next hp hq => exact .next hp ⟨_, hq, rfl⟩
    | zip_stopped hp pass => exact .stopped hp pass
  · intro h
    cases h with
    | next hp hq =>
      obtain ⟨outcome, hq, rfl⟩ := hq
      exact .zip_next hp hq
    | stopped hp pass => exact .zip_stopped hp pass

theorem outcomes_keepRight : ((p.keepRight q).outcomes alive held : Runs σ τ π ρ β) =
    Runs.Then (p.outcomes alive (q.holds ++ held)) fun _ => q.outcomes alive held := by
  rw [keepRight, outcomes_zipWith]
  congr 1
  funext _
  exact Runs.mapped_id

theorem outcomes_orElse {q : Parser τ π ρ α} : ((p.orElse q).outcomes alive held : Runs σ τ π ρ α) =
    Runs.Else (p.outcomes alive (q.holds ++ held)) (q.outcomes alive held) := by
  refine Runs.ext fun store c store' result => ?_
  constructor
  · intro h
    cases h with
    | else_first hp firm => exact .first hp firm
    | else_second hp hq => exact .second hp hq
  · intro h
    cases h with
    | first hp firm => exact .else_first hp firm
    | second hp hq => exact .else_second hp hq

theorem outcomes_pure_iff {a : α} {store store' : Store σ τ π ρ} {c : Cursor τ π} {result : Outcome τ π α} :
    (Parser.pure a).outcomes alive held store c store' result ↔ store' = store ∧ result = .ok (.success a c) := by
  constructor
  · intro h
    cases h
    exact ⟨rfl, rfl⟩
  · rintro ⟨rfl, rfl⟩
    exact .pure

theorem then_pure (a : α) (next : α → Runs σ τ π ρ β) : Runs.Then ((Parser.pure a).outcomes alive held) next = next a := by
  refine Runs.ext fun store c store' result => ?_
  constructor
  · intro h
    cases h with
    | next hpure hnext =>
      obtain ⟨rfl, hr⟩ := outcomes_pure_iff.mp hpure
      cases hr
      exact hnext
    | stopped hpure pass =>
      obtain ⟨rfl, rfl⟩ := outcomes_pure_iff.mp hpure
      cases pass
  · exact fun h => .next .pure h

theorem outcomes_loop : ((loop seed item step b).outcomes alive held : Runs σ τ π ρ β) =
    Runs.Then (seed.outcomes alive ((seed.holds ++ item.holds) ++ held)) fun acc =>
      Counted (item.outcomes alive ((seed.holds ++ item.holds) ++ held)) b (·.foldl step acc) := by
  refine Runs.ext fun store c store' result => ?_
  constructor
  · intro h
    cases h with
    | loop_seeded hseed hrounds => exact .next hseed (evaluates_rounds_iff_counted.mp hrounds)
    | loop_stopped hseed pass => exact .stopped hseed pass
  · intro h
    cases h with
    | next hseed hrounds => exact .loop_seeded hseed (evaluates_rounds_iff_counted.mpr hrounds)
    | stopped hseed pass => exact .loop_stopped hseed pass

theorem outcomes_collect : ((item.collect b).outcomes alive held : Runs σ τ π ρ (Array α)) =
    Counted (item.outcomes alive (item.holds ++ held)) b List.toArray :=
  Runs.ext fun _ _ _ _ => evaluates_collect_iff_counted

/-- A loop from its first value on is that value and the items collected behind it, if the first value needs no rule
that the items do not. -/
theorem outcomes_loop_eq (h : seed.holds ⊆ item.holds) :
    ((loop seed item step b).outcomes .counted held : Runs σ τ π ρ β) =
      (zipWith (fun acc (items : Array α) => items.toList.foldl step acc) seed (item.collect b)).outcomes .counted held := by
  have hsame (n : Nat) : n ∈ (seed.holds ++ item.holds) ++ held ↔ n ∈ item.holds ++ held := by
    simp only [List.mem_append]
    exact or_congr_left (or_iff_right_of_imp (fun hn => h hn))
  rw [outcomes_loop, outcomes_zipWith, outcomes_collect, outcomes_congr hsame, outcomes_congr hsame]
  congr 1
  funext acc
  rw [Runs.mapped_counted]
  rfl

variable [LawfulSource σ τ]

theorem outcomes_refines_ends (hp : p.Steady) {k : Stack τ π ρ α ω} (hk : k.Steady) :
    Runs.Refines (σ := σ) (·.rules.Kept) (p.outcomes .counted k.holds) p.ends where
  imp hrules h := (ends_iff_evaluates hrules hp hk).mpr h
  keep hrules h := kept_of_ends hrules hp ((ends_iff_evaluates hrules hp hk).mpr h)

theorem ends_refines_outcomes (hp : p.Steady) {k : Stack τ π ρ α ω} (hk : k.Steady) :
    Runs.Refines (σ := σ) (·.rules.Kept) p.ends (p.outcomes .counted k.holds) where
  imp hrules h := (ends_iff_evaluates hrules hp hk).mp h
  keep hrules h := kept_of_ends hrules hp h

end Parser

end StreamParsing
