import StreamParsing.Proofs.Renaming.Tables

/-!
Which rules runs enter, and what they are run as. A delayed rule is built when it is entered first and is defined from
then on, so over any sequence of runs it is built once at most, and every visit finds what the first one built.
-/

namespace StreamParsing

set_option autoImplicit false

universe u

variable {σ : Type u} {τ π ρ ω : Type}

/-- A rule is entered: its number, the parser it is run as, and whether that was built just now. -/
structure Visit (τ π ρ : Type) : Type 1 where
  number : Nat
  parser : Parser τ π ρ ρ
  made : Bool

def Visit.builds (v : Visit τ π ρ) (number : Nat) : Bool := decide (v.number = number) && v.made

namespace Rules

/-- What comes of entering a rule, unless it has no definition. -/
def visit? (r : Rules τ π ρ) (number : Nat) : Option (Visit τ π ρ) :=
  (r.force number).map fun (parser, later) => ⟨number, parser, decide (r.builds < later.builds)⟩

/-- What one step makes of the table, and the rule that it enters. -/
inductive Stepped (r : Rules τ π ρ) : Option (Visit τ π ρ) → Rules τ π ρ → Prop where
  | idle : Stepped r none r
  | added (new : List (Rule τ π ρ)) : Stepped r none (r.append new false)
  | found {number : Nat} {p : Parser τ π ρ ρ} {retained : Bool} :
      r.entries[number]? = some ⟨.defined p, retained⟩ → Stepped r (some ⟨number, p, false⟩) r
  | built {number : Nat} {parser : Nat → Parser τ π ρ ρ} {new : Nat → List (Rule τ π ρ)} {retained : Bool} :
      r.entries[number]? = some ⟨.delayed parser new, retained⟩ →
        Stepped r (some ⟨number, parser r.entries.size, true⟩) (r.build number parser new retained)

variable {r later : Rules τ π ρ} {n : Nat} {p : Parser τ π ρ ρ}

theorem stepped_of_force (h : r.force n = some (p, later)) : r.Stepped (r.visit? n) later := by
  unfold visit?
  rw [h]
  rcases force_cases h with ⟨retained, he, rfl⟩ | ⟨parser, new, retained, he, rfl, rfl⟩
  · simpa using Stepped.found he
  · simpa [build, append] using Stepped.built he

theorem Stepped.grows {visit : Option (Visit τ π ρ)} (h : r.Stepped visit later) : r.Grows later := by
  cases h with
  | idle | found => exact .refl
  | added new => exact .added new .refl
  | built he => exact .built .refl (force_of_delayed he)

theorem visit?_of_force (h : r.force n = none) : r.visit? n = none := by
  rw [visit?, h]
  rfl

end Rules

namespace Machine

variable [Source σ τ] [Position π τ] {fuel : Nat} {store store' : Store σ τ π ρ} {control control' : Control τ π ρ ω}

/-- The rule that the next step enters. A handle enters its rule only if that is still alive. -/
def visit? (store : Store σ τ π ρ) : Control τ π ρ ω → Option (Visit τ π ρ)
  | .eval (.rule number) _ _ => store.rules.visit? number
  | .eval (.handle number) _ k =>
    if Liveness.counted store.rules k.holds number then store.rules.visit? number else none
  | _ => none

/-- The rules that a run enters, in their order. -/
def visited (fuel : Nat) (store : Store σ τ π ρ) (control : Control τ π ρ ω) : List (Visit τ π ρ) :=
  match fuel with
  | 0 => []
  | fuel + 1 =>
    match step .counted fuel store control with
    | .next later next => (visit? store control).toList ++ visited fuel later next
    | _ => []

theorem stepped_rule {number : Nat} {c : Cursor τ π} {k : Stack τ π ρ ρ ω}
    (h : step .counted fuel store (.eval (.rule number) c k) = .next store' control') :
    store.rules.Stepped (visit? store (.eval (.rule number) c k)) store'.rules := by
  simp only [step, evaluate] at h
  split at h
  · rename_i hf
    cases h
    exact Rules.stepped_of_force hf
  · rename_i hf
    cases h
    rw [visit?, Rules.visit?_of_force hf]
    exact .idle

theorem stepped_handle {number : Nat} {c : Cursor τ π} {k : Stack τ π ρ ρ ω}
    (h : step .counted fuel store (.eval (.handle number) c k) = .next store' control') :
    store.rules.Stepped (visit? store (.eval (.handle number) c k)) store'.rules := by
  have halive : Upkeep.counted store.rules k number = Liveness.counted store.rules k.holds number := rfl
  simp only [step, evaluate, halive] at h
  rw [visit?]
  split at h
  · rename_i hf
    cases h
    obtain ⟨ha, hf⟩ := Option.ite_none_right_eq_some.mp hf
    rw [if_pos ha]
    exact Rules.stepped_of_force hf
  · rename_i hf
    cases h
    split
    · rename_i ha
      rw [if_pos ha] at hf
      rw [Rules.visit?_of_force hf]
      exact .idle
    · exact .idle

theorem stepped (h : step .counted fuel store control = .next store' control') :
    store.rules.Stepped (visit? store control) store'.rules := by
  cases control with
  | back reply k =>
    cases k with
    | nil => cases h
    | cons frame k =>
      obtain ⟨log, between, heq, -⟩ := exists_resumed frame reply k
      rw [step, heq] at h
      cases h
      exact .idle
  | eval p c k =>
    have hentered := entered .counted fuel store c p k
    rw [← step, h] at hentered
    cases p with
    | rule => exact stepped_rule h
    | handle => exact stepped_handle h
    | draft =>
      cases h
      exact .added _
    | satisfy =>
      cases hentered with
      | back | push => exact .idle
      | taken _ ha =>
        rw [Store.rules_of_access ha]
        exact .idle
    | _ => cases hentered <;> exact .idle

theorem rules_of_broken {e : ReadError} (h : step .counted fuel store control = .broken store' e) :
    store'.rules = store.rules := by
  cases control with
  | eval p c k =>
    have hentered := entered .counted fuel store c p k
    rw [← step, h] at hentered
    cases hentered with
    | broken _ ha => exact Store.rules_of_access ha
  | back reply k =>
    cases k with
    | nil => cases h
    | cons frame k =>
      obtain ⟨log, between, heq, -⟩ := exists_resumed frame reply k
      rw [step, heq] at h
      cases h

end Machine

/-- What steps of any runs make of a table, and the rules they enter. The runs may be over streams of any kind, and they
may take turns. -/
inductive Works (r : Rules τ π ρ) : List (Visit τ π ρ) → Rules τ π ρ → Prop where
  | idle : Works r [] r
  | step {σ : Type u} [Source σ τ] [Position π τ] {ω : Type} {visits : List (Visit τ π ρ)}
      {store store' : Store σ τ π ρ} {control control' : Machine.Control τ π ρ ω} : Works r visits store.rules →
        Machine.Moves .counted store control store' control' →
        Works r (visits ++ (Machine.visit? store control).toList) store'.rules

namespace Works

variable {r mid later : Rules τ π ρ} {visits : List (Visit τ π ρ)}

theorem trans {before after : List (Visit τ π ρ)} (h : Works.{u} r before mid) (h' : Works.{u} mid after later) :
    Works.{u} r (before ++ after) later := by
  induction h' with
  | idle => rwa [List.append_nil]
  | step _ hm ih =>
    rw [← List.append_assoc]
    exact ih.step hm

/-- The steps of a run are among them. -/
theorem run [Source σ τ] [Position π τ] {fuel : Nat} {store : Store σ τ π ρ} {control : Machine.Control τ π ρ ω}
    {finish : Machine.Finish σ τ π ρ ω} (h : Works.{u} r visits store.rules)
    (hrun : Machine.run .counted fuel store control = some finish) :
    Works.{u} r (visits ++ Machine.visited fuel store control) finish.store.rules := by
  induction fuel generalizing store control visits with
  | zero => cases hrun
  | succ fuel ih =>
    rw [Machine.run] at hrun
    rw [Machine.visited]
    cases hs : Machine.step .counted fuel store control with
    | next mid between =>
      simp only [hs] at hrun
      rw [← List.append_assoc]
      exact ih (h.step ⟨fuel, hs⟩) hrun
    | done mid reply =>
      simp only [hs, Option.some.injEq] at hrun
      rw [← hrun, (Machine.control_of_done hs).2]
      simpa using h
    | broken mid error =>
      simp only [hs, Option.some.injEq] at hrun
      rw [← hrun]
      simpa [Machine.rules_of_broken hs] using h
    | starved => simp [hs] at hrun

/-- What holds of the visits so far and the table holds in the end, if each step keeps it. -/
theorem invariant {J : List (Visit τ π ρ) → Rules τ π ρ → Prop} (h : Works r visits later) (hnone : J [] r)
    (hstep : ∀ {visits : List (Visit τ π ρ)} {mid next : Rules τ π ρ} {visit : Option (Visit τ π ρ)}, J visits mid →
      mid.Stepped visit next → J (visits ++ visit.toList) next) : J visits later := by
  induction h with
  | idle => exact hnone
  | step _ hm ih =>
    obtain ⟨fuel, hs⟩ := hm
    exact hstep ih (Machine.stepped hs)

theorem grows (h : Works r visits later) : r.Grows later :=
  h.invariant (J := fun _ mid => r.Grows mid) .refl fun hmid hstep => hmid.trans hstep.grows

/-- A rule that was entered is defined from then on, as what it was run as. -/
theorem defined (h : Works r visits later) :
    ∀ v ∈ visits, ∃ retained, later.entries[v.number]? = some ⟨.defined v.parser, retained⟩ := by
  refine h.invariant (J := fun visits mid => ∀ v ∈ visits, ∃ retained,
    mid.entries[v.number]? = some ⟨.defined v.parser, retained⟩) nofun ?_
  intro visits mid next visit hold hstep v hv
  rcases List.mem_append.mp hv with hv | hv
  · obtain ⟨retained, he⟩ := hold v hv
    exact ⟨retained, hstep.grows.getElem?_defined he⟩
  · cases hstep with
    | idle | added => cases hv
    | found he =>
      cases List.mem_singleton.mp hv
      exact ⟨_, he⟩
    | built he =>
      cases List.mem_singleton.mp hv
      exact ⟨_, Rules.getElem?_build_self he⟩

theorem builds_eq (h : Works r visits later) : later.builds = r.builds + visits.countP (·.made) := by
  refine h.invariant (J := fun visits mid => mid.builds = r.builds + visits.countP (·.made)) rfl ?_
  intro visits mid next visit hold hstep
  rw [List.countP_append, ← Nat.add_assoc, ← hold]
  cases hstep <;> rfl

end Works

/-- A delayed rule after the visits: not entered yet, or built by one of them. -/
inductive Rules.Stands (n : Nat) (parser : Nat → Parser τ π ρ ρ) (new : Nat → List (Rule τ π ρ)) (retained : Bool)
    (visits : List (Visit τ π ρ)) (r : Rules τ π ρ) : Prop where
  | waiting : r.entries[n]? = some ⟨.delayed parser new, retained⟩ → (∀ v ∈ visits, v.number ≠ n) →
      Stands n parser new retained visits r
  | built (first : Nat) : r.entries[n]? = some ⟨.defined (parser first), retained⟩ →
      visits.countP (·.builds n) = 1 → Stands n parser new retained visits r

namespace Rules

variable {r later : Rules τ π ρ} {n : Nat} {parser : Nat → Parser τ π ρ ρ} {new : Nat → List (Rule τ π ρ)}
variable {retained : Bool} {visits : List (Visit τ π ρ)} {visit : Option (Visit τ π ρ)}

theorem countP_builds_eq_zero (h : ∀ v ∈ visits, v.number ≠ n) : visits.countP (·.builds n) = 0 := by
  rw [List.countP_eq_zero]
  intro v hv
  simp [Visit.builds, h v hv]

theorem Stands.stepped (h : Stands n parser new retained visits r) (hstep : r.Stepped visit later) :
    Stands n parser new retained (visits ++ visit.toList) later := by
  cases h with
  | waiting he hnone =>
    have hother {m : Nat} (hm : m ≠ n) {p : Parser τ π ρ ρ} {made : Bool} :
        ∀ v ∈ visits ++ [⟨m, p, made⟩], v.number ≠ n := by
      simpa [or_imp, forall_and, hm] using hnone
    cases hstep with
    | idle => exact .waiting he (by simpa using hnone)
    | added more => exact .waiting (getElem?_append he more) (by simpa using hnone)
    | @found m p kept hm =>
      refine .waiting he (hother ?_)
      rintro rfl
      rw [he] at hm
      cases hm
    | @built m _ _ _ hm =>
      by_cases hmn : m = n
      · subst hmn
        rw [he] at hm
        cases hm
        refine .built _ (getElem?_build_self he) ?_
        rw [List.countP_append, countP_builds_eq_zero hnone]
        simp [Visit.builds]
      · exact .waiting (getElem?_build_of_ne (Ne.symm hmn) he) (hother hmn)
  | built first he hone =>
    refine .built first (hstep.grows.getElem?_defined he) ?_
    rw [List.countP_append, hone]
    cases hstep with
    | idle | added => rfl
    | found => simp [Visit.builds]
    | @built m _ _ _ hm =>
      -- The rule that is built was delayed, so it is another one.
      have hne : m ≠ n := by
        rintro rfl
        rw [he] at hm
        cases hm
      simp [Visit.builds, hne]

end Rules

namespace Works

variable {r mid later : Rules τ π ρ} {n : Nat} {parser : Nat → Parser τ π ρ ρ} {new : Nat → List (Rule τ π ρ)}
variable {retained : Bool} {before after : List (Visit τ π ρ)}

theorem stands (h : Works r before mid) (he : mid.entries[n]? = some ⟨.delayed parser new, retained⟩)
    (h' : Works mid after later) : Rules.Stands n parser new retained (before ++ after) later := by
  -- What was entered before is defined, and this rule is delayed still.
  have hnone : ∀ v ∈ before, v.number ≠ n := by
    rintro v hv rfl
    obtain ⟨kept, hdefined⟩ := h.defined v hv
    rw [he] at hdefined
    cases hdefined
  refine h'.invariant (J := fun visits => Rules.Stands n parser new retained (before ++ visits)) ?_ ?_
  · exact .waiting he (by simpa using hnone)
  · intro visits mid next visit hmid hstep
    rw [← List.append_assoc]
    exact hmid.stepped hstep

end Works

/-- The first visit builds the rule, and every other finds what that one built. -/
theorem Rules.Stands.built_once {r : Rules τ π ρ} {n : Nat} {parser : Nat → Parser τ π ρ ρ}
    {new : Nat → List (Rule τ π ρ)} {retained : Bool} {visits : List (Visit τ π ρ)}
    (h : Stands n parser new retained visits r)
    (hdefined : ∀ v ∈ visits, ∃ retained, r.entries[v.number]? = some ⟨.defined v.parser, retained⟩) :
    visits.countP (·.builds n) ≤ 1 ∧ (visits.countP (·.builds n) = 1 ↔ ∃ v ∈ visits, v.number = n) ∧
      ∃ first, ∀ v ∈ visits, v.number = n → v.parser = parser first := by
  cases h with
  | waiting _ hnone =>
    have hzero : visits.countP (·.builds n) = 0 := countP_builds_eq_zero hnone
    exact ⟨by omega, ⟨by omega, fun ⟨v, hv, hn⟩ => absurd hn (hnone v hv)⟩, 0, fun v hv hn => absurd hn (hnone v hv)⟩
  | built first hentry hone =>
    refine ⟨hone.le, ⟨fun _ => ?_, fun _ => hone⟩, first, ?_⟩
    · obtain ⟨v, hv, hbuilds⟩ := List.countP_pos_iff.mp (hone ▸ Nat.one_pos)
      exact ⟨v, hv, of_decide_eq_true (Bool.and_eq_true_iff.mp hbuilds).1⟩
    · rintro ⟨_, p, made⟩ hv rfl
      obtain ⟨kept, he⟩ := hdefined _ hv
      rw [hentry] at he
      cases he
      rfl

end StreamParsing
