import StreamParsing.Proofs.Machine.Retention

/-!
What a run makes of its table of rules. Delayed rules are built and new rules are added; a definition that is there
stays as it is. What is said of a parser in this theory is said for its table and for all that the table may grow to.
-/

namespace StreamParsing

set_option autoImplicit false

universe u

variable {σ : Type u} {τ π ρ α β ω : Type}

namespace Rules

/-- Rules were built and added, any number of times. -/
inductive Grows (rules : Rules τ π ρ) : Rules τ π ρ → Prop where
  | refl : Grows rules rules
  | built {mid later : Rules τ π ρ} {number : Nat} {p : Parser τ π ρ ρ} :
      Grows rules mid → mid.force number = some (p, later) → Grows rules later
  | added {mid : Rules τ π ρ} (new : List (Rule τ π ρ)) : Grows rules mid → Grows rules (mid.append new false)

variable {rules mid later : Rules τ π ρ} {number : Nat} {p : Parser τ π ρ ρ} {retained : Bool}

theorem Grows.trans (h : Grows rules mid) (h' : Grows mid later) : Grows rules later := by
  induction h' with
  | refl => exact h
  | built _ hf ih => exact .built ih hf
  | added new _ ih => exact .added new ih

theorem getElem?_append {entry : RuleEntry τ π ρ} (h : rules.entries[number]? = some entry)
    (new : List (Rule τ π ρ)) : (rules.append new retained).entries[number]? = some entry := by
  have hlt := (Array.getElem?_eq_some_iff.mp h).1
  simpa [append, Array.getElem?_append_left hlt] using h

/-- A definition stays what it is. -/
theorem Grows.getElem?_defined (h : Grows rules later)
    (he : rules.entries[number]? = some ⟨.defined p, retained⟩) :
    later.entries[number]? = some ⟨.defined p, retained⟩ := by
  induction h with
  | refl => exact he
  | added new _ ih => exact getElem?_append ih new
  | @built mid _ other _ _ hf ih =>
    unfold force at hf
    split at hf
    · cases hf
      exact ih
    · rename_i parser new kept hother
      cases hf
      -- The rule that is built was delayed, so it is not this one.
      have hne : other ≠ number := by
        rintro rfl
        rw [ih] at hother
        cases hother
      apply getElem?_append
      rw [Array.getElem?_setIfInBounds_ne hne]
      exact ih
    · cases hf
    · cases hf

theorem Grows.force_defined (h : Grows rules later)
    (he : rules.entries[number]? = some ⟨.defined p, retained⟩) : later.force number = some (p, later) := by
  simp only [force, h.getElem?_defined he]

end Rules

namespace Machine

variable [Source σ τ] [Position π τ] {upkeep : Upkeep τ π ρ ω} {fuel : Nat} {store store' : Store σ τ π ρ}
variable {control control' : Control τ π ρ ω}

theorem grows_of_step (h : step upkeep fuel store control = .next store' control') :
    store.rules.Grows store'.rules := by
  cases control with
  | back reply k =>
    cases k with
    | nil => cases h
    | cons frame k =>
      obtain ⟨log, between, heq, -⟩ := exists_resumed frame reply k
      rw [step, heq] at h
      cases h
      exact .refl
  | eval p c k =>
    have hentered := entered upkeep fuel store c p k
    rw [← step, h] at hentered
    cases hentered with
    | back | push => exact .refl
    | rule hf | handle _ hf => exact .built .refl hf
    | draft => exact .added _ .refl
    | taken _ ha =>
      rw [Store.rules_of_access ha]
      exact .refl

theorem grows_of_path (h : Path upkeep store control store' control') : store.rules.Grows store'.rules := by
  induction h with
  | refl => exact .refl
  | cons hm _ ih =>
    obtain ⟨fuel, hs⟩ := hm
    exact (grows_of_step hs).trans ih

end Machine

end StreamParsing
