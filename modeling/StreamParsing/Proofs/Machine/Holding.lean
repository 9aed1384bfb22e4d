import Mathlib.Data.Finset.Card
import Mathlib.Logic.Relation
import StreamParsing.Machine.Stack

/-!
Which rules are held. The rules that a list holds are those that can be reached from it, from a rule to those that its
definition holds; there are no more of them than the machine's bounded search finds.
-/

namespace StreamParsing.Rules

set_option autoImplicit false

variable {τ π ρ : Type} {r : Rules τ π ρ} {numbers numbers' held : List Nat} {m n fuel : Nat}

def Holds (r : Rules τ π ρ) (m n : Nat) : Prop := n ∈ r.heldBy m

theorem Holds.lt (h : r.Holds m n) : m < r.entries.size := by
  unfold Holds heldBy at h
  split at h
  · rename_i he
    exact (Array.getElem?_eq_some_iff.mp he).1
  · cases h

def widen (r : Rules τ π ρ) (numbers : List Nat) : List Nat := (numbers ++ numbers.flatMap r.heldBy).eraseDups

theorem mem_widen : n ∈ r.widen numbers ↔ n ∈ numbers ∨ ∃ m ∈ numbers, r.Holds m n := by
  simp only [widen, List.mem_eraseDups, List.mem_append, List.mem_flatMap, Holds]

def Closed (r : Rules τ π ρ) (numbers : List Nat) : Prop := ∀ m ∈ numbers, ∀ n, r.Holds m n → n ∈ numbers

def missing (r : Rules τ π ρ) (numbers : List Nat) : Finset Nat := (Finset.range r.entries.size).filter (· ∉ numbers)

theorem mem_missing : n ∈ r.missing numbers ↔ n < r.entries.size ∧ n ∉ numbers := by
  simp only [missing, Finset.mem_filter, Finset.mem_range]

theorem missing_widen_subset : r.missing (r.widen numbers) ⊆ r.missing numbers := by
  intro n hn
  rw [mem_missing] at hn ⊢
  exact ⟨hn.1, fun hmem => hn.2 (mem_widen.mpr (.inl hmem))⟩

/-- Where widening finds no further rule of the table, all has been found. -/
theorem closed_widen (h : r.missing (r.widen numbers) = r.missing numbers) : r.Closed (r.widen numbers) := by
  intro m hm n hheld
  have hold : m ∈ numbers := by
    by_contra hnew
    have hmissing : m ∈ r.missing numbers := mem_missing.mpr ⟨hheld.lt, hnew⟩
    rw [← h] at hmissing
    exact (mem_missing.mp hmissing).2 hm
  exact mem_widen.mpr (.inr ⟨m, hold, hheld⟩)

theorem Closed.widen (h : r.Closed numbers) : r.Closed (r.widen numbers) := by
  have hiff (n : Nat) : n ∈ r.widen numbers ↔ n ∈ numbers := by
    rw [mem_widen, or_iff_left_of_imp]
    rintro ⟨m, hm, hheld⟩
    exact h m hm n hheld
  intro m hm n hheld
  rw [hiff] at hm ⊢
  exact h m hm n hheld

theorem Closed.reach (h : r.Closed numbers) : r.Closed (r.reach fuel numbers) := by
  induction fuel generalizing numbers with
  | zero => exact h
  | succ fuel ih => exact ih h.widen

/-- Each round finds a rule of the table or is the last that finds anything. -/
theorem closed_reach (h : (r.missing numbers).card < fuel) : r.Closed (r.reach fuel numbers) := by
  induction fuel generalizing numbers with
  | zero => exact absurd h (Nat.not_lt_zero _)
  | succ fuel ih =>
    change r.Closed (r.reach fuel (r.widen numbers))
    by_cases heq : r.missing (r.widen numbers) = r.missing numbers
    · exact (closed_widen heq).reach
    · have hlt := Finset.card_lt_card (missing_widen_subset.ssubset_of_ne heq)
      exact ih (by omega)

theorem closed_reach_size : r.Closed (r.reach r.entries.size numbers) := by
  by_cases hin : ∃ m ∈ numbers, m < r.entries.size
  · obtain ⟨m, hm, hlt⟩ := hin
    have hsub : r.missing numbers ⊆ (Finset.range r.entries.size).erase m := by
      intro n hn
      rw [mem_missing] at hn
      rw [Finset.mem_erase, Finset.mem_range]
      exact ⟨fun heq => hn.2 (heq ▸ hm), hn.1⟩
    have hcard := Finset.card_le_card hsub
    rw [Finset.card_erase_of_mem (Finset.mem_range.mpr hlt), Finset.card_range] at hcard
    exact closed_reach (by omega)
  · -- Nothing in the list is a rule of the table, so nothing is held.
    refine Closed.reach fun m hm n hheld => ?_
    exact absurd ⟨m, hm, hheld.lt⟩ hin

theorem subset_reach : numbers ⊆ r.reach fuel numbers := by
  induction fuel generalizing numbers with
  | zero => exact List.Subset.refl _
  | succ fuel ih => exact fun n hn => ih (mem_widen.mpr (.inl hn))

theorem exists_of_mem_reach (h : n ∈ r.reach fuel numbers) : ∃ m ∈ numbers, Relation.ReflTransGen r.Holds m n := by
  induction fuel generalizing numbers with
  | zero => exact ⟨n, h, .refl⟩
  | succ fuel ih =>
    obtain ⟨m, hm, hpath⟩ := ih h
    rcases mem_widen.mp hm with hm | ⟨l, hl, hheld⟩
    · exact ⟨m, hm, hpath⟩
    · exact ⟨l, hl, hpath.head hheld⟩

theorem isHeld_iff : r.isHeld held n = true ↔ ∃ m ∈ held, Relation.ReflTransGen r.Holds m n := by
  rw [isHeld, List.contains_iff_mem]
  constructor
  · exact exists_of_mem_reach
  · rintro ⟨m, hm, hpath⟩
    induction hpath with
    | refl => exact subset_reach hm
    | tail _ hheld ih => exact closed_reach_size _ ih _ hheld

/-- Only the members of a list matter to what it holds. -/
theorem isHeld_congr (h : ∀ m, m ∈ numbers ↔ m ∈ numbers') (n : Nat) : r.isHeld numbers n = r.isHeld numbers' n := by
  rw [Bool.eq_iff_iff, isHeld_iff, isHeld_iff]
  simp only [h]

end StreamParsing.Rules
