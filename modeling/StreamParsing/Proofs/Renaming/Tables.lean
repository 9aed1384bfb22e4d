import StreamParsing.Proofs.Machine.Holding
import StreamParsing.Proofs.Renaming.Twins

/-!
Tables whose rules are paired. A rule that is entered on both sides has twin definitions in a larger pairing, whether
either side built it before or builds it now; rules that twins make are paired as they are made. A rule that is not
retained lives on the one side as long as it does on the other.
-/

namespace StreamParsing

set_option autoImplicit false

universe u

variable {τ π ρ α : Type}

namespace Rules

variable {r r' : Rules τ π ρ} {a b m n : Nat} {p : Parser τ π ρ ρ} {rule : Rule τ π ρ} {retained : Bool}
variable {parser : Nat → Parser τ π ρ ρ} {new : Nat → List (Rule τ π ρ)}

def build (r : Rules τ π ρ) (number : Nat) (parser : Nat → Parser τ π ρ ρ) (new : Nat → List (Rule τ π ρ))
    (retained : Bool) : Rules τ π ρ :=
  Rules.append ⟨r.entries.setIfInBounds number ⟨.defined (parser r.entries.size), retained⟩, r.builds + 1⟩
    (new r.entries.size) retained

theorem force_of_defined (h : r.entries[n]? = some ⟨.defined p, retained⟩) : r.force n = some (p, r) := by
  simp only [force, h]

theorem force_of_delayed (h : r.entries[n]? = some ⟨.delayed parser new, retained⟩) :
    r.force n = some (parser r.entries.size, r.build n parser new retained) := by
  simp only [force, h]
  rfl

theorem force_of_dropped (h : r.entries[n]? = some ⟨.dropped, retained⟩) : r.force n = none := by
  simp only [force, h]

theorem force_cases (h : r.force n = some (p, r')) :
    (∃ retained, r.entries[n]? = some ⟨.defined p, retained⟩ ∧ r' = r) ∨
      ∃ parser new retained, r.entries[n]? = some ⟨.delayed parser new, retained⟩ ∧ p = parser r.entries.size ∧
        r' = r.build n parser new retained := by
  unfold force at h
  split at h
  · rename_i he
    cases h
    exact .inl ⟨_, he, rfl⟩
  · rename_i he
    cases h
    exact .inr ⟨_, _, _, he, rfl, rfl⟩
  · cases h
  · cases h

theorem getElem?_append_new (new : List (Rule τ π ρ)) (retained : Bool) (i : Nat) :
    (r.append new retained).entries[r.entries.size + i]? = new[i]?.map (⟨·, retained⟩) := by
  rw [append, Array.getElem?_append_right (Nat.le_add_right _ _), Nat.add_sub_cancel_left]
  simp

theorem getElem?_append_cases {new : List (Rule τ π ρ)} {entry : RuleEntry τ π ρ}
    (h : (r.append new retained).entries[n]? = some entry) :
    r.entries[n]? = some entry ∨ ∃ i rule, n = r.entries.size + i ∧ new[i]? = some rule ∧ entry = ⟨rule, retained⟩ := by
  rcases Nat.lt_or_ge n r.entries.size with hlt | hle
  · left
    rwa [append, Array.getElem?_append_left hlt] at h
  · obtain ⟨i, rfl⟩ := Nat.exists_eq_add_of_le hle
    rw [getElem?_append_new] at h
    obtain ⟨rule, hr, rfl⟩ := Option.map_eq_some_iff.mp h
    exact .inr ⟨i, rule, rfl, hr, rfl⟩

section Build

variable (hentry : r.entries[n]? = some ⟨.delayed parser new, retained⟩)
include hentry

theorem getElem?_build_self :
    (r.build n parser new retained).entries[n]? = some ⟨.defined (parser r.entries.size), retained⟩ := by
  have hlt := (Array.getElem?_eq_some_iff.mp hentry).1
  apply getElem?_append
  exact Array.getElem?_setIfInBounds_self_of_lt hlt

omit hentry in
theorem getElem?_build_new (i : Nat) : (r.build n parser new retained).entries[r.entries.size + i]? =
    (new r.entries.size)[i]?.map (⟨·, retained⟩) := by
  have hsize : (r.entries.setIfInBounds n ⟨.defined (parser r.entries.size), retained⟩).size = r.entries.size :=
    Array.size_setIfInBounds
  have hnew := getElem?_append_new (r := ⟨r.entries.setIfInBounds n ⟨.defined (parser r.entries.size), retained⟩,
    r.builds + 1⟩) (new r.entries.size) retained i
  rwa [hsize] at hnew

omit hentry in
theorem getElem?_build_of_ne {entry : RuleEntry τ π ρ} (hne : m ≠ n) (h : r.entries[m]? = some entry) :
    (r.build n parser new retained).entries[m]? = some entry := by
  apply getElem?_append
  rwa [Array.getElem?_setIfInBounds_ne (Ne.symm hne)]

theorem getElem?_build_cases {entry : RuleEntry τ π ρ} (h : (r.build n parser new retained).entries[m]? = some entry) :
    (m = n ∧ entry = ⟨.defined (parser r.entries.size), retained⟩) ∨ (m ≠ n ∧ r.entries[m]? = some entry) ∨
      ∃ i rule, m = r.entries.size + i ∧ (new r.entries.size)[i]? = some rule ∧ entry = ⟨rule, retained⟩ := by
  have hsize : (r.entries.setIfInBounds n ⟨.defined (parser r.entries.size), retained⟩).size = r.entries.size :=
    Array.size_setIfInBounds
  by_cases hmn : m = n
  · subst hmn
    rw [getElem?_build_self hentry] at h
    exact .inl ⟨rfl, (Option.some.inj h).symm⟩
  · rcases getElem?_append_cases h with hold | ⟨i, rule, hm, hr, he⟩
    · rw [Array.getElem?_setIfInBounds_ne (Ne.symm hmn)] at hold
      exact .inr (.inl ⟨hmn, hold⟩)
    · exact .inr (.inr ⟨i, rule, hsize ▸ hm, hr, he⟩)

end Build

theorem isRetained_of_getElem? (h : r.entries[n]? = some ⟨rule, retained⟩) : r.isRetained n = retained := by
  simp only [isRetained, h]

theorem exists_of_isRetained (h : r.isRetained n = true) : ∃ rule, r.entries[n]? = some ⟨rule, true⟩ := by
  unfold isRetained at h
  split at h
  · rename_i entry he
    exact ⟨entry.rule, by rw [he, ← h]⟩
  · cases h

/-- The rule of a retained number stems from the given one: it is that rule, or it was built from it. -/
inductive Stem (r : Rules τ π ρ) : Nat → Rule τ π ρ → Prop where
  | fresh {n : Nat} {rule : Rule τ π ρ} : r.entries[n]? = some ⟨rule, true⟩ → Stem r n rule
  | built {n first : Nat} {parser : Nat → Parser τ π ρ ρ} {new : Nat → List (Rule τ π ρ)} :
      r.entries[n]? = some ⟨.defined (parser first), true⟩ →
        (∀ (i : Nat) (rule : Rule τ π ρ), (new first)[i]? = some rule → Stem r (first + i) rule) →
          Stem r n (.delayed parser new)

theorem Stem.isRetained (h : r.Stem n rule) : r.isRetained n = true := by
  cases h with
  | fresh h | built h _ => exact isRetained_of_getElem? h

/-- A table with the same rules and more. -/
theorem Stem.extend (h : r.Stem n rule)
    (hext : ∀ {m : Nat} {entry : RuleEntry τ π ρ}, r.entries[m]? = some entry → r'.entries[m]? = some entry) :
    r'.Stem n rule := by
  induction h with
  | fresh h => exact .fresh (hext h)
  | built h _ ih => exact .built (hext h) ih

theorem Stem.force (h : r.Stem n rule) (hf : r.force m = some (p, r')) : r'.Stem n rule := by
  rcases force_cases hf with ⟨retained, -, rfl⟩ | ⟨parser, new, retained, hentry, -, rfl⟩
  · exact h
  · induction h with
    | @fresh n rule h =>
      by_cases hn : n = m
      · -- The rule itself is built now.
        subst hn
        rw [hentry] at h
        cases h
        refine .built (getElem?_build_self hentry) fun i rule hrule => .fresh ?_
        rw [getElem?_build_new, hrule]
        rfl
      · exact .fresh (getElem?_build_of_ne hn h)
    | @built n _ _ _ h _ ih =>
      have hn : n ≠ m := by
        rintro rfl
        rw [hentry] at h
        cases h
      exact .built (getElem?_build_of_ne hn h) ih

theorem Stem.grows (h : r.Stem n rule) (hg : r.Grows r') : r'.Stem n rule := by
  induction hg with
  | refl => exact h
  | built _ hf ih => exact ih.force hf
  | added new _ ih => exact ih.extend fun he => getElem?_append he new

theorem Stem.getElem?_defined (h : r.Stem n (.defined p)) : r.entries[n]? = some ⟨.defined p, true⟩ := by
  cases h with
  | fresh h => exact h

theorem Stem.force_defined (h : r.Stem n (.defined p)) : r.force n = some (p, r) := force_of_defined h.getElem?_defined

theorem Stem.force_dropped (h : r.Stem n (.dropped : Rule τ π ρ)) : r.force n = none := by
  cases h with
  | fresh h => exact force_of_dropped h

theorem Stem.force_delayed (h : r.Stem n (.delayed parser new)) :
    ∃ first later, r.force n = some (parser first, later) ∧
      ∀ (i : Nat) (rule : Rule τ π ρ), (new first)[i]? = some rule → later.Stem (first + i) rule := by
  cases h with
  | fresh h =>
    refine ⟨_, _, force_of_delayed h, fun i rule hrule => .fresh ?_⟩
    rw [getElem?_build_new, hrule]
    rfl
  | built h hnew => exact ⟨_, _, force_of_defined h, hnew⟩

end Rules

namespace Rules

variable {r r' : Rules τ π ρ} {m n number : Nat} {p : Parser τ π ρ ρ}

/-- The retained rules of a table, each paired with itself. -/
def pairing (r : Rules τ π ρ) : Pairing τ π ρ where
  kept a b := a = b ∧ r.isRetained a = true
  loose _ _ := False
  opens _ _ := False
  opens' _ _ := False
  kept_of_opens := False.elim
  kept_of_opens' := False.elim

/-- Each retained rule is its own twin: it names retained rules only, and what it makes does not depend on how rules
are numbered. -/
def Uniform (r : Rules τ π ρ) : Prop :=
  ∀ (n : Nat) (rule : Rule τ π ρ), r.entries[n]? = some ⟨rule, true⟩ → Rule.Twin r.pairing rule rule

theorem uniform_empty : (empty : Rules τ π ρ).Uniform := by
  intro n rule he
  simp [empty] at he

theorem pairing_le (h : ∀ n, r.isRetained n = true → r'.isRetained n = true) : r.pairing ≤ r'.pairing :=
  ⟨fun hk => ⟨hk.1, h _ hk.2⟩, id, id, id⟩

theorem isRetained_append (h : r.isRetained n = true) (new : List (Rule τ π ρ)) (retained : Bool) :
    (r.append new retained).isRetained n = true := by
  obtain ⟨rule, he⟩ := exists_of_isRetained h
  exact isRetained_of_getElem? (getElem?_append he new)

theorem isRetained_force (h : r.isRetained n = true) (hf : r.force m = some (p, r')) : r'.isRetained n = true := by
  obtain ⟨rule, he⟩ := exists_of_isRetained h
  exact (Stem.fresh he).force hf |>.isRetained

theorem isRetained_grows (h : r.isRetained n = true) (hg : r.Grows r') : r'.isRetained n = true := by
  obtain ⟨rule, he⟩ := exists_of_isRetained h
  exact (Stem.fresh he).grows hg |>.isRetained

theorem pairing_le_append (new : List (Rule τ π ρ)) (retained : Bool) : r.pairing ≤ (r.append new retained).pairing :=
  pairing_le fun _ hn => isRetained_append hn new retained

theorem Uniform.append (h : r.Uniform) (new : List (Rule τ π ρ)) : (r.append new false).Uniform := by
  intro n rule he
  rcases getElem?_append_cases he with hold | ⟨_, _, -, -, he⟩
  · exact (h _ _ hold).mono (pairing_le_append new false)
  · cases he

theorem Uniform.force (h : r.Uniform) (hf : r.force m = some (p, r')) : r'.Uniform := by
  have hle : r.pairing ≤ r'.pairing := pairing_le fun _ hn => isRetained_force hn hf
  rcases force_cases hf with ⟨retained, -, rfl⟩ | ⟨parser, new, retained, hentry, -, rfl⟩
  · exact h
  · -- If the rule that is built is retained, its block is paired with itself from now on.
    have hblock (ht : retained = true) : (r.build m parser new retained).pairing.Blocks (new r.entries.size).length
        r.entries.size r.entries.size := by
      intro i hi
      refine .inl ⟨rfl, ?_⟩
      subst ht
      apply isRetained_of_getElem?
      rw [getElem?_build_new, List.getElem?_eq_getElem hi]
      rfl
    intro n rule he
    rcases getElem?_build_cases hentry he with ⟨rfl, hself⟩ | ⟨-, hold⟩ | ⟨i, new', rfl, hnew, hself⟩
    · cases hself
      cases (h _ _ hentry).cases with
      | delayed hbuilds => exact ⟨rfl, hbuilds.parser hle (hblock rfl)⟩
    · exact (h _ _ hold).mono hle
    · cases hself
      cases (h _ _ hentry).cases with
      | delayed hbuilds => exact hbuilds.rules hle (hblock rfl) hnew hnew

theorem Uniform.grows (h : r.Uniform) (hg : r.Grows r') : r'.Uniform := by
  induction hg with
  | refl => exact h
  | built _ hf ih => exact ih.force hf
  | added new _ ih => exact ih.append new

/-- What a retained rule holds is retained. -/
theorem Uniform.isRetained_of_holds (h : r.Uniform) (hm : r.isRetained m = true) (hheld : r.Holds m n) :
    r.isRetained n = true := by
  obtain ⟨rule, he⟩ := exists_of_isRetained hm
  unfold Holds heldBy at hheld
  rw [he] at hheld
  cases rule with
  | defined p =>
    cases (h _ _ he).cases with
    | defined hp =>
      rcases hp.holding.left n hheld with ⟨_, hk⟩ | ⟨_, _, hl⟩
      · exact hk.2
      · exact hl.elim
  | delayed | dropped => cases hheld

theorem Uniform.isRetained_of_path (h : r.Uniform) (hm : r.isRetained m = true)
    (hpath : Relation.ReflTransGen r.Holds m n) : r.isRetained n = true := by
  induction hpath with
  | refl => exact hm
  | tail _ hheld ih => exact h.isRetained_of_holds ih hheld

end Rules

namespace Pairing

variable {v w : Pairing τ π ρ} {a b size : Nat}

/-- The pairing and two blocks of retained rules. -/
def withKept (w : Pairing τ π ρ) (size a b : Nat) : Pairing τ π ρ where
  kept x y := w.kept x y ∨ ∃ i < size, x = a + i ∧ y = b + i
  loose := w.loose
  opens := w.opens
  opens' := w.opens'
  kept_of_opens ho := (w.kept_of_opens ho).imp fun _ => .inl
  kept_of_opens' ho := (w.kept_of_opens' ho).imp fun _ => .inl

/-- The pairing and two blocks of other rules. -/
def withLoose (w : Pairing τ π ρ) (size a b : Nat) : Pairing τ π ρ where
  kept := w.kept
  loose x y := w.loose x y ∨ ∃ i < size, x = a + i ∧ y = b + i
  opens := w.opens
  opens' := w.opens'
  kept_of_opens := w.kept_of_opens
  kept_of_opens' := w.kept_of_opens'

theorem le_withKept : w ≤ w.withKept size a b := ⟨.inl, id, id, id⟩

theorem le_withLoose : w ≤ w.withLoose size a b := ⟨id, .inl, id, id⟩

theorem blocks_withKept : (w.withKept size a b).settled.Blocks size a b := fun i hi => .inl (.inr ⟨i, hi, rfl, rfl⟩)

theorem blocks_withLoose : (w.withLoose size a b).Blocks size a b := fun i hi => .inr (.inr ⟨i, hi, rfl, rfl⟩)

/-- Entries of the two tables that are not retained and hold twin rules. -/
structure Level (w : Pairing τ π ρ) (r r' : Rules τ π ρ) (a b : Nat) (rule rule' : Rule τ π ρ) : Prop where
  left : r.entries[a]? = some ⟨rule, false⟩
  right : r'.entries[b]? = some ⟨rule', false⟩
  twin : Rule.Twin w rule rule'

/-- The pairing fits the tables: rules that are kept stem from twins that name retained rules only; rules that are
loose are twins and have no other counterparts. -/
structure Between (w : Pairing τ π ρ) (r r' : Rules τ π ρ) : Prop where
  uniform : r.Uniform
  uniform' : r'.Uniform
  kept : ∀ {a b : Nat}, w.kept a b → ∃ rule rule', r.Stem a rule ∧ r'.Stem b rule' ∧ Rule.Twin w.settled rule rule'
  loose : ∀ {a b : Nat}, w.loose a b → ∃ rule rule', w.Level r r' a b rule rule'
  loose_right : ∀ {a b b' : Nat}, w.loose a b → w.loose a b' → b = b'
  loose_left : ∀ {a a' b : Nat}, w.loose a b → w.loose a' b → a = a'
  opens : ∀ {a : Nat} {p : Parser τ π ρ ρ}, w.opens a p → r.entries[a]? = some ⟨.defined p, true⟩
  opens' : ∀ {b : Nat} {q : Parser τ π ρ ρ}, w.opens' b q → r'.entries[b]? = some ⟨.defined q, true⟩

namespace Between

variable {r r' r₁ : Rules τ π ρ} {p q : Parser τ π ρ ρ}

theorem swap (h : w.Between r r') : w.swap.Between r' r where
  uniform := h.uniform'
  uniform' := h.uniform
  kept hk := by
    obtain ⟨rule, rule', hs, hs', ht⟩ := h.kept hk
    exact ⟨rule', rule, hs', hs, ht.swap⟩
  loose hl := by
    obtain ⟨rule, rule', hl⟩ := h.loose hl
    exact ⟨rule', rule, hl.right, hl.left, hl.twin.swap⟩
  loose_right := h.loose_left
  loose_left := h.loose_right
  opens := h.opens'
  opens' := h.opens

theorem kept_left (h : w.Between r r') (hk : w.kept a b) : r.isRetained a = true := by
  obtain ⟨_, _, hs, _, _⟩ := h.kept hk
  exact hs.isRetained

theorem kept_right (h : w.Between r r') (hk : w.kept a b) : r'.isRetained b = true := h.swap.kept_left hk

theorem loose_lt (h : w.Between r r') (hl : w.loose a b) : a < r.entries.size := by
  obtain ⟨_, _, hl⟩ := h.loose hl
  exact (Array.getElem?_eq_some_iff.mp hl.left).1

theorem loose_not_retained (h : w.Between r r') (hl : w.loose a b) : r.isRetained a = false := by
  obtain ⟨_, _, hl⟩ := h.loose hl
  exact Rules.isRetained_of_getElem? hl.left

/-- Entering a retained rule on one side changes nothing for the other. -/
theorem force_left (h : w.Between r r') (ha : r.isRetained a = true) (hf : r.force a = some (p, r₁)) :
    w.Between r₁ r' where
  uniform := h.uniform.force hf
  uniform' := h.uniform'
  kept hk := by
    obtain ⟨rule, rule', hs, hs', ht⟩ := h.kept hk
    exact ⟨rule, rule', hs.force hf, hs', ht⟩
  loose {x y} hl := by
    have hne : x ≠ a := by
      rintro rfl
      rw [h.loose_not_retained hl] at ha
      cases ha
    obtain ⟨rule, rule', hl⟩ := h.loose hl
    refine ⟨rule, rule', ?_, hl.right, hl.twin⟩
    rcases Rules.force_cases hf with ⟨_, -, rfl⟩ | ⟨_, _, _, -, -, rfl⟩
    · exact hl.left
    · exact Rules.getElem?_build_of_ne hne hl.left
  loose_right := h.loose_right
  loose_left := h.loose_left
  opens ho := (Rules.Grows.built .refl hf).getElem?_defined (h.opens ho)
  opens' := h.opens'

theorem force_right {r₁' : Rules τ π ρ} (h : w.Between r r') (hb : r'.isRetained b = true)
    (hf : r'.force b = some (q, r₁')) : w.Between r r₁' := (h.swap.force_left hb hf).swap

theorem withKept (h : w.Between r r') (hblock : ∀ i < size, ∃ rule rule', r.Stem (a + i) rule ∧ r'.Stem (b + i) rule' ∧
    Rule.Twin (w.withKept size a b).settled rule rule') : (w.withKept size a b).Between r r' where
  uniform := h.uniform
  uniform' := h.uniform'
  kept hk := by
    rcases hk with hk | ⟨i, hi, rfl, rfl⟩
    · obtain ⟨rule, rule', hs, hs', ht⟩ := h.kept hk
      exact ⟨rule, rule', hs, hs', ht.mono (settled_mono le_withKept)⟩
    · exact hblock i hi
  loose hl := by
    obtain ⟨rule, rule', hl⟩ := h.loose hl
    exact ⟨rule, rule', hl.left, hl.right, hl.twin.mono le_withKept⟩
  loose_right := h.loose_right
  loose_left := h.loose_left
  opens := h.opens
  opens' := h.opens'

/-- Where nothing is loose, the tables may be any in which the retained rules stem from the same. -/
theorem replace {later later' : Rules τ π ρ} (h : w.Between r r') (hloose : ∀ a b, ¬ w.loose a b) (hr : later.Uniform)
    (hr' : later'.Uniform) (hs : ∀ {n : Nat} {rule : Rule τ π ρ}, r.Stem n rule → later.Stem n rule)
    (hs' : ∀ {n : Nat} {rule : Rule τ π ρ}, r'.Stem n rule → later'.Stem n rule) : w.Between later later' where
  uniform := hr
  uniform' := hr'
  kept hk := by
    obtain ⟨rule, rule', hleft, hright, ht⟩ := h.kept hk
    exact ⟨rule, rule', hs hleft, hs' hright, ht⟩
  loose hl := absurd hl (hloose _ _)
  loose_right hl := absurd hl (hloose _ _)
  loose_left hl := absurd hl (hloose _ _)
  opens ho := (hs (.fresh (h.opens ho))).getElem?_defined
  opens' ho := (hs' (.fresh (h.opens' ho))).getElem?_defined

/-- How two rules are entered: neither can be, or both can, and their definitions are twins in a larger pairing. -/
inductive Enters (w : Pairing τ π ρ) (r r' : Rules τ π ρ) (a b : Nat) : Prop where
  | none : r.force a = none → r'.force b = none → Enters w r r' a b
  | some {p q : Parser τ π ρ ρ} {r₁ r₁' : Rules τ π ρ} {w' : Pairing τ π ρ} : r.force a = some (p, r₁) →
      r'.force b = some (q, r₁') → w ≤ w' → w'.Between r₁ r₁' → Parser.Twin w' true p q → Enters w r r' a b

theorem enters_kept (h : w.Between r r') (hk : w.kept a b) : Enters w r r' a b := by
  obtain ⟨rule, rule', hs, hs', ht⟩ := h.kept hk
  cases ht.cases with
  | defined hp => exact .some hs.force_defined hs'.force_defined (le_refl w) h (hp.mono settled_le)
  | dropped => exact .none hs.force_dropped hs'.force_dropped
  | delayed hbuilds =>
    rename_i parser parser' rules rules'
    obtain ⟨first, r₁, hf, hnew⟩ := hs.force_delayed
    obtain ⟨first', r₁', hf', hnew'⟩ := hs'.force_delayed
    have h₁ : w.Between r₁ r₁' := (h.force_left (h.kept_left hk) hf).force_right (h.kept_right hk) hf'
    let w' := w.withKept (rules first).length first first'
    have hle : w.settled ≤ w'.settled := settled_mono le_withKept
    have h₂ : w'.Between r₁ r₁' := by
      refine h₁.withKept fun i hi => ?_
      have hi' : i < (rules' first').length := by rwa [← hbuilds.size first first']
      exact ⟨_, _, hnew i _ (List.getElem?_eq_getElem hi), hnew' i _ (List.getElem?_eq_getElem hi'),
        hbuilds.rules hle blocks_withKept (List.getElem?_eq_getElem hi) (List.getElem?_eq_getElem hi')⟩
    exact .some hf hf' le_withKept h₂ ((hbuilds.parser hle blocks_withKept).mono settled_le)

section Added

variable {β : Type} {parser parser' : Nat → Parser τ π ρ β} {rules rules' : Nat → List (Rule τ π ρ)}

/-- The pairing and the blocks of rules that come to stand behind the tables. -/
def withAdded (w : Pairing τ π ρ) (r r' : Rules τ π ρ) (rules : Nat → List (Rule τ π ρ)) : Pairing τ π ρ :=
  w.withLoose (rules r.entries.size).length r.entries.size r'.entries.size

/-- The blocks that twins add to the tables are paired, if what was loose before is so still. -/
theorem withAdded_between {r₁' : Rules τ π ρ} (h : w.Between r r')
    (hbuilds : Rule.Twin.Builds w parser parser' rules rules') (hg : r.Grows r₁) (hg' : r'.Grows r₁')
    (hold : ∀ {x y : Nat}, w.loose x y → ∃ rule rule', (withAdded w r r' rules).Level r₁ r₁' x y rule rule')
    (hnew : ∀ i, r₁.entries[r.entries.size + i]? = (rules r.entries.size)[i]?.map (⟨·, false⟩))
    (hnew' : ∀ i, r₁'.entries[r'.entries.size + i]? = (rules' r'.entries.size)[i]?.map (⟨·, false⟩)) :
    (withAdded w r r' rules).Between r₁ r₁' where
  uniform := h.uniform.grows hg
  uniform' := h.uniform'.grows hg'
  kept hk := by
    obtain ⟨rule, rule', hs, hs', ht⟩ := h.kept hk
    exact ⟨rule, rule', hs.grows hg, hs'.grows hg', ht.mono (settled_mono le_withLoose)⟩
  loose hl := by
    rcases hl with hl | ⟨i, hi, rfl, rfl⟩
    · exact hold hl
    · have hi' : i < (rules' r'.entries.size).length := by rwa [← hbuilds.size r.entries.size r'.entries.size]
      have hrule := List.getElem?_eq_getElem hi
      have hrule' := List.getElem?_eq_getElem hi'
      exact ⟨_, _, by rw [hnew, hrule]; rfl, by rw [hnew', hrule']; rfl,
        hbuilds.rules le_withLoose blocks_withLoose hrule hrule'⟩
  -- The new rules stand behind all that were loose before.
  loose_right hl hl' := by
    rcases hl with hl | ⟨i, hi, hx, hy⟩ <;> rcases hl' with hl' | ⟨j, hj, hx', hy'⟩
    · exact h.loose_right hl hl'
    · have := h.loose_lt hl
      omega
    · have := h.loose_lt hl'
      omega
    · omega
  loose_left hl hl' := by
    rcases hl with hl | ⟨i, hi, hx, hy⟩ <;> rcases hl' with hl' | ⟨j, hj, hx', hy'⟩
    · exact h.loose_left hl hl'
    · have := h.swap.loose_lt hl
      omega
    · have := h.swap.loose_lt hl'
      omega
    · omega
  opens ho := hg.getElem?_defined (h.opens ho)
  opens' ho := hg'.getElem?_defined (h.opens' ho)

/-- Rules that twins make while they run are paired as they are made. -/
theorem append (h : w.Between r r') (hbuilds : Rule.Twin.Builds w parser parser' rules rules') :
    ∃ w', w ≤ w' ∧ w'.Between (r.append (rules r.entries.size) false) (r'.append (rules' r'.entries.size) false) ∧
      Parser.Twin w' true (parser r.entries.size) (parser' r'.entries.size) := by
  have hle : w ≤ withAdded w r r' rules := le_withLoose
  refine ⟨_, hle, h.withAdded_between hbuilds (.added _ .refl) (.added _ .refl) ?_ (Rules.getElem?_append_new _ _)
    (Rules.getElem?_append_new _ _), hbuilds.parser hle blocks_withLoose⟩
  intro x y hxy
  obtain ⟨rule, rule', hold⟩ := h.loose hxy
  exact ⟨rule, rule', Rules.getElem?_append hold.left _, Rules.getElem?_append hold.right _, hold.twin.mono hle⟩

end Added

theorem enters_loose (h : w.Between r r') (hl : w.loose a b) : Enters w r r' a b := by
  obtain ⟨rule, rule', hlevel⟩ := h.loose hl
  obtain ⟨hleft, hright, ht⟩ := hlevel
  cases ht.cases with
  | defined hp => exact .some (Rules.force_of_defined hleft) (Rules.force_of_defined hright) (le_refl w) h hp
  | dropped => exact .none (Rules.force_of_dropped hleft) (Rules.force_of_dropped hright)
  | @delayed parser parser' rules rules' hbuilds =>
    have hf := Rules.force_of_delayed hleft
    have hf' := Rules.force_of_delayed hright
    have hle : w ≤ withAdded w r r' rules := le_withLoose
    have hp : Parser.Twin _ true (parser r.entries.size) (parser' r'.entries.size) := hbuilds.parser hle blocks_withLoose
    refine .some hf hf' hle (h.withAdded_between hbuilds (.built .refl hf) (.built .refl hf') ?_
      Rules.getElem?_build_new Rules.getElem?_build_new) hp
    intro x y hxy
    by_cases hx : x = a
    · subst hx
      obtain rfl := h.loose_right hl hxy
      exact ⟨_, _, Rules.getElem?_build_self hleft, Rules.getElem?_build_self hright, .defined hp⟩
    · have hy : y ≠ b := fun hy => hx (h.loose_left hxy (hy ▸ hl))
      obtain ⟨rule, rule', hold⟩ := h.loose hxy
      exact ⟨rule, rule', Rules.getElem?_build_of_ne hx hold.left, Rules.getElem?_build_of_ne hy hold.right,
        hold.twin.mono hle⟩

theorem enters (h : w.Between r r') (hab : w.Pairs a b) : Enters w r r' a b := hab.elim h.enters_kept h.enters_loose

/-- A path to a rule that is not retained goes through such rules only, and so does one on the other side. -/
theorem path_right (h : w.Between r r') {x y : Nat} (hl : w.loose x y) (hab : w.loose a b)
    (hpath : Relation.ReflTransGen r.Holds x a) : Relation.ReflTransGen r'.Holds y b := by
  induction hpath using Relation.ReflTransGen.head_induction_on generalizing y with
  | refl =>
    obtain rfl := h.loose_right hl hab
    exact .refl
  | @head x z hheld hpath ih =>
    obtain ⟨rule, rule', hlevel⟩ := h.loose hl
    obtain ⟨hleft, hright, ht⟩ := hlevel
    unfold Rules.Holds Rules.heldBy at hheld
    rw [hleft] at hheld
    cases ht.cases with
    | defined hp =>
      rcases hp.holding.left z hheld with ⟨_, hk⟩ | ⟨z', hz', hl'⟩
      · -- What a retained rule holds is retained, and the end of the path is not.
        have hend := h.uniform.isRetained_of_path (h.kept_left hk) hpath
        rw [h.loose_not_retained hab] at hend
        cases hend
      · refine (ih hl').head ?_
        unfold Rules.Holds Rules.heldBy
        rw [hright]
        exact hz'
    | delayed | dropped => cases hheld

theorem isHeld_right {held held' : List Nat} (h : w.Between r r') (hheld : w.Holding held held') (hab : w.loose a b)
    (ha : r.isHeld held a = true) : r'.isHeld held' b = true := by
  rw [Rules.isHeld_iff] at ha ⊢
  obtain ⟨x, hx, hpath⟩ := ha
  rcases hheld.left x hx with ⟨_, hk⟩ | ⟨y, hy, hl⟩
  · have hend := h.uniform.isRetained_of_path (h.kept_left hk) hpath
    rw [h.loose_not_retained hab] at hend
    cases hend
  · exact ⟨y, hy, h.path_right hl hab hpath⟩

/-- A handle stands for its rule on the one side if and only if its counterpart does on the other. -/
theorem counted_eq {held held' : List Nat} (h : w.Between r r') (hheld : w.Holding held held') (hab : w.Pairs a b) :
    Liveness.counted r held a = Liveness.counted r' held' b := by
  rcases hab with hk | hl
  · simp only [Liveness.counted, h.kept_left hk, h.kept_right hk, Bool.true_or]
  · have hleft : r.isRetained a = false := h.loose_not_retained hl
    have hright : r'.isRetained b = false := h.swap.loose_not_retained hl
    simp only [Liveness.counted, hleft, hright, Bool.false_or]
    rw [Bool.eq_iff_iff]
    exact ⟨h.isHeld_right hheld hl, h.swap.isHeld_right hheld.swap hl⟩

end Between

end Pairing

/-- In a uniform table each retained rule may stand for itself. -/
theorem Rules.Uniform.between {r : Rules τ π ρ} (h : r.Uniform) : r.pairing.Between r r where
  uniform := h
  uniform' := h
  kept {a b} hk := by
    obtain ⟨rfl, ha⟩ := hk
    obtain ⟨rule, he⟩ := exists_of_isRetained ha
    exact ⟨rule, rule, .fresh he, .fresh he, (h a rule he).mono ⟨id, id, id, id⟩⟩
  loose := False.elim
  loose_right := False.elim
  loose_left := False.elim
  opens := False.elim
  opens' := False.elim

theorem Rules.Uniform.between_grows {r later later' : Rules τ π ρ} (h : r.Uniform) (hg : r.Grows later)
    (hg' : r.Grows later') : r.pairing.Between later later' :=
  h.between.replace (fun _ _ => id) (h.grows hg) (h.grows hg') (·.grows hg) (·.grows hg')

end StreamParsing
