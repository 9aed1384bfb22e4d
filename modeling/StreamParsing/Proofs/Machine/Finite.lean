import Mathlib.Data.Finset.Card
import StreamParsing.Parser.Repetition
import StreamParsing.Proofs.Machine.Growth

/-!
Finite parsers. A parser is unfolded by following its parts, the answers of its continuations and the definitions of its
rules and handles, where a handle to a definition that is being unfolded is left as it is. Parsers whose unfolding ends
are finite; those over a table in which definitions hold each other without a circle are. Finite parsers are closed
under unfolding, so that every parser met in a run is one.
-/

namespace StreamParsing

set_option autoImplicit false

variable {τ π ρ α β γ : Type}

/-- Unfolding the parser ends, while the definitions in `active` are being unfolded. -/
inductive Parser.Finite : Rules τ π ρ → List Nat → {α : Type} → Parser τ π ρ α → Prop where
  | leaf {rules : Rules τ π ρ} {active : List Nat} {α : Type} {p : Parser τ π ρ α} : p.IsLeaf →
      Finite rules active p
  | tryMap {rules : Rules τ π ρ} {active : List Nat} {α β : Type} {p : Parser τ π ρ α} {f : α → Except Cause β} :
      Finite rules active p → Finite rules active (.tryMap p f)
  | tryBind {rules : Rules τ π ρ} {active : List Nat} {α β γ : Type} {p : Parser τ π ρ α}
      {check : α → Except Cause β} {next : β → Parser τ π ρ γ} : Finite rules active p →
      (∀ b, Finite rules active (next b)) → Finite rules active (.tryBind p check next)
  | zipWith {rules : Rules τ π ρ} {active : List Nat} {α β γ : Type} {f : α → β → γ} {p : Parser τ π ρ α}
      {q : Parser τ π ρ β} : Finite rules active p → Finite rules active q → Finite rules active (.zipWith f p q)
  | orElse {rules : Rules τ π ρ} {active : List Nat} {α : Type} {p q : Parser τ π ρ α} : Finite rules active p →
      Finite rules active q → Finite rules active (.orElse p q)
  | reshape {rules : Rules τ π ρ} {active : List Nat} {α β : Type} {p : Parser τ π ρ α} {hook : Hook τ π α β} :
      Finite rules active p → Finite rules active (.reshape p hook)
  | loop {rules : Rules τ π ρ} {active : List Nat} {α β : Type} {seed : Parser τ π ρ β} {item : Parser τ π ρ α}
      {step : β → α → β} {bounds : Bounds} : Finite rules active seed → Finite rules active item →
      Finite rules active (.loop seed item step bounds)
  | loopTill {rules : Rules τ π ρ} {active : List Nat} {α β γ : Type} {seed : Parser τ π ρ β}
      {item : Parser τ π ρ α} {stop : Parser τ π ρ γ} {step : β → α → β} {bounds : Bounds} :
      Finite rules active seed → Finite rules active item → Finite rules active stop →
      Finite rules active (.loopTill seed item stop step bounds)
  | rule {rules : Rules τ π ρ} {active : List Nat} {number : Nat} :
      (∀ mid p later, rules.Grows mid → mid.force number = some (p, later) → Finite later (number :: active) p) →
      Finite rules active (.rule number)
  | handle {rules : Rules τ π ρ} {active : List Nat} {number : Nat} :
      (∀ mid p later, rules.Grows mid → mid.force number = some (p, later) → Finite later (number :: active) p) →
      Finite rules active (.handle number)
  | active {rules : Rules τ π ρ} {active : List Nat} {number : Nat} : number ∈ active →
      Finite rules active (.handle number)
  | draft {rules : Rules τ π ρ} {active : List Nat} {α : Type} {parser : Nat → Parser τ π ρ α}
      {new : Nat → List (Rule τ π ρ)} :
      (∀ mid, rules.Grows mid →
        Finite (mid.append (new mid.entries.size) false) active (parser mid.entries.size)) →
      Finite rules active (.draft parser new)

namespace Parser.Finite

variable {rules later : Rules τ π ρ} {active active' : List Nat}

theorem grows {p : Parser τ π ρ α} (h : p.Finite rules active) (hg : rules.Grows later) : p.Finite later active := by
  induction h generalizing later with
  | leaf hp => exact .leaf hp
  | tryMap _ ih => exact .tryMap (ih hg)
  | tryBind _ _ ihp ihn => exact .tryBind (ihp hg) fun b => ihn b hg
  | zipWith _ _ ihp ihq => exact .zipWith (ihp hg) (ihq hg)
  | orElse _ _ ihp ihq => exact .orElse (ihp hg) (ihq hg)
  | reshape _ ih => exact .reshape (ih hg)
  | loop _ _ ihs ihi => exact .loop (ihs hg) (ihi hg)
  | loopTill _ _ _ ihs ihi iht => exact .loopTill (ihs hg) (ihi hg) (iht hg)
  | rule h _ => exact .rule fun mid p last hm => h mid p last (hg.trans hm)
  | handle h _ => exact .handle fun mid p last hm => h mid p last (hg.trans hm)
  | active hn => exact .active hn
  | draft h _ => exact .draft fun mid hm => h mid (hg.trans hm)

theorem mono {p : Parser τ π ρ α} (h : p.Finite rules active) (ha : active ⊆ active') : p.Finite rules active' := by
  induction h generalizing active' with
  | leaf hp => exact .leaf hp
  | tryMap _ ih => exact .tryMap (ih ha)
  | tryBind _ _ ihp ihn => exact .tryBind (ihp ha) fun b => ihn b ha
  | zipWith _ _ ihp ihq => exact .zipWith (ihp ha) (ihq ha)
  | orElse _ _ ihp ihq => exact .orElse (ihp ha) (ihq ha)
  | reshape _ ih => exact .reshape (ih ha)
  | loop _ _ ihs ihi => exact .loop (ihs ha) (ihi ha)
  | loopTill _ _ _ ihs ihi iht => exact .loopTill (ihs ha) (ihi ha) (iht ha)
  | rule _ ih => exact .rule fun mid p last hm hf => ih mid p last hm hf (List.cons_subset_cons _ ha)
  | handle _ ih => exact .handle fun mid p last hm hf => ih mid p last hm hf (List.cons_subset_cons _ ha)
  | active hn => exact .active (ha hn)
  | draft _ ih => exact .draft fun mid hm => ih mid hm ha

theorem cons_subset_swap {number : Nat} (ha : active' ⊆ number :: active) (other : Nat) :
    other :: active' ⊆ number :: other :: active := by
  intro n hmem
  rcases List.mem_cons.mp hmem with rfl | hmem
  · exact List.mem_cons_of_mem _ List.mem_cons_self
  · rcases List.mem_cons.mp (ha hmem) with rfl | hmem
    · exact List.mem_cons_self
    · exact List.mem_cons_of_mem _ (List.mem_cons_of_mem _ hmem)

/-- What is finite while a definition is being unfolded is finite without, if the handle to the definition is. -/
theorem erase {p : Parser τ π ρ α} {number : Nat} (h : p.Finite rules active') (ha : active' ⊆ number :: active)
    (hn : (Parser.handle number : Parser τ π ρ ρ).Finite rules active) : p.Finite rules active := by
  induction h generalizing active with
  | leaf hp => exact .leaf hp
  | tryMap _ ih => exact .tryMap (ih ha hn)
  | tryBind _ _ ihp ihn => exact .tryBind (ihp ha hn) fun b => ihn b ha hn
  | zipWith _ _ ihp ihq => exact .zipWith (ihp ha hn) (ihq ha hn)
  | orElse _ _ ihp ihq => exact .orElse (ihp ha hn) (ihq ha hn)
  | reshape _ ih => exact .reshape (ih ha hn)
  | loop _ _ ihs ihi => exact .loop (ihs ha hn) (ihi ha hn)
  | loopTill _ _ _ ihs ihi iht => exact .loopTill (ihs ha hn) (ihi ha hn) (iht ha hn)
  | @active _ _ other hother =>
    rcases List.mem_cons.mp (ha hother) with rfl | hmem
    · exact hn
    · exact .active hmem
  | rule _ ih =>
    refine .rule fun mid p last hm hf => ih mid p last hm hf (cons_subset_swap ha _) ?_
    exact (hn.mono (List.subset_cons_self _ _)).grows (hm.trans (.built .refl hf))
  | handle _ ih =>
    refine .handle fun mid p last hm hf => ih mid p last hm hf (cons_subset_swap ha _) ?_
    exact (hn.mono (List.subset_cons_self _ _)).grows (hm.trans (.built .refl hf))
  | draft _ ih => exact .draft fun mid hm => ih mid hm ha (hn.grows (hm.trans (.added _ .refl)))

theorem parts {p : Parser τ π ρ α} (h : p.Finite rules active) : p.Parts (Parser.Finite rules active) := by
  cases h with
  | leaf hp =>
    cases p with
    | pure | peek | satisfy | endOfInput | fail | abort => trivial
    | _ => exact hp.elim
  | tryMap hp => exact hp
  | tryBind hp hn => exact ⟨hp, hn⟩
  | zipWith hp hq => exact ⟨hp, hq⟩
  | orElse hp hq => exact ⟨hp, hq⟩
  | reshape hp => exact hp
  | loop hs hi => exact ⟨hs, hi⟩
  | loopTill hs hi ht => exact ⟨⟨hs, hi⟩, ht⟩
  | rule | handle | active | draft => trivial

/-- The definition of a finite rule or handle is finite. -/
theorem of_force {number : Nat} {p : Parser τ π ρ ρ} (h : ∀ mid p later, rules.Grows mid →
      mid.force number = some (p, later) → p.Finite later [number])
    (hf : rules.force number = some (p, later)) : p.Finite later [] := by
  have hg : rules.Grows later := .built .refl hf
  refine (h rules p later .refl hf).erase (List.Subset.refl _) (.handle ?_)
  exact fun mid q last hm => h mid q last (hg.trans hm)

end Parser.Finite

namespace Parser

/-- The parser makes no rules; the rules that it names itself are `strong`, those it has handles to are `weak`. -/
inductive Refers (strong weak : Nat → Prop) : {α : Type} → Parser τ π ρ α → Prop where
  | leaf {α : Type} {p : Parser τ π ρ α} : p.IsLeaf → Refers strong weak p
  | tryMap {α β : Type} {p : Parser τ π ρ α} {f : α → Except Cause β} : Refers strong weak p →
      Refers strong weak (.tryMap p f)
  | tryBind {α β γ : Type} {p : Parser τ π ρ α} {check : α → Except Cause β} {next : β → Parser τ π ρ γ} :
      Refers strong weak p → (∀ b, Refers strong weak (next b)) → Refers strong weak (.tryBind p check next)
  | zipWith {α β γ : Type} {f : α → β → γ} {p : Parser τ π ρ α} {q : Parser τ π ρ β} : Refers strong weak p →
      Refers strong weak q → Refers strong weak (.zipWith f p q)
  | orElse {α : Type} {p q : Parser τ π ρ α} : Refers strong weak p → Refers strong weak q →
      Refers strong weak (.orElse p q)
  | reshape {α β : Type} {p : Parser τ π ρ α} {hook : Hook τ π α β} : Refers strong weak p →
      Refers strong weak (.reshape p hook)
  | loop {α β : Type} {seed : Parser τ π ρ β} {item : Parser τ π ρ α} {step : β → α → β} {bounds : Bounds} :
      Refers strong weak seed → Refers strong weak item → Refers strong weak (.loop seed item step bounds)
  | loopTill {α β γ : Type} {seed : Parser τ π ρ β} {item : Parser τ π ρ α} {stop : Parser τ π ρ γ}
      {step : β → α → β} {bounds : Bounds} : Refers strong weak seed → Refers strong weak item →
      Refers strong weak stop → Refers strong weak (.loopTill seed item stop step bounds)
  | rule {number : Nat} : strong number → Refers strong weak (.rule number)
  | handle {number : Nat} : weak number → Refers strong weak (.handle number)

variable {rules : Rules τ π ρ} {rank : Nat → Nat} {size : Nat}

/-- The first rules are defined, and what a definition names itself has a lower rank. -/
def Ranked (rules : Rules τ π ρ) (rank : Nat → Nat) (size : Nat) : Prop :=
  ∀ n < size, ∃ p retained, rules.entries[n]? = some ⟨.defined p, retained⟩ ∧
    p.Refers (fun m => m < size ∧ rank m < rank n) (· < size)

/-- Entering a handle leaves fewer definitions to enter, and entering a rule lowers the rank. -/
theorem finite_of_refers (hr : Ranked rules rank size) (free bound : Nat) {active : List Nat} {p : Parser τ π ρ α}
    (hfree : (Finset.range size \ active.toFinset).card ≤ free)
    (hp : p.Refers (fun m => m < size ∧ rank m < bound) (· < size)) : p.Finite rules active := by
  induction free using Nat.strong_induction_on generalizing bound active α with
  | _ free ihfree =>
  induction bound using Nat.strong_induction_on generalizing active α with
  | _ bound ihbound =>
  induction hp with
  | leaf hp => exact .leaf hp
  | tryMap _ ih => exact .tryMap ih
  | tryBind _ _ ihp ihn => exact .tryBind ihp ihn
  | zipWith _ _ ihp ihq => exact .zipWith ihp ihq
  | orElse _ _ ihp ihq => exact .orElse ihp ihq
  | reshape _ ih => exact .reshape ih
  | loop _ _ ihs ihi => exact .loop ihs ihi
  | loopTill _ _ _ ihs ihi iht => exact .loopTill ihs ihi iht
  | @rule number hnumber =>
    obtain ⟨q, retained, he, hq⟩ := hr number hnumber.1
    have hle : (Finset.range size \ (number :: active).toFinset).card ≤ free := by
      refine le_trans (Finset.card_le_card (Finset.sdiff_subset_sdiff le_rfl ?_)) hfree
      rw [List.toFinset_cons]
      exact Finset.subset_insert _ _
    refine .rule fun mid p later hm hf => ?_
    rw [hm.force_defined he] at hf
    cases hf
    exact (ihbound _ hnumber.2 hle hq).grows hm
  | @handle number hnumber =>
    by_cases hactive : number ∈ active
    · exact .active hactive
    · obtain ⟨q, retained, he, hq⟩ := hr number hnumber
      have hlt : (Finset.range size \ (number :: active).toFinset).card <
          (Finset.range size \ active.toFinset).card := by
        apply Finset.card_lt_card
        rw [List.toFinset_cons, Finset.sdiff_insert]
        exact Finset.erase_ssubset (by simpa using ⟨hnumber, hactive⟩)
      refine .handle fun mid p later hm hf => ?_
      rw [hm.force_defined he] at hf
      cases hf
      exact (ihfree _ (lt_of_lt_of_le hlt hfree) _ le_rfl hq).grows hm

/-- Over definitions that hold each other without a circle, parsers are finite, whatever handles they have. -/
theorem finite_of_ranked (hr : Ranked rules rank size) (bound : Nat) {p : Parser τ π ρ α}
    (hp : p.Refers (fun m => m < size ∧ rank m < bound) (· < size)) : p.Finite rules [] :=
  finite_of_refers hr _ bound le_rfl hp

section Combinators

variable {active : List Nat} {p : Parser τ π ρ α} {q : Parser τ π ρ β}

theorem Finite.pure (value : α) : (Parser.pure value : Parser τ π ρ α).Finite rules active := .leaf trivial

theorem Finite.collect (h : p.Finite rules active) (bounds : Bounds) : (p.collect bounds).Finite rules active :=
  .loop (.pure _) h

theorem Finite.skipLoop (h : p.Finite rules active) (bounds : Bounds) : (p.skipLoop bounds).Finite rules active :=
  .loop (.pure _) h

theorem Finite.manyTill (h : p.Finite rules active) (hq : q.Finite rules active) :
    (p.manyTill q).Finite rules active := .loopTill (.pure _) h hq

theorem Finite.foldLeft (h : p.Finite rules active) (seed : β) (op : β → α → β) :
    (p.foldLeft seed op).Finite rules active := .loop (.pure _) h

theorem Finite.foldRight (h : p.Finite rules active) (seed : β) (op : α → β → β) :
    (p.foldRight seed op).Finite rules active := .tryMap (h.collect _)

theorem Finite.sepBy (h : p.Finite rules active) (hq : q.Finite rules active) : (p.sepBy q).Finite rules active :=
  .orElse (.loop (.tryMap h) (.zipWith hq h)) (.pure _)

theorem Finite.chainLeft1 {op : Parser τ π ρ (α → α → α)} (h : p.Finite rules active) (ho : op.Finite rules active) :
    (p.chainLeft1 op).Finite rules active := .loop h (.zipWith ho h)

theorem Finite.chainRight1 {op : Parser τ π ρ (α → α → α)} (h : p.Finite rules active) (ho : op.Finite rules active) :
    (p.chainRight1 op).Finite rules active := .tryMap (.zipWith h (.collect (.zipWith ho h) _))

end Combinators

end Parser

end StreamParsing
