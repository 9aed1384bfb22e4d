import Mathlib.Data.ENat.Lattice
import Mathlib.Order.CompletePartialOrder
import StreamParsing.Parser.Repetition
import StreamParsing.Proofs.Machine.Growth

/-!
The depth of a parser: how many pieces of work can be pending at once while it runs. Pending work that has been used up
is gone before what it leads to is run, so the second branch of a choice and the continuation of a bind need no room of
their own, and a loop needs the same room in every round. Handles have no depth.
-/

namespace StreamParsing

set_option autoImplicit false

universe u

variable {σ : Type u} {τ π ρ α β γ ω : Type}

/-- The parser runs with at most `d` pieces of pending work above what was there before. -/
inductive Parser.Fits : Rules τ π ρ → Nat → {α : Type} → Parser τ π ρ α → Prop where
  | leaf {rules : Rules τ π ρ} {d : Nat} {α : Type} {p : Parser τ π ρ α} : p.IsLeaf → Fits rules d p
  | tryMap {rules : Rules τ π ρ} {d : Nat} {α β : Type} {p : Parser τ π ρ α} {f : α → Except Cause β} :
      Fits rules d p → Fits rules (d + 1) (.tryMap p f)
  | tryBind {rules : Rules τ π ρ} {d : Nat} {α β γ : Type} {p : Parser τ π ρ α} {check : α → Except Cause β}
      {next : β → Parser τ π ρ γ} : Fits rules d p → (∀ b, Fits rules (d + 1) (next b)) →
      Fits rules (d + 1) (.tryBind p check next)
  | zipWith {rules : Rules τ π ρ} {d : Nat} {α β γ : Type} {f : α → β → γ} {p : Parser τ π ρ α}
      {q : Parser τ π ρ β} : Fits rules d p → Fits rules d q → Fits rules (d + 1) (.zipWith f p q)
  | orElse {rules : Rules τ π ρ} {d : Nat} {α : Type} {p q : Parser τ π ρ α} :
      Fits rules d p → Fits rules (d + 1) q → Fits rules (d + 1) (.orElse p q)
  | reshape {rules : Rules τ π ρ} {d : Nat} {α β : Type} {p : Parser τ π ρ α} {hook : Hook τ π α β} :
      Fits rules d p → Fits rules (d + 1) (.reshape p hook)
  | loop {rules : Rules τ π ρ} {d : Nat} {α β : Type} {seed : Parser τ π ρ β} {item : Parser τ π ρ α}
      {step : β → α → β} {bounds : Bounds} : Fits rules d seed → Fits rules d item →
      Fits rules (d + 1) (.loop seed item step bounds)
  | loopTill {rules : Rules τ π ρ} {d : Nat} {α β γ : Type} {seed : Parser τ π ρ β} {item : Parser τ π ρ α}
      {stop : Parser τ π ρ γ} {step : β → α → β} {bounds : Bounds} : Fits rules d seed → Fits rules d item →
      Fits rules d stop → Fits rules (d + 1) (.loopTill seed item stop step bounds)
  /-- A rule needs the room of its definition, which may have to be built first. -/
  | rule {rules : Rules τ π ρ} {d number : Nat} :
      (∀ mid p later, rules.Grows mid → mid.force number = some (p, later) → Fits later d p) →
      Fits rules d (.rule number)
  | draft {rules : Rules τ π ρ} {d : Nat} {α : Type} {parser : Nat → Parser τ π ρ α}
      {new : Nat → List (Rule τ π ρ)} :
      (∀ mid, rules.Grows mid → Fits (mid.append (new mid.entries.size) false) d (parser mid.entries.size)) →
      Fits rules d (.draft parser new)

namespace Parser

variable {rules later : Rules τ π ρ} {d d' : Nat}

theorem Fits.grows {p : Parser τ π ρ α} (h : p.Fits rules d) (hg : rules.Grows later) : p.Fits later d := by
  induction h generalizing later with
  | leaf hp => exact .leaf hp
  | tryMap _ ih => exact .tryMap (ih hg)
  | tryBind _ _ ihp ihn => exact .tryBind (ihp hg) fun b => ihn b hg
  | zipWith _ _ ihp ihq => exact .zipWith (ihp hg) (ihq hg)
  | orElse _ _ ihp ihq => exact .orElse (ihp hg) (ihq hg)
  | reshape _ ih => exact .reshape (ih hg)
  | loop _ _ ihs ihi => exact .loop (ihs hg) (ihi hg)
  | loopTill _ _ _ ihs ihi iht => exact .loopTill (ihs hg) (ihi hg) (iht hg)
  | rule h _ => exact .rule fun mid p last hm hf => h mid p last (hg.trans hm) hf
  | draft h _ => exact .draft fun mid hm => h mid (hg.trans hm)

theorem Fits.succ {p : Parser τ π ρ α} (h : p.Fits rules d) : p.Fits rules (d + 1) := by
  induction h with
  | leaf hp => exact .leaf hp
  | tryMap _ ih => exact .tryMap ih
  | tryBind _ _ ihp ihn => exact .tryBind ihp ihn
  | zipWith _ _ ihp ihq => exact .zipWith ihp ihq
  | orElse _ _ ihp ihq => exact .orElse ihp ihq
  | reshape _ ih => exact .reshape ih
  | loop _ _ ihs ihi => exact .loop ihs ihi
  | loopTill _ _ _ ihs ihi iht => exact .loopTill ihs ihi iht
  | rule _ ih => exact .rule ih
  | draft _ ih => exact .draft ih

theorem Fits.mono {p : Parser τ π ρ α} (h : p.Fits rules d) (hd : d ≤ d') : p.Fits rules d' := by
  induction hd with
  | refl => exact h
  | step _ ih => exact ih.succ

/-- The least room that a parser fits in, infinite if there is none. -/
noncomputable def depth (rules : Rules τ π ρ) (p : Parser τ π ρ α) : ℕ∞ :=
  ⨅ d : { d : Nat // p.Fits rules d }, (d.val : ℕ∞)

theorem depth_le_iff {p : Parser τ π ρ α} : p.depth rules ≤ d ↔ p.Fits rules d := by
  constructor
  · intro h
    by_contra hn
    have hlt : ((d + 1 : Nat) : ℕ∞) ≤ p.depth rules := by
      apply le_iInf
      rintro ⟨e, he⟩
      have : ¬ e ≤ d := fun hle => hn (he.mono hle)
      exact_mod_cast (by omega : d + 1 ≤ e)
    have : d + 1 ≤ d := by exact_mod_cast hlt.trans h
    omega
  · intro h
    exact iInf_le (fun d : { d : Nat // p.Fits rules d } => (d.val : ℕ∞)) ⟨d, h⟩

section Equations

theorem eq_of_forall_le_iff {a b : ℕ∞} (h : ∀ n : Nat, a ≤ n ↔ b ≤ n) : a = b := by
  apply le_antisymm
  · cases b with
    | top => exact le_top
    | coe n => exact (h n).mpr le_rfl
  · cases a with
    | top => exact le_top
    | coe n => exact (h n).mp le_rfl

theorem one_add_le_iff {a : ℕ∞} {n : Nat} : 1 + a ≤ n ↔ ∃ m : Nat, n = m + 1 ∧ a ≤ m := by
  cases a with
  | top => simp
  | coe a =>
    norm_cast
    constructor
    · intro h
      exact ⟨n - 1, by omega, by omega⟩
    · rintro ⟨m, rfl, h⟩
      omega

variable {p : Parser τ π ρ α} {q : Parser τ π ρ β}

theorem depth_leaf (h : p.IsLeaf) : p.depth rules = 0 := by
  have hfits : p.Fits rules 0 := .leaf h
  exact le_antisymm (depth_le_iff.mpr hfits) zero_le

@[simp] theorem depth_tryMap (f : α → Except Cause β) : (p.tryMap f).depth rules = 1 + p.depth rules := by
  apply eq_of_forall_le_iff
  intro n
  rw [depth_le_iff, one_add_le_iff]
  constructor
  · intro h
    cases h with
    | leaf h => exact h.elim
    | tryMap h => exact ⟨_, rfl, depth_le_iff.mpr h⟩
  · rintro ⟨m, rfl, h⟩
    exact .tryMap (depth_le_iff.mp h)

@[simp] theorem depth_reshape (hook : Hook τ π α β) : (p.reshape hook).depth rules = 1 + p.depth rules := by
  apply eq_of_forall_le_iff
  intro n
  rw [depth_le_iff, one_add_le_iff]
  constructor
  · intro h
    cases h with
    | leaf h => exact h.elim
    | reshape h => exact ⟨_, rfl, depth_le_iff.mpr h⟩
  · rintro ⟨m, rfl, h⟩
    exact .reshape (depth_le_iff.mp h)

@[simp] theorem depth_tryBind (check : α → Except Cause β) (next : β → Parser τ π ρ γ) :
    (p.tryBind check next).depth rules = max (1 + p.depth rules) (⨆ b, (next b).depth rules) := by
  apply eq_of_forall_le_iff
  intro n
  rw [depth_le_iff, max_le_iff, one_add_le_iff, iSup_le_iff]
  constructor
  · intro h
    cases h with
    | leaf h => exact h.elim
    | tryBind h hn => exact ⟨⟨_, rfl, depth_le_iff.mpr h⟩, fun b => depth_le_iff.mpr (hn b)⟩
  · rintro ⟨⟨m, rfl, h⟩, hn⟩
    exact .tryBind (depth_le_iff.mp h) fun b => depth_le_iff.mp (hn b)

@[simp] theorem depth_zipWith (f : α → β → γ) :
    (zipWith f p q).depth rules = 1 + max (p.depth rules) (q.depth rules) := by
  apply eq_of_forall_le_iff
  intro n
  rw [depth_le_iff, one_add_le_iff]
  constructor
  · intro h
    cases h with
    | leaf h => exact h.elim
    | zipWith hp hq => exact ⟨_, rfl, max_le (depth_le_iff.mpr hp) (depth_le_iff.mpr hq)⟩
  · rintro ⟨m, rfl, h⟩
    obtain ⟨hp, hq⟩ := max_le_iff.mp h
    exact .zipWith (depth_le_iff.mp hp) (depth_le_iff.mp hq)

@[simp] theorem depth_orElse {p q : Parser τ π ρ α} :
    (p.orElse q).depth rules = max (1 + p.depth rules) (q.depth rules) := by
  apply eq_of_forall_le_iff
  intro n
  rw [depth_le_iff, max_le_iff, one_add_le_iff]
  constructor
  · intro h
    cases h with
    | leaf h => exact h.elim
    | orElse hp hq => exact ⟨⟨_, rfl, depth_le_iff.mpr hp⟩, depth_le_iff.mpr hq⟩
  · rintro ⟨⟨m, rfl, hp⟩, hq⟩
    exact .orElse (depth_le_iff.mp hp) (depth_le_iff.mp hq)

@[simp] theorem depth_loop (step : α → β → α) (bounds : Bounds) :
    (loop p q step bounds).depth rules = 1 + max (p.depth rules) (q.depth rules) := by
  apply eq_of_forall_le_iff
  intro n
  rw [depth_le_iff, one_add_le_iff]
  constructor
  · intro h
    cases h with
    | leaf h => exact h.elim
    | loop hp hq => exact ⟨_, rfl, max_le (depth_le_iff.mpr hp) (depth_le_iff.mpr hq)⟩
  · rintro ⟨m, rfl, h⟩
    obtain ⟨hp, hq⟩ := max_le_iff.mp h
    exact .loop (depth_le_iff.mp hp) (depth_le_iff.mp hq)

@[simp] theorem depth_loopTill (stop : Parser τ π ρ γ) (step : α → β → α) (bounds : Bounds) :
    (loopTill p q stop step bounds).depth rules =
      1 + max (max (p.depth rules) (q.depth rules)) (stop.depth rules) := by
  apply eq_of_forall_le_iff
  intro n
  rw [depth_le_iff, one_add_le_iff]
  constructor
  · intro h
    cases h with
    | leaf h => exact h.elim
    | loopTill hp hq hs =>
      exact ⟨_, rfl, max_le (max_le (depth_le_iff.mpr hp) (depth_le_iff.mpr hq)) (depth_le_iff.mpr hs)⟩
  · rintro ⟨m, rfl, h⟩
    obtain ⟨hpq, hs⟩ := max_le_iff.mp h
    obtain ⟨hp, hq⟩ := max_le_iff.mp hpq
    exact .loopTill (depth_le_iff.mp hp) (depth_le_iff.mp hq) (depth_le_iff.mp hs)

/-- A rule is as deep as what it may turn out to stand for. -/
theorem depth_rule (number : Nat) : (rule number : Parser τ π ρ ρ).depth rules =
    ⨆ (mid : Rules τ π ρ) (p : Parser τ π ρ ρ) (later : Rules τ π ρ) (_ : rules.Grows mid)
      (_ : mid.force number = some (p, later)), p.depth later := by
  apply eq_of_forall_le_iff
  intro n
  simp only [depth_le_iff, iSup_le_iff]
  constructor
  · intro h
    cases h with
    | leaf h => exact h.elim
    | rule h => exact h
  · exact .rule

/-- A rule with a definition is as deep as the definition. -/
theorem depth_rule_defined {number : Nat} {p : Parser τ π ρ ρ} {retained : Bool}
    (he : rules.entries[number]? = some ⟨.defined p, retained⟩) : (rule number).depth rules = p.depth rules := by
  apply eq_of_forall_le_iff
  intro n
  rw [depth_le_iff, depth_le_iff]
  constructor
  · intro h
    cases h with
    | leaf h => exact h.elim
    | rule h => exact h rules p rules .refl (Rules.Grows.refl.force_defined he)
  · intro h
    apply Fits.rule
    intro mid q later hm hf
    rw [hm.force_defined he] at hf
    cases hf
    exact h.grows hm

theorem depth_draft (parser : Nat → Parser τ π ρ α) (new : Nat → List (Rule τ π ρ)) :
    (draft parser new).depth rules =
      ⨆ (mid : Rules τ π ρ) (_ : rules.Grows mid),
        (parser mid.entries.size).depth (mid.append (new mid.entries.size) false) := by
  apply eq_of_forall_le_iff
  intro n
  simp only [depth_le_iff, iSup_le_iff]
  constructor
  · intro h
    cases h with
    | leaf h => exact h.elim
    | draft h => exact h
  · exact .draft

@[simp] theorem depth_handle (number : Nat) : (handle number : Parser τ π ρ ρ).depth rules = ⊤ := by
  cases hd : (handle number : Parser τ π ρ ρ).depth rules with
  | top => rfl
  | coe d =>
    have h := depth_le_iff.mp hd.le
    cases h with
    | leaf h => exact h.elim

end Equations

section Combinators

variable {p : Parser τ π ρ α} {q : Parser τ π ρ β}

@[simp] theorem depth_pure (value : α) : (pure value : Parser τ π ρ α).depth rules = 0 := depth_leaf trivial

theorem depth_collect (bounds : Bounds) : (p.collect bounds).depth rules = 1 + p.depth rules := by
  simp [collect]

theorem depth_skipLoop (bounds : Bounds) : (p.skipLoop bounds).depth rules = 1 + p.depth rules := by
  simp [skipLoop]

theorem depth_foldLeft (seed : β) (op : β → α → β) : (p.foldLeft seed op).depth rules = 1 + p.depth rules := by
  simp [foldLeft]

theorem depth_foldRight (seed : β) (op : α → β → β) :
    (p.foldRight seed op).depth rules = 2 + p.depth rules := by
  simp only [foldRight, map, many, depth_tryMap, depth_collect, ← add_assoc]
  rfl

theorem depth_sepBy : (p.sepBy q).depth rules = 3 + max (p.depth rules) (q.depth rules) := by
  have hthree : (3 : ℕ∞) = 1 + (1 + 1) := rfl
  simp only [sepBy, sepBy1, map, keepRight, depth_orElse, depth_pure, depth_loop, depth_tryMap, depth_zipWith]
  rw [max_add_add_left, max_comm (q.depth rules), ← max_assoc, max_self, hthree, add_assoc, add_assoc]
  exact max_eq_left zero_le

theorem depth_chainLeft1 {op : Parser τ π ρ (α → α → α)} :
    (p.chainLeft1 op).depth rules = 2 + max (p.depth rules) (op.depth rules) := by
  have hle : p.depth rules ≤ 1 + max (op.depth rules) (p.depth rules) := (le_max_right _ _).trans le_add_self
  simp only [chainLeft1, both, depth_loop, depth_zipWith]
  rw [max_eq_right hle, max_comm, ← add_assoc]
  rfl

/-- Each of the parsers gets the value of the one before it. -/
def inTurn (links : List (α → Parser τ π ρ α)) (last : α → Parser τ π ρ β) : α → Parser τ π ρ β :=
  links.foldr (fun link rest value => (link value).andThen rest) last

/-- A link of a chain is gone before the rest of the chain is run, so the length of the chain does not matter. -/
theorem depth_inTurn_le {links : List (α → Parser τ π ρ α)} {last : α → Parser τ π ρ β} {d : ℕ∞}
    (hlinks : ∀ link ∈ links, ∀ value, 1 + (link value).depth rules ≤ d)
    (hlast : ∀ value, (last value).depth rules ≤ d) (value : α) : (inTurn links last value).depth rules ≤ d := by
  induction links generalizing value with
  | nil => exact hlast value
  | cons link links ih =>
    have hrest := ih fun link h => hlinks link (List.mem_cons_of_mem _ h)
    simp only [inTurn, List.foldr_cons, andThen, depth_tryBind]
    exact max_le (hlinks link List.mem_cons_self value) (iSup_le hrest)

end Combinators

end Parser

/-- The parsers that a piece of work keeps run with at most `d` pieces above it, or one more in its place. -/
def Frame.Fits (rules : Rules τ π ρ) (d : Nat) : Frame τ π ρ α β → Prop
  | tryBind _ next _ => ∀ b, (next b).Fits rules (d + 1)
  | zipLeft _ q => q.Fits rules d
  | orElse q _ => q.Fits rules (d + 1)
  | seed loop => loop.Every (Parser.Fits rules d)
  | item loop _ => loop.Every (Parser.Fits rules d)
  | seedTill loop => loop.Every (Parser.Fits rules d)
  | stopTill loop _ => loop.Every (Parser.Fits rules d)
  | itemTill loop _ => loop.Every (Parser.Fits rules d)
  | _ => True

/-- Above the pending work is room for `d` more pieces, and there are never more than `total`. -/
def Stack.Fits (rules : Rules τ π ρ) (total : Nat) {α ω : Type} (d : Nat) : Stack τ π ρ α ω → Prop
  | .nil => d ≤ total
  | .cons frame rest => frame.Fits rules d ∧ rest.Fits rules total (d + 1)

section

variable {rules later : Rules τ π ρ} {total d : Nat}

theorem Loop.Every.grows {loop : Loop τ π ρ α β} (h : loop.Every (Parser.Fits rules d)) (hg : rules.Grows later) :
    loop.Every (Parser.Fits later d) := ⟨h.1.grows hg, h.2.grows hg⟩

theorem LoopTill.Every.grows {loop : LoopTill τ π ρ α β γ} (h : loop.Every (Parser.Fits rules d))
    (hg : rules.Grows later) : loop.Every (Parser.Fits later d) := ⟨h.1.grows hg, h.2.grows hg⟩

theorem Frame.Fits.grows {frame : Frame τ π ρ α β} (h : frame.Fits rules d) (hg : rules.Grows later) :
    frame.Fits later d := by
  cases frame with
  | tryBind check next start => exact fun b => (h b).grows hg
  | zipLeft f q | orElse q start => exact Parser.Fits.grows h hg
  | seed loop | item loop round => exact Loop.Every.grows h hg
  | seedTill loop | stopTill loop round | itemTill loop round => exact LoopTill.Every.grows h hg
  | tryMap | zipRight | reshape => trivial

theorem Stack.Fits.grows {k : Stack τ π ρ α ω} (h : k.Fits rules total d) (hg : rules.Grows later) :
    k.Fits later total d := by
  induction k generalizing d with
  | nil => exact h
  | cons frame rest ih => exact ⟨h.1.grows hg, ih h.2⟩

theorem Stack.Fits.depth_add_le {k : Stack τ π ρ α ω} (h : k.Fits rules total d) : k.depth + d ≤ total := by
  induction k generalizing d with
  | nil =>
    have hd : d ≤ total := h
    simpa [Stack.depth] using hd
  | cons frame rest ih =>
    have := ih h.2
    simp only [Stack.depth]
    omega

end

namespace Machine

namespace Control

def height : Control τ π ρ ω → Nat
  | eval _ _ k => k.depth
  | back _ k => k.depth

/-- What is to be done from here on fits above the pending work. -/
def Fits (rules : Rules τ π ρ) (total : Nat) : Control τ π ρ ω → Prop
  | eval p _ k => ∃ d, p.Fits rules d ∧ k.Fits rules total d
  | back _ k => ∃ d, k.Fits rules total d

theorem Fits.height_le {rules : Rules τ π ρ} {total : Nat} {control : Control τ π ρ ω} (h : control.Fits rules total) :
    control.height ≤ total := by
  cases control with
  | eval p c k =>
    obtain ⟨d, -, hk⟩ := h
    have := hk.depth_add_le
    simp only [height]
    omega
  | back reply k =>
    obtain ⟨d, hk⟩ := h
    have := hk.depth_add_le
    simp only [height]
    omega

end Control

section

variable {rules : Rules τ π ρ} {total d : Nat} {c : Cursor τ π} {acc : β} {count : Nat} {k : Stack τ π ρ β ω}

/-- A round takes the room of the loop itself, whatever its number. -/
theorem fits_nextRound {loop : Loop τ π ρ α β} (hl : loop.Every (Parser.Fits rules d))
    (hk : k.Fits rules total (d + 1)) : (nextRound loop acc count c k).Fits rules total := by
  unfold nextRound
  split
  · exact ⟨_, hk⟩
  · exact ⟨d, hl.2, hl, hk⟩

theorem fits_nextRoundTill {loop : LoopTill τ π ρ α β γ} (hl : loop.Every (Parser.Fits rules d))
    (hk : k.Fits rules total (d + 1)) : (nextRoundTill loop acc count c k).Fits rules total := by
  unfold nextRoundTill
  split
  · exact ⟨_, hk⟩
  · exact ⟨d, hl.2, hl, hk⟩

end

variable [Position π τ] {store store' : Store σ τ π ρ} {control control' : Control τ π ρ ω} {total d : Nat}

theorem fits_resume {frame : Frame τ π ρ α β} {reply : Reply τ π α} {k : Stack τ π ρ β ω}
    (hf : frame.Fits store.rules d) (hk : k.Fits store.rules total (d + 1))
    (h : resume store frame reply k = .next store' control') : control'.Fits store.rules total := by
  cases frame with
  | tryMap f start =>
    cases reply with
    | success value c =>
      simp only [resume] at h
      split at h <;> cases h <;> exact ⟨_, hk⟩
    | failure fault | abort fault =>
      cases h
      exact ⟨_, hk⟩
  | tryBind check next start =>
    cases reply with
    | success value c =>
      simp only [resume] at h
      split at h
      · cases h
        exact ⟨d + 1, hf _, hk⟩
      · cases h
        exact ⟨_, hk⟩
    | failure fault | abort fault =>
      cases h
      exact ⟨_, hk⟩
  | zipLeft f q =>
    cases reply with
    | success value c =>
      cases h
      exact ⟨d, hf, trivial, hk⟩
    | failure fault | abort fault =>
      cases h
      exact ⟨_, hk⟩
  | zipRight f first =>
    cases h
    exact ⟨_, hk⟩
  | orElse q start =>
    cases reply with
    | failure fault =>
      cases h
      exact ⟨d + 1, hf, hk⟩
    | success value c | abort fault =>
      cases h
      exact ⟨_, hk⟩
  | reshape hook start =>
    cases h
    exact ⟨_, hk⟩
  | seed loop =>
    cases reply with
    | success acc c =>
      cases h
      exact fits_nextRound hf hk
    | failure fault | abort fault =>
      cases h
      exact ⟨_, hk⟩
  | item loop round =>
    cases reply with
    | success value c =>
      simp only [resume] at h
      split at h
      · cases h
        exact ⟨_, hk⟩
      · cases h
        exact fits_nextRound hf hk
    | failure fault =>
      simp only [resume] at h
      split at h <;> cases h <;> exact ⟨_, hk⟩
    | abort fault =>
      cases h
      exact ⟨_, hk⟩
  | seedTill loop =>
    cases reply with
    | success acc c =>
      cases h
      exact fits_nextRoundTill hf hk
    | failure fault | abort fault =>
      cases h
      exact ⟨_, hk⟩
  | stopTill loop round =>
    cases reply with
    | failure fault =>
      -- The item is tried in the place of the end.
      cases h
      exact ⟨d, hf.1.2, hf, hk⟩
    | success value c | abort fault =>
      cases h
      exact ⟨_, hk⟩
  | itemTill loop round =>
    cases reply with
    | success value c =>
      simp only [resume] at h
      split at h
      · cases h
        exact ⟨_, hk⟩
      · cases h
        exact fits_nextRoundTill hf hk
    | failure fault | abort fault =>
      cases h
      exact ⟨_, hk⟩

variable [Source σ τ] {upkeep : Upkeep τ π ρ ω} {fuel : Nat}

theorem fits_evaluate {p : Parser τ π ρ α} {c : Cursor τ π} {k : Stack τ π ρ α ω} (hp : p.Fits store.rules d)
    (hk : k.Fits store.rules total d) (h : step upkeep fuel store (.eval p c k) = .next store' control') :
    control'.Fits store'.rules total := by
  have hk' := hk.grows (grows_of_step h)
  cases hp with
  | leaf hp =>
    obtain ⟨reply, rfl⟩ := back_of_leaf hp h
    exact ⟨_, hk'⟩
  | tryMap hp | reshape hp =>
    cases h
    exact ⟨_, hp, trivial, hk⟩
  | tryBind hp hn =>
    cases h
    exact ⟨_, hp, hn, hk⟩
  | zipWith hp hq | orElse hp hq =>
    cases h
    exact ⟨_, hp, hq, hk⟩
  | loop hs hi =>
    cases h
    exact ⟨_, hs, ⟨hs, hi⟩, hk⟩
  | loopTill hs hi ht =>
    cases h
    exact ⟨_, hs, ⟨⟨hs, hi⟩, ht⟩, hk⟩
  | @rule _ _ number hr =>
    have hentered := entered upkeep fuel store c (.rule number) k
    rw [← step, h] at hentered
    cases hentered with
    | back => exact ⟨_, hk'⟩
    | push _ hq => exact (hq (fun _ => False) trivial).1.elim
    | rule hf => exact ⟨d, hr _ _ _ .refl hf, hk'⟩
  | draft hr =>
    cases h
    exact ⟨d, hr _ .refl, hk'⟩

theorem fits_of_step (hc : control.Fits store.rules total)
    (h : step upkeep fuel store control = .next store' control') :
    control'.Fits store'.rules total := by
  cases control with
  | eval p c k =>
    obtain ⟨d, hp, hk⟩ := hc
    exact fits_evaluate hp hk h
  | back reply k =>
    cases k with
    | nil => cases h
    | cons frame k =>
      obtain ⟨d, hf, hk⟩ := hc
      have hfits := fits_resume hf hk h
      obtain ⟨log, between, heq, -⟩ := exists_resumed frame reply k
      rw [step, heq] at h
      cases h
      exact hfits

theorem fits_of_path (h : Path upkeep store control store' control') (hc : control.Fits store.rules total) :
    control'.Fits store'.rules total := by
  induction h with
  | refl => exact hc
  | cons hm _ ih =>
    obtain ⟨fuel, hs⟩ := hm
    exact ih (fits_of_step hc hs)

theorem height_le_of_path {p : Parser τ π ρ ω} {c : Cursor τ π}
    (h : Path upkeep store (.eval p c .nil) store' control') :
    (control'.height : ℕ∞) ≤ p.depth store.rules := by
  cases hd : p.depth store.rules with
  | top => exact le_top
  | coe d =>
    have hstart : (Control.eval p c .nil).Fits store.rules d := ⟨d, Parser.depth_le_iff.mp hd.le, le_rfl⟩
    exact_mod_cast (fits_of_path h hstart).height_le

end Machine

namespace Parser

variable [Source σ τ] [Position π τ]

/-- However long the input is, no more work is pending than the depth of the parser. Loops need one piece of work
beside their items, however many rounds they run, and chains no more than their deepest link. -/
theorem pending_le_depth (upkeep : Machine.Upkeep τ π ρ ω) (p : Parser τ π ρ ω) (store : Store σ τ π ρ)
    (c : Cursor τ π) :
    (∀ store' control', Machine.Path upkeep store (.eval p c .nil) store' control' →
      (control'.height : ℕ∞) ≤ p.depth store.rules) ∧
    (∀ {α β : Type} (rules : Rules τ π ρ) (item : Parser τ π ρ α) (separator : Parser τ π ρ β)
      (op : Parser τ π ρ (α → α → α)),
      item.many.depth rules = 1 + item.depth rules ∧
      item.skipMany.depth rules = 1 + item.depth rules ∧
      (∀ (seed : β) (f : β → α → β), (item.foldLeft seed f).depth rules = 1 + item.depth rules) ∧
      (∀ (seed : β) (f : α → β → β), (item.foldRight seed f).depth rules = 2 + item.depth rules) ∧
      (item.sepBy separator).depth rules = 3 + max (item.depth rules) (separator.depth rules) ∧
      (item.chainLeft1 op).depth rules = 2 + max (item.depth rules) (op.depth rules)) ∧
    ∀ {α β : Type} (rules : Rules τ π ρ) (links : List (α → Parser τ π ρ α)) (last : α → Parser τ π ρ β) (d : ℕ∞),
      (∀ link ∈ links, ∀ value, 1 + (link value).depth rules ≤ d) → (∀ value, (last value).depth rules ≤ d) →
      ∀ value, (inTurn links last value).depth rules ≤ d := by
  refine ⟨fun store' control' h => Machine.height_le_of_path h, ?_, ?_⟩
  · intro α β rules item separator op
    exact ⟨depth_collect _, depth_skipLoop _, depth_foldLeft, depth_foldRight, depth_sepBy, depth_chainLeft1⟩
  · intro α β rules links last d hlinks hlast value
    exact depth_inTurn_le hlinks hlast value

/-- In the middle of a list with separators, all the room is used. -/
theorem pending_le_depth_list :
    let p : Parser Char TextPosition Unit (Array Char) := any.sepBy (token ',')
    let store : Store (NoSource Char) Char TextPosition Unit := .ofStream (.ofText "a,b") .empty
    ∃ store' control', Machine.Path .counted store (.eval p store.stream.start .nil) store' control' ∧
      control'.height = 3 ∧ (3 : ℕ∞) ≤ p.depth store.rules ∧ p.depth store.rules = 3 := by
  intro p store
  have htoken (test : Char → Bool) : (satisfy test : Parser Char TextPosition Unit Char).depth store.rules = 0 :=
    depth_leaf trivial
  have hdepth : p.depth store.rules = 3 := by
    simp only [p, depth_sepBy, any, token, htoken]
    rfl
  have hafter : ∃ store' control',
      Machine.after .counted 9 store (.eval p store.stream.start .nil) 9 = some (store', control') ∧
        control'.height = 3 := ⟨_, _, rfl, rfl⟩
  obtain ⟨store', control', hafter, hheight⟩ := hafter
  have hpath := Machine.path_of_after hafter
  have hbound := (pending_le_depth .counted p store store.stream.start).1 store' control' hpath
  rw [hheight] at hbound
  exact ⟨store', control', hpath, hheight, hbound, hdepth⟩

end Parser

end StreamParsing
