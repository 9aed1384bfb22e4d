import Mathlib.Order.Defs.PartialOrder
import StreamParsing.Proofs.Machine.Growth

/-!
Parsers that differ only in how they name their rules. A pairing says which rule of one table stands for which of
another, and which rules may be replaced by their definitions; twins do the same once the rules that they name are
paired. Rules that they make while they run are paired then, so twins stay twins in every larger pairing.
-/

namespace StreamParsing

set_option autoImplicit false

universe u

variable {τ π ρ α β γ : Type}

/-- Which rules stand for each other in two tables. Rules that the callers retain may have several counterparts, and
some of them may be replaced by their definitions. Other rules come in pairs; they live and go together. -/
structure Pairing (τ π ρ : Type) : Type 1 where
  kept : Nat → Nat → Prop
  loose : Nat → Nat → Prop
  /-- The definition that may stand for a rule of the first table. -/
  opens : Nat → Parser τ π ρ ρ → Prop
  /-- The definition that may stand for a rule of the second table. -/
  opens' : Nat → Parser τ π ρ ρ → Prop
  kept_of_opens : ∀ {a : Nat} {p : Parser τ π ρ ρ}, opens a p → ∃ b, kept a b
  kept_of_opens' : ∀ {b : Nat} {q : Parser τ π ρ ρ}, opens' b q → ∃ a, kept a b

namespace Pairing

/-- All that is said in the one pairing is said in the other. -/
structure Within (v w : Pairing τ π ρ) : Prop where
  kept : ∀ {a b : Nat}, v.kept a b → w.kept a b
  loose : ∀ {a b : Nat}, v.loose a b → w.loose a b
  opens : ∀ {a : Nat} {p : Parser τ π ρ ρ}, v.opens a p → w.opens a p
  opens' : ∀ {b : Nat} {q : Parser τ π ρ ρ}, v.opens' b q → w.opens' b q

instance : Preorder (Pairing τ π ρ) where
  le := Within
  le_refl _ := ⟨id, id, id, id⟩
  le_trans _ _ _ h h' := ⟨h'.kept ∘ h.kept, h'.loose ∘ h.loose, h'.opens ∘ h.opens, h'.opens' ∘ h.opens'⟩

variable {v w : Pairing τ π ρ} {a b : Nat}

def Pairs (w : Pairing τ π ρ) (a b : Nat) : Prop := w.kept a b ∨ w.loose a b

theorem Pairs.mono (hp : v.Pairs a b) (h : v ≤ w) : w.Pairs a b := hp.imp h.kept h.loose

/-- The part about rules that the callers retain. -/
def settled (w : Pairing τ π ρ) : Pairing τ π ρ := { w with loose := fun _ _ => False }

theorem settled_le : w.settled ≤ w := ⟨id, False.elim, id, id⟩

theorem le_settled (h : ∀ a b, ¬ w.loose a b) : w ≤ w.settled := ⟨id, fun hl => h _ _ hl, id, id⟩

theorem settled_mono (h : v ≤ w) : v.settled ≤ w.settled := ⟨h.kept, id, h.opens, h.opens'⟩

def swap (w : Pairing τ π ρ) : Pairing τ π ρ where
  kept a b := w.kept b a
  loose a b := w.loose b a
  opens := w.opens'
  opens' := w.opens
  kept_of_opens := w.kept_of_opens'
  kept_of_opens' := w.kept_of_opens

theorem swap_mono (h : v ≤ w) : v.swap ≤ w.swap := ⟨h.kept, h.loose, h.opens', h.opens⟩

def Blocks (w : Pairing τ π ρ) (size a b : Nat) : Prop := ∀ i < size, w.Pairs (a + i) (b + i)

theorem Blocks.mono {size : Nat} (hb : v.Blocks size a b) (h : v ≤ w) : w.Blocks size a b :=
  fun i hi => (hb i hi).mono h

end Pairing

/-- The parser is one of the two ways to enter the rule. -/
inductive Parser.Names : Parser τ π ρ ρ → Nat → Prop where
  | rule (number : Nat) : Names (.rule number) number
  | handle (number : Nat) : Names (.handle number) number

inductive Rule.Kind where
  | defined
  | delayed
  | dropped

namespace Rule

def kind : Rule τ π ρ → Kind
  | defined _ => .defined
  | delayed _ _ => .delayed
  | dropped => .dropped

/-- What is run when the rule is entered: its definition, or what builds the definition. -/
def entry : Rule τ π ρ → Parser τ π ρ ρ
  | defined parser => parser
  | delayed parser rules => .draft parser rules
  | dropped => .fail none

end Rule

/-- Parsers with the same callbacks that name paired rules. Only where `opened` is true may the second parser name a
rule that is first to be replaced by its definition. -/
inductive Parser.Twin : Pairing τ π ρ → Bool → {α : Type} → Parser τ π ρ α → Parser τ π ρ α → Prop where
  | leaf {w : Pairing τ π ρ} {opened : Bool} {α : Type} {p : Parser τ π ρ α} : p.IsLeaf → Twin w opened p p
  | tryMap {w : Pairing τ π ρ} {opened : Bool} {α β : Type} {p p' : Parser τ π ρ α} (f : α → Except Cause β) :
      Twin w true p p' → Twin w opened (.tryMap p f) (.tryMap p' f)
  | tryBind {w : Pairing τ π ρ} {opened : Bool} {α β γ : Type} {p p' : Parser τ π ρ α} (check : α → Except Cause β)
      {next next' : β → Parser τ π ρ γ} : Twin w true p p' → (∀ b, Twin w true (next b) (next' b)) →
        Twin w opened (.tryBind p check next) (.tryBind p' check next')
  | zipWith {w : Pairing τ π ρ} {opened : Bool} {α β γ : Type} (f : α → β → γ) {p p' : Parser τ π ρ α}
      {q q' : Parser τ π ρ β} : Twin w true p p' → Twin w true q q' →
        Twin w opened (.zipWith f p q) (.zipWith f p' q')
  | orElse {w : Pairing τ π ρ} {opened : Bool} {α : Type} {p p' q q' : Parser τ π ρ α} : Twin w true p p' →
      Twin w true q q' → Twin w opened (.orElse p q) (.orElse p' q')
  | reshape {w : Pairing τ π ρ} {opened : Bool} {α β : Type} {p p' : Parser τ π ρ α} (hook : Hook τ π α β) :
      Twin w true p p' → Twin w opened (.reshape p hook) (.reshape p' hook)
  | loop {w : Pairing τ π ρ} {opened : Bool} {α β : Type} {seed seed' : Parser τ π ρ β} {item item' : Parser τ π ρ α}
      (step : β → α → β) (bounds : Bounds) : Twin w true seed seed' → Twin w true item item' →
        Twin w opened (.loop seed item step bounds) (.loop seed' item' step bounds)
  | loopTill {w : Pairing τ π ρ} {opened : Bool} {α β γ : Type} {seed seed' : Parser τ π ρ β}
      {item item' : Parser τ π ρ α} {stop stop' : Parser τ π ρ γ} (step : β → α → β) (bounds : Bounds) :
      Twin w true seed seed' → Twin w true item item' → Twin w true stop stop' →
        Twin w opened (.loopTill seed item stop step bounds) (.loopTill seed' item' stop' step bounds)
  | rule {w : Pairing τ π ρ} {opened : Bool} {a b : Nat} : w.Pairs a b → Twin w opened (.rule a) (.rule b)
  | handle {w : Pairing τ π ρ} {opened : Bool} {a b : Nat} : w.Pairs a b → Twin w opened (.handle a) (.handle b)
  /-- Both make as many rules; what comes with them are twins once these rules are paired. -/
  | draft {w : Pairing τ π ρ} {opened : Bool} {α : Type} {parser parser' : Nat → Parser τ π ρ α}
      {rules rules' : Nat → List (Rule τ π ρ)} (size : ∀ a b, (rules a).length = (rules' b).length) :
      (∀ w', w ≤ w' → ∀ a b, w'.Blocks (rules a).length a b → Twin w' true (parser a) (parser' b)) →
      (∀ w', w ≤ w' → ∀ a b, w'.Blocks (rules a).length a b → ∀ (i : Nat) (r r' : Rule τ π ρ),
        (rules a)[i]? = some r → (rules' b)[i]? = some r' → r.kind = r'.kind) →
      (∀ w', w ≤ w' → ∀ a b, w'.Blocks (rules a).length a b → ∀ (i : Nat) (r r' : Rule τ π ρ),
        (rules a)[i]? = some r → (rules' b)[i]? = some r' → Twin w' true r.entry r'.entry) →
      Twin w opened (.draft parser rules) (.draft parser' rules')
  | openLeft {w : Pairing τ π ρ} {opened : Bool} {a : Nat} {p p' q : Parser τ π ρ ρ} : p.Names a → w.opens a p' →
      Twin w.settled true p' q → Twin w opened p q
  | openRight {w : Pairing τ π ρ} {b : Nat} {p q q' : Parser τ π ρ ρ} : q.Names b → w.opens' b q' →
      Twin w.settled true p q' → Twin w true p q

structure Rule.Twin (w : Pairing τ π ρ) (r r' : Rule τ π ρ) : Prop where
  kind : r.kind = r'.kind
  entry : Parser.Twin w true r.entry r'.entry

namespace Parser.Twin

variable {v w : Pairing τ π ρ} {opened : Bool} {p q : Parser τ π ρ α}

theorem mono (h : Parser.Twin v opened p q) (hw : v ≤ w) : Parser.Twin w opened p q := by
  induction h generalizing w with
  | leaf hp => exact .leaf hp
  | tryMap f _ ih => exact .tryMap f (ih hw)
  | tryBind check _ _ ihp ihn => exact .tryBind check (ihp hw) fun b => ihn b hw
  | zipWith f _ _ ihp ihq => exact .zipWith f (ihp hw) (ihq hw)
  | orElse _ _ ihp ihq => exact .orElse (ihp hw) (ihq hw)
  | reshape hook _ ih => exact .reshape hook (ih hw)
  | loop step bounds _ _ ihs ihi => exact .loop step bounds (ihs hw) (ihi hw)
  | loopTill step bounds _ _ _ ihs ihi iht => exact .loopTill step bounds (ihs hw) (ihi hw) (iht hw)
  | rule hab => exact .rule (hab.mono hw)
  | handle hab => exact .handle (hab.mono hw)
  | draft size hp hk hr =>
    exact .draft size (fun w' hw' => hp w' (le_trans hw hw')) (fun w' hw' => hk w' (le_trans hw hw'))
      fun w' hw' => hr w' (le_trans hw hw')
  | openLeft hn ho _ ih => exact .openLeft hn (hw.opens ho) (ih (Pairing.settled_mono hw))
  | openRight hn ho _ ih => exact .openRight hn (hw.opens' ho) (ih (Pairing.settled_mono hw))

theorem swap (h : Parser.Twin w opened p q) : Parser.Twin w.swap true q p := by
  induction h with
  | leaf hp => exact .leaf hp
  | tryMap f _ ih => exact .tryMap f ih
  | tryBind check _ _ ihp ihn => exact .tryBind check ihp ihn
  | zipWith f _ _ ihp ihq => exact .zipWith f ihp ihq
  | orElse _ _ ihp ihq => exact .orElse ihp ihq
  | reshape hook _ ih => exact .reshape hook ih
  | loop step bounds _ _ ihs ihi => exact .loop step bounds ihs ihi
  | loopTill step bounds _ _ _ ihs ihi iht => exact .loopTill step bounds ihs ihi iht
  | rule hab => exact .rule hab
  | handle hab => exact .handle hab
  | @draft w _ _ parser parser' rules rules' size _ hk _ ihp ihr =>
    have hswap {w' : Pairing τ π ρ} (hw : w.swap ≤ w') : w ≤ w'.swap := Pairing.swap_mono hw
    have hblocks {w' : Pairing τ π ρ} {a b : Nat} (hb : w'.Blocks (rules' a).length a b) :
        w'.swap.Blocks (rules b).length b a := by
      rw [size b a]
      exact hb
    refine .draft (fun a b => (size b a).symm) ?_ ?_ ?_
    · exact fun w' hw a b hb => ihp w'.swap (hswap hw) b a (hblocks hb)
    · exact fun w' hw a b hb i r r' hr hr' => (hk w'.swap (hswap hw) b a (hblocks hb) i r' r hr' hr).symm
    · exact fun w' hw a b hb i r r' hr hr' => ihr w'.swap (hswap hw) b a (hblocks hb) i r' r hr' hr
  | openLeft hn ho _ ih => exact .openRight hn ho ih
  | openRight hn ho _ ih => exact .openLeft hn ho ih

section Roots

-- What the second of two twins is, if it matches the first at its root.
variable {p : Parser τ π ρ α} {q : Parser τ π ρ β} {r : Parser τ π ρ γ} {a : Nat}

theorem of_leaf {p' : Parser τ π ρ α} (hp : p.IsLeaf) (h : Parser.Twin w false p p') : p' = p := by
  cases h with
  | leaf => rfl
  | openLeft hn => cases hn <;> exact hp.elim
  | _ => exact hp.elim

theorem of_tryMap {f : α → Except Cause β} {q : Parser τ π ρ β} (h : Parser.Twin w false (.tryMap p f) q) :
    ∃ p', q = .tryMap p' f ∧ Parser.Twin w true p p' := by
  cases h with
  | leaf hp => exact hp.elim
  | tryMap _ hp => exact ⟨_, rfl, hp⟩
  | openLeft hn => cases hn

theorem of_tryBind {check : α → Except Cause β} {next : β → Parser τ π ρ γ}
    (h : Parser.Twin w false (.tryBind p check next) r) :
    ∃ p' next', r = .tryBind p' check next' ∧ Parser.Twin w true p p' ∧ ∀ b, Parser.Twin w true (next b) (next' b) := by
  cases h with
  | leaf hp => exact hp.elim
  | tryBind _ hp hn => exact ⟨_, _, rfl, hp, hn⟩
  | openLeft hn => cases hn

theorem of_zipWith {f : α → β → γ} (h : Parser.Twin w false (.zipWith f p q) r) :
    ∃ p' q', r = .zipWith f p' q' ∧ Parser.Twin w true p p' ∧ Parser.Twin w true q q' := by
  cases h with
  | leaf hp => exact hp.elim
  | zipWith _ hp hq => exact ⟨_, _, rfl, hp, hq⟩
  | openLeft hn => cases hn

theorem of_orElse {q r : Parser τ π ρ α} (h : Parser.Twin w false (.orElse p q) r) :
    ∃ p' q', r = .orElse p' q' ∧ Parser.Twin w true p p' ∧ Parser.Twin w true q q' := by
  cases h with
  | leaf hp => exact hp.elim
  | orElse hp hq => exact ⟨_, _, rfl, hp, hq⟩
  | openLeft hn => cases hn

theorem of_reshape {hook : Hook τ π α β} (h : Parser.Twin w false (.reshape p hook) q) :
    ∃ p', q = .reshape p' hook ∧ Parser.Twin w true p p' := by
  cases h with
  | leaf hp => exact hp.elim
  | reshape _ hp => exact ⟨_, rfl, hp⟩
  | openLeft hn => cases hn

theorem of_loop {step : β → α → β} {bounds : Bounds} {seed r : Parser τ π ρ β}
    (h : Parser.Twin w false (.loop seed p step bounds) r) :
    ∃ seed' p', r = .loop seed' p' step bounds ∧ Parser.Twin w true seed seed' ∧ Parser.Twin w true p p' := by
  cases h with
  | leaf hp => exact hp.elim
  | loop _ _ hs hp => exact ⟨_, _, rfl, hs, hp⟩
  | openLeft hn => cases hn

theorem of_loopTill {step : β → α → β} {bounds : Bounds} {seed s : Parser τ π ρ β}
    (h : Parser.Twin w false (.loopTill seed p r step bounds) s) :
    ∃ seed' p' r', s = .loopTill seed' p' r' step bounds ∧ Parser.Twin w true seed seed' ∧ Parser.Twin w true p p' ∧
      Parser.Twin w true r r' := by
  cases h with
  | leaf hp => exact hp.elim
  | loopTill _ _ hs hp hr => exact ⟨_, _, _, rfl, hs, hp, hr⟩
  | openLeft hn => cases hn

theorem of_rule {q : Parser τ π ρ ρ} (h : Parser.Twin w false (.rule a) q) :
    (∃ b, q = .rule b ∧ w.Pairs a b) ∨ ∃ p, w.opens a p ∧ Parser.Twin w.settled true p q := by
  cases h with
  | leaf hp => exact hp.elim
  | rule hab => exact .inl ⟨_, rfl, hab⟩
  | openLeft hn ho h =>
    cases hn
    exact .inr ⟨_, ho, h⟩

theorem of_handle {q : Parser τ π ρ ρ} (h : Parser.Twin w false (.handle a) q) :
    (∃ b, q = .handle b ∧ w.Pairs a b) ∨ ∃ p, w.opens a p ∧ Parser.Twin w.settled true p q := by
  cases h with
  | leaf hp => exact hp.elim
  | handle hab => exact .inl ⟨_, rfl, hab⟩
  | openLeft hn ho h =>
    cases hn
    exact .inr ⟨_, ho, h⟩

end Roots

end Parser.Twin

namespace Rule.Twin

variable {v w : Pairing τ π ρ} {r r' : Rule τ π ρ} {rules rules' : Nat → List (Rule τ π ρ)}

theorem mono (h : Rule.Twin v r r') (hw : v ≤ w) : Rule.Twin w r r' := ⟨h.kind, h.entry.mono hw⟩

theorem swap (h : Rule.Twin w r r') : Rule.Twin w.swap r' r := ⟨h.kind.symm, h.entry.swap⟩

theorem defined {p q : Parser τ π ρ ρ} (h : Parser.Twin w true p q) : Rule.Twin w (.defined p) (.defined q) := ⟨rfl, h⟩

/-- What both build are twins once the rules that come with them are paired. -/
structure Builds (w : Pairing τ π ρ) (parser parser' : Nat → Parser τ π ρ α) (rules rules' : Nat → List (Rule τ π ρ)) :
    Prop where
  size : ∀ a b, (rules a).length = (rules' b).length
  parser : ∀ {w' : Pairing τ π ρ} {a b : Nat}, w ≤ w' → w'.Blocks (rules a).length a b →
    Parser.Twin w' true (parser a) (parser' b)
  rules : ∀ {w' : Pairing τ π ρ} {a b i : Nat} {r r' : Rule τ π ρ}, w ≤ w' → w'.Blocks (rules a).length a b →
    (rules a)[i]? = some r → (rules' b)[i]? = some r' → Rule.Twin w' r r'

theorem Builds.draft {opened : Bool} {parser parser' : Nat → Parser τ π ρ α}
    (h : Builds w parser parser' rules rules') : Parser.Twin w opened (.draft parser rules) (.draft parser' rules') :=
  .draft h.size (fun _ hw _ _ hb => h.parser hw hb) (fun _ hw _ _ hb _ _ _ hr hr' => (h.rules hw hb hr hr').kind)
    fun _ hw _ _ hb _ _ _ hr hr' => (h.rules hw hb hr hr').entry

theorem builds_of_draft {opened : Bool} {parser parser' : Nat → Parser τ π ρ α}
    (h : Parser.Twin w opened (.draft parser rules) (.draft parser' rules')) : Builds w parser parser' rules rules' := by
  cases h with
  | leaf hp => exact hp.elim
  | draft size hp hk hr =>
    exact ⟨size, fun hw => hp _ hw _ _, fun hw hb hr₁ hr₂ => ⟨hk _ hw _ _ hb _ _ _ hr₁ hr₂, hr _ hw _ _ hb _ _ _ hr₁ hr₂⟩⟩
  | openLeft hn | openRight hn => cases hn

/-- Rules that are twins are both defined, both to be built, or both gone. -/
inductive Cases (w : Pairing τ π ρ) : Rule τ π ρ → Rule τ π ρ → Prop where
  | defined {p q : Parser τ π ρ ρ} : Parser.Twin w true p q → Cases w (.defined p) (.defined q)
  | delayed {parser parser' : Nat → Parser τ π ρ ρ} {rules rules' : Nat → List (Rule τ π ρ)} :
      Builds w parser parser' rules rules' → Cases w (.delayed parser rules) (.delayed parser' rules')
  | dropped : Cases w .dropped .dropped

theorem cases (h : Rule.Twin w r r') : Cases w r r' := by
  obtain ⟨hkind, hentry⟩ := h
  cases r with
  | defined p =>
    cases r' with
    | defined q => exact .defined hentry
    | delayed | dropped => cases hkind
  | delayed parser rules =>
    cases r' with
    | delayed parser' rules' => exact .delayed (builds_of_draft hentry)
    | defined | dropped => cases hkind
  | dropped =>
    cases r' with
    | dropped => exact .dropped
    | defined | delayed => cases hkind

end Rule.Twin

theorem Parser.Twin.of_draft {w : Pairing τ π ρ} {parser : Nat → Parser τ π ρ α} {rules : Nat → List (Rule τ π ρ)}
    {q : Parser τ π ρ α} (h : Parser.Twin w false (.draft parser rules) q) :
    ∃ parser' rules', q = .draft parser' rules' ∧ Rule.Twin.Builds w parser parser' rules rules' := by
  cases h with
  | leaf hp => exact hp.elim
  | draft size hp hk hr =>
    have h : Parser.Twin w false (.draft _ _) (.draft _ _) := .draft size hp hk hr
    exact ⟨_, _, rfl, Rule.Twin.builds_of_draft h⟩
  | openLeft hn => cases hn

namespace Pairing

/-- The rules held in one table and those held in the other are paired with each other, those aside that the callers
retain. -/
structure Holding (w : Pairing τ π ρ) (held held' : List Nat) : Prop where
  left : ∀ a ∈ held, (∃ b, w.kept a b) ∨ ∃ b ∈ held', w.loose a b
  right : ∀ b ∈ held', (∃ a, w.kept a b) ∨ ∃ a ∈ held, w.loose a b

namespace Holding

variable {v w : Pairing τ π ρ} {held held' more more' : List Nat} {a b : Nat}

theorem nil : w.Holding [] [] := ⟨nofun, nofun⟩

theorem single (h : w.Pairs a b) : w.Holding [a] [b] := by
  constructor
  · intro x hx
    rw [List.mem_singleton] at hx
    subst hx
    exact h.imp (fun hk => ⟨b, hk⟩) fun hl => ⟨b, List.mem_singleton_self b, hl⟩
  · intro x hx
    rw [List.mem_singleton] at hx
    subst hx
    exact h.imp (fun hk => ⟨a, hk⟩) fun hl => ⟨a, List.mem_singleton_self a, hl⟩

theorem append (h : w.Holding held held') (h' : w.Holding more more') : w.Holding (held ++ more) (held' ++ more') := by
  constructor
  · intro x hx
    rcases List.mem_append.mp hx with hx | hx
    · exact (h.left x hx).imp_right fun ⟨y, hy, hl⟩ => ⟨y, List.mem_append_left _ hy, hl⟩
    · exact (h'.left x hx).imp_right fun ⟨y, hy, hl⟩ => ⟨y, List.mem_append_right _ hy, hl⟩
  · intro y hy
    rcases List.mem_append.mp hy with hy | hy
    · exact (h.right y hy).imp_right fun ⟨x, hx, hl⟩ => ⟨x, List.mem_append_left _ hx, hl⟩
    · exact (h'.right y hy).imp_right fun ⟨x, hx, hl⟩ => ⟨x, List.mem_append_right _ hx, hl⟩

theorem mono (h : v.Holding held held') (hw : v ≤ w) : w.Holding held held' where
  left a ha := (h.left a ha).imp (fun ⟨b, hk⟩ => ⟨b, hw.kept hk⟩) fun ⟨b, hb, hl⟩ => ⟨b, hb, hw.loose hl⟩
  right b hb := (h.right b hb).imp (fun ⟨a, hk⟩ => ⟨a, hw.kept hk⟩) fun ⟨a, ha, hl⟩ => ⟨a, ha, hw.loose hl⟩

theorem swap (h : w.Holding held held') : w.swap.Holding held' held := ⟨h.right, h.left⟩

/-- Where nothing is loose, all that is held is retained. -/
theorem left_kept (h : w.settled.Holding held held') (ha : a ∈ held) : ∃ b, w.kept a b :=
  (h.left a ha).resolve_right fun ⟨_, _, hl⟩ => hl

theorem right_kept (h : w.settled.Holding held held') (hb : b ∈ held') : ∃ a, w.kept a b :=
  (h.right b hb).resolve_right fun ⟨_, _, hl⟩ => hl

end Holding

end Pairing

theorem Parser.Names.mem_holds {p : Parser τ π ρ ρ} {a b : Nat} (h : p.Names a) (hb : b ∈ p.holds) : b = a := by
  cases h with
  | rule => exact List.mem_singleton.mp hb
  | handle => cases hb

theorem Parser.Twin.holding {w : Pairing τ π ρ} {opened : Bool} {p q : Parser τ π ρ α} (h : Parser.Twin w opened p q) :
    w.Holding p.holds q.holds := by
  induction h with
  | @leaf _ _ _ p hp =>
    cases p with
    | pure | peek | satisfy | endOfInput | fail | abort => exact .nil
    | _ => exact hp.elim
  | tryMap _ _ ih | reshape _ _ ih => exact ih
  | tryBind _ _ _ ih => exact ih
  | zipWith _ _ _ ihp ihq | orElse _ _ ihp ihq => exact ihp.append ihq
  | loop _ _ _ _ ihs ihi => exact ihs.append ihi
  | loopTill _ _ _ _ _ ihs ihi iht => exact (ihs.append ihi).append iht
  | rule hab => exact .single hab
  | handle | draft => exact .nil
  -- A rule that is opened is retained, and so is all that its definition's twin holds.
  | openLeft hn ho _ ih =>
    refine ⟨fun a ha => .inl ?_, fun b hb => .inl (ih.right_kept hb)⟩
    rw [hn.mem_holds ha]
    exact Pairing.kept_of_opens _ ho
  | openRight hn ho _ ih =>
    refine ⟨fun a ha => .inl (ih.left_kept ha), fun b hb => .inl ?_⟩
    rw [hn.mem_holds hb]
    exact Pairing.kept_of_opens' _ ho

end StreamParsing
