import StreamParsing.Proofs.Machine.Moves

/-!
Definitions that their caller retains stay alive. A parser is steady if it makes no rules while it runs; a table
is retained if all its rules are held by the caller and steady. A run that starts with such a parser and such a
table keeps both, so every handle that it meets still stands for its definition.
-/

namespace StreamParsing

set_option autoImplicit false

universe u

variable {σ : Type u} {τ π ρ α β γ ω : Type}

inductive Parser.Steady : {α : Type} → Parser τ π ρ α → Prop where
  | pure {α : Type} (value : α) : Steady (.pure value)
  | peek {α : Type} (read : Cursor τ π → α) : Steady (.peek read)
  | satisfy (test : τ → Bool) : Steady (.satisfy test)
  | endOfInput : Steady .endOfInput
  | fail {α : Type} (message : Option String) : Steady (.fail message : Parser τ π ρ α)
  | abort {α : Type} (message : String) : Steady (.abort message : Parser τ π ρ α)
  | tryMap {α β : Type} {p : Parser τ π ρ α} (f : α → Except Cause β) : p.Steady → Steady (.tryMap p f)
  | tryBind {α β γ : Type} {p : Parser τ π ρ α} (check : α → Except Cause β) {next : β → Parser τ π ρ γ} :
      p.Steady → (∀ b, (next b).Steady) → Steady (.tryBind p check next)
  | zipWith {α β γ : Type} (f : α → β → γ) {p : Parser τ π ρ α} {q : Parser τ π ρ β} :
      p.Steady → q.Steady → Steady (.zipWith f p q)
  | orElse {α : Type} {p q : Parser τ π ρ α} : p.Steady → q.Steady → Steady (.orElse p q)
  | reshape {α β : Type} {p : Parser τ π ρ α} (hook : Hook τ π α β) : p.Steady → Steady (.reshape p hook)
  | loop {α β : Type} {seed : Parser τ π ρ β} {item : Parser τ π ρ α} (step : β → α → β) (bounds : Bounds) :
      seed.Steady → item.Steady → Steady (.loop seed item step bounds)
  | loopTill {α β γ : Type} {seed : Parser τ π ρ β} {item : Parser τ π ρ α} {stop : Parser τ π ρ γ}
      (step : β → α → β) (bounds : Bounds) :
      seed.Steady → item.Steady → stop.Steady → Steady (.loopTill seed item stop step bounds)
  | rule (number : Nat) : Steady (.rule number)
  | handle (number : Nat) : Steady (.handle number)

inductive Rule.Steady : Rule τ π ρ → Prop where
  | defined {p : Parser τ π ρ ρ} : p.Steady → Steady (.defined p)
  | delayed {parser : Nat → Parser τ π ρ ρ} {rules : Nat → List (Rule τ π ρ)} :
      (∀ n, (parser n).Steady) → (∀ n, ∀ r ∈ rules n, Rule.Steady r) → Steady (.delayed parser rules)
  | dropped : Steady .dropped

structure RuleEntry.Kept (entry : RuleEntry τ π ρ) : Prop where
  retained : entry.retained = true
  steady : entry.rule.Steady

def Rules.Kept (rules : Rules τ π ρ) : Prop := ∀ entry ∈ rules.entries, entry.Kept

theorem Rules.Kept.isRetained {rules : Rules τ π ρ} (h : rules.Kept) {number : Nat}
    (hf : rules.force number ≠ none) : rules.isRetained number = true := by
  unfold Rules.isRetained
  cases he : rules.entries[number]? with
  | none => simp [Rules.force, he] at hf
  | some entry => exact (h entry (Array.mem_of_getElem? he)).retained

/-- Building a delayed rule keeps the table retained, and a rule's parser is steady. -/
theorem Rules.Kept.force {rules rules' : Rules τ π ρ} (h : rules.Kept) {number : Nat} {p : Parser τ π ρ ρ}
    (hf : rules.force number = some (p, rules')) : p.Steady ∧ rules'.Kept := by
  unfold Rules.force at hf
  split at hf
  · rename_i parser retained he
    cases hf
    have hk := h _ (Array.mem_of_getElem? he)
    cases hk.steady with
    | defined hs => exact ⟨hs, h⟩
  · rename_i parser new retained he
    cases hf
    have hk := h _ (Array.mem_of_getElem? he)
    cases hk.steady with
    | delayed hp hr =>
      refine ⟨hp _, ?_⟩
      intro entry hmem
      simp only [Rules.append, Array.mem_append, List.mem_toArray, List.mem_map] at hmem
      rcases hmem with hold | ⟨r, hr', rfl⟩
      · rcases Array.mem_or_eq_of_mem_setIfInBounds hold with hold | rfl
        · exact h entry hold
        · exact ⟨hk.retained, .defined (hp _)⟩
      · exact ⟨hk.retained, hr _ r hr'⟩
  · cases hf
  · cases hf

theorem Parser.Steady.parts {p : Parser τ π ρ α} (h : p.Steady) : p.Parts Parser.Steady := by
  cases h with
  | tryMap f hp => exact hp
  | tryBind check hp hn => exact ⟨hp, hn⟩
  | zipWith f hp hq => exact ⟨hp, hq⟩
  | orElse hp hq => exact ⟨hp, hq⟩
  | reshape hook hp => exact hp
  | loop step bounds hseed hi => exact ⟨hseed, hi⟩
  | loopTill step bounds hseed hi hstop => exact ⟨⟨hseed, hi⟩, hstop⟩
  | _ => trivial

def Stack.Steady {α ω : Type} : Stack τ π ρ α ω → Prop
  | .nil => True
  | .cons frame rest => frame.Every Parser.Steady ∧ rest.Steady

namespace Machine

def Control.Steady : Control τ π ρ ω → Prop
  | .eval p _ k => p.Steady ∧ k.Steady
  | .back _ k => k.Steady

variable [Position π τ] {store store' : Store σ τ π ρ} {control control' : Control τ π ρ ω}

theorem steady_resume {frame : Frame τ π ρ α β} {reply : Reply τ π α} {k : Stack τ π ρ β ω}
    (hf : frame.Every Parser.Steady) (hk : k.Steady) (hs : resume store frame reply k = .next store' control') :
    store'.rules = store.rules ∧ control'.Steady := by
  obtain ⟨log, between, heq, hresumed⟩ := exists_resumed frame reply k
  rw [heq] at hs
  cases hs
  refine ⟨rfl, ?_⟩
  cases hresumed with
  | back | hook => exact hk
  | eval _ hq => exact ⟨hq _ hf, hk⟩
  | push _ _ hq => exact ⟨(hq _ hf).1, (hq _ hf).2, hk⟩

variable [Source σ τ] {upkeep : Upkeep τ π ρ ω} {fuel : Nat}

theorem steady_evaluate {p : Parser τ π ρ α} {c : Cursor τ π} {k : Stack τ π ρ α ω}
    (hr : store.rules.Kept) (hp : p.Steady) (hk : k.Steady)
    (hs : evaluate upkeep fuel store c p k = .next store' control') : store'.rules.Kept ∧ control'.Steady := by
  have hentered := entered upkeep fuel store c p k
  rw [hs] at hentered
  cases hentered with
  | back => exact ⟨hr, hk⟩
  | push _ hq =>
    have hparts := hq _ hp.parts
    exact ⟨hr, hparts.1, hparts.2, hk⟩
  | rule hf =>
    have hkept := hr.force hf
    exact ⟨hkept.2, hkept.1, hk⟩
  | handle _ hf =>
    have hkept := hr.force hf
    exact ⟨hkept.2, hkept.1, hk⟩
  | draft => cases hp
  | taken _ ha => exact ⟨Store.rules_of_access ha ▸ hr, hk⟩

theorem steady_of_path (hp : Path upkeep store control store' control') (hr : store.rules.Kept)
    (hc : control.Steady) : store'.rules.Kept ∧ control'.Steady := by
  induction hp with
  | refl => exact ⟨hr, hc⟩
  | @cons store mid _ control between _ hm _ ih =>
    obtain ⟨fuel, hs⟩ := hm
    have hmid : mid.rules.Kept ∧ between.Steady := by
      cases control with
      | eval p c k => exact steady_evaluate hr hc.1 hc.2 hs
      | back reply k =>
        cases k with
        | nil => cases hs
        | cons frame k =>
          have hres := steady_resume hc.1 hc.2 hs
          exact ⟨hres.1 ▸ hr, hres.2⟩
    exact ih hmid.1 hmid.2

theorem staysAlive_of_kept (hr : store.rules.Kept) (hc : control.Steady) : StaysAlive .counted store control := by
  intro store' number c k hp hf
  have hkept := (steady_of_path hp hr hc).1
  simp [Liveness.lasting, Upkeep.counted, hkept.isRetained hf]

end Machine

end StreamParsing
