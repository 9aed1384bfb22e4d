import StreamParsing.Proofs.Machine.Forward
import StreamParsing.Proofs.Opacity.Chunking

/-!
A reply depends only on the tokens that the run came to. If another stream has the same tokens up to the last place
that a run came to, or ends there as the first one does, then it gives the same reply, whatever follows. All branches
count that the run tried, not only those of the reply. The second run goes in lockstep with the first, and no read of
it goes beyond the chunk with that last place.
-/

namespace StreamParsing

set_option autoImplicit false

universe u v

variable {σ : Type u} {σ' : Type v} {τ π ρ α ω : Type} [Source σ τ] [Source σ' τ] [Position π τ]

omit [Source σ τ] in
theorem positionAt_congr {tokens tokens' : List τ} {i : Nat} (h : ∀ j < i, tokens[j]? = tokens'[j]?) :
    (positionAt tokens i : π) = positionAt tokens' i := by
  have htake : tokens.take i = tokens'.take i := by
    apply List.ext_getElem?
    intro j
    simp only [List.getElem?_take]
    split
    · rename_i hj
      exact h j hj
    · rfl
  rw [positionAt, positionAt, htake]

namespace TokenStream

/-- The streams have the same tokens up to the index `m`, or end there both. -/
structure AgreeUpTo (m : Nat) (whole : TokenStream σ τ) (whole' : TokenStream σ' τ) : Prop where
  tidy : whole.Tidy
  tidy' : whole'.Tidy
  tokens : ∀ j ≤ m, whole.tokens[j]? = whole'.tokens[j]?

variable {m : Nat} {whole s s₁ : TokenStream σ τ} {whole' s' s₁' : TokenStream σ' τ} {V : Matching τ π}
variable {c c' d d' : Cursor τ π}

/-- Two streams on the way to streams that agree up to `m` match the cursors with the same index, up to `m`. -/
def near (h : AgreeUpTo m whole whole') (hs : s.layout <+: whole.layout) (hs' : s'.layout <+: whole'.layout) :
    Matching τ π where
  rel c c' := s.Level s' c c' ∧ whole.indexOf c ≤ m
  position hc := by
    have hlevel := hc.1.extend hs hs'
    rw [hlevel.placed.position, hlevel.placed'.position, ← hlevel.index]
    exact positionAt_congr fun j hj => h.tokens j (Nat.le_of_lt (Nat.lt_of_lt_of_le hj hc.2))
  current hc := by
    have hlevel := hc.1.extend hs hs'
    rw [hlevel.placed.current_eq h.tidy, hlevel.placed'.current_eq h.tidy', ← hlevel.index]
    exact h.tokens _ hc.2
  same hc hd := by
    have hlevel := hc.1.extend hs hs'
    have hlevel' := hd.1.extend hs hs'
    rw [hlevel.placed.same_eq h.tidy hlevel'.placed, hlevel.placed'.same_eq h.tidy' hlevel'.placed', hlevel.index,
      hlevel'.index]

structure Near (m : Nat) (whole : TokenStream σ τ) (whole' : TokenStream σ' τ) (s : TokenStream σ τ)
    (s' : TokenStream σ' τ) (V : Matching τ π) : Prop where
  grows : s.layout <+: whole.layout
  toward : s'.Toward whole'
  rel_iff : ∀ c c', V.rel c c' ↔ s.Level s' c c' ∧ whole.indexOf c ≤ m

omit [Source σ τ] in
theorem exists_near (h : AgreeUpTo m whole whole') (hs : s.layout <+: whole.layout) (hs' : s'.Toward whole') :
    ∃ V : Matching τ π, Near m whole whole' s s' V :=
  ⟨near h hs hs'.becomes.later.grows, hs, hs', fun _ _ => Iff.rfl⟩

/-- Where the first cursor moves to a place up to `m`, the second is at the end or before the place `m`. -/
theorem Near.before {events : Array Event} (h : Near m whole whole' s s' V) (hc : V.rel c c')
    (ha : Advancing s c ⟨s₁, .ok d, events⟩) (hs : s₁.layout <+: whole.layout) (hd : whole.indexOf d ≤ m) :
    c'.current = none ∨ s'.indexOf c' < m := by
  have hlevel := ((h.rel_iff c c').mp hc).1
  cases hcur : c.current with
  | none =>
    left
    rw [← V.current hc, hcur]
  | some t =>
    right
    have hindex := ha.indexOf_eq hlevel.placed hcur
    rw [(ha.placed hlevel.placed).indexOf_extend hs] at hd
    rw [← hlevel.index]
    omega

theorem Near.advance {events events' : Array Event} (hA : AgreeUpTo m whole whole')
    (h : Near m whole whole' s s' V) (hc : V.rel c c') (ha : Advancing s c ⟨s₁, .ok d, events⟩)
    (ha' : Advancing s' c' ⟨s₁', .ok d', events'⟩) (hs : s₁.layout <+: whole.layout) (hs' : s₁'.Toward whole')
    (hd : whole.indexOf d ≤ m) : ∃ W, V ≤ W ∧ Near m whole whole' s₁ s₁' W ∧ W.rel d d' := by
  obtain ⟨W, hW⟩ := exists_near (π := π) hA hs hs'
  refine ⟨W, ?_, hW, ?_⟩
  · intro x x' hx
    obtain ⟨hlevel, hle⟩ := (h.rel_iff x x').mp hx
    exact (hW.rel_iff x x').mpr ⟨hlevel.extend ha.grows ha'.grows, hle⟩
  · have hlevel := ((h.rel_iff c c').mp hc).1
    exact (hW.rel_iff d d').mpr ⟨hlevel.advance (V.current hc) ha ha', hd⟩

end TokenStream

namespace Machine

open TokenStream

variable {m : Nat} {whole' : TokenStream σ' τ} {P : Likeness τ π ρ} {O : Likeness τ π ω} {V : Matching τ π}
variable {store mid : Store σ τ π ρ} {store' : Store σ' τ π ρ} {control between control' : Control τ π ρ ω}
variable {e : Cursor τ π} {fuel : Nat}

/-- As long as the first run does not come to a place beyond `m`, the second follows it by a step of its own. -/
theorem step_follows {whole : TokenStream σ τ} (hA : AgreeUpTo m whole whole') (he : whole'.Placed e)
    (hm : whole'.indexOf e = m) (h : Together (Near m whole whole') P O store control store' control' V)
    (hs : step .counted fuel store control = .next mid between) (hmid : mid.stream.layout <+: whole.layout)
    (hplace : whole.indexOf between.place ≤ m) :
    ∃ mid' between' W, Moves .counted store' control' mid' between' ∧
      Together (Near m whole whole') P O mid between mid' between' W := by
  obtain ⟨s, rules, log⟩ := store
  obtain ⟨s', rules', log'⟩ := store'
  -- The fuel of the next read is chosen before it is known which cursor the step moves, if any.
  obtain ⟨fuel', hfuel⟩ := h.joined.toward.exists_fuel hA.tidy' he
  have hpair : Paired P V O fuel fuel' s s' (step .counted fuel ⟨s, rules, log⟩ control)
      (step .counted fuel' ⟨s', rules', log'⟩ control') := step_paired fuel fuel' h.rules h.control
  rw [hs] at hpair
  generalize hnext : Progress.next mid between = progress at hpair
  generalize hs' : step .counted fuel' ⟨s', rules', log'⟩ control' = progress' at hpair
  cases hpair with
  | alike halike =>
    obtain ⟨_, _, _, _, _, _, rfl, rfl, hrules, hcontrol⟩ := halike
    cases hnext
    exact ⟨_, _, V, ⟨fuel', hs'⟩, h.joined, hrules, hcontrol⟩
  | done => cases hnext
  | @consume _ _ _ _ c c' t R k k' hrules hc ht hk =>
    rcases ha : s.advance fuel c with _ | ⟨s₁, error | d, events⟩
    · simp [consume, Store.access, ha] at hnext
    · simp [consume, Store.access, ha] at hnext
    · simp only [consume, Store.access, ha, Option.map_some] at hnext
      cases hnext
      have hadv := advancing_of_advance ha
      have hlevel := ((h.joined.rel_iff c c').mp hc).1
      have hbefore := h.joined.before hc hadv hmid hplace
      obtain ⟨s₁', d', events', ha', htoward⟩ := hfuel c' hlevel.placed' (hm ▸ hbefore)
      have hadv' := advancing_of_advance ha'
      obtain ⟨W, hVW, hW, hd⟩ := h.joined.advance hA hc hadv hadv' hmid htoward hplace
      simp only [consume, Store.access, ha', Option.map_some] at hs'
      exact ⟨_, _, W, ⟨fuel', hs'⟩, hW, hrules.mono hVW, .back (.success (R.mono hVW ht) hd) (hk.mono hVW)⟩

theorem run_follows {last : Store σ τ π ρ} {r : Reply τ π ω} (hA : AgreeUpTo m last.stream whole')
    (he : whole'.Placed e) (hm : whole'.indexOf e = m)
    (h : Together (Near m last.stream whole') P O store control store' control' V)
    (hr : run .counted fuel store control = some ⟨last, .ok r⟩)
    (hpassed : ∀ d ∈ passed fuel store control, last.stream.indexOf d ≤ m) :
    ∃ n last' r' W, Leaves .counted .nil n store' control' last' (.ok r') ∧
      Near m last.stream whole' last.stream last'.stream W ∧ r.Like W O r' := by
  induction fuel generalizing store control store' control' V with
  | zero => simp [run] at hr
  | succ fuel ih =>
    rw [run] at hr
    rw [passed] at hpassed
    cases hs : step .counted fuel store control with
    | starved => simp [hs] at hr
    | broken => simp [hs] at hr
    | done =>
      simp only [hs] at hr
      cases hr
      obtain ⟨rfl, rfl⟩ := control_of_done hs
      obtain ⟨hjoined, -, hcontrol⟩ := h
      cases hcontrol with
      | back hreply hk =>
        cases hk
        exact ⟨0, _, _, V, .back _ _, hjoined, hreply⟩
    | next mid between =>
      simp only [hs] at hr hpassed
      obtain ⟨steps, hleaves⟩ := leaves_of_run hr
      have hmid : mid.stream.layout <+: last.stream.layout := (later_of_path hleaves.path).grows
      obtain ⟨mid', between', W, hmoves, htogether⟩ :=
        step_follows hA he hm h hs hmid (hpassed _ (List.mem_cons_self ..))
      obtain ⟨n, last', r', X, hl, hlast, hreply⟩ :=
        ih htogether hr fun d hd => hpassed d (List.mem_cons_of_mem _ hd)
      have hwithin : Within .nil control' := by
        rcases within_nil control' with hw | ⟨reply, rfl⟩
        · exact hw
        · obtain ⟨fuel', hs'⟩ := hmoves
          cases hs'
      exact ⟨n + 1, last', r', X, .step hwithin hmoves hl, hlast, hreply⟩

end Machine

namespace Parser

variable {P : Likeness τ π ρ} {R : Likeness τ π α} {p : Parser τ π ρ α} {rules : Rules τ π ρ}
variable {s : TokenStream σ τ} {s' whole' : TokenStream σ' τ} {c c' d' : Cursor τ π}

/-- The place where an item begins and the item, after a look for 8 behind it. -/
def itemNotBeforeEight : Parser Nat LinearPosition Unit (Cursor Nat LinearPosition × Nat) :=
  here.both ((any.keepRight (token 8)).orElse any)

theorem like_itemNotBeforeEight :
    itemNotBeforeEight.Like (.equal Unit) .none (.pair .cursor (.equal Nat)) itemNotBeforeEight := by
  have hhere : (here : Parser Nat LinearPosition Unit (Cursor Nat LinearPosition)).Like (.equal Unit) .none
      .cursor here := .peek fun W _ c c' hc => hc
  have hitem (test : Nat → Bool) : (satisfy test : Parser Nat LinearPosition Unit Nat).Like (.equal Unit) .none
      (.equal Nat) (satisfy test) := .satisfy test fun _ => rfl
  have hright : AlikeJoins (.none : Matching Nat LinearPosition) (.equal Nat) (.equal Nat) (.equal Nat)
      (fun _ b => b) (fun _ b => b) := fun W _ a a' b b' _ hb => hb
  refine .zipWith hhere (.orElse (.zipWith (hitem _) (hitem _) hright) (hitem _)) ?_
  intro W _ a a' b b' ha hb
  exact ⟨ha, hb⟩

end Parser

end StreamParsing
