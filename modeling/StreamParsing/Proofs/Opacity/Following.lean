import StreamParsing.Proofs.Machine.Halting
import StreamParsing.Proofs.Opacity.Chunking

/-!
Runs that follow others. If a run ends, the same run over another stream with the same tokens ends as well: with a
reply that looks the same, or because a read fails there. A run that is followed by itself shows that it comes only to
cursors which have their places.
-/

namespace StreamParsing

set_option autoImplicit false

universe u v

variable {σ : Type u} {σ' : Type v} {τ π ρ α ω : Type} [Source σ τ] [Source σ' τ] [Position π τ]

namespace TokenStream

variable {s : TokenStream σ τ} {s' : TokenStream σ' τ} {tokens : List τ} {ending ending' : Option ReadError}

/-- The streams carry the same tokens, and match the cursors with the same index. -/
structure Abreast (tokens : List τ) (ending ending' : Option ReadError) (s : TokenStream σ τ) (s' : TokenStream σ' τ)
    (V : Matching τ π) : Prop where
  carries : s.Carries tokens ending
  carries' : s'.Carries tokens ending'
  rel_iff : ∀ c c', V.rel c c' ↔ s.Level s' c c'

theorem exists_abreast (h : s.Carries tokens ending) (h' : s'.Carries tokens ending') :
    ∃ V : Matching τ π, Abreast tokens ending ending' s s' V := by
  refine ⟨⟨s.Level s', ?_, ?_, ?_⟩, h, h', fun _ _ => Iff.rfl⟩
  · intro c c' hc
    rw [hc.placed.position_of_carries h, hc.placed'.position_of_carries h', hc.index]
  · intro c c' hc
    rw [hc.placed.current_of_carries h, hc.placed'.current_of_carries h', hc.index]
  · intro c c' d d' hc hd
    rw [hc.placed.same_eq h.tidy hd.placed, hc.placed'.same_eq h'.tidy hd.placed', hc.index, hd.index]

theorem joins_abreast [LawfulSource σ τ] [LawfulSource σ' τ] : Machine.Joins
    (Abreast tokens ending ending' : TokenStream σ τ → TokenStream σ' τ → Matching τ π → Prop) := by
  intro s s₁ s' s₁' V c c' d d' fuel fuel' events events' hJ hc ha ha'
  have hadv := advancing_of_advance ha
  have hadv' := advancing_of_advance ha'
  have hlevel := (hJ.rel_iff c c').mp hc
  obtain ⟨W, hW⟩ := exists_abreast (π := π) (hJ.carries.advancing hadv) (hJ.carries'.advancing hadv')
  refine ⟨W, ?_, hW, ?_⟩
  · intro x x' hx
    exact (hW.rel_iff x x').mpr (((hJ.rel_iff x x').mp hx).extend hadv.grows hadv'.grows)
  · exact (hW.rel_iff d d').mpr (hlevel.advance (V.current hc) hadv hadv')

omit [Position π τ] in
/-- A read of a stream that carries tokens is answered, if only by an error. -/
theorem Carries.read_answered (h : s.Carries tokens ending) : ∃ fuel access, s.readChunk fuel = some access := by
  obtain ⟨rest, -, hahead⟩ := h.ahead
  apply exists_readChunk_of_fill
  intro hlive
  cases hahead with
  | ended hl | failed hl => simp [hlive] at hl
  | live _ hd =>
    cases hd with
    | ended hf | more hf => exact ⟨_, _, hf⟩
    | failed lost hf => exact ⟨_, _, hf⟩

end TokenStream

namespace Machine

variable {P : Likeness τ π ρ} {O : Likeness τ π ω} {V : Matching τ π} {fuel fuel' : Nat}
variable {J : TokenStream σ τ → TokenStream σ' τ → Matching τ π → Prop}
variable {store mid last : Store σ τ π ρ} {store' : Store σ' τ π ρ} {control between control' : Control τ π ρ ω}

omit [Source σ τ] [Source σ' τ] [Position π τ] in
theorem Control.Like.place (h : control.Like P V O control') : V.rel control.place control'.place := by
  cases h with
  | eval _ hc _ => exact hc
  | back hr _ =>
    cases hr with
    | success _ hc => exact hc
    | failure hf | abort hf => exact hf.cursor

/-- Where every move of a matched cursor is answered, the second run follows a step of the first or breaks off. -/
theorem step_follows_or_breaks (hJoins : Joins J) (h : Together J P O store control store' control' V)
    (hanswered : ∀ c c', V.rel c c' → ∃ access, store'.stream.advance fuel' c' = some access)
    (hs : step .counted fuel store control = .next mid between) :
    (∃ mid' between' W, Moves .counted store' control' mid' between' ∧ Together J P O mid between mid' between' W) ∨
      ∃ mid' e, Breaks .counted store' control' mid' e := by
  obtain ⟨s, rules, log⟩ := store
  obtain ⟨s', rules', log'⟩ := store'
  have hpair : Paired P V O fuel fuel' s s' (step .counted fuel ⟨s, rules, log⟩ control)
      (step .counted fuel' ⟨s', rules', log'⟩ control') := step_paired fuel fuel' h.rules h.control
  rw [hs] at hpair
  generalize hnext : Progress.next mid between = progress at hpair
  generalize hs' : step .counted fuel' ⟨s', rules', log'⟩ control' = progress' at hpair
  cases hpair with
  | alike halike =>
    obtain ⟨_, _, _, _, _, _, rfl, rfl, hrules, hcontrol⟩ := halike
    cases hnext
    exact .inl ⟨_, _, V, ⟨fuel', hs'⟩, h.joined, hrules, hcontrol⟩
  | done => cases hnext
  | @consume _ _ _ _ c c' t R k k' hrules hc ht hk =>
    rcases ha : s.advance fuel c with _ | ⟨s₁, error | d, events⟩
    · simp [consume, Store.access, ha] at hnext
    · simp [consume, Store.access, ha] at hnext
    · simp only [consume, Store.access, ha, Option.map_some] at hnext
      cases hnext
      obtain ⟨⟨s₁', error | d', events'⟩, ha'⟩ := hanswered c c' hc
      · simp only [consume, Store.access, ha', Option.map_some] at hs'
        exact .inr ⟨_, error, fuel', hs'⟩
      · simp only [consume, Store.access, ha', Option.map_some] at hs'
        obtain ⟨W, hVW, hW, hd⟩ := hJoins h.joined hc ha ha'
        exact .inl ⟨_, _, W, ⟨fuel', hs'⟩, hW, hrules.mono hVW, .back (.success (R.mono hVW ht) hd) (hk.mono hVW)⟩

/-- What a run that follows another one ends with: a reply that is alike, or the error of a read. -/
structure Followed (J : TokenStream σ τ → TokenStream σ' τ → Matching τ π → Prop) (P : Likeness τ π ρ)
    (O : Likeness τ π ω) (last : Store σ τ π ρ) (r : Reply τ π ω) (last' : Store σ' τ π ρ)
    (result : Except ReadError (Reply τ π ω)) : Prop where
  alike : ∀ r', result = .ok r' →
    ∃ W, J last.stream last'.stream W ∧ last.rules.Like P W last'.rules ∧ r.Like W O r'
  refused : ∀ e, result = .error e → ∃ s s' W c c' fuel events, J s s' W ∧ W.rel c c' ∧
    s'.advance fuel c' = some ⟨last'.stream, .error e, events⟩

theorem run_follows_or_breaks (hJoins : Joins J)
    (hanswered : ∀ {s s' V}, J s s' V → ∃ fuel, ∀ c c', V.rel c c' → ∃ access, s'.advance fuel c' = some access)
    (h : Together J P O store control store' control' V) {r : Reply τ π ω}
    (hr : run .counted fuel store control = some ⟨last, .ok r⟩) :
    ∃ n last' result, Leaves .counted .nil n store' control' last' result ∧ Followed J P O last r last' result := by
  induction fuel generalizing store control store' control' V with
  | zero => simp [run] at hr
  | succ fuel ih =>
    rw [run] at hr
    cases hs : step .counted fuel store control with
    | starved => simp [hs] at hr
    | broken => simp [hs] at hr
    | done =>
      simp only [hs] at hr
      cases hr
      obtain ⟨rfl, rfl⟩ := control_of_done hs
      obtain ⟨hjoined, hrules, hcontrol⟩ := h
      cases hcontrol with
      | back hreply hk =>
        cases hk
        refine ⟨0, _, _, .back _ _, ?_, by simp⟩
        rintro _ ⟨⟩
        exact ⟨V, hjoined, hrules, hreply⟩
    | next mid between =>
      simp only [hs] at hr
      obtain ⟨fuel', hfuel⟩ := hanswered h.joined
      have hwithin : Within .nil control' ∨ ∃ reply, control' = .back reply .nil := within_nil control'
      rcases step_follows_or_breaks hJoins h hfuel hs with ⟨mid', between', W, hmoves, htogether⟩ | ⟨mid', e, hbreaks⟩
      · obtain ⟨n, last', result, hleaves, hfollowed⟩ := ih htogether hr
        rcases hwithin with hw | ⟨reply, rfl⟩
        · exact ⟨n + 1, last', result, .step hw hmoves hleaves, hfollowed⟩
        · obtain ⟨fuel₁, hs'⟩ := hmoves
          cases hs'
      · obtain ⟨fuel₁, hs'⟩ := hbreaks
        obtain ⟨events, ha⟩ := advance_of_broken hs'
        rcases hwithin with hw | ⟨reply, rfl⟩
        · refine ⟨0, mid', .error e, .broken hw ⟨fuel₁, hs'⟩, by simp, ?_⟩
          rintro _ ⟨⟩
          exact ⟨_, _, V, _, _, fuel₁, events, h.joined, h.control.place, ha⟩
        · cases hs'

section Alone

variable {J : TokenStream σ τ → TokenStream σ τ → Matching τ π → Prop}

theorem step_alone (hJoins : Joins J) (h : Together J P O store control store control V)
    (hs : step .counted fuel store control = .next mid between) : ∃ W, Together J P O mid between mid between W := by
  have honward := step_onward hJoins fuel fuel h
  rw [hs] at honward
  cases honward with
  | next hnext => exact ⟨_, hnext⟩
  | refused _ _ hrefused => rcases hrefused with hrefused | hrefused <;> cases hrefused

theorem matched_of_passed (hJoins : Joins J) (h : Together J P O store control store control V) {d : Cursor τ π}
    (hd : d ∈ passed fuel store control) : ∃ s W, J s s W ∧ W.rel d d ∧
      ∀ last r, run .counted fuel store control = some ⟨last, .ok r⟩ → s.Later last.stream := by
  induction fuel generalizing store control V with
  | zero => cases hd
  | succ fuel ih =>
    rw [passed] at hd
    cases hs : step .counted fuel store control with
    | starved | broken | done => simp [hs] at hd
    | next mid between =>
      simp only [hs] at hd
      obtain ⟨W, hnext⟩ := step_alone hJoins h hs
      have hrun : run .counted (fuel + 1) store control = run .counted fuel mid between := by rw [run, hs]
      rcases List.mem_cons.mp hd with rfl | hd
      · refine ⟨mid.stream, W, hnext.joined, hnext.control.place, ?_⟩
        intro last r hr
        obtain ⟨n, hleaves⟩ := leaves_of_run (hrun.symm.trans hr)
        exact later_of_path hleaves.path
      · obtain ⟨s, X, hX, hrel, hlater⟩ := ih hnext hd
        exact ⟨s, X, hX, hrel, fun last r hr => hlater last r (hrun.symm.trans hr)⟩

theorem related_of_passed (hJoins : Joins J) (h : Together J P O store control store control V) {r : Reply τ π ω}
    (hr : run .counted fuel store control = some ⟨last, .ok r⟩) {d : Cursor τ π} (hd : d ∈ passed fuel store control) :
    ∃ s W, J s s W ∧ W.rel d d ∧ s.Later last.stream := by
  obtain ⟨s, W, hW, hrel, hlater⟩ := matched_of_passed hJoins h hd
  exact ⟨s, W, hW, hrel, hlater last r hr⟩

theorem related_of_error (hJoins : Joins J) (h : Together J P O store control store control V) {e : ReadError}
    (hr : run .counted fuel store control = some ⟨last, .error e⟩) :
    ∃ s W c fuel events, J s s W ∧ W.rel c c ∧ s.advance fuel c = some ⟨last.stream, .error e, events⟩ := by
  induction fuel generalizing store control V with
  | zero => simp [run] at hr
  | succ fuel ih =>
    rw [run] at hr
    cases hs : step .counted fuel store control with
    | starved => simp [hs] at hr
    | done => simp [hs] at hr
    | broken mid error =>
      simp only [hs] at hr
      cases hr
      obtain ⟨events, ha⟩ := advance_of_broken hs
      exact ⟨_, V, _, fuel, events, h.joined, h.control.place, ha⟩
    | next mid between =>
      simp only [hs] at hr
      obtain ⟨W, hnext⟩ := step_alone hJoins h hs
      exact ih hnext hr

end Alone

end Machine

namespace Parser

variable [LawfulSource σ τ] [LawfulSource σ' τ] {P : Likeness τ π ρ} {R : Likeness τ π α} {p : Parser τ π ρ α}
variable {tokens : List τ} {ending' : Option ReadError} {V : Matching τ π} {store last : Store σ τ π ρ}
variable {store' : Store σ' τ π ρ} {c c' : Cursor τ π} {fuel : Nat} {r : Reply τ π α}

omit [Source σ' τ] [LawfulSource σ' τ] in
/-- Over a source that does not fail, a run that ends has a reply. -/
theorem exists_ok_of_run {rules : Rules τ π ρ} {log : Array Event} {s : TokenStream σ τ}
    {finish : Machine.Finish σ τ π ρ α} (hp : p.Like P .none R p) (hrules : rules.Like P .none rules)
    (h : s.Carries tokens none) (hc : s.Placed c) (hr : p.run fuel ⟨s, rules, log⟩ c = some finish) :
    ∃ r, finish.result = .ok r := by
  obtain ⟨last, result⟩ := finish
  cases result with
  | ok r => exact ⟨r, rfl⟩
  | error e =>
    obtain ⟨V, hV⟩ := TokenStream.exists_abreast (π := π) h h
    have htogether := together_at hp hrules hV ((hV.rel_iff c c).mpr ⟨hc, hc, rfl⟩) log log
    obtain ⟨s', W, d, fuel, events, hW, hd, ha⟩ := Machine.related_of_error TokenStream.joins_abreast htogether hr
    have hlevel := (hW.rel_iff d d).mp hd
    obtain ⟨next, hnext⟩ := hW.carries.advance_ok hlevel.placed (TokenStream.advancing_of_advance ha)
    cases hnext

theorem exists_run_of_abreast
    (h : Machine.Together (TokenStream.Abreast tokens none ending') P R store (.eval p c .nil) store'
      (.eval p c' .nil) V) (hr : p.run fuel store c = some ⟨last, .ok r⟩) :
    ∃ fuel' last' result, p.run fuel' store' c' = some ⟨last', result⟩ ∧
      Machine.Followed (TokenStream.Abreast tokens none ending') P R last r last' result := by
  have hanswered {s : TokenStream σ τ} {s' : TokenStream σ' τ} {V : Matching τ π}
      (hJ : TokenStream.Abreast tokens none ending' s s' V) :
      ∃ fuel, ∀ c c', V.rel c c' → ∃ access, s'.advance fuel c' = some access := by
    obtain ⟨fuel, read, hread⟩ := hJ.carries'.read_answered
    exact ⟨fuel, fun _ c' _ => TokenStream.exists_advance_of_readChunk hread c'⟩
  obtain ⟨n, last', result, hleaves, hfollowed⟩ :=
    Machine.run_follows_or_breaks TokenStream.joins_abreast hanswered h hr
  obtain ⟨fuel', hrun⟩ := Machine.run_of_leaves hleaves
  exact ⟨fuel', last', result, hrun, hfollowed⟩

/-- Over a source that does not fail, the run that follows has a reply. -/
theorem exists_reply_of_abreast
    (h : Machine.Together (TokenStream.Abreast tokens none none) P R store (.eval p c .nil) store' (.eval p c' .nil) V)
    (hr : p.run fuel store c = some ⟨last, .ok r⟩) : ∃ fuel' last' r' W, p.run fuel' store' c' = some ⟨last', .ok r'⟩ ∧
      TokenStream.Abreast tokens none none last.stream last'.stream W ∧ last.rules.Like P W last'.rules ∧
      r.Like W R r' := by
  obtain ⟨fuel', last', result, hrun, hfollowed⟩ := exists_run_of_abreast h hr
  cases result with
  | ok r' =>
    obtain ⟨W, hW, hrules, hlike⟩ := hfollowed.alike r' rfl
    exact ⟨fuel', last', r', W, hrun, hW, hrules, hlike⟩
  | error e =>
    obtain ⟨s, s', W, d, d', fuel, events, hW, hd, ha⟩ := hfollowed.refused e rfl
    have hlevel := (hW.rel_iff d d').mp hd
    obtain ⟨next, hnext⟩ := hW.carries'.advance_ok hlevel.placed' (TokenStream.advancing_of_advance ha)
    cases hnext

end Parser

end StreamParsing
