import StreamParsing.Proofs.Fuel
import StreamParsing.Proofs.Opacity.Pending

/-!
Two runs of parsers that are alike go in lockstep, each over its own stream. They part only where one of them is
refused a read; as long as the streams let matched cursors move to matched cursors, both end with replies that are
alike.
-/

namespace StreamParsing.Machine

set_option autoImplicit false

universe u v

variable {σ : Type u} {σ' : Type v} {τ π ρ α β γ ω : Type}
variable {P : Likeness τ π ρ} {V : Matching τ π}
variable {Q : Likeness τ π α} {R : Likeness τ π β} {S : Likeness τ π γ} {O : Likeness τ π ω}

theorem nextRound_like {l l' : Loop τ π ρ α β} {acc acc' : β} {c c' : Cursor τ π} {k k' : Stack τ π ρ β ω}
    (hl : l.Like P V Q R l') (hacc : R.rel V acc acc') (hc : V.rel c c') (hk : k.Like P V R O k') (count : Nat) :
    (nextRound l acc count c k).Like P V O (nextRound l' acc' count c' k') := by
  unfold nextRound
  rw [hl.bounds]
  split
  · exact .back (.success hacc hc) hk
  · exact .eval hl.item hc (.cons (.item hl ⟨hacc, rfl, hc⟩) hk)

theorem nextRoundTill_like {l l' : LoopTill τ π ρ α β γ} {acc acc' : β} {c c' : Cursor τ π}
    {k k' : Stack τ π ρ β ω} (hl : l.Like P V Q R S l') (hacc : R.rel V acc acc') (hc : V.rel c c')
    (hk : k.Like P V R O k') (count : Nat) :
    (nextRoundTill l acc count c k).Like P V O (nextRoundTill l' acc' count c' k') := by
  unfold nextRoundTill
  rw [hl.loop.bounds]
  split
  · exact .back (.success hacc hc) hk
  · exact .eval hl.stop hc (.cons (.stopTill hl ⟨hacc, rfl, hc⟩) hk)

/-- Both steps leave their streams alone and go on alike. -/
def Alike (P : Likeness τ π ρ) (V : Matching τ π) (O : Likeness τ π ω) (s : TokenStream σ τ)
    (s' : TokenStream σ' τ) (progress : Progress σ τ π ρ ω) (progress' : Progress σ' τ π ρ ω) : Prop :=
  ∃ rules log control rules' log' control', progress = .next ⟨s, rules, log⟩ control ∧
    progress' = .next ⟨s', rules', log'⟩ control' ∧ rules.Like P V rules' ∧ control.Like P V O control'

section

variable {s : TokenStream σ τ} {s' : TokenStream σ' τ} {rules rules' : Rules τ π ρ} {log log' : Array Event}

theorem alike_next {control control' : Control τ π ρ ω} (hr : rules.Like P V rules')
    (h : control.Like P V O control') :
    Alike P V O s s' (.next ⟨s, rules, log⟩ control) (.next ⟨s', rules', log'⟩ control') :=
  ⟨_, _, _, _, _, _, rfl, rfl, hr, h⟩

variable [Position π τ]

theorem resume_like {f f' : Frame τ π ρ α β} {r r' : Reply τ π α} {k k' : Stack τ π ρ β ω}
    (hrules : rules.Like P V rules') (hf : f.Like P V Q R f') (hr : r.Like V Q r') (hk : k.Like P V R O k') :
    Alike P V O s s' (resume ⟨s, rules, log⟩ f r k) (resume ⟨s', rules', log'⟩ f' r' k') := by
  have back {x x' : Reply τ π β} (hx : x.Like V R x') :
      Alike P V O s s' (.next ⟨s, rules, log⟩ (.back x k)) (.next ⟨s', rules', log'⟩ (.back x' k')) :=
    alike_next hrules (.back hx hk)
  have caused {cause : Cause} {c c' : Cursor τ π} (hc : V.rel c c') :
      Reply.Like V R (.failure (.ofCause cause c)) (.failure (.ofCause cause c')) := .failure ⟨rfl, rfl, hc⟩
  cases hf with
  | tryMap hcheck hc =>
    cases hr with
    | success ha hd =>
      rcases (hcheck V le_rfl _ _ ha).cases with ⟨b, b', hx, hx', hb⟩ | ⟨cause, hx, hx'⟩
      · simp only [resume, hx, hx']
        exact back (.success hb hd)
      · simp only [resume, hx, hx']
        exact back (caused hc)
    | failure hfault => exact back (.failure hfault)
    | abort hfault => exact back (.abort hfault)
  | tryBind hcheck hnext hc =>
    cases hr with
    | success ha hd =>
      rcases (hcheck V le_rfl _ _ ha).cases with ⟨b, b', hx, hx', hb⟩ | ⟨cause, hx, hx'⟩
      · simp only [resume, hx, hx']
        exact alike_next hrules (.eval (hnext V le_rfl _ _ hb) hd hk)
      · simp only [resume, hx, hx']
        exact back (caused hc)
    | failure hfault => exact back (.failure hfault)
    | abort hfault => exact back (.abort hfault)
  | zipLeft hjoin hq =>
    cases hr with
    | success ha hd => exact alike_next hrules (.eval hq hd (.cons (.zipRight hjoin ha) hk))
    | failure hfault => exact back (.failure hfault)
    | abort hfault => exact back (.abort hfault)
  | zipRight hjoin ha =>
    cases hr with
    | success hb hd => exact back (.success (hjoin V le_rfl _ _ _ _ ha hb) hd)
    | failure hfault => exact back (.failure hfault)
    | abort hfault => exact back (.abort hfault)
  | orElse hq hc =>
    cases hr with
    | success ha hd => exact back (.success ha hd)
    | failure hfault => exact alike_next hrules (.eval hq hc hk)
    | abort hfault => exact back (.abort hfault)
  | reshape hhook hc => exact back (hhook V le_rfl _ _ _ _ hc hr)
  | seed hl =>
    cases hr with
    | success ha hd => exact alike_next hrules (nextRound_like hl ha hd hk 0)
    | failure hfault => exact back (.failure hfault)
    | abort hfault => exact back (.abort hfault)
  | @item _ _ _ _ l l' r r' hl hround =>
    obtain ⟨acc, count, before⟩ := r
    obtain ⟨acc', count', before'⟩ := r'
    obtain ⟨hacc, rfl, hbefore⟩ := hround
    cases hr with
    | success ha hd =>
      have hjoin := hl.step V le_rfl _ _ _ _ hacc ha
      simp only [resume, V.same hd hbefore, hl.bounds]
      split
      · exact alike_next hrules (.back (.success hjoin hd) hk)
      · exact alike_next hrules (nextRound_like hl hjoin hd hk _)
    | failure hfault =>
      simp only [resume, hl.bounds]
      split
      · exact back (.failure hfault)
      · exact back (.success hacc hbefore)
    | abort hfault => exact back (.abort hfault)
  | seedTill hl =>
    cases hr with
    | success ha hd => exact alike_next hrules (nextRoundTill_like hl ha hd hk 0)
    | failure hfault => exact back (.failure hfault)
    | abort hfault => exact back (.abort hfault)
  | @stopTill _ _ _ _ _ _ l l' r r' hl hround =>
    obtain ⟨acc, count, before⟩ := r
    obtain ⟨acc', count', before'⟩ := r'
    obtain ⟨hacc, rfl, hbefore⟩ := hround
    cases hr with
    | success ha hd => exact back (.success hacc hd)
    | failure hfault =>
      exact alike_next hrules (.eval hl.loop.item hbefore (.cons (.itemTill hl ⟨hacc, rfl, hbefore⟩) hk))
    | abort hfault => exact back (.abort hfault)
  | @itemTill _ _ _ _ _ _ l l' r r' hl hround =>
    obtain ⟨acc, count, before⟩ := r
    obtain ⟨acc', count', before'⟩ := r'
    obtain ⟨hacc, rfl, hbefore⟩ := hround
    cases hr with
    | success ha hd =>
      have hjoin := hl.loop.step V le_rfl _ _ _ _ hacc ha
      simp only [resume, V.same hd hbefore, hl.loop.bounds]
      split
      · exact back (.failure ⟨rfl, rfl, hd⟩)
      · exact alike_next hrules (nextRoundTill_like hl hjoin hd hk _)
    | failure hfault => exact back (.failure hfault)
    | abort hfault => exact back (.abort hfault)

end

variable [Source σ τ] [Source σ' τ] [Position π τ]

def consume (fuel : Nat) (store : Store σ τ π ρ) (c : Cursor τ π) (t : τ) (k : Stack τ π ρ τ ω) :
    Progress σ τ π ρ ω :=
  match store.access (·.advance fuel c) with
  | none => .starved
  | some (store', .ok next) => .next store' (.back (.success t next) k)
  | some (store', .error e) => .broken store' e

/-- What the next steps of two runs that are alike can lead to. -/
inductive Paired (P : Likeness τ π ρ) (V : Matching τ π) (O : Likeness τ π ω) (fuel fuel' : Nat)
    (s : TokenStream σ τ) (s' : TokenStream σ' τ) : Progress σ τ π ρ ω → Progress σ' τ π ρ ω → Prop where
  | alike {progress : Progress σ τ π ρ ω} {progress' : Progress σ' τ π ρ ω} :
      Alike P V O s s' progress progress' → Paired P V O fuel fuel' s s' progress progress'
  | done {rules rules' : Rules τ π ρ} {log log' : Array Event} {r r' : Reply τ π ω} : r.Like V O r' →
      Paired P V O fuel fuel' s s' (.done ⟨s, rules, log⟩ r) (.done ⟨s', rules', log'⟩ r')
  | consume {rules rules' : Rules τ π ρ} {log log' : Array Event} {c c' : Cursor τ π} {t : τ}
      {R : Likeness τ π τ} {k k' : Stack τ π ρ τ ω} : rules.Like P V rules' → V.rel c c' → R.rel V t t →
      k.Like P V R O k' →
      Paired P V O fuel fuel' s s' (consume fuel ⟨s, rules, log⟩ c t k) (consume fuel' ⟨s', rules', log'⟩ c' t k')

theorem step_paired {s : TokenStream σ τ} {s' : TokenStream σ' τ} {rules rules' : Rules τ π ρ}
    {log log' : Array Event} {control control' : Control τ π ρ ω} (fuel fuel' : Nat)
    (hrules : rules.Like P V rules') (h : control.Like P V O control') :
    Paired P V O fuel fuel' s s' (step .counted fuel ⟨s, rules, log⟩ control)
      (step .counted fuel' ⟨s', rules', log'⟩ control') := by
  cases h with
  | back hr hk =>
    cases hk with
    | nil => exact .done hr
    | cons hf hk => exact .alike (resume_like hrules hf hr hk)
  | @eval _ _ _ _ c c' k k' hp hc hk =>
    have next {control control' : Control τ π ρ ω} (h : control.Like P V O control') :
        Paired P V O fuel fuel' s s' (.next ⟨s, rules, log⟩ control) (.next ⟨s', rules', log'⟩ control') :=
      .alike (alike_next hrules h)
    cases hp with
    | pure ha => exact next (.back (.success ha hc) hk)
    | peek hread => exact next (.back (.success (hread V le_rfl _ _ hc) hc) hk)
    | satisfy test ht =>
      have hcur : c'.current.filter test = c.current.filter test := by rw [V.current hc]
      cases hfilter : c.current.filter test with
      | none =>
        rw [step_satisfy_refused hfilter, step_satisfy_refused (hcur.trans hfilter)]
        exact next (.back (.failure ⟨rfl, rfl, hc⟩) hk)
      | some t =>
        rw [step_satisfy_taken hfilter, step_satisfy_taken (hcur.trans hfilter)]
        exact .consume hrules hc (ht t) hk
    | endOfInput hu =>
      have htok : c.hasToken = c'.hasToken := by simp only [Cursor.hasToken, V.current hc]
      simp only [step, evaluate, htok]
      split
      · exact next (.back (.failure ⟨rfl, rfl, hc⟩) hk)
      · exact next (.back (.success hu hc) hk)
    | fail message =>
      cases message with
      | none => exact next (.back (.failure ⟨rfl, rfl, hc⟩) hk)
      | some message => exact next (.back (.failure ⟨rfl, rfl, hc⟩) hk)
    | abort message => exact next (.back (.abort ⟨rfl, rfl, hc⟩) hk)
    | tryMap hp hf => exact next (.eval hp hc (.cons (.tryMap hf hc) hk))
    | tryBind hp hcheck hnext => exact next (.eval hp hc (.cons (.tryBind hcheck hnext hc) hk))
    | zipWith hp hq hf => exact next (.eval hp hc (.cons (.zipLeft hf hq) hk))
    | orElse hp hq => exact next (.eval hp hc (.cons (.orElse hq hc) hk))
    | reshape hp hhook => exact next (.eval hp hc (.cons (.reshape hhook hc) hk))
    | loop bounds hs hi hf => exact next (.eval hs hc (.cons (.seed ⟨hs, hi, hf, rfl⟩) hk))
    | loopTill bounds hs hi ht hf => exact next (.eval hs hc (.cons (.seedTill ⟨⟨hs, hi, hf, rfl⟩, ht⟩) hk))
    | rule number =>
      rcases hrules.force number with ⟨hn, hn'⟩ | ⟨p, q, p', q', hs, hs', hp, hq⟩
      · simp only [step, evaluate, hn, hn']
        exact next (.back (.abort ⟨rfl, rfl, hc⟩) hk)
      · simp only [step, evaluate, hs, hs']
        exact .alike (alike_next hq (.eval hp hc hk))
    | handle number =>
      -- Both runs hold the same rules, so the handle is alive in both or in neither.
      have halive : Upkeep.counted rules k number = Upkeep.counted rules' k' number := by
        simp only [Upkeep.counted, hrules.isRetained_eq, hrules.isHeld_eq, hk.holds_eq]
      have dangling : Paired P V O fuel fuel' s s'
          (.next ⟨s, rules, log.push (.dangling (Position.place τ c.position))⟩
            (.back (.abort (.ofMessage danglingMessage c)) k))
          (.next ⟨s', rules', log'.push (.dangling (Position.place τ c'.position))⟩
            (.back (.abort (.ofMessage danglingMessage c')) k')) :=
        .alike (alike_next hrules (.back (.abort ⟨rfl, rfl, hc⟩) hk))
      cases hcounted : Upkeep.counted rules' k' number with
      | false =>
        simp only [step, evaluate, halive, hcounted, Bool.false_eq_true, if_false]
        exact dangling
      | true =>
        simp only [step, evaluate, halive, hcounted, if_true]
        rcases hrules.force number with ⟨hn, hn'⟩ | ⟨p, q, p', q', hs, hs', hp, hq⟩
        · simp only [hn, hn']
          exact dangling
        · simp only [hs, hs']
          exact .alike (alike_next hq (.eval hp hc hk))
    | @draft _ _ _ parser parser' new new' hp hl hr =>
      have happend := hrules.append false (hl rules.entries.size) (hr V le_rfl rules.entries.size)
      simp only [step, evaluate, ← hrules.size]
      exact .alike (alike_next happend (.eval (hp _) hc hk))

/-- Streams that stay joined: cursors that are matched move to cursors that can be matched as well. -/
def Joins (J : TokenStream σ τ → TokenStream σ' τ → Matching τ π → Prop) : Prop :=
  ∀ {s s₁ : TokenStream σ τ} {s' s₁' : TokenStream σ' τ} {V : Matching τ π} {c c' d d' : Cursor τ π}
    {fuel fuel' : Nat} {events events' : Array Event}, J s s' V → V.rel c c' →
    s.advance fuel c = some ⟨s₁, .ok d, events⟩ → s'.advance fuel' c' = some ⟨s₁', .ok d', events'⟩ →
    ∃ W, V ≤ W ∧ J s₁ s₁' W ∧ W.rel d d'

variable {J : TokenStream σ τ → TokenStream σ' τ → Matching τ π → Prop}
variable {store : Store σ τ π ρ} {store' : Store σ' τ π ρ} {control control' : Control τ π ρ ω}

/-- The invariant of two runs in lockstep. -/
structure Together (J : TokenStream σ τ → TokenStream σ' τ → Matching τ π → Prop) (P : Likeness τ π ρ)
    (O : Likeness τ π ω) (store : Store σ τ π ρ) (control : Control τ π ρ ω) (store' : Store σ' τ π ρ)
    (control' : Control τ π ρ ω) (V : Matching τ π) : Prop where
  joined : J store.stream store'.stream V
  rules : store.rules.Like P V store'.rules
  control : control.Like P V O control'

/-- The read of a token at `c` is refused. -/
inductive Refused (fuel : Nat) (s : TokenStream σ τ) (c : Cursor τ π) : Progress σ τ π ρ ω → Prop where
  | starved (h : s.advance fuel c = none) : Refused fuel s c .starved
  | broken {s₁ : TokenStream σ τ} {e : ReadError} {events : Array Event} (store : Store σ τ π ρ)
      (h : s.advance fuel c = some ⟨s₁, .error e, events⟩) : Refused fuel s c (.broken store e)

/-- Two runs in lockstep stay so, end together, or part because a read is refused to one of them. -/
inductive Onward (J : TokenStream σ τ → TokenStream σ' τ → Matching τ π → Prop) (P : Likeness τ π ρ)
    (O : Likeness τ π ω) (fuel fuel' : Nat) : Progress σ τ π ρ ω → Progress σ' τ π ρ ω → Prop where
  | next {store : Store σ τ π ρ} {control : Control τ π ρ ω} {store' : Store σ' τ π ρ}
      {control' : Control τ π ρ ω} {W : Matching τ π} : Together J P O store control store' control' W →
      Onward J P O fuel fuel' (.next store control) (.next store' control')
  | done {store : Store σ τ π ρ} {store' : Store σ' τ π ρ} {r r' : Reply τ π ω} {W : Matching τ π} :
      J store.stream store'.stream W → r.Like W O r' → Onward J P O fuel fuel' (.done store r) (.done store' r')
  | refused {s : TokenStream σ τ} {s' : TokenStream σ' τ} {W : Matching τ π} {c c' : Cursor τ π}
      {progress : Progress σ τ π ρ ω} {progress' : Progress σ' τ π ρ ω} : J s s' W → W.rel c c' →
      (Refused fuel s c progress ∨ Refused fuel' s' c' progress') → Onward J P O fuel fuel' progress progress'

theorem consume_onward (hJoins : Joins J) {s : TokenStream σ τ} {s' : TokenStream σ' τ}
    {rules rules' : Rules τ π ρ} {log log' : Array Event} {c c' : Cursor τ π} {t : τ} {R : Likeness τ π τ}
    {k k' : Stack τ π ρ τ ω} (fuel fuel' : Nat) (hJ : J s s' V) (hrules : rules.Like P V rules')
    (hc : V.rel c c') (ht : R.rel V t t) (hk : k.Like P V R O k') :
    Onward J P O fuel fuel' (consume fuel ⟨s, rules, log⟩ c t k) (consume fuel' ⟨s', rules', log'⟩ c' t k') := by
  rcases ha : s.advance fuel c with _ | ⟨s₁, e | d, events⟩
  · exact .refused hJ hc (.inl (by simpa [consume, Store.access, ha] using .starved ha))
  · exact .refused hJ hc (.inl (by simpa [consume, Store.access, ha] using .broken _ ha))
  · rcases ha' : s'.advance fuel' c' with _ | ⟨s₁', e' | d', events'⟩
    · exact .refused hJ hc (.inr (by simpa [consume, Store.access, ha'] using .starved ha'))
    · exact .refused hJ hc (.inr (by simpa [consume, Store.access, ha'] using .broken _ ha'))
    · simp only [consume, Store.access, ha, ha', Option.map_some]
      obtain ⟨W, hVW, hW, hd⟩ := hJoins hJ hc ha ha'
      exact .next ⟨hW, hrules.mono hVW, .back (.success (R.mono hVW ht) hd) (hk.mono hVW)⟩

theorem step_onward (hJoins : Joins J) (fuel fuel' : Nat) (h : Together J P O store control store' control' V) :
    Onward J P O fuel fuel' (step .counted fuel store control) (step .counted fuel' store' control') := by
  obtain ⟨s, rules, log⟩ := store
  obtain ⟨s', rules', log'⟩ := store'
  have hpair : Paired P V O fuel fuel' s s' (step .counted fuel ⟨s, rules, log⟩ control)
      (step .counted fuel' ⟨s', rules', log'⟩ control') := step_paired fuel fuel' h.rules h.control
  generalize step .counted fuel ⟨s, rules, log⟩ control = progress at hpair ⊢
  generalize step .counted fuel' ⟨s', rules', log'⟩ control' = progress' at hpair ⊢
  cases hpair with
  | alike halike =>
    obtain ⟨_, _, _, _, _, _, rfl, rfl, hrules, hcontrol⟩ := halike
    exact .next ⟨h.joined, hrules, hcontrol⟩
  | done hreply => exact .done h.joined hreply
  | consume hrules hc ht hk => exact consume_onward hJoins fuel fuel' h.joined hrules hc ht hk

/-- Runs in lockstep that both end give replies that are alike. -/
theorem replies_alike (hJoins : Joins J) {fuel fuel' : Nat} {last : Store σ τ π ρ} {last' : Store σ' τ π ρ}
    {r r' : Reply τ π ω} (h : Together J P O store control store' control' V)
    (hr : run .counted fuel store control = some ⟨last, .ok r⟩)
    (hr' : run .counted fuel' store' control' = some ⟨last', .ok r'⟩) :
    ∃ W, J last.stream last'.stream W ∧ r.Like W O r' := by
  -- The runs may have different fuel, but each step takes one from both.
  induction fuel generalizing fuel' store store' control control' V with
  | zero => simp [run] at hr
  | succ fuel ih =>
    cases fuel' with
    | zero => simp [run] at hr'
    | succ fuel' =>
      rw [run] at hr hr'
      have honward := step_onward hJoins fuel fuel' h
      generalize step .counted fuel store control = progress at honward hr
      generalize step .counted fuel' store' control' = progress' at honward hr'
      cases honward with
      | next hnext => exact ih hnext hr hr'
      | done hJ hreply =>
        cases hr
        cases hr'
        exact ⟨_, hJ, hreply⟩
      | refused hJ hc hrefused =>
        rcases hrefused with hrefused | hrefused
        · cases hrefused <;> cases hr
        · cases hrefused <;> cases hr'

/-- If the first stream refuses no read by an error, and the second none at all, then with the first run the second
one ends, and the replies are alike. -/
theorem run_alike (hJoins : Joins J) {fuel : Nat} {finish : Finish σ τ π ρ ω}
    (hfirst : ∀ {s s' V} {c c' : Cursor τ π} {fuel access}, J s s' V → V.rel c c' →
      s.advance fuel c = some access → ∃ d, access.result = .ok d)
    (hsecond : ∀ {s s' V} {c c' : Cursor τ π}, J s s' V → V.rel c c' → ∀ fuel,
      ∃ s₁ d events, s'.advance fuel c' = some ⟨s₁, .ok d, events⟩)
    (h : Together J P O store control store' control' V) (hr : run .counted fuel store control = some finish) :
    ∃ last' r r' W, finish.result = .ok r ∧ run .counted fuel store' control' = some ⟨last', .ok r'⟩ ∧
      J finish.store.stream last'.stream W ∧ r.Like W O r' := by
  induction fuel generalizing store store' control control' V with
  | zero => simp [run] at hr
  | succ fuel ih =>
    rw [run] at hr
    simp only [run]
    have honward := step_onward hJoins fuel fuel h
    generalize step .counted fuel store control = progress at honward hr
    generalize step .counted fuel store' control' = progress' at honward
    cases honward with
    | next hnext => exact ih hnext hr
    | done hJ hreply =>
      cases hr
      exact ⟨_, _, _, _, rfl, rfl, hJ, hreply⟩
    | refused hJ hc hrefused =>
      rcases hrefused with hrefused | hrefused
      · cases hrefused with
        | starved => cases hr
        | broken store ha =>
          obtain ⟨d, hd⟩ := hfirst hJ hc ha
          cases hd
      · obtain ⟨s₁, d, events, hok⟩ := hsecond hJ hc fuel
        cases hrefused with
        | starved ha | broken store ha => simp [hok] at ha

end StreamParsing.Machine
