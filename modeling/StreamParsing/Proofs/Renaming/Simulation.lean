import StreamParsing.Proofs.Renaming.Tables
import StreamParsing.Proofs.Repetition.Counted

/-!
Twins end alike. An evaluation on the one side is followed on the other, step by step, with the same tokens read, the
same reports and the same outcome; only the tables differ, and a larger pairing fits them afterwards.
-/

namespace StreamParsing

set_option autoImplicit false

universe u

variable {σ : Type u} {τ π ρ α β γ : Type}

inductive Job.Twin (w : Pairing τ π ρ) : {α : Type} → Job τ π ρ α → Job τ π ρ α → Prop where
  | run {α : Type} {p q : Parser τ π ρ α} (c : Cursor τ π) : Parser.Twin w true p q → Twin w (.run p c) (.run q c)
  | rounds {α β : Type} {seed seed' : Parser τ π ρ β} {item item' : Parser τ π ρ α} (step : β → α → β) (bounds : Bounds)
      (acc : β) (count : Nat) (c : Cursor τ π) : Parser.Twin w true seed seed' → Parser.Twin w true item item' →
        Twin w (.rounds ⟨seed, item, step, bounds⟩ acc count c) (.rounds ⟨seed', item', step, bounds⟩ acc count c)
  | roundsTill {α β γ : Type} {seed seed' : Parser τ π ρ β} {item item' : Parser τ π ρ α} {stop stop' : Parser τ π ρ γ}
      (step : β → α → β) (bounds : Bounds) (acc : β) (count : Nat) (c : Cursor τ π) : Parser.Twin w true seed seed' →
        Parser.Twin w true item item' → Parser.Twin w true stop stop' →
        Twin w (.roundsTill ⟨⟨seed, item, step, bounds⟩, stop⟩ acc count c)
          (.roundsTill ⟨⟨seed', item', step, bounds⟩, stop'⟩ acc count c)

variable [Source σ τ] [Position π τ]

/-- Run with the table `r`, the parser `q` ends as `q'` does. -/
def Parser.Leads (σ : Type u) [Source σ τ] (r : Rules τ π ρ) (q' q : Parser τ π ρ α) : Prop :=
  ∀ {held : List Nat} {stream : TokenStream σ τ} {log : Array Event} {c : Cursor τ π} {store' : Store σ τ π ρ}
    {result : Outcome τ π α}, Evaluates .counted held ⟨stream, r, log⟩ (.run q' c) store' result →
      Evaluates .counted held ⟨stream, r, log⟩ (.run q c) store' result

namespace Parser

variable {r : Rules τ π ρ} {w : Pairing τ π ρ}

theorem Names.leads {q q' : Parser τ π ρ ρ} {b : Nat} (h : q.Names b)
    (hb : r.entries[b]? = some ⟨.defined q', true⟩) : Leads σ r q' q := by
  intro held stream log c store' result heval
  cases h with
  | rule => exact .rule (Rules.force_of_defined hb) heval
  | handle =>
    have halive : Liveness.counted r held b = true := by
      simp only [Liveness.counted, Rules.isRetained_of_getElem? hb, Bool.true_or]
    exact .handle halive (Rules.force_of_defined hb) heval

/-- The second of two twins may enter the rules that are to be opened, until it matches the first. -/
theorem Twin.exists_leads {opened : Bool} {p q : Parser τ π ρ α} (h : Parser.Twin w opened p q)
    (hopens : ∀ {b : Nat} {q' : Parser τ π ρ ρ}, w.opens' b q' → r.entries[b]? = some ⟨.defined q', true⟩) :
    ∃ q', Parser.Twin w false p q' ∧ Leads σ r q' q := by
  induction h with
  | leaf hp => exact ⟨_, .leaf hp, id⟩
  | tryMap f hp => exact ⟨_, .tryMap f hp, id⟩
  | tryBind check hp hn => exact ⟨_, .tryBind check hp hn, id⟩
  | zipWith f hp hq => exact ⟨_, .zipWith f hp hq, id⟩
  | orElse hp hq => exact ⟨_, .orElse hp hq, id⟩
  | reshape hook hp => exact ⟨_, .reshape hook hp, id⟩
  | loop step bounds hs hi => exact ⟨_, .loop step bounds hs hi, id⟩
  | loopTill step bounds hs hi ht => exact ⟨_, .loopTill step bounds hs hi ht, id⟩
  | rule hab => exact ⟨_, .rule hab, id⟩
  | handle hab => exact ⟨_, .handle hab, id⟩
  | draft size hp hk hr => exact ⟨_, .draft size hp hk hr, id⟩
  | openLeft hn ho h => exact ⟨_, .openLeft hn ho h, id⟩
  | openRight hn ho _ ih =>
    obtain ⟨q', ht, hleads⟩ := ih hopens
    exact ⟨q', ht.mono Pairing.settled_le, fun heval => hn.leads (hopens ho) (hleads heval)⟩

end Parser

/-- On the other side, with the table `rules'` and the rules `held'` held, the job `job'` ends as an evaluation from
`store` to `store'` did. -/
def Followed (w : Pairing τ π ρ) (store store' : Store σ τ π ρ) (result : Outcome τ π α) (held' : List Nat)
    (rules' : Rules τ π ρ) (job' : Job τ π ρ α) : Prop :=
  ∃ w' later', w ≤ w' ∧ w'.Between store'.rules later' ∧
    Evaluates .counted held' { store with rules := rules' } job' { store' with rules := later' } result

/-- So does any job that is its twin. -/
def Follows (held : List Nat) (store store' : Store σ τ π ρ) (job : Job τ π ρ α) (result : Outcome τ π α) : Prop :=
  ∀ {w : Pairing τ π ρ} {held' : List Nat} {rules' : Rules τ π ρ} {job' : Job τ π ρ α}, Job.Twin w job job' →
    w.Holding held held' → w.Between store.rules rules' → Followed w store store' result held' rules' job'

section Steps

variable {held : List Nat} {store mid store' : Store σ τ π ρ} {result : Outcome τ π α} {c : Cursor τ π}

/-- It suffices to follow parsers that match at their roots. -/
theorem follows_run {p : Parser τ π ρ α} (h : ∀ {w : Pairing τ π ρ} {held' : List Nat} {rules' : Rules τ π ρ}
    {q : Parser τ π ρ α}, Parser.Twin w false p q → w.Holding held held' → w.Between store.rules rules' →
      Followed w store store' result held' rules' (.run q c)) : Follows held store store' (.run p c) result := by
  intro w held' rules' job' hjob hheld hbetween
  cases hjob with
  | run c ht =>
    obtain ⟨q', ht, hleads⟩ := ht.exists_leads (σ := σ) hbetween.opens'
    obtain ⟨w', later', hw, hbetween', heval⟩ := h ht hheld hbetween
    exact ⟨w', later', hw, hbetween', hleads heval⟩

theorem follows_leaf {p : Parser τ π ρ α} (hp : p.IsLeaf) (hr : store'.rules = store.rules)
    (h : ∀ {held' : List Nat} {rules' : Rules τ π ρ},
      Evaluates .counted held' { store with rules := rules' } (.run p c) { store' with rules := rules' } result) :
    Follows held store store' (.run p c) result := by
  refine follows_run ?_
  intro w held' rules' q ht hheld hbetween
  rw [ht.of_leaf hp]
  exact ⟨w, rules', le_refl w, hr ▸ hbetween, h⟩

theorem follows_tryMap {p : Parser τ π ρ α} {f : α → Except Cause β} (h : Follows held store store' (.run p c) result) :
    Follows held store store' (.run (.tryMap p f) c) (result.map (Reply.convert f c)) := by
  refine follows_run ?_
  intro w held' rules' q ht hheld hbetween
  obtain ⟨p', rfl, hp⟩ := ht.of_tryMap
  obtain ⟨w', later, hw, hbetween, heval⟩ := h (.run c hp) hheld hbetween
  exact ⟨w', later, hw, hbetween, .tryMap heval⟩

theorem follows_reshape {p : Parser τ π ρ α} {hook : Hook τ π α β}
    (h : Follows held store store' (.run p c) result) :
    Follows held store store' (.run (.reshape p hook) c) (result.map (hook c)) := by
  refine follows_run ?_
  intro w held' rules' q ht hheld hbetween
  obtain ⟨p', rfl, hp⟩ := ht.of_reshape
  obtain ⟨w', later, hw, hbetween, heval⟩ := h (.run c hp) hheld hbetween
  exact ⟨w', later, hw, hbetween, .reshape heval⟩

section Sequence

variable {p : Parser τ π ρ α} {check : α → Except Cause β} {next : β → Parser τ π ρ γ} {value : α} {c' : Cursor τ π}
variable {outcome : Outcome τ π γ}

theorem follows_bind_next {checked : β} (hp : Follows held store mid (.run p c) (.ok (.success value c')))
    (hc : check value = .ok checked) (hn : Follows held mid store' (.run (next checked) c') outcome) :
    Follows held store store' (.run (.tryBind p check next) c) outcome := by
  refine follows_run ?_
  intro w held' rules' q ht hheld hbetween
  obtain ⟨p', next', rfl, htp, htn⟩ := ht.of_tryBind
  obtain ⟨w₁, rules₁, hw₁, hbetween₁, heval⟩ := hp (.run c htp) hheld hbetween
  obtain ⟨w₂, rules₂, hw₂, hbetween₂, heval'⟩ := hn (.run c' ((htn _).mono hw₁)) (hheld.mono hw₁) hbetween₁
  exact ⟨w₂, rules₂, le_trans hw₁ hw₂, hbetween₂, .bind_next heval hc heval'⟩

theorem follows_bind_refused {cause : Cause} (hp : Follows held store store' (.run p c) (.ok (.success value c')))
    (hc : check value = .error cause) : Follows held store store' (.run (.tryBind p check next) c)
      (.ok (.failure (.ofCause cause c))) := by
  refine follows_run ?_
  intro w held' rules' q ht hheld hbetween
  obtain ⟨p', next', rfl, htp, htn⟩ := ht.of_tryBind
  obtain ⟨w₁, rules₁, hw₁, hbetween₁, heval⟩ := hp (.run c htp) hheld hbetween
  exact ⟨w₁, rules₁, hw₁, hbetween₁, .bind_refused heval hc⟩

theorem follows_bind_stopped (hp : Follows held store store' (.run p c) result) (pass : Passes result outcome) :
    Follows held store store' (.run (.tryBind p check next) c) outcome := by
  refine follows_run ?_
  intro w held' rules' q ht hheld hbetween
  obtain ⟨p', next', rfl, htp, htn⟩ := ht.of_tryBind
  obtain ⟨w₁, rules₁, hw₁, hbetween₁, heval⟩ := hp (.run c htp) hheld hbetween
  exact ⟨w₁, rules₁, hw₁, hbetween₁, .bind_stopped heval pass⟩

variable {f : α → β → γ} {q : Parser τ π ρ β}

theorem follows_zip_next {second : Outcome τ π β}
    (hp : Follows (q.holds ++ held) store mid (.run p c) (.ok (.success value c')))
    (hq : Follows held mid store' (.run q c') second) :
    Follows held store store' (.run (.zipWith f p q) c) (second.map (Reply.map (f value))) := by
  refine follows_run ?_
  intro w held' rules' r ht hheld hbetween
  obtain ⟨p', q', rfl, htp, htq⟩ := ht.of_zipWith
  obtain ⟨w₁, rules₁, hw₁, hbetween₁, heval⟩ := hp (.run c htp) (htq.holding.append hheld) hbetween
  obtain ⟨w₂, rules₂, hw₂, hbetween₂, heval'⟩ := hq (.run c' (htq.mono hw₁)) (hheld.mono hw₁) hbetween₁
  exact ⟨w₂, rules₂, le_trans hw₁ hw₂, hbetween₂, .zip_next heval heval'⟩

theorem follows_zip_stopped (hp : Follows (q.holds ++ held) store store' (.run p c) result) (pass : Passes result outcome) :
    Follows held store store' (.run (.zipWith f p q) c) outcome := by
  refine follows_run ?_
  intro w held' rules' r ht hheld hbetween
  obtain ⟨p', q', rfl, htp, htq⟩ := ht.of_zipWith
  obtain ⟨w₁, rules₁, hw₁, hbetween₁, heval⟩ := hp (.run c htp) (htq.holding.append hheld) hbetween
  exact ⟨w₁, rules₁, hw₁, hbetween₁, .zip_stopped heval pass⟩

end Sequence

section Choice

variable {p q : Parser τ π ρ α}

theorem follows_else_first (hp : Follows (q.holds ++ held) store store' (.run p c) result) (firm : Firm result) :
    Follows held store store' (.run (.orElse p q) c) result := by
  refine follows_run ?_
  intro w held' rules' r ht hheld hbetween
  obtain ⟨p', q', rfl, htp, htq⟩ := ht.of_orElse
  obtain ⟨w₁, rules₁, hw₁, hbetween₁, heval⟩ := hp (.run c htp) (htq.holding.append hheld) hbetween
  exact ⟨w₁, rules₁, hw₁, hbetween₁, .else_first heval firm⟩

theorem follows_else_second {fault : Fault τ π} (hp : Follows (q.holds ++ held) store mid (.run p c) (.ok (.failure fault)))
    (hq : Follows held mid store' (.run q c) result) : Follows held store store' (.run (.orElse p q) c) result := by
  refine follows_run ?_
  intro w held' rules' r ht hheld hbetween
  obtain ⟨p', q', rfl, htp, htq⟩ := ht.of_orElse
  obtain ⟨w₁, rules₁, hw₁, hbetween₁, heval⟩ := hp (.run c htp) (htq.holding.append hheld) hbetween
  obtain ⟨w₂, rules₂, hw₂, hbetween₂, heval'⟩ := hq (.run c (htq.mono hw₁)) (hheld.mono hw₁) hbetween₁
  exact ⟨w₂, rules₂, le_trans hw₁ hw₂, hbetween₂, .else_second heval heval'⟩

end Choice

section Entries

variable {number : Nat} {p : Parser τ π ρ ρ} {rules : Rules τ π ρ} {outcome : Outcome τ π ρ}

/-- Whatever stands for a rule that is opened ends as the definition of the rule does. -/
theorem followed_of_opens {w : Pairing τ π ρ} {held' : List Nat} {rules' : Rules τ π ρ} {p' q : Parser τ π ρ ρ}
    (hf : store.rules.force number = some (p, rules))
    (h : Follows held { store with rules := rules } store' (.run p c) outcome) (hheld : w.Holding held held')
    (hbetween : w.Between store.rules rules') (ho : w.opens number p') (ht : Parser.Twin w.settled true p' q) :
    Followed w store store' outcome held' rules' (.run q c) := by
  rw [Rules.force_of_defined (hbetween.opens ho)] at hf
  cases hf
  exact h (.run c (ht.mono Pairing.settled_le)) hheld hbetween

theorem follows_rule (hf : store.rules.force number = some (p, rules))
    (h : Follows held { store with rules := rules } store' (.run p c) outcome) :
    Follows held store store' (.run (.rule number) c) outcome := by
  refine follows_run ?_
  intro w held' rules' q ht hheld hbetween
  rcases ht.of_rule with ⟨b, rfl, hab⟩ | ⟨p', ho, ht⟩
  · cases hbetween.enters hab with
    | none hnone => rw [hnone] at hf; cases hf
    | some hleft hright hw₁ hbetween₁ hp =>
      rw [hleft] at hf
      cases hf
      obtain ⟨w₂, rules₂, hw₂, hbetween₂, heval⟩ := h (.run c hp) (hheld.mono hw₁) hbetween₁
      exact ⟨w₂, rules₂, le_trans hw₁ hw₂, hbetween₂, .rule hright heval⟩
  · exact followed_of_opens hf h hheld hbetween ho ht

theorem follows_unbound (hf : store.rules.force number = none) :
    Follows held store store (.run (.rule number) c) (.ok (.abort (.ofMessage Machine.unboundMessage c))) := by
  refine follows_run ?_
  intro w held' rules' q ht hheld hbetween
  rcases ht.of_rule with ⟨b, rfl, hab⟩ | ⟨p', ho, ht⟩
  · cases hbetween.enters hab with
    | none _ hright => exact ⟨w, rules', le_refl w, hbetween, .unbound hright⟩
    | some hleft => rw [hleft] at hf; cases hf
  · rw [Rules.force_of_defined (hbetween.opens ho)] at hf
    cases hf

theorem follows_handle (hl : Liveness.counted store.rules held number = true)
    (hf : store.rules.force number = some (p, rules))
    (h : Follows held { store with rules := rules } store' (.run p c) outcome) :
    Follows held store store' (.run (.handle number) c) outcome := by
  refine follows_run ?_
  intro w held' rules' q ht hheld hbetween
  rcases ht.of_handle with ⟨b, rfl, hab⟩ | ⟨p', ho, ht⟩
  · cases hbetween.enters hab with
    | none hnone => rw [hnone] at hf; cases hf
    | some hleft hright hw₁ hbetween₁ hp =>
      rw [hleft] at hf
      cases hf
      obtain ⟨w₂, rules₂, hw₂, hbetween₂, heval⟩ := h (.run c hp) (hheld.mono hw₁) hbetween₁
      rw [hbetween.counted_eq hheld hab] at hl
      exact ⟨w₂, rules₂, le_trans hw₁ hw₂, hbetween₂, .handle hl hright heval⟩
  · exact followed_of_opens hf h hheld hbetween ho ht

theorem follows_dangling (h : Liveness.counted store.rules held number = false ∨ store.rules.force number = none) :
    Follows held store { store with log := store.log.push (.dangling (Position.place τ c.position)) }
      (.run (.handle number) c) (.ok (.abort (.ofMessage danglingMessage c))) := by
  refine follows_run ?_
  intro w held' rules' q ht hheld hbetween
  rcases ht.of_handle with ⟨b, rfl, hab⟩ | ⟨p', ho, ht⟩
  · refine ⟨w, rules', le_refl w, hbetween, .dangling ?_⟩
    rw [← hbetween.counted_eq hheld hab]
    refine h.imp_right fun hf => ?_
    cases hbetween.enters hab with
    | none _ hright => exact hright
    | some hleft => rw [hleft] at hf; cases hf
  · have hopened := hbetween.opens ho
    simp [Liveness.counted, Rules.isRetained_of_getElem? hopened, Rules.force_of_defined hopened] at h

theorem follows_draft {parser : Nat → Parser τ π ρ α} {new : Nat → List (Rule τ π ρ)}
    (h : Follows held { store with rules := store.rules.append (new store.rules.entries.size) false } store'
      (.run (parser store.rules.entries.size) c) result) : Follows held store store' (.run (.draft parser new) c) result := by
  refine follows_run ?_
  intro w held' rules' q ht hheld hbetween
  obtain ⟨parser', new', rfl, hbuilds⟩ := ht.of_draft
  obtain ⟨w₁, hw₁, hbetween₁, hp⟩ := hbetween.append hbuilds
  obtain ⟨w₂, rules₂, hw₂, hbetween₂, heval⟩ := h (.run c hp) (hheld.mono hw₁) hbetween₁
  exact ⟨w₂, rules₂, le_trans hw₁ hw₂, hbetween₂, .draft heval⟩

end Entries

section Loops

variable {loop : Loop τ π ρ α β} {acc : β} {count : Nat} {c' : Cursor τ π} {value : α} {outcome : Outcome τ π β}

theorem follows_loop_seeded {seed : Parser τ π ρ β} {item : Parser τ π ρ α} {step : β → α → β} {bounds : Bounds}
    (hs : Follows (Loop.holds ⟨seed, item, step, bounds⟩ ++ held) store mid (.run seed c) (.ok (.success acc c')))
    (hr : Follows held mid store' (.rounds ⟨seed, item, step, bounds⟩ acc 0 c') outcome) :
    Follows held store store' (.run (.loop seed item step bounds) c) outcome := by
  refine follows_run ?_
  intro w held' rules' q ht hheld hbetween
  obtain ⟨seed', item', rfl, hts, hti⟩ := ht.of_loop
  obtain ⟨w₁, rules₁, hw₁, hbetween₁, heval⟩ :=
    hs (.run c hts) ((hts.holding.append hti.holding).append hheld) hbetween
  obtain ⟨w₂, rules₂, hw₂, hbetween₂, heval'⟩ :=
    hr (.rounds step bounds acc 0 c' (hts.mono hw₁) (hti.mono hw₁)) (hheld.mono hw₁) hbetween₁
  exact ⟨w₂, rules₂, le_trans hw₁ hw₂, hbetween₂, .loop_seeded heval heval'⟩

theorem follows_loop_stopped {seed : Parser τ π ρ β} {item : Parser τ π ρ α} {step : β → α → β} {bounds : Bounds}
    {first : Outcome τ π β}
    (hs : Follows (Loop.holds ⟨seed, item, step, bounds⟩ ++ held) store store' (.run seed c) first)
    (pass : Passes first outcome) : Follows held store store' (.run (.loop seed item step bounds) c) outcome := by
  refine follows_run ?_
  intro w held' rules' q ht hheld hbetween
  obtain ⟨seed', item', rfl, hts, hti⟩ := ht.of_loop
  obtain ⟨w₁, rules₁, hw₁, hbetween₁, heval⟩ :=
    hs (.run c hts) ((hts.holding.append hti.holding).append hheld) hbetween
  exact ⟨w₁, rules₁, hw₁, hbetween₁, .loop_stopped heval pass⟩

theorem follows_rounds_reached (hr : loop.bounds.reached count = true) :
    Follows held store store (.rounds loop acc count c) (.ok (.success acc c)) := by
  intro w held' rules' job' hjob hheld hbetween
  cases hjob with
  | rounds => exact ⟨w, rules', le_refl w, hbetween, .rounds_reached hr⟩

theorem follows_rounds_stalled (hr : loop.bounds.reached count = false)
    (hi : Follows (loop.holds ++ held) store store' (.run loop.item c) (.ok (.success value c')))
    (hs : (c'.same c && loop.bounds.stallsAt (count + 1)) = true) :
    Follows held store { store' with log := store'.log.push (.stalled (Position.place τ c'.position)) }
      (.rounds loop acc count c) (.ok (.success (loop.step acc value) c')) := by
  intro w held' rules' job' hjob hheld hbetween
  cases hjob with
  | @rounds _ _ seed seed' item item' step bounds _ _ _ hts hti =>
    obtain ⟨w₁, rules₁, hw₁, hbetween₁, heval⟩ :=
      hi (.run c hti) ((hts.holding.append hti.holding).append hheld) hbetween
    have hround : Evaluates .counted held' { store with rules := rules' }
        (.rounds ⟨seed', item', step, bounds⟩ acc count c) _ _ := .rounds_stalled hr heval hs
    exact ⟨w₁, rules₁, hw₁, hbetween₁, hround⟩

theorem follows_rounds_next (hr : loop.bounds.reached count = false)
    (hi : Follows (loop.holds ++ held) store mid (.run loop.item c) (.ok (.success value c')))
    (hs : (c'.same c && loop.bounds.stallsAt (count + 1)) = false)
    (hn : Follows held mid store' (.rounds loop (loop.step acc value) (count + 1) c') outcome) :
    Follows held store store' (.rounds loop acc count c) outcome := by
  intro w held' rules' job' hjob hheld hbetween
  cases hjob with
  | rounds step bounds _ _ _ hts hti =>
    obtain ⟨w₁, rules₁, hw₁, hbetween₁, heval⟩ :=
      hi (.run c hti) ((hts.holding.append hti.holding).append hheld) hbetween
    obtain ⟨w₂, rules₂, hw₂, hbetween₂, heval'⟩ :=
      hn (.rounds step bounds _ _ c' (hts.mono hw₁) (hti.mono hw₁)) (hheld.mono hw₁) hbetween₁
    exact ⟨w₂, rules₂, le_trans hw₁ hw₂, hbetween₂, .rounds_next hr heval hs heval'⟩

theorem follows_rounds_failed {fault : Fault τ π} (hr : loop.bounds.reached count = false)
    (hi : Follows (loop.holds ++ held) store store' (.run loop.item c) (.ok (.failure fault))) :
    Follows held store store' (.rounds loop acc count c)
      (.ok (if count < loop.bounds.min then .failure fault else .success acc c)) := by
  intro w held' rules' job' hjob hheld hbetween
  cases hjob with
  | rounds step bounds _ _ _ hts hti =>
    obtain ⟨w₁, rules₁, hw₁, hbetween₁, heval⟩ :=
      hi (.run c hti) ((hts.holding.append hti.holding).append hheld) hbetween
    exact ⟨w₁, rules₁, hw₁, hbetween₁, .rounds_failed hr heval⟩

theorem follows_rounds_stopped {first : Outcome τ π α} (hr : loop.bounds.reached count = false)
    (hi : Follows (loop.holds ++ held) store store' (.run loop.item c) first) (firm : Firm first)
    (pass : Passes first outcome) : Follows held store store' (.rounds loop acc count c) outcome := by
  intro w held' rules' job' hjob hheld hbetween
  cases hjob with
  | rounds step bounds _ _ _ hts hti =>
    obtain ⟨w₁, rules₁, hw₁, hbetween₁, heval⟩ :=
      hi (.run c hti) ((hts.holding.append hti.holding).append hheld) hbetween
    exact ⟨w₁, rules₁, hw₁, hbetween₁, .rounds_stopped hr heval firm pass⟩

end Loops

section LoopsTill

variable {loop : LoopTill τ π ρ α β γ} {acc : β} {count : Nat} {c' : Cursor τ π} {value : α} {outcome : Outcome τ π β}
variable {fault : Fault τ π}

omit [Position π τ] in
theorem holding_till {w : Pairing τ π ρ} {held' : List Nat} {seed seed' : Parser τ π ρ β} {item item' : Parser τ π ρ α}
    {stop stop' : Parser τ π ρ γ} {step : β → α → β} {bounds : Bounds} (hs : Parser.Twin w true seed seed')
    (hi : Parser.Twin w true item item') (ht : Parser.Twin w true stop stop') (hheld : w.Holding held held') :
    w.Holding (LoopTill.holds ⟨⟨seed, item, step, bounds⟩, stop⟩ ++ held)
      (LoopTill.holds ⟨⟨seed', item', step, bounds⟩, stop'⟩ ++ held') :=
  ((hs.holding.append hi.holding).append ht.holding).append hheld

theorem follows_till_seeded {seed : Parser τ π ρ β} {item : Parser τ π ρ α} {stop : Parser τ π ρ γ} {step : β → α → β}
    {bounds : Bounds} (hs : Follows (LoopTill.holds ⟨⟨seed, item, step, bounds⟩, stop⟩ ++ held) store mid (.run seed c)
      (.ok (.success acc c')))
    (hr : Follows held mid store' (.roundsTill ⟨⟨seed, item, step, bounds⟩, stop⟩ acc 0 c') outcome) :
    Follows held store store' (.run (.loopTill seed item stop step bounds) c) outcome := by
  refine follows_run ?_
  intro w held' rules' q ht hheld hbetween
  obtain ⟨seed', item', stop', rfl, hts, hti, htt⟩ := ht.of_loopTill
  obtain ⟨w₁, rules₁, hw₁, hbetween₁, heval⟩ := hs (.run c hts) (holding_till hts hti htt hheld) hbetween
  obtain ⟨w₂, rules₂, hw₂, hbetween₂, heval'⟩ :=
    hr (.roundsTill step bounds acc 0 c' (hts.mono hw₁) (hti.mono hw₁) (htt.mono hw₁)) (hheld.mono hw₁) hbetween₁
  exact ⟨w₂, rules₂, le_trans hw₁ hw₂, hbetween₂, .till_seeded heval heval'⟩

theorem follows_till_stopped {seed : Parser τ π ρ β} {item : Parser τ π ρ α} {stop : Parser τ π ρ γ} {step : β → α → β}
    {bounds : Bounds} {first : Outcome τ π β}
    (hs : Follows (LoopTill.holds ⟨⟨seed, item, step, bounds⟩, stop⟩ ++ held) store store' (.run seed c) first)
    (pass : Passes first outcome) :
    Follows held store store' (.run (.loopTill seed item stop step bounds) c) outcome := by
  refine follows_run ?_
  intro w held' rules' q ht hheld hbetween
  obtain ⟨seed', item', stop', rfl, hts, hti, htt⟩ := ht.of_loopTill
  obtain ⟨w₁, rules₁, hw₁, hbetween₁, heval⟩ := hs (.run c hts) (holding_till hts hti htt hheld) hbetween
  exact ⟨w₁, rules₁, hw₁, hbetween₁, .till_stopped heval pass⟩

theorem follows_till_reached (hr : loop.bounds.reached count = true) :
    Follows held store store (.roundsTill loop acc count c) (.ok (.success acc c)) := by
  intro w held' rules' job' hjob hheld hbetween
  cases hjob with
  | roundsTill => exact ⟨w, rules', le_refl w, hbetween, .till_reached hr⟩

theorem follows_till_ended {ending : γ} (hr : loop.bounds.reached count = false)
    (hs : Follows (loop.holds ++ held) store store' (.run loop.stop c) (.ok (.success ending c'))) :
    Follows held store store' (.roundsTill loop acc count c) (.ok (.success acc c')) := by
  intro w held' rules' job' hjob hheld hbetween
  cases hjob with
  | roundsTill step bounds _ _ _ hts hti htt =>
    obtain ⟨w₁, rules₁, hw₁, hbetween₁, heval⟩ := hs (.run c htt) (holding_till hts hti htt hheld) hbetween
    exact ⟨w₁, rules₁, hw₁, hbetween₁, .till_ended hr heval⟩

theorem follows_till_barred {first : Outcome τ π γ} (hr : loop.bounds.reached count = false)
    (hs : Follows (loop.holds ++ held) store store' (.run loop.stop c) first) (firm : Firm first)
    (pass : Passes first outcome) : Follows held store store' (.roundsTill loop acc count c) outcome := by
  intro w held' rules' job' hjob hheld hbetween
  cases hjob with
  | roundsTill step bounds _ _ _ hts hti htt =>
    obtain ⟨w₁, rules₁, hw₁, hbetween₁, heval⟩ := hs (.run c htt) (holding_till hts hti htt hheld) hbetween
    exact ⟨w₁, rules₁, hw₁, hbetween₁, .till_barred hr heval firm pass⟩

/-- Once the end has not matched, the item is followed from the larger pairing. -/
theorem followed_item {w : Pairing τ π ρ} {held' : List Nat} {rules' : Rules τ π ρ} {seed seed' : Parser τ π ρ β}
    {item item' : Parser τ π ρ α} {stop stop' : Parser τ π ρ γ} {step : β → α → β} {bounds : Bounds}
    {first : Outcome τ π α} (hts : Parser.Twin w true seed seed') (hti : Parser.Twin w true item item')
    (htt : Parser.Twin w true stop stop') (hheld : w.Holding held held') (hbetween : w.Between store.rules rules')
    (hs : Follows (LoopTill.holds ⟨⟨seed, item, step, bounds⟩, stop⟩ ++ held) store mid (.run stop c)
      (.ok (.failure fault)))
    (hi : Follows (LoopTill.holds ⟨⟨seed, item, step, bounds⟩, stop⟩ ++ held) mid store' (.run item c) first) :
    ∃ w₁ rules₁ rules₂, w ≤ w₁ ∧ w₁.Between store'.rules rules₂ ∧
      Evaluates .counted (LoopTill.holds ⟨⟨seed', item', step, bounds⟩, stop'⟩ ++ held') { store with rules := rules' }
        (.run stop' c) { mid with rules := rules₁ } (.ok (.failure fault)) ∧
      Evaluates .counted (LoopTill.holds ⟨⟨seed', item', step, bounds⟩, stop'⟩ ++ held') { mid with rules := rules₁ }
        (.run item' c) { store' with rules := rules₂ } first := by
  have hall : w.Holding (LoopTill.holds ⟨⟨seed, item, step, bounds⟩, stop⟩ ++ held) _ :=
    holding_till hts hti htt hheld
  obtain ⟨w₁, rules₁, hw₁, hbetween₁, heval⟩ := hs (.run c htt) hall hbetween
  obtain ⟨w₂, rules₂, hw₂, hbetween₂, heval'⟩ := hi (.run c (hti.mono hw₁)) (hall.mono hw₁) hbetween₁
  exact ⟨w₂, rules₁, rules₂, le_trans hw₁ hw₂, hbetween₂, heval, heval'⟩

theorem follows_till_stalled (hr : loop.bounds.reached count = false)
    (hs : Follows (loop.holds ++ held) store mid (.run loop.stop c) (.ok (.failure fault)))
    (hi : Follows (loop.holds ++ held) mid store' (.run loop.item c) (.ok (.success value c')))
    (hstalled : (c'.same c && loop.bounds.stallsAt (count + 1)) = true) :
    Follows held store store' (.roundsTill loop acc count c) (.ok (.failure (.ofMessage Machine.stalledMessage c'))) := by
  intro w held' rules' job' hjob hheld hbetween
  cases hjob with
  | roundsTill step bounds _ _ _ hts hti htt =>
    obtain ⟨w₂, rules₁, rules₂, hw₂, hbetween₂, heval, heval'⟩ := followed_item hts hti htt hheld hbetween hs hi
    exact ⟨w₂, rules₂, hw₂, hbetween₂, .till_stalled hr heval heval' hstalled⟩

theorem follows_till_next {mid' : Store σ τ π ρ} (hr : loop.bounds.reached count = false)
    (hs : Follows (loop.holds ++ held) store mid (.run loop.stop c) (.ok (.failure fault)))
    (hi : Follows (loop.holds ++ held) mid mid' (.run loop.item c) (.ok (.success value c')))
    (hmoving : (c'.same c && loop.bounds.stallsAt (count + 1)) = false)
    (hn : Follows held mid' store' (.roundsTill loop (loop.step acc value) (count + 1) c') outcome) :
    Follows held store store' (.roundsTill loop acc count c) outcome := by
  intro w held' rules' job' hjob hheld hbetween
  cases hjob with
  | roundsTill step bounds _ _ _ hts hti htt =>
    obtain ⟨w₂, rules₁, rules₂, hw₂, hbetween₂, heval, heval'⟩ := followed_item hts hti htt hheld hbetween hs hi
    obtain ⟨w₃, rules₃, hw₃, hbetween₃, heval''⟩ :=
      hn (.roundsTill step bounds _ _ c' (hts.mono hw₂) (hti.mono hw₂) (htt.mono hw₂)) (hheld.mono hw₂) hbetween₂
    exact ⟨w₃, rules₃, le_trans hw₂ hw₃, hbetween₃, .till_next hr heval heval' hmoving heval''⟩

theorem follows_till_lacking {first : Outcome τ π α} (hr : loop.bounds.reached count = false)
    (hs : Follows (loop.holds ++ held) store mid (.run loop.stop c) (.ok (.failure fault)))
    (hi : Follows (loop.holds ++ held) mid store' (.run loop.item c) first) (pass : Passes first outcome) :
    Follows held store store' (.roundsTill loop acc count c) outcome := by
  intro w held' rules' job' hjob hheld hbetween
  cases hjob with
  | roundsTill step bounds _ _ _ hts hti htt =>
    obtain ⟨w₂, rules₁, rules₂, hw₂, hbetween₂, heval, heval'⟩ := followed_item hts hti htt hheld hbetween hs hi
    exact ⟨w₂, rules₂, hw₂, hbetween₂, .till_lacking hr heval heval' pass⟩

end LoopsTill

end Steps

theorem Store.access_rules {fuel : Nat} {store store' : Store σ τ π ρ} {c : Cursor τ π}
    {result : Except ReadError (Cursor τ π)} (h : store.access (·.advance fuel c) = some (store', result))
    (rules' : Rules τ π ρ) :
    Store.access { store with rules := rules' } (·.advance fuel c) = some ({ store' with rules := rules' }, result) := by
  simp only [Store.access, Option.map_eq_some_iff] at h ⊢
  obtain ⟨access, ha, h⟩ := h
  cases h
  exact ⟨access, ha, rfl⟩

/-- Every evaluation is followed by the twins of its job. -/
theorem Evaluates.follows {held : List Nat} {store store' : Store σ τ π ρ} {job : Job τ π ρ α} {result : Outcome τ π α}
    (h : Evaluates .counted held store job store' result) : Follows held store store' job result := by
  induction h with
  | pure => exact follows_leaf (by trivial) rfl .pure
  | peek => exact follows_leaf (by trivial) rfl .peek
  | refused hc => exact follows_leaf (by trivial) rfl (.refused hc)
  | taken hc ha =>
    exact follows_leaf (by trivial) (Store.rules_of_access ha) fun {_ rules'} => .taken hc (Store.access_rules ha rules')
  | unread hc ha =>
    exact follows_leaf (by trivial) (Store.rules_of_access ha) fun {_ rules'} => .unread hc (Store.access_rules ha rules')
  | endOfInput => exact follows_leaf (by trivial) rfl .endOfInput
  | fail => exact follows_leaf (by trivial) rfl .fail
  | abort => exact follows_leaf (by trivial) rfl .abort
  | tryMap _ ih => exact follows_tryMap ih
  | bind_next _ hc _ ihp ihn => exact follows_bind_next ihp hc ihn
  | bind_refused _ hc ih => exact follows_bind_refused ih hc
  | bind_stopped _ pass ih => exact follows_bind_stopped ih pass
  | zip_next _ _ ihp ihq => exact follows_zip_next ihp ihq
  | zip_stopped _ pass ih => exact follows_zip_stopped ih pass
  | else_first _ firm ih => exact follows_else_first ih firm
  | else_second _ _ ihp ihq => exact follows_else_second ihp ihq
  | reshape _ ih => exact follows_reshape ih
  | loop_seeded _ _ ihs ihr => exact follows_loop_seeded ihs ihr
  | loop_stopped _ pass ih => exact follows_loop_stopped ih pass
  | till_seeded _ _ ihs ihr => exact follows_till_seeded ihs ihr
  | till_stopped _ pass ih => exact follows_till_stopped ih pass
  | rule hf _ ih => exact follows_rule hf ih
  | unbound hf => exact follows_unbound hf
  | handle hl hf _ ih => exact follows_handle hl hf ih
  | dangling h => exact follows_dangling h
  | draft _ ih => exact follows_draft ih
  | rounds_reached hr => exact follows_rounds_reached hr
  | rounds_stalled hr _ hs ih => exact follows_rounds_stalled hr ih hs
  | rounds_next hr _ hs _ ihi ihr => exact follows_rounds_next hr ihi hs ihr
  | rounds_failed hr _ ih => exact follows_rounds_failed hr ih
  | rounds_stopped hr _ firm pass ih => exact follows_rounds_stopped hr ih firm pass
  | till_reached hr => exact follows_till_reached hr
  | till_ended hr _ ih => exact follows_till_ended hr ih
  | till_barred hr _ firm pass ih => exact follows_till_barred hr ih firm pass
  | till_stalled hr _ _ hs ihs ihi => exact follows_till_stalled hr ihs ihi hs
  | till_next hr _ _ hs _ ihs ihi ihr => exact follows_till_next hr ihs ihi hs ihr
  | till_lacking hr _ _ pass ihs ihi => exact follows_till_lacking hr ihs ihi pass

namespace Parser

variable [LawfulSource σ τ] {r r' : Rules τ π ρ} {p q : Parser τ π ρ α} {w : Pairing τ π ρ}

/-- Run by itself with its table, either parser ends as the other does with its own: what they read and report is the
same, and so is the outcome. -/
def SameRuns (σ : Type u) [Source σ τ] (r r' : Rules τ π ρ) (p q : Parser τ π ρ α) : Prop :=
  ∀ (stream stream' : TokenStream σ τ) (log log' : Array Event) (c : Cursor τ π) (result : Outcome τ π α),
    (∃ fuel later, p.run fuel ⟨stream, r, log⟩ c = some ⟨⟨stream', later, log'⟩, result⟩) ↔
      ∃ fuel later, q.run fuel ⟨stream, r', log⟩ c = some ⟨⟨stream', later, log'⟩, result⟩

theorem Twin.ends (ht : Parser.Twin w true p q) (h : w.Between r r') {stream stream' : TokenStream σ τ}
    {log log' : Array Event} {later : Rules τ π ρ} {c : Cursor τ π} {result : Outcome τ π α}
    (hp : p.ends ⟨stream, r, log⟩ c ⟨stream', later, log'⟩ result) :
    ∃ w' later', w ≤ w' ∧ w'.Between later later' ∧
      q.ends ⟨stream, r', log⟩ c ⟨stream', later', log'⟩ result := by
  obtain ⟨w', later', hw, hbetween, heval⟩ := (ends_iff_counted.mp hp).follows (.run c ht) .nil h
  exact ⟨w', later', hw, hbetween, ends_iff_counted.mpr heval⟩

theorem Twin.sameRuns (ht : Parser.Twin w true p q) (h : w.Between r r') : SameRuns σ r r' p q := by
  intro stream stream' log log' c result
  constructor
  · rintro ⟨fuel, later, hp⟩
    obtain ⟨-, later', -, -, fuel', hq⟩ := ht.ends h ⟨fuel, hp⟩
    exact ⟨fuel', later', hq⟩
  · rintro ⟨fuel, later', hq⟩
    obtain ⟨-, later, -, -, fuel', hp⟩ := ht.swap.ends h.swap ⟨fuel, hq⟩
    exact ⟨fuel', later, hp⟩

end Parser

end StreamParsing
