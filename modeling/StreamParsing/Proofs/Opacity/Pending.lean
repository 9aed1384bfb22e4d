import StreamParsing.Proofs.Opacity.Likeness

/-!
Likeness of everything a run carries along: pending work, controls and tables of rules. A reply that meets pending
work, and a rule that is entered, keep it.
-/

namespace StreamParsing

set_option autoImplicit false

universe u v

variable {τ π ρ α β γ ω : Type} {V W : Matching τ π} {P : Likeness τ π ρ}

structure Loop.Like (P : Likeness τ π ρ) (V : Matching τ π) (Q : Likeness τ π α) (R : Likeness τ π β)
    (l l' : Loop τ π ρ α β) : Prop where
  seed : l.seed.Like P V R l'.seed
  item : l.item.Like P V Q l'.item
  step : AlikeJoins V R Q R l.step l'.step
  bounds : l.bounds = l'.bounds

structure LoopTill.Like (P : Likeness τ π ρ) (V : Matching τ π) (Q : Likeness τ π α) (R : Likeness τ π β)
    (S : Likeness τ π γ) (l l' : LoopTill τ π ρ α β γ) : Prop where
  loop : l.toLoop.Like P V Q R l'.toLoop
  stop : l.stop.Like P V S l'.stop

structure Round.Like (V : Matching τ π) (R : Likeness τ π β) (r r' : Round τ π β) : Prop where
  acc : R.rel V r.acc r'.acc
  count : r.count = r'.count
  before : V.rel r.before r'.before

inductive Frame.Like (P : Likeness τ π ρ) (V : Matching τ π) :
    {α β : Type} → Likeness τ π α → Likeness τ π β → Frame τ π ρ α β → Frame τ π ρ α β → Prop where
  | tryMap {α β : Type} {Q : Likeness τ π α} {R : Likeness τ π β} {f f' : α → Except Cause β} {c c' : Cursor τ π} :
      AlikeChecks V Q R f f' → V.rel c c' → Frame.Like P V Q R (.tryMap f c) (.tryMap f' c')
  | tryBind {α β γ : Type} {Q : Likeness τ π α} {S : Likeness τ π β} {R : Likeness τ π γ}
      {check check' : α → Except Cause β} {next next' : β → Parser τ π ρ γ} {c c' : Cursor τ π} :
      AlikeChecks V Q S check check' →
      (∀ W, V ≤ W → ∀ b b', S.rel W b b' → (next b).Like P W R (next' b')) → V.rel c c' →
      Frame.Like P V Q R (.tryBind check next c) (.tryBind check' next' c')
  | zipLeft {α β γ : Type} {Q : Likeness τ π α} {S : Likeness τ π β} {R : Likeness τ π γ} {f f' : α → β → γ}
      {q q' : Parser τ π ρ β} : AlikeJoins V Q S R f f' → q.Like P V S q' →
      Frame.Like P V Q R (.zipLeft f q) (.zipLeft f' q')
  | zipRight {α β γ : Type} {Q : Likeness τ π α} {S : Likeness τ π β} {R : Likeness τ π γ} {f f' : α → β → γ}
      {a a' : α} : AlikeJoins V Q S R f f' → Q.rel V a a' →
      Frame.Like P V S R (.zipRight f a) (.zipRight f' a')
  | orElse {α : Type} {R : Likeness τ π α} {q q' : Parser τ π ρ α} {c c' : Cursor τ π} :
      q.Like P V R q' → V.rel c c' → Frame.Like P V R R (.orElse q c) (.orElse q' c')
  | reshape {α β : Type} {Q : Likeness τ π α} {R : Likeness τ π β} {hook hook' : Hook τ π α β} {c c' : Cursor τ π} :
      Hook.Like V Q R hook hook' → V.rel c c' → Frame.Like P V Q R (.reshape hook c) (.reshape hook' c')
  | seed {α β : Type} {Q : Likeness τ π α} {R : Likeness τ π β} {l l' : Loop τ π ρ α β} :
      l.Like P V Q R l' → Frame.Like P V R R (.seed l) (.seed l')
  | item {α β : Type} {Q : Likeness τ π α} {R : Likeness τ π β} {l l' : Loop τ π ρ α β} {r r' : Round τ π β} :
      l.Like P V Q R l' → r.Like V R r' → Frame.Like P V Q R (.item l r) (.item l' r')
  | seedTill {α β γ : Type} {Q : Likeness τ π α} {R : Likeness τ π β} {S : Likeness τ π γ}
      {l l' : LoopTill τ π ρ α β γ} : l.Like P V Q R S l' → Frame.Like P V R R (.seedTill l) (.seedTill l')
  | stopTill {α β γ : Type} {Q : Likeness τ π α} {R : Likeness τ π β} {S : Likeness τ π γ}
      {l l' : LoopTill τ π ρ α β γ} {r r' : Round τ π β} : l.Like P V Q R S l' → r.Like V R r' →
      Frame.Like P V S R (.stopTill l r) (.stopTill l' r')
  | itemTill {α β γ : Type} {Q : Likeness τ π α} {R : Likeness τ π β} {S : Likeness τ π γ}
      {l l' : LoopTill τ π ρ α β γ} {r r' : Round τ π β} : l.Like P V Q R S l' → r.Like V R r' →
      Frame.Like P V Q R (.itemTill l r) (.itemTill l' r')

inductive Stack.Like (P : Likeness τ π ρ) (V : Matching τ π) :
    {α ω : Type} → Likeness τ π α → Likeness τ π ω → Stack τ π ρ α ω → Stack τ π ρ α ω → Prop where
  | nil {ω : Type} {O : Likeness τ π ω} : Stack.Like P V O O .nil .nil
  | cons {α β ω : Type} {Q : Likeness τ π α} {R : Likeness τ π β} {O : Likeness τ π ω} {f f' : Frame τ π ρ α β}
      {k k' : Stack τ π ρ β ω} : f.Like P V Q R f' → Stack.Like P V R O k k' →
      Stack.Like P V Q O (.cons f k) (.cons f' k')

inductive Machine.Control.Like (P : Likeness τ π ρ) (V : Matching τ π) (O : Likeness τ π ω) :
    Control τ π ρ ω → Control τ π ρ ω → Prop where
  | eval {α : Type} {R : Likeness τ π α} {p p' : Parser τ π ρ α} {c c' : Cursor τ π} {k k' : Stack τ π ρ α ω} :
      p.Like P V R p' → V.rel c c' → k.Like P V R O k' → Control.Like P V O (.eval p c k) (.eval p' c' k')
  | back {α : Type} {R : Likeness τ π α} {r r' : Reply τ π α} {k k' : Stack τ π ρ α ω} :
      r.Like V R r' → k.Like P V R O k' → Control.Like P V O (.back r k) (.back r' k')

/-- Tables with the same rules, as far as parsers can tell, under the same numbers. -/
structure Rules.Like (P : Likeness τ π ρ) (V : Matching τ π) (t t' : Rules τ π ρ) : Prop where
  size : t.entries.size = t'.entries.size
  entry : ∀ {i : Nat} {e e' : RuleEntry τ π ρ}, t.entries[i]? = some e → t'.entries[i]? = some e' →
    e.retained = e'.retained ∧ e.rule.Like P V e'.rule

section

variable {Q : Likeness τ π α} {R : Likeness τ π β} {S : Likeness τ π γ} {O : Likeness τ π ω}

theorem Loop.Like.mono {l l' : Loop τ π ρ α β} (h : l.Like P V Q R l') (hVW : V ≤ W) : l.Like P W Q R l' :=
  ⟨Parser.Like.mono _ h.seed hVW, Parser.Like.mono _ h.item hVW, h.step.mono hVW, h.bounds⟩

theorem LoopTill.Like.mono {l l' : LoopTill τ π ρ α β γ} (h : l.Like P V Q R S l') (hVW : V ≤ W) :
    l.Like P W Q R S l' := ⟨h.loop.mono hVW, Parser.Like.mono _ h.stop hVW⟩

theorem Round.Like.mono {r r' : Round τ π β} (h : r.Like V R r') (hVW : V ≤ W) : r.Like W R r' :=
  ⟨R.mono hVW h.acc, h.count, hVW _ _ h.before⟩

theorem Frame.Like.mono {f f' : Frame τ π ρ α β} (h : f.Like P V Q R f') (hVW : V ≤ W) : f.Like P W Q R f' := by
  cases h with
  | tryMap hf hc => exact .tryMap (hf.mono hVW) (hVW _ _ hc)
  | tryBind hf hn hc => exact .tryBind (hf.mono hVW) (fun X hX => hn X (le_trans hVW hX)) (hVW _ _ hc)
  | zipLeft hf hq => exact .zipLeft (hf.mono hVW) (Parser.Like.mono _ hq hVW)
  | @zipRight _ _ _ Q _ _ _ _ _ _ hf ha => exact .zipRight (hf.mono hVW) (Q.mono hVW ha)
  | orElse hq hc => exact .orElse (Parser.Like.mono _ hq hVW) (hVW _ _ hc)
  | reshape hh hc => exact .reshape (hh.mono hVW) (hVW _ _ hc)
  | seed hl => exact .seed (hl.mono hVW)
  | item hl hr => exact .item (hl.mono hVW) (hr.mono hVW)
  | seedTill hl => exact .seedTill (hl.mono hVW)
  | stopTill hl hr => exact .stopTill (hl.mono hVW) (hr.mono hVW)
  | itemTill hl hr => exact .itemTill (hl.mono hVW) (hr.mono hVW)

theorem Stack.Like.mono {k k' : Stack τ π ρ α ω} (h : k.Like P V Q O k') (hVW : V ≤ W) : k.Like P W Q O k' := by
  induction h with
  | nil => exact .nil
  | cons hf _ ih => exact .cons (hf.mono hVW) ih

theorem Rules.Like.mono {t t' : Rules τ π ρ} (h : t.Like P V t') (hVW : V ≤ W) : t.Like P W t' :=
  ⟨h.size, fun he he' => ⟨(h.entry he he').1, (h.entry he he').2.mono hVW⟩⟩

theorem Loop.Like.holds_eq {l l' : Loop τ π ρ α β} (h : l.Like P V Q R l') : l.holds = l'.holds := by
  simp only [Loop.holds, Parser.Like.holds_eq _ h.seed, Parser.Like.holds_eq _ h.item]

theorem LoopTill.Like.holds_eq {l l' : LoopTill τ π ρ α β γ} (h : l.Like P V Q R S l') : l.holds = l'.holds := by
  simp only [LoopTill.holds, h.loop.holds_eq, Parser.Like.holds_eq _ h.stop]

theorem Frame.Like.holds_eq {f f' : Frame τ π ρ α β} (h : f.Like P V Q R f') : f.holds = f'.holds := by
  cases h with
  | zipLeft hf hq => exact Parser.Like.holds_eq _ hq
  | orElse hq hc => exact Parser.Like.holds_eq _ hq
  | seed hl => exact hl.holds_eq
  | item hl hr => exact hl.holds_eq
  | seedTill hl => exact hl.holds_eq
  | stopTill hl hr => exact hl.holds_eq
  | itemTill hl hr => exact hl.holds_eq
  | _ => rfl

theorem Stack.Like.holds_eq {k k' : Stack τ π ρ α ω} (h : k.Like P V Q O k') : k.holds = k'.holds := by
  induction h with
  | nil => rfl
  | cons hf _ ih => simp only [Stack.holds, hf.holds_eq, ih]

end

namespace Rules.Like

variable {t t' : Rules τ π ρ}

/-- What stands under a number in both tables. -/
theorem lookup (h : t.Like P V t') (i : Nat) :
    (t.entries[i]? = none ∧ t'.entries[i]? = none) ∨
      ∃ e e', t.entries[i]? = some e ∧ t'.entries[i]? = some e' ∧ e.retained = e'.retained ∧
        e.rule.Like P V e'.rule := by
  cases he : t.entries[i]? with
  | none =>
    refine .inl ⟨rfl, ?_⟩
    rw [Array.getElem?_eq_none_iff] at he ⊢
    rw [← h.size]
    exact he
  | some e =>
    have hlt : i < t'.entries.size := by
      rw [← h.size]
      exact (Array.getElem?_eq_some_iff.mp he).1
    have he' := Array.getElem?_eq_getElem hlt
    exact .inr ⟨e, _, rfl, he', h.entry he he'⟩

theorem isRetained_eq (h : t.Like P V t') (i : Nat) : t.isRetained i = t'.isRetained i := by
  unfold isRetained
  rcases h.lookup i with ⟨he, he'⟩ | ⟨e, e', he, he', hret, -⟩
  · simp only [he, he']
  · simp only [he, he', hret]

theorem heldBy_eq (h : t.Like P V t') (i : Nat) : t.heldBy i = t'.heldBy i := by
  unfold heldBy
  rcases h.lookup i with ⟨he, he'⟩ | ⟨⟨rule, retained⟩, ⟨rule', retained'⟩, he, he', -, hrule⟩
  · simp only [he, he']
  · rw [he, he']
    cases hrule with
    | defined hp => exact Parser.Like.holds_eq _ hp
    | delayed | dropped => rfl

theorem reach_eq (h : t.Like P V t') (fuel : Nat) (numbers : List Nat) :
    t.reach fuel numbers = t'.reach fuel numbers := by
  have hheld : t.heldBy = t'.heldBy := funext h.heldBy_eq
  induction fuel generalizing numbers with
  | zero => rfl
  | succ fuel ih => simp only [reach, hheld, ih]

theorem isHeld_eq (h : t.Like P V t') (held : List Nat) (i : Nat) : t.isHeld held i = t'.isHeld held i := by
  simp only [isHeld, h.size, h.reach_eq]

theorem append (h : t.Like P V t') (retained : Bool) {rules rules' : List (Rule τ π ρ)}
    (hlen : rules.length = rules'.length)
    (hrules : ∀ (i : Nat) r r', rules[i]? = some r → rules'[i]? = some r' → r.Like P V r') :
    (t.append rules retained).Like P V (t'.append rules' retained) where
  size := by simp [Rules.append, h.size, hlen]
  entry := by
    intro i e e' he he'
    simp only [Rules.append, Array.getElem?_append, h.size] at he he'
    split at he
    · rename_i hlt
      rw [if_pos hlt] at he'
      exact h.entry he he'
    · rename_i hlt
      rw [if_neg hlt] at he'
      simp only [List.getElem?_toArray, List.getElem?_map, Option.map_eq_some_iff] at he he'
      obtain ⟨r, hr, rfl⟩ := he
      obtain ⟨r', hr', rfl⟩ := he'
      exact ⟨rfl, hrules _ r r' hr hr'⟩

theorem set (h : t.Like P V t') (i builds builds' : Nat) {e e' : RuleEntry τ π ρ} (hret : e.retained = e'.retained)
    (hrule : e.rule.Like P V e'.rule) :
    Rules.Like P V ⟨t.entries.setIfInBounds i e, builds⟩ ⟨t'.entries.setIfInBounds i e', builds'⟩ where
  size := by simp [h.size]
  entry := by
    intro j d d' hd hd'
    simp only [Array.getElem?_setIfInBounds, h.size] at hd hd'
    split at hd
    · rename_i hij
      rw [if_pos hij] at hd'
      split at hd
      · rename_i hlt
        rw [if_pos hlt] at hd'
        cases hd
        cases hd'
        exact ⟨hret, hrule⟩
      · cases hd
    · rename_i hij
      rw [if_neg hij] at hd'
      exact h.entry hd hd'

/-- A rule is entered in both tables, or in neither. -/
theorem force (h : t.Like P V t') (i : Nat) :
    (t.force i = none ∧ t'.force i = none) ∨
      ∃ p q p' q', t.force i = some (p, q) ∧ t'.force i = some (p', q') ∧ p.Like P V P p' ∧ q.Like P V q' := by
  unfold Rules.force
  rcases h.lookup i with ⟨he, he'⟩ | ⟨⟨rule, retained⟩, ⟨rule', retained'⟩, he, he', hret, hrule⟩
  · exact .inl ⟨by simp only [he], by simp only [he']⟩
  · obtain rfl : retained = retained' := hret
    rw [he, he']
    cases hrule with
    | defined hp => exact .inr ⟨_, _, _, _, rfl, rfl, hp, h⟩
    | @delayed _ parser parser' rules rules' hp hl hr =>
      rw [h.size]
      refine .inr ⟨_, _, _, _, rfl, rfl, hp _, ?_⟩
      refine Rules.Like.append (h.set i _ _ ?_ ?_) retained (hl _) (hr V le_rfl _)
      · rfl
      · exact .defined (hp _)
    | dropped => exact .inl ⟨rfl, rfl⟩

end Rules.Like

end StreamParsing
