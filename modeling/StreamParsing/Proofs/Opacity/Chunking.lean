import StreamParsing.Parser.Repetition
import StreamParsing.Proofs.Opacity.Lockstep
import StreamParsing.Proofs.Stream.ReadOnce

/-!
Chunks and earlier use of a stream do not show. Two streams that carry the same sequence give the same reply to a
parser that does not look into cursors, wherever both can be read; a stream over a source that never fails gives the
reply that the same tokens give when they are all there.
-/

namespace StreamParsing

set_option autoImplicit false

universe u v

variable {σ : Type u} {σ' : Type v} {τ π ρ α : Type} [Source σ τ] [Source σ' τ] [Position π τ]

namespace TokenStream

/-- The cursors have their places, with the same number of tokens before them. -/
structure Level (s : TokenStream σ τ) (s' : TokenStream σ' τ) (c c' : Cursor τ π) : Prop where
  placed : s.Placed c
  placed' : s'.Placed c'
  index : s.indexOf c = s'.indexOf c'

variable {s : TokenStream σ τ} {s' : TokenStream σ' τ} {tokens : List τ} {ending : Option ReadError}
variable {c c' : Cursor τ π}

/-- Streams that carry one sequence match the cursors with the same index. -/
def level (h : s.Carries tokens ending) (h' : s'.Carries tokens ending) : Matching τ π where
  rel := s.Level s'
  position hc := by
    rw [hc.placed.position_of_carries h, hc.placed'.position_of_carries h', hc.index]
  current hc := by
    rw [hc.placed.current_of_carries h, hc.placed'.current_of_carries h', hc.index]
  same hc hd := by
    rw [hc.placed.same_eq h.tidy hd.placed, hc.placed'.same_eq h'.tidy hd.placed', hc.index, hd.index]

structure Joined (tokens : List τ) (ending : Option ReadError) (s : TokenStream σ τ) (s' : TokenStream σ' τ)
    (V : Matching τ π) : Prop where
  carries : s.Carries tokens ending
  carries' : s'.Carries tokens ending
  rel_iff : ∀ c c', V.rel c c' ↔ s.Level s' c c'

theorem joined_level (h : s.Carries tokens ending) (h' : s'.Carries tokens ending) :
    Joined tokens ending s s' (level h h' : Matching τ π) := ⟨h, h', fun _ _ => Iff.rfl⟩

/-- The second stream holds all its tokens. -/
structure JoinedWhole (tokens : List τ) (s : TokenStream σ τ) (s' : TokenStream σ' τ) (V : Matching τ π) : Prop
    extends Joined tokens none s s' V where
  whole : s'.live = false

omit [Source σ τ] [Source σ' τ] in
theorem Level.extend {s₁ : TokenStream σ τ} {s₁' : TokenStream σ' τ} (h : s.Level s' c c')
    (hs : s.layout <+: s₁.layout) (hs' : s'.layout <+: s₁'.layout) : s₁.Level s₁' c c' := by
  refine ⟨h.placed.extend hs, h.placed'.extend hs', ?_⟩
  rw [h.placed.indexOf_extend hs, h.placed'.indexOf_extend hs', h.index]

/-- Cursors with the same index move to cursors with the same index. -/
theorem Level.advance {s₁ : TokenStream σ τ} {s₁' : TokenStream σ' τ} {d d' : Cursor τ π}
    {events events' : Array Event} (h : s.Level s' c c') (hcur : c.current = c'.current)
    (ha : Advancing s c ⟨s₁, .ok d, events⟩) (ha' : Advancing s' c' ⟨s₁', .ok d', events'⟩) :
    s₁.Level s₁' d d' := by
  refine ⟨ha.placed h.placed, ha'.placed h.placed', ?_⟩
  cases hc : c.current with
  | some t =>
    rw [ha.indexOf_eq h.placed hc, ha'.indexOf_eq h.placed' (hcur ▸ hc), h.index]
  | none =>
    obtain ⟨rfl, rfl⟩ := ha.eq_of_end hc
    obtain ⟨rfl, rfl⟩ := ha'.eq_of_end (hcur ▸ hc)
    exact h.index

variable [LawfulSource σ τ] [LawfulSource σ' τ]

theorem joins_joined :
    Machine.Joins (Joined tokens ending : TokenStream σ τ → TokenStream σ' τ → Matching τ π → Prop) := by
  intro s s₁ s' s₁' V c c' d d' fuel fuel' events events' hJ hc ha ha'
  have hadv := advancing_of_advance ha
  have hadv' := advancing_of_advance ha'
  have hcarries := hJ.carries.advancing hadv
  have hcarries' := hJ.carries'.advancing hadv'
  have hlevel := (hJ.rel_iff _ _).mp hc
  refine ⟨level hcarries hcarries', ?_, joined_level hcarries hcarries', ?_⟩
  · intro x x' hx
    exact ((hJ.rel_iff _ _).mp hx).extend hadv.grows hadv'.grows
  · exact hlevel.advance (V.current hc) hadv hadv'

/-- In a stream that holds all its tokens every cursor can be moved, and nothing is read. -/
theorem exists_advance (hs : s'.Carries tokens none) (hl : s'.live = false) (hp : s'.Placed c) (fuel : Nat) :
    ∃ d, s'.advance fuel c = some ⟨s', .ok d, #[]⟩ := by
  obtain ⟨access, ha⟩ := exists_advance_of_readChunk (readChunk_released hl fuel) c
  -- A read could only be refused, but a sequence without an error ends before one is tried.
  have hadv := advancing_of_advance ha
  obtain ⟨d, hd⟩ := hs.advance_ok hp hadv
  refine ⟨d, ?_⟩
  cases hadv with
  | still | inside | across =>
    cases hd
    exact ha
  | read hc hn hle hr =>
    cases hr with
    | more hl' | ended hl' => simp [hl] at hl'
  | stopped => cases hd

theorem exists_advanceBy (hs : s'.Carries tokens none) (hl : s'.live = false) (hp : s'.Placed c) (count : Nat)
    (hcount : s'.indexOf c + count ≤ tokens.length) (fuel : Nat) (events : Array Event) :
    ∃ d, s'.advanceByAfter fuel c events count = some ⟨s', .ok d, events⟩ ∧ s'.Placed d ∧
      s'.indexOf d = s'.indexOf c + count := by
  induction count generalizing c with
  | zero => exact ⟨c, rfl, hp, rfl⟩
  | succ count ih =>
    have hcur := hp.current_of_carries hs
    rw [List.getElem?_eq_getElem (by omega)] at hcur
    obtain ⟨d, ha⟩ := exists_advance hs hl hp fuel
    have hadv := advancing_of_advance ha
    have hindex := hadv.indexOf_eq hp hcur
    obtain ⟨e, he, hplaced, hsum⟩ := ih (hadv.placed hp) (by omega)
    refine ⟨e, ?_, hplaced, by omega⟩
    have htok : c.hasToken = true := by simp [Cursor.hasToken, hcur]
    simp only [advanceByAfter, htok, if_true, ha, Array.append_empty]
    exact he

theorem joins_joinedWhole :
    Machine.Joins (JoinedWhole tokens : TokenStream σ τ → TokenStream σ' τ → Matching τ π → Prop) := by
  intro s s₁ s' s₁' V c c' d d' fuel fuel' events events' hJ hc ha ha'
  obtain ⟨W, hVW, hW, hd⟩ := joins_joined hJ.toJoined hc ha ha'
  obtain rfl : s₁' = s' := (advancing_of_advance ha').later.released hJ.whole
  exact ⟨W, hVW, ⟨hW, hJ.whole⟩, hd⟩

end TokenStream

/-- What can be seen of two replies is the same: their kind, value, message and cause, and the position, token and
index of their cursors. -/
def Observed (R : Likeness τ π α) (s : TokenStream σ τ) (s' : TokenStream σ' τ) (r r' : Reply τ π α) : Prop :=
  ∃ V : Matching τ π, (∀ c c', V.rel c c' → s.Level s' c c') ∧ r.Like V R r'

namespace Parser

variable {P : Likeness τ π ρ} {R : Likeness τ π α} {p : Parser τ π ρ α} {rules : Rules τ π ρ}
variable {s : TokenStream σ τ} {s' : TokenStream σ' τ} {c c' : Cursor τ π}

omit [Source σ τ] [Source σ' τ] [Position π τ] in
theorem together_at (hp : p.Like P .none R p) (hrules : rules.Like P .none rules) {V : Matching τ π}
    {J : TokenStream σ τ → TokenStream σ' τ → Matching τ π → Prop} (hJ : J s s' V) (hc : V.rel c c')
    (log log' : Array Event) :
    Machine.Together J P R ⟨s, rules, log⟩ (.eval p c .nil) ⟨s', rules, log'⟩ (.eval p c' .nil) V :=
  ⟨hJ, hrules.mono (Matching.none_le V), .eval (Like.mono p hp (Matching.none_le V)) hc .nil⟩

/-- The cursor of tokens that are all there with as many tokens before it as `c` has. -/
theorem exists_level {tokens : List τ} (h : s.Carries tokens none) (hc : s.Placed c) :
    ∃ d : Cursor τ π, (TokenStream.ofList tokens).advanceBy 0 (TokenStream.ofList tokens).start (s.indexOf c) =
      some ⟨TokenStream.ofList tokens, .ok d, #[]⟩ ∧ s.Level (TokenStream.ofList tokens) c d := by
  have hwhole := TokenStream.carries_ofList tokens
  have hsize : 0 < (TokenStream.ofList tokens).chunks.size := by
    unfold TokenStream.ofList TokenStream.ofArray
    split <;> simp
  have hstart : (TokenStream.ofList tokens).Placed ((TokenStream.ofList tokens).start : Cursor τ π) :=
    TokenStream.placed_start hsize
  have hle : s.indexOf c ≤ tokens.length := Nat.le_trans hc.index_le h.begins.length_le
  have hzero : (TokenStream.ofList tokens).indexOf ((TokenStream.ofList tokens).start : Cursor τ π) = 0 := rfl
  obtain ⟨d, hd, hplaced, hindex⟩ :=
    TokenStream.exists_advanceBy hwhole rfl hstart (s.indexOf c) (by omega) 0 #[]
  exact ⟨d, hd, hc, hplaced, by omega⟩

variable [LawfulSource σ τ] [LawfulSource σ' τ] {tokens : List τ} {ending : Option ReadError}
variable {log log' : Array Event}

theorem observed_of_run (hp : p.Like P .none R p) (hrules : rules.Like P .none rules)
    (h : s.Carries tokens ending) (h' : s'.Carries tokens ending) (hc : s.Level s' c c')
    {fuel fuel' : Nat} {last : Store σ τ π ρ} {last' : Store σ' τ π ρ} {r r' : Reply τ π α}
    (hr : p.run fuel ⟨s, rules, log⟩ c = some ⟨last, .ok r⟩)
    (hr' : p.run fuel' ⟨s', rules, log'⟩ c' = some ⟨last', .ok r'⟩) :
    Observed R last.stream last'.stream r r' := by
  have htogether := together_at hp hrules (TokenStream.joined_level h h') hc log log'
  obtain ⟨W, hW, hreply⟩ := Machine.replies_alike TokenStream.joins_joined htogether hr hr'
  exact ⟨W, fun d d' => (hW.rel_iff d d').mp, hreply⟩

/-- A run over a source that does not fail is also a run over tokens that are all there. -/
theorem observed_of_whole (hp : p.Like P .none R p) (hrules : rules.Like P .none rules)
    (h : s.Carries tokens none) (h' : s'.Carries tokens none) (hwhole : s'.live = false) (hc : s.Level s' c c')
    {fuel : Nat} {finish : Machine.Finish σ τ π ρ α} (hr : p.run fuel ⟨s, rules, log⟩ c = some finish) :
    ∃ r last' r', finish.result = .ok r ∧ p.run fuel ⟨s', rules, log'⟩ c' = some ⟨last', .ok r'⟩ ∧
      Observed R finish.store.stream last'.stream r r' := by
  have hJ : TokenStream.JoinedWhole tokens s s' (TokenStream.level h h' : Matching τ π) :=
    ⟨TokenStream.joined_level h h', hwhole⟩
  have htogether := together_at hp hrules hJ hc log log'
  have hrun := Machine.run_alike TokenStream.joins_joinedWhole ?_ ?_ htogether hr
  · obtain ⟨last', r, r', W, hok, hr', hW, hreply⟩ := hrun
    exact ⟨r, last', r', hok, hr', W, fun d d' => (hW.rel_iff d d').mp, hreply⟩
  · intro s s' V c c' fuel access hJ hc ha
    have hlevel := (hJ.rel_iff c c').mp hc
    exact hJ.carries.advance_ok hlevel.placed (TokenStream.advancing_of_advance ha)
  · intro s s' V c c' hJ hc fuel
    have hlevel := (hJ.rel_iff c c').mp hc
    obtain ⟨d, hd⟩ := TokenStream.exists_advance hJ.carries' hJ.whole hlevel.placed' fuel
    exact ⟨s', d, #[], hd⟩

/-- The chunks of a stream and what was done with it before do not show in the reply of a parser that does not look
into cursors. -/
theorem run_observed (hp : p.Like P .none R p) (hrules : rules.Like P .none rules)
    {source : σ} {source' : σ'} {size size' : Nat}
    (hd : Delivers (max size 1) source tokens ending) (hd' : Delivers (max size' 1) source' tokens ending) :
    (∀ (a : Session σ τ π) (a' : Session σ' τ π), a.Opened source size → a'.Opened source' size' →
      ∀ c ∈ a.cursors, ∀ c' ∈ a'.cursors, a.stream.indexOf c = a'.stream.indexOf c' →
      ∀ fuel fuel' log log' last last' r r', p.run fuel ⟨a.stream, rules, log⟩ c = some ⟨last, .ok r⟩ →
        p.run fuel' ⟨a'.stream, rules, log'⟩ c' = some ⟨last', .ok r'⟩ →
        Observed R last.stream last'.stream r r') ∧
    (ending = none →
      (∃ fuel first events, TokenStream.openSource fuel source size = some ⟨first, .ok (), events⟩) ∧
      (∀ fuel access, TokenStream.openSource fuel source size = some access → access.result = .ok ()) ∧
      ∀ a : Session σ τ π, a.Opened source size → ∀ c ∈ a.cursors, ∀ fuel log finish,
        p.run fuel ⟨a.stream, rules, log⟩ c = some finish →
        ∃ r d last' r', finish.result = .ok r ∧
          (TokenStream.ofList tokens).advanceBy 0 (TokenStream.ofList tokens).start (a.stream.indexOf c) =
            some ⟨TokenStream.ofList tokens, .ok d, #[]⟩ ∧
          p.run fuel ⟨TokenStream.ofList tokens, rules, log⟩ d = some ⟨last', .ok r'⟩ ∧
          Observed R finish.store.stream last'.stream r r') ∧
    ∀ entries : List (Option τ), Delivers (max size 1) (⟨entries, 0⟩ : Items τ) (Items.sequence entries) none := by
  refine ⟨?_, ?_, fun entries => Items.delivers (by omega) _⟩
  · intro a a' ha ha' c hc c' hc' hindex fuel fuel' log log' last last' r r' hr hr'
    have hlevel : a.stream.Level a'.stream c c' :=
      ⟨(Session.sound_of_opened ha).placed c hc, (Session.sound_of_opened ha').placed c' hc', hindex⟩
    exact observed_of_run hp hrules (Session.carries_of_opened hd ha) (Session.carries_of_opened hd' ha') hlevel hr hr'
  · rintro rfl
    refine ⟨TokenStream.exists_openSource hd, fun _ _ hopen => TokenStream.openSource_ok hd hopen, ?_⟩
    intro a ha c hc fuel log finish hr
    have hcarries := Session.carries_of_opened hd ha
    obtain ⟨d, hadvance, hlevel⟩ := exists_level hcarries ((Session.sound_of_opened ha).placed c hc)
    obtain ⟨r, last', r', hok, hr', hobserved⟩ :=
      observed_of_whole hp hrules hcarries (TokenStream.carries_ofList tokens) rfl hlevel hr
    exact ⟨r, d, last', r', hok, hadvance, hr', hobserved⟩

/-- The place where the items begin, and the items. -/
def locatedItems : Parser Nat LinearPosition Unit (Cursor Nat LinearPosition × Array Nat) :=
  here.both any.consuming.many.commit

theorem like_locatedItems :
    locatedItems.Like (.equal Unit) .none (.pair .cursor (.equal (Array Nat))) locatedItems := by
  have hhere : (here : Parser Nat LinearPosition Unit (Cursor Nat LinearPosition)).Like (.equal Unit) .none
      .cursor here := .peek fun W _ c c' hc => hc
  have hany : (any : Parser Nat LinearPosition Unit Nat).consuming.Like (.equal Unit) .none (.equal Nat)
      any.consuming := .reshape (.satisfy _ fun _ => rfl) Hook.like_consuming
  have hpush : AlikeJoins (.none : Matching Nat LinearPosition) (.equal (Array Nat)) (.equal Nat)
      (.equal (Array Nat)) Array.push Array.push := by
    rintro W - a _ b _ rfl rfl
    rfl
  refine .zipWith hhere (.reshape (.loop _ (.pure rfl) hany hpush) Hook.like_commit) ?_
  intro W _ a a' b b' ha hb
  exact ⟨ha, hb⟩

/-- The items 4 and 7 in one chunk. -/
def untouched : Session (Items Nat) Nat LinearPosition where
  stream := ⟨#[#[4, 7]], ⟨[none, some 9], 2⟩, true, 2, 1⟩
  cursors := [⟨0, 0, ⟨0⟩, some 4⟩]

theorem opened_untouched : untouched.Opened (⟨[some 4, some 7, none, some 9], 0⟩ : Items Nat) 2 :=
  ⟨0, _, _, rfl, .refl⟩

theorem run_observed_items : ∃ last last' r r',
    locatedItems.run 40 ⟨Session.glanced.stream, .empty, #[]⟩ ⟨0, 0, ⟨0⟩, some 4⟩ = some ⟨last, .ok r⟩ ∧
      locatedItems.run 40 ⟨untouched.stream, .empty, #[]⟩ ⟨0, 0, ⟨0⟩, some 4⟩ = some ⟨last', .ok r'⟩ ∧
      Observed (.pair .cursor (.equal (Array Nat))) last.stream last'.stream r r' := by
  have hrules : (.empty : Rules Nat LinearPosition Unit).Like (.equal Unit) .none .empty :=
    ⟨rfl, fun he => by simp [Rules.empty] at he⟩
  have hdeliver (size : Nat) (hsize : 0 < size) : Delivers size
      (⟨[some 4, some 7, none, some 9], 0⟩ : Items Nat) [4, 7] none := Items.delivers hsize _
  have hall := run_observed like_locatedItems hrules (hdeliver (max 0 1) (by omega)) (hdeliver (max 2 1) (by omega))
  refine ⟨_, _, _, _, rfl, rfl, ?_⟩
  exact hall.1 _ _ Session.opened_glanced opened_untouched _ (.head _) _ (.head _) rfl 40 40 _ _ _ _ _ _ rfl rfl

end Parser

end StreamParsing
