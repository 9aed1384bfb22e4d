import StreamParsing.Proofs.Machine.Forward

/-!
Streams of which one has been read ahead of the other. A chunk is the same whenever it is read, so a cursor that has
its place in both streams moves alike in both, and a parser that begins there ends alike: tokens that something else
has read in the meantime are not seen.
-/

namespace StreamParsing

set_option autoImplicit false

universe u

variable {σ : Type u} {τ π ρ α β : Type} [Source σ τ]

namespace TokenStream

variable {first s s' t t' : TokenStream σ τ} {c d : Cursor τ π}

section Reading

variable [LawfulSource σ τ]

theorem Reading.unique {access access' : Access σ τ Unit} (h : Reading s access) (h' : Reading s access') :
    access = access' := by
  obtain ⟨fuel, h⟩ := h.exists_readChunk
  obtain ⟨fuel', h'⟩ := h'.exists_readChunk
  have hmax := readChunk_of_le (Nat.le_max_left fuel fuel') h
  rw [readChunk_of_le (Nat.le_max_right fuel fuel') h'] at hmax
  exact (Option.some.inj hmax).symm

variable [Position π τ]

/-- A cursor that is moved in a stream moves alike in what was read ahead, unless that is the stream itself. -/
theorem Toward.eq_or_ahead {access : Access σ τ (Cursor τ π)} (h : s.Toward t) (ha : Advancing s c access) :
    s = t ∨ access.stream.Toward t ∧ ∃ d, access.result = .ok d := by
  cases ha with
  | still | inside | across => exact .inr ⟨h, _, rfl⟩
  | read _ _ _ hr =>
    rcases Relation.ReflTransGen.cases_head h with rfl | ⟨s₁, ⟨events, hr'⟩, hrest⟩
    · exact .inl rfl
    · cases hr.unique hr'
      exact .inr ⟨hrest, _, rfl⟩
  | stopped _ _ _ hr =>
    -- The next read of the stream fails, and the other stream would begin with one that does not.
    rcases Relation.ReflTransGen.cases_head h with rfl | ⟨s₁, ⟨events, hr'⟩, -⟩
    · exact .inl rfl
    · cases hr.unique hr'

theorem Toward.advance_ahead {fuel : Nat} {access : Access σ τ (Cursor τ π)} (h : s.Toward t) (hc : s.Placed c)
    (ha : s.advance fuel c = some access) : s = t ∨ access.stream.Toward t ∧
      ∀ fuel, t.advance fuel c = some ⟨t, access.result, #[]⟩ := by
  have hadv := advancing_of_advance ha
  refine (h.eq_or_ahead hadv).imp_right fun ⟨htoward, d, hd⟩ => ⟨htoward, fun fuel => ?_⟩
  have hagain := advance_again hc hadv htoward.becomes.later fuel
  rwa [hd] at hagain ⊢

end Reading

/-- A cursor in its place in two streams that the stream `first` became. One of them is the other, read ahead. -/
structure Akin [Position π τ] (first s t : TokenStream σ τ) (c : Cursor τ π) : Prop where
  left : first.Becomes s
  right : first.Becomes t
  toward : s.Toward t ∨ t.Toward s
  placed : s.Placed c
  placed' : t.Placed c

namespace Akin

variable [Position π τ]

theorem refl (h : first.Becomes s) (hc : s.Placed c) : Akin first s s c := ⟨h, h, .inl .refl, hc, hc⟩

variable [LawfulSource σ τ]

theorem advance_right {fuel : Nat} {result : Except ReadError (Cursor τ π)} {events : Array Event}
    (h : Akin first s t c) (ha : s.advance fuel c = some ⟨s', result, events⟩) :
    ∃ fuel' t' events', t.advance fuel' c = some ⟨t', result, events'⟩ ∧ (s'.Toward t' ∨ t'.Toward s') := by
  rcases h.toward with htoward | htoward
  · rcases htoward.advance_ahead h.placed ha with rfl | ⟨hahead, hsame⟩
    · exact ⟨fuel, s', events, ha, .inl .refl⟩
    · exact ⟨0, t, #[], hsame 0, .inl hahead⟩
  · rcases Relation.ReflTransGen.cases_head htoward with rfl | ⟨t₁, ⟨more, hr⟩, -⟩
    · exact ⟨fuel, s', events, ha, .inl .refl⟩
    · -- The stream behind makes the move with its own read, and the one ahead makes it without.
      obtain ⟨fuel', hread⟩ := hr.exists_readChunk
      obtain ⟨⟨t', result', events'⟩, hbehind⟩ := exists_advance_of_readChunk hread c
      rcases htoward.advance_ahead h.placed' hbehind with rfl | ⟨hahead, hsame⟩
      · exact ⟨fuel, s', events, ha, .inl .refl⟩
      · obtain ⟨rfl, rfl, -⟩ := Access.mk.inj (Option.some.inj ((hsame fuel).symm.trans ha))
        exact ⟨fuel', t', events', hbehind, .inr hahead⟩

end Akin

end TokenStream

/-- Given a reply in a place of the stream `first`, or of what becomes of it, the hook answers in such a place. -/
def Hook.Settled [Position π τ] (first : TokenStream σ τ) (hook : Hook τ π α β) : Prop :=
  ∀ s, first.Becomes s → ∀ start reply, s.Placed start → s.Placed reply.cursor → s.Placed (hook start reply).cursor

/-- A hook that answers at its start or at the place of the reply, as those of this library do. -/
theorem Hook.settled_of_cursor [Position π τ] {first : TokenStream σ τ} {hook : Hook τ π α β}
    (h : ∀ start reply, (hook start reply).cursor = start ∨ (hook start reply).cursor = reply.cursor) :
    hook.Settled first := by
  intro s _ start reply hstart hreply
  rcases h start reply with heq | heq
  · rwa [heq]
  · rwa [heq]

section

variable [Position π τ] {first t t' last : TokenStream σ τ} {store mid store' : Store σ τ π ρ} {c : Cursor τ π}

open TokenStream (Akin)

/-- What evaluations over two streams leave behind: where both could begin they can begin again, and both can go on where
they ended. -/
structure StaysAkin (first s t : TokenStream σ τ) (store' : Store σ τ π ρ) (t' : TokenStream σ τ) (result : Outcome τ π α) :
    Prop where
  rules : store'.rules.Hooked (Hook.Settled first)
  again : ∀ d : Cursor τ π, Akin first s t d → Akin first store'.stream t' d
  answer : ∀ reply, result = .ok reply → Akin first store'.stream t' reply.cursor

namespace StaysAkin

variable {result : Outcome τ π α} {outcome : Outcome τ π β}

theorem here {answer : Reply τ π α} (hr : mid.rules.Hooked (Hook.Settled first)) (hl : Akin first mid.stream t c)
    (h : answer.cursor = c) : StaysAkin first mid.stream t mid t (.ok answer) := by
  refine ⟨hr, fun _ hd => hd, ?_⟩
  rintro reply ⟨⟩
  rwa [h]

theorem trans {s : TokenStream σ τ} (h : StaysAkin first s t mid t' result)
    (h' : StaysAkin first mid.stream t' store' last outcome) : StaysAkin first s t store' last outcome :=
  ⟨h'.rules, fun d hd => h'.again d (h.again d hd), h'.answer⟩

/-- Another answer at the place of the reply, or at the start. -/
theorem moved {s : TokenStream σ τ} (h : StaysAkin first s t store' t' result) (hl : Akin first s t c)
    (ha : ∀ answer, outcome = .ok answer → answer.cursor = c ∨ ∃ reply, result = .ok reply ∧ answer.cursor = reply.cursor) :
    StaysAkin first s t store' t' outcome := by
  refine ⟨h.rules, h.again, ?_⟩
  intro answer hanswer
  rcases ha answer hanswer with heq | ⟨reply, hreply, heq⟩
  · exact heq ▸ h.again c hl
  · exact heq ▸ h.answer reply hreply

theorem pass {s : TokenStream σ τ} (h : StaysAkin first s t store' t' result) (hp : Passes result outcome) :
    StaysAkin first s t store' t' outcome := by
  refine ⟨h.rules, h.again, ?_⟩
  intro answer hanswer
  cases hp with
  | failure fault | abort fault =>
    cases hanswer
    exact h.answer _ rfl
  | error e => cases hanswer

end StaysAkin

variable [LawfulSource σ τ]

/-- A move that is made over one stream can be made over the other. -/
theorem Store.access_akin {fuel : Nat} {result : Except ReadError (Cursor τ π)} (hl : Akin first store.stream t c)
    (h : store.access (·.advance fuel c) = some (store', result)) (log : Array Event) :
    ∃ fuel' t' log', Store.access ⟨t, store.rules, log⟩ (·.advance fuel' c) = some (⟨t', store'.rules, log'⟩, result) ∧
      (∀ d : Cursor τ π, Akin first store.stream t d → Akin first store'.stream t' d) ∧
      ∀ d, result = .ok d → Akin first store'.stream t' d := by
  obtain ⟨events, hadv⟩ := Machine.Store.advance_of_access h
  obtain ⟨fuel', t', events', hadv', htoward⟩ := hl.advance_right hadv
  have hleft := TokenStream.advancing_of_advance hadv
  have hright := TokenStream.advancing_of_advance hadv'
  have hagain (d : Cursor τ π) (hd : Akin first store.stream t d) : Akin first store'.stream t' d :=
    ⟨hl.left.advancing hleft, hl.right.advancing hright, htoward, hd.placed.extend hleft.grows,
      hd.placed'.extend hright.grows⟩
  refine ⟨fuel', t', log ++ events', ?_, hagain, ?_⟩
  · rw [Store.rules_of_access h]
    simp only [Store.access, hadv', Option.map_some]
  · rintro d rfl
    have hc := hagain c hl
    exact ⟨hc.left, hc.right, hc.toward, hleft.placed hl.placed, hright.placed hl.placed'⟩

/-- Whatever is evaluated over a stream is evaluated alike over the other. -/
theorem Evaluates.akin {alive : Liveness τ π ρ} {held : List Nat} {job : Job τ π ρ α} {result : Outcome τ π α}
    (h : Evaluates alive held store job store' result) (hl : Akin first store.stream t job.cursor)
    (hr : store.rules.Hooked (Hook.Settled first)) (hj : job.Hooked (Hook.Settled first)) (log : Array Event) :
    ∃ t' log', Evaluates alive held ⟨t, store.rules, log⟩ job ⟨t', store'.rules, log'⟩ result ∧
      StaysAkin first store.stream t store' t' result := by
  induction h generalizing t log with
  | pure => exact ⟨t, log, .pure, .here hr hl rfl⟩
  | peek => exact ⟨t, log, .peek, .here hr hl rfl⟩
  | refused hc => exact ⟨t, log, .refused hc, .here hr hl rfl⟩
  | taken hc ha =>
    obtain ⟨fuel, t', log', ha', hagain, hnext⟩ := Store.access_akin hl ha log
    refine ⟨t', log', .taken hc ha', Store.rules_of_access ha ▸ hr, hagain, ?_⟩
    rintro reply ⟨⟩
    exact hnext _ rfl
  | unread hc ha =>
    obtain ⟨fuel, t', log', ha', hagain, -⟩ := Store.access_akin hl ha log
    exact ⟨t', log', .unread hc ha', Store.rules_of_access ha ▸ hr, hagain, nofun⟩
  | endOfInput =>
    refine ⟨t, log, .endOfInput, .here hr hl ?_⟩
    split <;> rfl
  | @fail _ _ _ message =>
    refine ⟨t, log, .fail, .here hr hl ?_⟩
    cases message <;> rfl
  | abort => exact ⟨t, log, .abort, .here hr hl rfl⟩
  | tryMap _ ih =>
    obtain ⟨t', log', heval, hstays⟩ := ih hl hr hj.parts log
    refine ⟨t', log', .tryMap heval, hstays.moved hl ?_⟩
    intro answer hanswer
    obtain ⟨reply, hreply, rfl⟩ := Outcome.eq_of_map hanswer
    exact reply.cursor_convert.imp_right fun heq => ⟨reply, hreply, heq⟩
  | bind_next _ hc _ ihp ihn =>
    obtain ⟨t₁, log₁, hp, hmid⟩ := ihp hl hr hj.parts.1 log
    obtain ⟨t₂, log₂, hn, hend⟩ := ihn (hmid.answer _ rfl) hmid.rules (hj.parts.2 _) log₁
    exact ⟨t₂, log₂, .bind_next hp hc hn, hmid.trans hend⟩
  | bind_refused _ hc ih =>
    obtain ⟨t', log', heval, hstays⟩ := ih hl hr hj.parts.1 log
    refine ⟨t', log', .bind_refused heval hc, hstays.moved hl ?_⟩
    rintro answer ⟨⟩
    exact .inl rfl
  | bind_stopped _ pass ih =>
    obtain ⟨t', log', heval, hstays⟩ := ih hl hr hj.parts.1 log
    exact ⟨t', log', .bind_stopped heval pass, hstays.pass pass⟩
  | zip_next _ _ ihp ihq =>
    obtain ⟨t₁, log₁, hp, hmid⟩ := ihp hl hr hj.parts.1 log
    obtain ⟨t₂, log₂, hq, hend⟩ := ihq (hmid.answer _ rfl) hmid.rules hj.parts.2 log₁
    refine ⟨t₂, log₂, .zip_next hp hq, hmid.trans (hend.moved (hmid.answer _ rfl) ?_)⟩
    intro answer hanswer
    obtain ⟨reply, hreply, rfl⟩ := Outcome.eq_of_map hanswer
    exact .inr ⟨reply, hreply, reply.cursor_map⟩
  | zip_stopped _ pass ih =>
    obtain ⟨t', log', heval, hstays⟩ := ih hl hr hj.parts.1 log
    exact ⟨t', log', .zip_stopped heval pass, hstays.pass pass⟩
  | else_first _ firm ih =>
    obtain ⟨t', log', heval, hstays⟩ := ih hl hr hj.parts.1 log
    exact ⟨t', log', .else_first heval firm, hstays⟩
  | else_second _ _ ihp ihq =>
    obtain ⟨t₁, log₁, hp, hmid⟩ := ihp hl hr hj.parts.1 log
    obtain ⟨t₂, log₂, hq, hend⟩ := ihq (hmid.again _ hl) hmid.rules hj.parts.2 log₁
    exact ⟨t₂, log₂, .else_second hp hq, hmid.trans hend⟩
  | reshape _ ih =>
    obtain ⟨t', log', heval, hstays⟩ := ih hl hr hj.parts log
    refine ⟨t', log', .reshape heval, hstays.rules, hstays.again, ?_⟩
    intro answer hanswer
    obtain ⟨reply, hreply, rfl⟩ := Outcome.eq_of_map hanswer
    have hstart := hstays.again _ hl
    have hend := hstays.answer reply hreply
    exact ⟨hend.left, hend.right, hend.toward, hj.hook _ hend.left _ _ hstart.placed hend.placed,
      hj.hook _ hend.right _ _ hstart.placed' hend.placed'⟩
  | loop_seeded _ _ ihs ihr =>
    obtain ⟨t₁, log₁, hs, hmid⟩ := ihs hl hr hj.parts.1 log
    obtain ⟨t₂, log₂, hn, hend⟩ := ihr (hmid.answer _ rfl) hmid.rules hj.parts log₁
    exact ⟨t₂, log₂, .loop_seeded hs hn, hmid.trans hend⟩
  | loop_stopped _ pass ih =>
    obtain ⟨t', log', heval, hstays⟩ := ih hl hr hj.parts.1 log
    exact ⟨t', log', .loop_stopped heval pass, hstays.pass pass⟩
  | till_seeded _ _ ihs ihr =>
    obtain ⟨t₁, log₁, hs, hmid⟩ := ihs hl hr hj.parts.1.1 log
    obtain ⟨t₂, log₂, hn, hend⟩ := ihr (hmid.answer _ rfl) hmid.rules hj.parts log₁
    exact ⟨t₂, log₂, .till_seeded hs hn, hmid.trans hend⟩
  | till_stopped _ pass ih =>
    obtain ⟨t', log', heval, hstays⟩ := ih hl hr hj.parts.1.1 log
    exact ⟨t', log', .till_stopped heval pass, hstays.pass pass⟩
  | rule hf _ ih =>
    obtain ⟨hp, hrules⟩ := hr.force hf
    obtain ⟨t', log', heval, hstays⟩ := ih hl hrules hp log
    exact ⟨t', log', .rule hf heval, hstays⟩
  | unbound hf => exact ⟨t, log, .unbound hf, .here hr hl rfl⟩
  | handle ha hf _ ih =>
    obtain ⟨hp, hrules⟩ := hr.force hf
    obtain ⟨t', log', heval, hstays⟩ := ih hl hrules hp log
    exact ⟨t', log', .handle ha hf heval, hstays⟩
  | dangling h =>
    refine ⟨t, _, .dangling h, hr, fun _ hd => hd, ?_⟩
    rintro reply ⟨⟩
    exact hl
  | draft _ ih =>
    cases hj with
    | leaf hp => exact hp.elim
    | draft hp hn =>
      obtain ⟨t', log', heval, hstays⟩ := ih hl (hr.append (hn _) false) (hp _) log
      exact ⟨t', log', .draft heval, hstays⟩
  | rounds_reached hb => exact ⟨t, log, .rounds_reached hb, .here hr hl rfl⟩
  | rounds_stalled hb _ hs ih =>
    obtain ⟨t', log', heval, hstays⟩ := ih hl hr hj.2 log
    refine ⟨t', _, .rounds_stalled hb heval hs, hstays.rules, hstays.again, ?_⟩
    rintro answer ⟨⟩
    exact hstays.answer _ rfl
  | rounds_next hb _ hs _ ihp ihr =>
    obtain ⟨t₁, log₁, hp, hmid⟩ := ihp hl hr hj.2 log
    obtain ⟨t₂, log₂, hn, hend⟩ := ihr (hmid.answer _ rfl) hmid.rules hj log₁
    exact ⟨t₂, log₂, .rounds_next hb hp hs hn, hmid.trans hend⟩
  | rounds_failed hb _ ih =>
    obtain ⟨t', log', heval, hstays⟩ := ih hl hr hj.2 log
    refine ⟨t', log', .rounds_failed hb heval, hstays.moved hl ?_⟩
    intro answer hanswer
    split at hanswer
    · cases hanswer
      exact .inr ⟨_, rfl, rfl⟩
    · cases hanswer
      exact .inl rfl
  | rounds_stopped hb _ firm pass ih =>
    obtain ⟨t', log', heval, hstays⟩ := ih hl hr hj.2 log
    exact ⟨t', log', .rounds_stopped hb heval firm pass, hstays.pass pass⟩
  | till_reached hb => exact ⟨t, log, .till_reached hb, .here hr hl rfl⟩
  | till_ended hb _ ih =>
    obtain ⟨t', log', heval, hstays⟩ := ih hl hr hj.2 log
    refine ⟨t', log', .till_ended hb heval, hstays.moved hl ?_⟩
    rintro answer ⟨⟩
    exact .inr ⟨_, rfl, rfl⟩
  | till_barred hb _ firm pass ih =>
    obtain ⟨t', log', heval, hstays⟩ := ih hl hr hj.2 log
    exact ⟨t', log', .till_barred hb heval firm pass, hstays.pass pass⟩
  | till_stalled hb _ _ hs iht ihp =>
    obtain ⟨t₁, log₁, ht, hmid⟩ := iht hl hr hj.2 log
    obtain ⟨t₂, log₂, hp, hend⟩ := ihp (hmid.again _ hl) hmid.rules hj.1.2 log₁
    refine ⟨t₂, log₂, .till_stalled hb ht hp hs, hmid.trans (hend.moved (hmid.again _ hl) ?_)⟩
    rintro answer ⟨⟩
    exact .inr ⟨_, rfl, rfl⟩
  | till_next hb _ _ hs _ iht ihp ihr =>
    obtain ⟨t₁, log₁, ht, hmid⟩ := iht hl hr hj.2 log
    obtain ⟨t₂, log₂, hp, hitem⟩ := ihp (hmid.again _ hl) hmid.rules hj.1.2 log₁
    obtain ⟨t₃, log₃, hn, hend⟩ := ihr (hitem.answer _ rfl) hitem.rules hj log₂
    exact ⟨t₃, log₃, .till_next hb ht hp hs hn, hmid.trans (hitem.trans hend)⟩
  | till_lacking hb _ _ pass iht ihp =>
    obtain ⟨t₁, log₁, ht, hmid⟩ := iht hl hr hj.2 log
    obtain ⟨t₂, log₂, hp, hend⟩ := ihp (hmid.again _ hl) hmid.rules hj.1.2 log₁
    exact ⟨t₂, log₂, .till_lacking hb ht hp pass, hmid.trans (hend.pass pass)⟩

end

namespace Machine

variable [Position π τ] {ω : Type} {upkeep : Upkeep τ π ρ ω} {store store' : Store σ τ π ρ}
variable {control control' : Control τ π ρ ω}

/-- A run that goes on has met no failing read. -/
theorem toward_of_path (h : Path upkeep store control store' control') : store.stream.Toward store'.stream := by
  induction h with
  | refl => exact .refl
  | cons hm _ ih =>
    obtain ⟨fuel, hs⟩ := hm
    rcases stays_or_moves_of_step hs with hstays | ⟨-, events, ha⟩
    · exact hstays.stream ▸ ih
    · exact (TokenStream.advancing_of_advance ha).toward.trans ih

end Machine

end StreamParsing
