import StreamParsing.Parser.Repetition
import StreamParsing.Parser.Shaping
import StreamParsing.Proofs.Machine.Refinement
import StreamParsing.Proofs.Stream.Order
import StreamParsing.Proofs.Stream.Session

/-!
Replies never point before the place where a parser began. Parsers go on at cursors that they were given or moved to;
only a hook may answer with a cursor of its own, so the hooks of a parser are asked to go forward as well. Those of
this library do.
-/

namespace StreamParsing

set_option autoImplicit false

universe u

variable {σ : Type u} {τ π ρ α β γ ω : Type}

/-- Given a reply that its start reaches, the hook answers with one that its start reaches, in the stream `first` and
in all that becomes of it. -/
def Hook.Forward [Source σ τ] [Position π τ] (first : TokenStream σ τ) (hook : Hook τ π α β) : Prop :=
  ∀ s, first.Becomes s → ∀ start reply, s.Reaches start reply.cursor → s.Reaches start (hook start reply).cursor

mutual

/-- All hooks that a parser holds or makes are good. -/
inductive Parser.Hooked (good : {α β : Type} → Hook τ π α β → Prop) : {α : Type} → Parser τ π ρ α → Prop where
  | leaf {α : Type} {p : Parser τ π ρ α} : p.IsLeaf → Parser.Hooked good p
  | tryMap {α β : Type} {p : Parser τ π ρ α} {f : α → Except Cause β} : Parser.Hooked good p → Parser.Hooked good (.tryMap p f)
  | tryBind {α β γ : Type} {p : Parser τ π ρ α} {check : α → Except Cause β} {next : β → Parser τ π ρ γ} :
      Parser.Hooked good p → (∀ b, Parser.Hooked good (next b)) → Parser.Hooked good (.tryBind p check next)
  | zipWith {α β γ : Type} {f : α → β → γ} {p : Parser τ π ρ α} {q : Parser τ π ρ β} : Parser.Hooked good p →
      Parser.Hooked good q → Parser.Hooked good (.zipWith f p q)
  | orElse {α : Type} {p q : Parser τ π ρ α} : Parser.Hooked good p → Parser.Hooked good q → Parser.Hooked good (.orElse p q)
  | reshape {α β : Type} {p : Parser τ π ρ α} {hook : Hook τ π α β} : Parser.Hooked good p → good hook →
      Parser.Hooked good (.reshape p hook)
  | loop {α β : Type} {seed : Parser τ π ρ β} {item : Parser τ π ρ α} {step : β → α → β} {bounds : Bounds} :
      Parser.Hooked good seed → Parser.Hooked good item → Parser.Hooked good (.loop seed item step bounds)
  | loopTill {α β γ : Type} {seed : Parser τ π ρ β} {item : Parser τ π ρ α} {stop : Parser τ π ρ γ}
      {step : β → α → β} {bounds : Bounds} : Parser.Hooked good seed → Parser.Hooked good item → Parser.Hooked good stop →
      Parser.Hooked good (.loopTill seed item stop step bounds)
  | rule (number : Nat) : Parser.Hooked good (.rule number)
  | handle (number : Nat) : Parser.Hooked good (.handle number)
  | draft {α : Type} {parser : Nat → Parser τ π ρ α} {new : Nat → List (Rule τ π ρ)} :
      (∀ n, Parser.Hooked good (parser n)) → (∀ n, ∀ r ∈ new n, Rule.Hooked good r) → Parser.Hooked good (.draft parser new)

inductive Rule.Hooked (good : {α β : Type} → Hook τ π α β → Prop) : Rule τ π ρ → Prop where
  | defined {p : Parser τ π ρ ρ} : Parser.Hooked good p → Rule.Hooked good (.defined p)
  | delayed {parser : Nat → Parser τ π ρ ρ} {new : Nat → List (Rule τ π ρ)} :
      (∀ n, Parser.Hooked good (parser n)) → (∀ n, ∀ r ∈ new n, Rule.Hooked good r) →
      Rule.Hooked good (.delayed parser new)
  | dropped : Rule.Hooked good .dropped

end

def Rules.Hooked (good : {α β : Type} → Hook τ π α β → Prop) (rules : Rules τ π ρ) : Prop :=
  ∀ entry ∈ rules.entries, entry.rule.Hooked good

section

variable {good : {α β : Type} → Hook τ π α β → Prop}

theorem Parser.Hooked.parts {p : Parser τ π ρ α} (h : p.Hooked good) : p.Parts (Parser.Hooked good) := by
  cases h with
  | leaf hp =>
    cases p with
    | pure | peek | satisfy | endOfInput | fail | abort => trivial
    | _ => exact hp.elim
  | tryMap hp => exact hp
  | tryBind hp hn => exact ⟨hp, hn⟩
  | zipWith hp hq => exact ⟨hp, hq⟩
  | orElse hp hq => exact ⟨hp, hq⟩
  | reshape hp _ => exact hp
  | loop hs hi => exact ⟨hs, hi⟩
  | loopTill hs hi ht => exact ⟨⟨hs, hi⟩, ht⟩
  | rule | handle | draft => trivial

theorem Parser.Hooked.hook {p : Parser τ π ρ α} {hook : Hook τ π α β} (h : (p.reshape hook).Hooked good) :
    good hook := by
  cases h with
  | leaf hp => exact hp.elim
  | reshape _ hh => exact hh

theorem Rules.Hooked.append {rules : Rules τ π ρ} (h : rules.Hooked good) {new : List (Rule τ π ρ)}
    (hnew : ∀ r ∈ new, r.Hooked good) (retained : Bool) : (rules.append new retained).Hooked good := by
  intro entry hmem
  simp only [Rules.append, Array.mem_append, List.mem_toArray, List.mem_map] at hmem
  rcases hmem with hold | ⟨r, hr, rfl⟩
  · exact h entry hold
  · exact hnew r hr

theorem Rules.Hooked.force {rules rules' : Rules τ π ρ} (h : rules.Hooked good) {number : Nat} {p : Parser τ π ρ ρ}
    (hf : rules.force number = some (p, rules')) : p.Hooked good ∧ rules'.Hooked good := by
  unfold Rules.force at hf
  split at hf
  · rename_i parser retained he
    cases hf
    have hrule := h _ (Array.mem_of_getElem? he)
    cases hrule with
    | defined hp => exact ⟨hp, h⟩
  · rename_i parser new retained he
    cases hf
    have hrule := h _ (Array.mem_of_getElem? he)
    cases hrule with
    | delayed hp hn =>
      refine ⟨hp _, Rules.Hooked.append ?_ (hn _) retained⟩
      intro entry hmem
      rcases Array.mem_or_eq_of_mem_setIfInBounds hmem with hold | rfl
      · exact h entry hold
      · exact .defined (hp _)
  · cases hf
  · cases hf

end

namespace Job

def cursor : Job τ π ρ α → Cursor τ π
  | run _ c => c
  | rounds _ _ _ c => c
  | roundsTill _ _ _ c => c

def Hooked (good : {α β : Type} → Hook τ π α β → Prop) : Job τ π ρ α → Prop
  | run p _ => p.Hooked good
  | rounds loop _ _ _ => loop.Every (Parser.Hooked good)
  | roundsTill loop _ _ _ => loop.Every (Parser.Hooked good)

end Job

theorem Reply.cursor_map {f : α → β} (reply : Reply τ π α) : (reply.map f).cursor = reply.cursor := by
  cases reply <;> rfl

theorem Reply.cursor_convert {f : α → Except Cause β} {start : Cursor τ π} (reply : Reply τ π α) :
    (reply.convert f start).cursor = start ∨ (reply.convert f start).cursor = reply.cursor := by
  cases reply with
  | success value c =>
    simp only [Reply.convert]
    split
    · exact .inr rfl
    · exact .inl rfl
  | failure fault | abort fault => exact .inr rfl

theorem Outcome.eq_of_map {f : Reply τ π α → Reply τ π β} {first : Outcome τ π α} {answer : Reply τ π β}
    (h : first.map f = .ok answer) : ∃ reply, first = .ok reply ∧ answer = f reply := by
  cases first with
  | error e => cases h
  | ok reply =>
    cases h
    exact ⟨reply, rfl, rfl⟩

section

variable [Position π τ]

/-- What an evaluation that begins at `c` leaves behind: the invariant of the stream, good hooks, and a reply that `c`
reaches. -/
structure Forwarded (I : TokenStream σ τ → Prop) (good : {α β : Type} → Hook τ π α β → Prop) (s : TokenStream σ τ)
    (c : Cursor τ π) (store' : Store σ τ π ρ) (result : Outcome τ π α) : Prop where
  stream : I store'.stream
  rules : store'.rules.Hooked good
  later : s.Later store'.stream
  reaches : ∀ reply, result = .ok reply → store'.stream.Reaches c reply.cursor

namespace Forwarded

variable {I : TokenStream σ τ → Prop} {good : {α β : Type} → Hook τ π α β → Prop} {s : TokenStream σ τ}
variable {mid store' : Store σ τ π ρ} {c c' : Cursor τ π} {result : Outcome τ π β}

theorem here {answer : Reply τ π α} (hI : I mid.stream) (hr : mid.rules.Hooked good) (hc : mid.stream.Placed c)
    (h : answer.cursor = c) : Forwarded I good mid.stream c mid (.ok answer) := by
  refine ⟨hI, hr, .refl _, ?_⟩
  rintro reply ⟨⟩
  rw [h]
  exact .refl hc

theorem placed {answer : Reply τ π α} (h : Forwarded I good s c store' (.ok answer)) :
    store'.stream.Placed answer.cursor := (h.reaches answer rfl).placed'

theorem next {answer : Reply τ π α} (h : Forwarded I good s c mid (.ok answer))
    (h' : Forwarded I good mid.stream answer.cursor store' result) : Forwarded I good s c store' result := by
  refine ⟨h'.stream, h'.rules, h.later.trans h'.later, ?_⟩
  intro reply hreply
  have hfirst := (h.reaches answer rfl).later h'.later
  exact hfirst.trans (h'.reaches reply hreply)

/-- What goes on at `c` again, after something else was tried there. -/
theorem again {first : Outcome τ π α} (h : Forwarded I good s c mid first)
    (h' : Forwarded I good mid.stream c store' result) : Forwarded I good s c store' result :=
  ⟨h'.stream, h'.rules, h.later.trans h'.later, h'.reaches⟩

/-- An answer at the place of the reply, or at the start. -/
theorem answer {first : Outcome τ π α} (h : Forwarded I good s c store' first) (hc : s.Placed c)
    (ha : ∀ answer, result = .ok answer → answer.cursor = c ∨ ∃ reply, first = .ok reply ∧ answer.cursor = reply.cursor) :
    Forwarded I good s c store' result := by
  refine ⟨h.stream, h.rules, h.later, ?_⟩
  intro answer hanswer
  rcases ha answer hanswer with heq | ⟨reply, hreply, heq⟩
  · rw [heq]
    exact .refl (hc.extend h.later.grows)
  · rw [heq]
    exact h.reaches reply hreply

theorem pass {first : Outcome τ π α} (h : Forwarded I good s c store' first) (hc : s.Placed c)
    (hp : Passes first result) : Forwarded I good s c store' result := by
  refine h.answer hc ?_
  intro answer hanswer
  cases hp with
  | failure fault | abort fault =>
    cases hanswer
    exact .inr ⟨_, rfl, rfl⟩
  | error e => cases hanswer

end Forwarded

variable [Source σ τ] {alive : Liveness τ π ρ} {store store' : Store σ τ π ρ}

/-- Whatever is evaluated goes forward, if the hooks do. -/
theorem Evaluates.forwarded {first : TokenStream σ τ} {I : TokenStream σ τ → Prop}
    (hI : ∀ s, I s → first.Becomes s)
    (hadvance : ∀ s (c : Cursor τ π) access, I s → TokenStream.Advancing s c access → I access.stream)
    {held : List Nat} {job : Job τ π ρ α} {result : Outcome τ π α}
    (h : Evaluates alive held store job store' result) (hs : I store.stream)
    (hr : store.rules.Hooked (Hook.Forward first)) (hj : job.Hooked (Hook.Forward first))
    (hc : store.stream.Placed job.cursor) :
    Forwarded I (Hook.Forward first) store.stream job.cursor store' result := by
  induction h with
  | pure | peek | abort | rounds_reached | till_reached => exact .here hs hr hc rfl
  | refused => exact .here hs hr hc rfl
  | endOfInput =>
    split
    · exact .here hs hr hc rfl
    · exact .here hs hr hc rfl
  | fail =>
    rename_i message c
    cases message <;> exact .here hs hr hc rfl
  | taken _ ha =>
    obtain ⟨events, hadv⟩ := Machine.Store.advance_of_access ha
    have hadv := TokenStream.advancing_of_advance hadv
    refine ⟨hadvance _ _ _ hs hadv, Store.rules_of_access ha ▸ hr, hadv.later, ?_⟩
    rintro reply ⟨⟩
    exact hadv.reaches hc
  | unread _ ha =>
    obtain ⟨events, hadv⟩ := Machine.Store.advance_of_access ha
    have hadv := TokenStream.advancing_of_advance hadv
    exact ⟨hadvance _ _ _ hs hadv, Store.rules_of_access ha ▸ hr, hadv.later, nofun⟩
  | tryMap _ ih =>
    refine (ih hs hr hj.parts hc).answer hc ?_
    intro answer hanswer
    obtain ⟨reply, hreply, rfl⟩ := Outcome.eq_of_map hanswer
    exact reply.cursor_convert.imp_right fun heq => ⟨reply, hreply, heq⟩
  | bind_next _ _ _ ihp ihq =>
    have hp := ihp hs hr hj.parts.1 hc
    exact hp.next (ihq hp.stream hp.rules (hj.parts.2 _) hp.placed)
  | bind_refused _ _ ih =>
    refine (ih hs hr hj.parts.1 hc).answer hc ?_
    rintro answer ⟨⟩
    exact .inl rfl
  | bind_stopped _ pass ih => exact (ih hs hr hj.parts.1 hc).pass hc pass
  | zip_next _ _ ihp ihq =>
    have hp := ihp hs hr hj.parts.1 hc
    have hq := ihq hp.stream hp.rules hj.parts.2 hp.placed
    refine hp.next (hq.answer hp.placed ?_)
    intro answer hanswer
    obtain ⟨reply, hreply, rfl⟩ := Outcome.eq_of_map hanswer
    exact .inr ⟨reply, hreply, reply.cursor_map⟩
  | zip_stopped _ pass ih => exact (ih hs hr hj.parts.1 hc).pass hc pass
  | else_first _ _ ih => exact ih hs hr hj.parts.1 hc
  | else_second _ _ ihp ihq =>
    have hp := ihp hs hr hj.parts.1 hc
    exact hp.again (ihq hp.stream hp.rules hj.parts.2 (hc.extend hp.later.grows))
  | reshape _ ih =>
    have hp := ih hs hr hj.parts hc
    refine ⟨hp.stream, hp.rules, hp.later, ?_⟩
    intro answer hanswer
    obtain ⟨reply, hreply, rfl⟩ := Outcome.eq_of_map hanswer
    exact hj.hook _ (hI _ hp.stream) _ _ (hp.reaches reply hreply)
  | loop_seeded _ _ ihs ihr =>
    have hp := ihs hs hr hj.parts.1 hc
    exact hp.next (ihr hp.stream hp.rules hj.parts hp.placed)
  | loop_stopped _ pass ih => exact (ih hs hr hj.parts.1 hc).pass hc pass
  | till_seeded _ _ ihs ihr =>
    have hp := ihs hs hr hj.parts.1.1 hc
    exact hp.next (ihr hp.stream hp.rules hj.parts hp.placed)
  | till_stopped _ pass ih => exact (ih hs hr hj.parts.1.1 hc).pass hc pass
  | rule hf _ ih | handle _ hf _ ih =>
    obtain ⟨hp, hrules⟩ := hr.force hf
    exact ih hs hrules hp hc
  | unbound => exact .here hs hr hc rfl
  | dangling =>
    refine ⟨hs, hr, .refl _, ?_⟩
    rintro reply ⟨⟩
    exact .refl hc
  | draft _ ih =>
    cases hj with
    | leaf hp => exact hp.elim
    | draft hp hn => exact ih hs (hr.append (hn _) false) (hp _) hc
  | rounds_stalled _ _ _ ih =>
    have hp := ih hs hr hj.2 hc
    refine ⟨hp.stream, hp.rules, hp.later, ?_⟩
    rintro answer ⟨⟩
    exact hp.reaches _ rfl
  | rounds_next _ _ _ _ ihp ihr =>
    have hp := ihp hs hr hj.2 hc
    exact hp.next (ihr hp.stream hp.rules hj hp.placed)
  | rounds_failed _ _ ih =>
    refine (ih hs hr hj.2 hc).answer hc ?_
    intro answer hanswer
    split at hanswer
    · cases hanswer
      exact .inr ⟨_, rfl, rfl⟩
    · cases hanswer
      exact .inl rfl
  | rounds_stopped _ _ _ pass ih => exact (ih hs hr hj.2 hc).pass hc pass
  | till_ended _ _ ih =>
    refine (ih hs hr hj.2 hc).answer hc ?_
    rintro answer ⟨⟩
    exact .inr ⟨_, rfl, rfl⟩
  | till_barred _ _ _ pass ih => exact (ih hs hr hj.2 hc).pass hc pass
  | till_stalled _ _ _ _ iht ihp =>
    have ht := iht hs hr hj.2 hc
    have hc' := hc.extend ht.later.grows
    refine ht.again ((ihp ht.stream ht.rules hj.1.2 hc').answer hc' ?_)
    rintro answer ⟨⟩
    exact .inr ⟨_, rfl, rfl⟩
  | till_next _ _ _ _ _ iht ihp ihr =>
    have ht := iht hs hr hj.2 hc
    have hp := ihp ht.stream ht.rules hj.1.2 (hc.extend ht.later.grows)
    exact ht.again (hp.next (ihr hp.stream hp.rules hj hp.placed))
  | till_lacking _ _ _ pass iht ihp =>
    have ht := iht hs hr hj.2 hc
    have hc' := hc.extend ht.later.grows
    exact ht.again ((ihp ht.stream ht.rules hj.1.2 hc').pass hc' pass)

/-- A run of the machine goes forward, whatever is pending below it. -/
theorem Machine.forwarded_of_finishes [LawfulSource σ τ] {first : TokenStream σ τ} {I : TokenStream σ τ → Prop}
    (hI : ∀ s, I s → first.Becomes s)
    (hadvance : ∀ s (c : Cursor τ π) access, I s → TokenStream.Advancing s c access → I access.stream)
    {k : Stack τ π ρ α ω} {job : Job τ π ρ α} {result : Outcome τ π α}
    (h : Machine.Finishes .counted k store (job.control k) store' result) (hs : I store.stream)
    (hr : store.rules.Hooked (Hook.Forward first)) (hj : job.Hooked (Hook.Forward first))
    (hc : store.stream.Placed job.cursor) :
    Forwarded I (Hook.Forward first) store.stream job.cursor store' result :=
  ((Machine.finishes_iff_counted job).mp h).forwarded hI hadvance hs hr hj hc

end

namespace Machine

variable [Source σ τ] [Position π τ] {upkeep : Upkeep τ π ρ ω} {store store' : Store σ τ π ρ}
variable {control control' : Control τ π ρ ω}

theorem becomes_of_path (h : Path upkeep store control store' control') : store.stream.Becomes store'.stream := by
  induction h with
  | refl => exact .refl
  | cons hm _ ih =>
    obtain ⟨fuel, hs⟩ := hm
    rcases stays_or_moves_of_step hs with hstays | ⟨-, events, ha⟩
    · exact hstays.stream ▸ ih
    · exact (TokenStream.Becomes.advancing .refl (TokenStream.advancing_of_advance ha)).trans ih

theorem later_of_path (h : Path upkeep store control store' control') : store.stream.Later store'.stream :=
  (becomes_of_path h).later

end Machine

namespace Hook

theorem cursor_commit (start : Cursor τ π) (reply : Reply τ π α) :
    (commit start reply).cursor = start ∨ (commit start reply).cursor = reply.cursor := by
  cases reply with
  | failure fault =>
    simp only [commit]
    split <;> exact .inr rfl
  | success | abort => exact .inr rfl

variable [Source σ τ] [Position π τ] {first : TokenStream σ τ}

/-- A hook that answers at its start or at the place of the reply goes forward. -/
theorem forward_of_cursor {hook : Hook τ π α β}
    (h : ∀ start reply, (hook start reply).cursor = start ∨ (hook start reply).cursor = reply.cursor) :
    hook.Forward first := by
  intro s _ start reply hreaches
  rcases h start reply with heq | heq
  · rw [heq]
    exact .refl hreaches.placed
  · rw [heq]
    exact hreaches

theorem forward_lookAhead : (lookAhead : Hook τ π α α).Forward first := by
  apply forward_of_cursor
  intro start reply
  cases reply with
  | success => exact .inl rfl
  | failure | abort => exact .inr rfl

theorem forward_not : (not : Hook τ π α Unit).Forward first := by
  apply forward_of_cursor
  intro start reply
  cases reply with
  | success | failure => exact .inl rfl
  | abort => exact .inr rfl

theorem forward_guarded (test : α → Bool) : (guarded test : Hook τ π α α).Forward first := by
  apply forward_of_cursor
  intro start reply
  cases reply with
  | success value c =>
    simp only [guarded]
    split
    · exact .inr rfl
    · exact .inl rfl
  | failure | abort => exact .inr rfl

theorem forward_label (message : String) : (label message : Hook τ π α α).Forward first := by
  apply forward_of_cursor
  intro start reply
  cases reply <;> exact .inr rfl

theorem forward_required : (required : Hook τ π α α).Forward first := by
  apply forward_of_cursor
  intro start reply
  cases reply <;> exact .inr rfl

theorem forward_commit : (commit : Hook τ π α α).Forward first := forward_of_cursor cursor_commit

theorem forward_recover : (recover : Hook τ π α α).Forward first := by
  apply forward_of_cursor
  intro start reply
  cases reply <;> exact .inr rfl

theorem forward_consuming : (consuming : Hook τ π α α).Forward first := by
  apply forward_of_cursor
  intro start reply
  cases reply with
  | success value c =>
    simp only [consuming]
    split <;> exact .inr rfl
  | failure | abort => exact .inr rfl

end Hook

namespace Parser

variable [Source σ τ] [LawfulSource σ τ] [Position π τ] {p : Parser τ π ρ α} {store last : Store σ τ π ρ}
variable {c d : Cursor τ π} {fuel : Nat}

theorem evaluates_of_run {result : Outcome τ π α} (h : p.run fuel store c = some ⟨last, result⟩) :
    Evaluates .counted [] store (.run p c) last result :=
  (Machine.finishes_iff_counted (k := .nil) (.run p c)).mp (Machine.leaves_of_run h)

theorem eq_of_lookAhead {value : α} (h : p.lookAhead.run fuel store c = some ⟨last, .ok (.success value d)⟩) :
    d = c := by
  have heval := evaluates_of_run h
  generalize hresult : (Except.ok (.success value d) : Outcome τ π α) = result at heval
  cases heval with
  | reshape =>
    obtain ⟨reply, -, heq⟩ := Outcome.eq_of_map hresult.symm
    cases reply <;> cases heq
    rfl

theorem eq_of_not (h : p.not.run fuel store c = some ⟨last, .ok (.success () d)⟩) : d = c := by
  have heval := evaluates_of_run h
  generalize hresult : (Except.ok (.success () d) : Outcome τ π Unit) = result at heval
  cases heval with
  | reshape =>
    obtain ⟨reply, -, heq⟩ := Outcome.eq_of_map hresult.symm
    cases reply <;> cases heq
    rfl

/-- Every reply, of whatever kind, is at the place where the parser began or some tokens behind it, so that positions
do not go back; a match without consuming is at that place itself. -/
theorem replies_reach (ht : store.stream.Tidy) (hc : store.stream.Placed c)
    (hr : store.rules.Hooked (Hook.Forward store.stream)) (hp : p.Hooked (Hook.Forward store.stream)) :
    (∀ fuel last reply, p.run fuel store c = some ⟨last, .ok reply⟩ →
      store.stream.Later last.stream ∧
      (∃ count, ∀ fuel, last.stream.advanceBy fuel c count = some ⟨last.stream, .ok reply.cursor, #[]⟩) ∧
      ∀ le : π → π → Prop, (∀ q, le q q) → (∀ q q' q'', le q q' → le q' q'' → le q q'') →
        (∀ i, last.stream.indexOf c ≤ i → i < last.stream.indexOf reply.cursor →
          le (positionAt last.stream.tokens i) (positionAt last.stream.tokens (i + 1))) →
        le c.position reply.cursor.position) ∧
    (∀ {β : Type} (q : Parser τ π ρ β) fuel last d,
      (∀ value, q.lookAhead.run fuel store c = some ⟨last, .ok (.success value d)⟩ → d = c) ∧
      (q.not.run fuel store c = some ⟨last, .ok (.success () d)⟩ → d = c)) ∧
    ∀ {β : Type} (q : Parser τ π ρ β), q.Hooked (Hook.Forward store.stream) →
      q.lookAhead.Hooked (Hook.Forward store.stream) ∧ q.not.Hooked (Hook.Forward store.stream) ∧
      (∀ test, (q.guarded test).Hooked (Hook.Forward store.stream)) ∧
      (∀ message, (q.label message).Hooked (Hook.Forward store.stream)) ∧
      q.required.Hooked (Hook.Forward store.stream) ∧ q.commit.Hooked (Hook.Forward store.stream) ∧
      q.recover.Hooked (Hook.Forward store.stream) ∧ q.consuming.Hooked (Hook.Forward store.stream) := by
  refine ⟨?_, ?_, ?_⟩
  · intro fuel last reply hrun
    have hforward := (evaluates_of_run hrun).forwarded (fun s hs => hs) (fun s d access hs => hs.advancing) .refl hr hp hc
    have htidy : last.stream.Tidy := hforward.stream.tidy ht
    have hreaches := hforward.reaches reply rfl
    refine ⟨hforward.later, ⟨_, fun fuel => hreaches.advanceBy htidy fuel⟩, ?_⟩
    intro le hrefl htrans hstep
    exact hreaches.position_le hrefl htrans hstep
  · intro β q fuel last d
    exact ⟨fun value => eq_of_lookAhead, eq_of_not⟩
  · intro β q hq
    exact ⟨.reshape hq Hook.forward_lookAhead, .reshape hq Hook.forward_not,
      fun test => .reshape hq (Hook.forward_guarded test), fun message => .reshape hq (Hook.forward_label message),
      .reshape hq Hook.forward_required, .reshape hq Hook.forward_commit, .reshape hq Hook.forward_recover,
      .reshape hq Hook.forward_consuming⟩

/-- Items that differ from 9, each looked at before it is consumed. -/
def itemsBeforeNine : Parser Nat LinearPosition Unit (Array Nat) :=
  ((any.guarded (· != 9)).lookAhead.keepRight any.consuming).many1.commit

/-- A reply in a chunk that is read on the way. -/
theorem replies_reach_items :
    let stream : TokenStream (Items Nat) Nat := ⟨#[#[4, 7]], ⟨[some 5, some 9], 2⟩, true, 2, 1⟩
    let store : Store (Items Nat) Nat LinearPosition Unit := .ofStream stream .empty
    ∃ last value d, itemsBeforeNine.run 60 store stream.start = some ⟨last, .ok (.success value d)⟩ ∧
      ∃ count, last.stream.advanceBy 0 stream.start count = some ⟨last.stream, .ok d, #[]⟩ := by
  intro stream store
  have hopen : TokenStream.openSource 0 (Items.ofList [4, 7, 5, 9]) 2 =
      some ⟨stream, .ok (), #[.chunkRead 0 2]⟩ := rfl
  obtain ⟨htidy, hsize⟩ := Session.tidy_of_openSource hopen
  have hplaced : store.stream.Placed (stream.start : Cursor Nat LinearPosition) :=
    TokenStream.placed_start (Nat.lt_of_lt_of_eq Nat.one_pos hsize.symm)
  have hrules : store.rules.Hooked (Hook.Forward store.stream) := by
    intro entry hmem
    simp [store, Store.ofStream, Rules.empty] at hmem
  have hany : (any : Parser Nat LinearPosition Unit Nat).Hooked (Hook.Forward store.stream) := .leaf trivial
  have hnone : (pure #[] : Parser Nat LinearPosition Unit (Array Nat)).Hooked (Hook.Forward store.stream) :=
    .leaf trivial
  have hitems : itemsBeforeNine.Hooked (Hook.Forward store.stream) := by
    refine .reshape (.loop hnone (.zipWith ?_ ?_)) Hook.forward_commit
    · exact .reshape (.reshape hany (Hook.forward_guarded _)) Hook.forward_lookAhead
    · exact .reshape hany Hook.forward_consuming
  have hrun : ∃ last value d, itemsBeforeNine.run 60 store stream.start = some ⟨last, .ok (.success value d)⟩ :=
    ⟨_, _, _, rfl⟩
  obtain ⟨last, value, d, hrun⟩ := hrun
  obtain ⟨-, ⟨count, hcount⟩, -⟩ := (replies_reach htidy hplaced hrules hitems).1 60 last _ hrun
  exact ⟨last, value, d, hrun, count, hcount 0⟩

end Parser

end StreamParsing
