import Mathlib.Logic.Relation
import StreamParsing.Proofs.Machine.Steps
import StreamParsing.Proofs.Stream.Places

/-!
Sessions: a stream together with all cursors obtained from it. A session is used by moving cursors, by one token or
by several, by collecting what remains, and by running parsers. Whatever is done, cursors only move over one token
at a time, and this module shows every use to be a series of such moves. Moves keep every cursor in its place.
-/

namespace StreamParsing

set_option autoImplicit false

universe u

variable {σ : Type u} {τ π ρ α β ω : Type}

structure Session (σ : Type u) (τ π : Type) where
  stream : TokenStream σ τ
  cursors : List (Cursor τ π)

namespace TokenStream

variable [Source σ τ] [Position π τ]

def passedBy (fuel : Nat) (s : TokenStream σ τ) (c : Cursor τ π) : Nat → List (Cursor τ π)
  | 0 => []
  | count + 1 =>
    if c.hasToken then
      match s.advance fuel c with
      | some ⟨s, .ok c, _⟩ => c :: s.passedBy fuel c count
      | _ => []
    else []

def passedToEnd (fuel : Nat) (s : TokenStream σ τ) (c : Cursor τ π) : List (Cursor τ π) :=
  match fuel with
  | 0 => []
  | fuel + 1 =>
    if c.hasToken then
      match s.advance fuel c with
      | some ⟨s, .ok c, _⟩ => c :: s.passedToEnd fuel c
      | _ => []
    else []

end TokenStream

def Stack.marks {α ω : Type} : Stack τ π ρ α ω → List (Cursor τ π)
  | .nil => []
  | .cons frame rest => frame.marks ++ rest.marks

namespace Machine

namespace Control

def place : Control τ π ρ ω → Cursor τ π
  | eval _ c _ => c
  | back reply _ => reply.cursor

def marks : Control τ π ρ ω → List (Cursor τ π)
  | eval _ _ k => k.marks
  | back _ k => k.marks

/-- The cursor that a hook is about to answer with. -/
def answer? : Control τ π ρ ω → Option (Cursor τ π)
  | back reply (.cons (.reshape hook start) _) => some (hook start reply).cursor
  | _ => none

end Control

variable [Source σ τ] [Position π τ]

/-- The cursors that a run goes through, after the one it stands at. -/
def passed (fuel : Nat) (store : Store σ τ π ρ) (control : Control τ π ρ ω) : List (Cursor τ π) :=
  match fuel with
  | 0 => []
  | fuel + 1 =>
    match step .counted fuel store control with
    | .next store control => control.place :: passed fuel store control
    | _ => []

/-- The hooks of a run answer with cursors of the stream that were obtained before. -/
def Unforged (fuel : Nat) (obtained : List (Cursor τ π)) (store : Store σ τ π ρ) (control : Control τ π ρ ω) :
    Prop :=
  match fuel with
  | 0 => True
  | fuel + 1 =>
    (∀ c ∈ control.answer?, c ∈ obtained) ∧
      match step .counted fuel store control with
      | .next store control => Unforged fuel (obtained ++ [control.place]) store control
      | _ => True

end Machine

namespace Session

variable [Source σ τ] [Position π τ]

/-- A cursor is kept once more, or moved over one token. -/
inductive Move : Session σ τ π → Session σ τ π → Prop where
  | copied {s : TokenStream σ τ} {cs : List (Cursor τ π)} {c : Cursor τ π} (hc : c ∈ cs) :
      Move ⟨s, cs⟩ ⟨s, cs ++ [c]⟩
  | advanced {s s' : TokenStream σ τ} {cs : List (Cursor τ π)} {c c' : Cursor τ π} {fuel : Nat}
      {events : Array Event} (hc : c ∈ cs) (h : s.advance fuel c = some ⟨s', .ok c', events⟩) :
      Move ⟨s, cs⟩ ⟨s', cs ++ [c']⟩
  | failed {s s' : TokenStream σ τ} {cs : List (Cursor τ π)} {c : Cursor τ π} {fuel : Nat} {e : ReadError}
      {events : Array Event} (hc : c ∈ cs) (h : s.advance fuel c = some ⟨s', .error e, events⟩) :
      Move ⟨s, cs⟩ ⟨s', cs⟩

/-- One use of a stream at a cursor obtained before. All cursors that it goes through are obtained by it. -/
inductive Use : Session σ τ π → Session σ τ π → Prop where
  | advance {s : TokenStream σ τ} {cs : List (Cursor τ π)} {c : Cursor τ π} {fuel : Nat}
      {access : Access σ τ (Cursor τ π)} (hc : c ∈ cs) (h : s.advance fuel c = some access) :
      Use ⟨s, cs⟩ ⟨access.stream, cs ++ access.result.toOption.toList⟩
  | advanceBy {s : TokenStream σ τ} {cs : List (Cursor τ π)} {c : Cursor τ π} {fuel count : Nat}
      {access : Access σ τ (Cursor τ π)} (hc : c ∈ cs) (h : s.advanceBy fuel c count = some access) :
      Use ⟨s, cs⟩ ⟨access.stream, cs ++ s.passedBy fuel c count⟩
  | remaining {s : TokenStream σ τ} {cs : List (Cursor τ π)} {c : Cursor τ π} {fuel : Nat}
      {access : Access σ τ (Array τ)} (hc : c ∈ cs) (h : s.remaining fuel c = some access) :
      Use ⟨s, cs⟩ ⟨access.stream, cs ++ s.passedToEnd fuel c⟩
  | run {ρ α : Type} {s : TokenStream σ τ} {cs : List (Cursor τ π)} {c : Cursor τ π} {fuel : Nat}
      {p : Parser τ π ρ α} {rules : Rules τ π ρ} {log : Array Event} {finish : Machine.Finish σ τ π ρ α}
      (hc : c ∈ cs) (h : p.run fuel ⟨s, rules, log⟩ c = some finish)
      (hu : Machine.Unforged fuel cs ⟨s, rules, log⟩ (.eval p c .nil)) :
      Use ⟨s, cs⟩ ⟨finish.store.stream, cs ++ Machine.passed fuel ⟨s, rules, log⟩ (.eval p c .nil)⟩

/-- The session is what some uses make of a stream whose first cursor is its start. -/
def Continues (first : TokenStream σ τ) (a : Session σ τ π) : Prop :=
  Relation.ReflTransGen Use ⟨first, [first.start]⟩ a

/-- The session is what some uses make of a stream opened over `source`. -/
def Opened (source : σ) (size : Nat) (a : Session σ τ π) : Prop :=
  ∃ fuel first events, TokenStream.openSource fuel source size = some ⟨first, .ok (), events⟩ ∧
    Continues first a

abbrev Moves : Session σ τ π → Session σ τ π → Prop := Relation.ReflTransGen Move

theorem moves_of_advanceBy {s : TokenStream σ τ} {cs : List (Cursor τ π)} {c : Cursor τ π} {fuel count : Nat}
    {events : Array Event} {access : Access σ τ (Cursor τ π)} (hc : c ∈ cs)
    (h : s.advanceByAfter fuel c events count = some access) :
    Moves ⟨s, cs⟩ ⟨access.stream, cs ++ s.passedBy fuel c count⟩ := by
  induction count generalizing s cs c events with
  | zero =>
    cases h
    simpa [TokenStream.passedBy] using Relation.ReflTransGen.refl
  | succ count ih =>
    cases ht : c.hasToken with
    | false =>
      simp only [TokenStream.advanceByAfter, ht] at h
      cases h
      simpa [TokenStream.passedBy, ht] using Relation.ReflTransGen.refl
    | true =>
      rcases ha : s.advance fuel c with _ | ⟨s', e | c', more⟩
      · simp [TokenStream.advanceByAfter, ht, ha] at h
      · simp only [TokenStream.advanceByAfter, ht, ha, if_true] at h
        cases h
        simpa [TokenStream.passedBy, ht, ha] using Relation.ReflTransGen.single (Move.failed hc ha)
      · simp only [TokenStream.advanceByAfter, ht, ha, if_true] at h
        have hc' : c' ∈ cs ++ [c'] := by simp
        have hrest := ih hc' h
        simpa [TokenStream.passedBy, ht, ha] using Relation.ReflTransGen.head (Move.advanced hc ha) hrest

theorem moves_of_remaining {s : TokenStream σ τ} {cs : List (Cursor τ π)} {c : Cursor τ π} {fuel : Nat}
    {found : Array τ} {events : Array Event} {access : Access σ τ (Array τ)} (hc : c ∈ cs)
    (h : s.remainingAfter fuel c found events = some access) :
    Moves ⟨s, cs⟩ ⟨access.stream, cs ++ s.passedToEnd fuel c⟩ := by
  induction fuel generalizing s cs c found events with
  | zero => simp [TokenStream.remainingAfter] at h
  | succ fuel ih =>
    cases ht : c.current with
    | none =>
      simp only [TokenStream.remainingAfter, ht] at h
      cases h
      simpa [TokenStream.passedToEnd, Cursor.hasToken, ht] using Relation.ReflTransGen.refl
    | some t =>
      rcases ha : s.advance fuel c with _ | ⟨s', e | c', more⟩
      · simp [TokenStream.remainingAfter, ht, ha] at h
      · simp only [TokenStream.remainingAfter, ht, ha] at h
        cases h
        simpa [TokenStream.passedToEnd, Cursor.hasToken, ht, ha] using
          Relation.ReflTransGen.single (Move.failed hc ha)
      · simp only [TokenStream.remainingAfter, ht, ha] at h
        have hc' : c' ∈ cs ++ [c'] := by simp
        have hrest := ih hc' h
        simpa [TokenStream.passedToEnd, Cursor.hasToken, ht, ha] using
          Relation.ReflTransGen.head (Move.advanced hc ha) hrest

end Session

namespace Machine

section

variable {store store' : Store σ τ π ρ} {control control' : Control τ π ρ ω}

/-- A step that reads nothing goes on at a cursor that was there, or at the answer of a hook. -/
structure Stays (store : Store σ τ π ρ) (control : Control τ π ρ ω) (store' : Store σ τ π ρ)
    (control' : Control τ π ρ ω) : Prop where
  stream : store'.stream = store.stream
  marks : ∀ c ∈ control'.marks, c = control.place ∨ c ∈ control.marks
  place : control'.place = control.place ∨ control'.place ∈ control.marks ∨
    control.answer? = some control'.place

theorem stays_of_resume [Position π τ] {frame : Frame τ π ρ α β} {reply : Reply τ π α} {k : Stack τ π ρ β ω}
    (h : resume store frame reply k = .next store' control') :
    Stays store (.back reply (.cons frame k)) store' control' := by
  obtain ⟨log, between, heq, hresumed⟩ := exists_resumed frame reply k
  rw [heq] at h
  cases h
  have below (c : Cursor τ π) (hc : c ∈ k.marks) : c = reply.cursor ∨ c ∈ frame.marks ++ k.marks :=
    .inr (List.mem_append_right _ hc)
  have recalled {c : Cursor τ π} (hc : frame.Recalls reply c) : c = reply.cursor ∨ c ∈ frame.marks ++ k.marks :=
    hc.imp_right (List.mem_append_left _)
  cases hresumed with
  | back hc => exact ⟨rfl, below, (recalled hc).imp_right .inl⟩
  | hook hf =>
    subst hf
    exact ⟨rfl, below, .inr (.inr rfl)⟩
  | eval hc _ => exact ⟨rfl, below, (recalled hc).imp_right .inl⟩
  | push hc hm _ =>
    refine ⟨rfl, ?_, (recalled hc).imp_right .inl⟩
    intro d hd
    rcases List.mem_append.mp hd with hd | hd
    · exact recalled (hm d hd)
    · exact below d hd

end

variable [Source σ τ] [Position π τ] {upkeep : Upkeep τ π ρ ω} {fuel : Nat} {store store' : Store σ τ π ρ}
variable {control control' : Control τ π ρ ω}

theorem Store.advance_of_access {c : Cursor τ π} {result : Except ReadError (Cursor τ π)}
    (h : store.access (·.advance fuel c) = some (store', result)) :
    ∃ events, store.stream.advance fuel c = some ⟨store'.stream, result, events⟩ := by
  simp only [Store.access, Option.map_eq_some_iff] at h
  obtain ⟨⟨stream, result, events⟩, ha, h⟩ := h
  cases h
  exact ⟨events, ha⟩

/-- A step reads nothing, or moves the cursor at which the run stands. -/
theorem stays_or_moves_of_step (h : step upkeep fuel store control = .next store' control') :
    Stays store control store' control' ∨
      (control'.marks = control.marks ∧
        ∃ events, store.stream.advance fuel control.place = some ⟨store'.stream, .ok control'.place, events⟩) := by
  cases control with
  | back reply k =>
    cases k with
    | nil => cases h
    | cons frame k => exact .inl (stays_of_resume h)
  | eval p c k =>
    have hentered := entered upkeep fuel store c p k
    rw [← step, h] at hentered
    cases hentered with
    | back hc => exact .inl ⟨rfl, fun d hd => .inr hd, .inl hc⟩
    | push hm _ =>
      refine .inl ⟨rfl, ?_, .inl rfl⟩
      intro d hd
      exact (List.mem_append.mp hd).imp_left (hm d)
    | rule | handle | draft => exact .inl ⟨rfl, fun d hd => .inr hd, .inl rfl⟩
    | taken _ ha => exact .inr ⟨rfl, Store.advance_of_access ha⟩

/-- A run breaks off where the cursor at which it stands cannot be moved. -/
theorem advance_of_broken {e : ReadError} (h : step upkeep fuel store control = .broken store' e) :
    ∃ events, store.stream.advance fuel control.place = some ⟨store'.stream, .error e, events⟩ := by
  cases control with
  | back reply k =>
    cases k with
    | nil => cases h
    | cons frame k =>
      obtain ⟨log, between, heq, -⟩ := exists_resumed frame reply k
      rw [step, heq] at h
      cases h
  | eval p c k =>
    have hentered := entered upkeep fuel store c p k
    rw [← step, h] at hentered
    cases hentered with
    | broken _ ha => exact Store.advance_of_access ha

end Machine

namespace Session

structure Sound [Position π τ] (a : Session σ τ π) : Prop where
  tidy : a.stream.Tidy
  placed : ∀ c ∈ a.cursors, a.stream.Placed c

theorem sound_start [Position π τ] {first : TokenStream σ τ} (ht : first.Tidy) (hne : 0 < first.chunks.size) :
    Sound (⟨first, [first.start]⟩ : Session σ τ π) := by
  refine ⟨ht, ?_⟩
  intro c hc
  obtain rfl := List.mem_singleton.mp hc
  exact TokenStream.placed_start hne

variable [Source σ τ] [Position π τ]

theorem moves_of_run {fuel : Nat} {store : Store σ τ π ρ} {control : Machine.Control τ π ρ ω}
    {cs : List (Cursor τ π)} {finish : Machine.Finish σ τ π ρ ω}
    (hp : control.place ∈ cs) (hm : ∀ c ∈ control.marks, c ∈ cs)
    (hu : Machine.Unforged fuel cs store control) (h : Machine.run .counted fuel store control = some finish) :
    Moves ⟨store.stream, cs⟩ ⟨finish.store.stream, cs ++ Machine.passed fuel store control⟩ := by
  -- The run stands at a cursor obtained before and can only go back to such cursors; every step keeps this.
  induction fuel generalizing store control cs with
  | zero => simp [Machine.run] at h
  | succ fuel ih =>
    rw [Machine.run] at h
    rw [Machine.passed]
    obtain ⟨hanswer, hu⟩ := hu
    cases hs : Machine.step .counted fuel store control with
    | starved => simp [hs] at h
    | done store' reply =>
      simp only [hs] at h
      cases h
      obtain ⟨-, rfl⟩ := Machine.control_of_done hs
      simpa using Relation.ReflTransGen.refl
    | broken store' e =>
      simp only [hs] at h
      cases h
      obtain ⟨events, ha⟩ := Machine.advance_of_broken hs
      simpa using Relation.ReflTransGen.single (Move.failed hp ha)
    | next store' control' =>
      simp only [hs] at h hu ⊢
      have hp' : control'.place ∈ cs ++ [control'.place] := by simp
      have hstep : Move ⟨store.stream, cs⟩ ⟨store'.stream, cs ++ [control'.place]⟩ ∧
          ∀ c ∈ control'.marks, c ∈ cs := by
        rcases Machine.stays_or_moves_of_step hs with hstay | ⟨hmarks, events, ha⟩
        · have hc : control'.place ∈ cs := by
            rcases hstay.place with heq | hmem | hhook
            · exact heq ▸ hp
            · exact hm _ hmem
            · exact hanswer _ hhook
          refine ⟨hstay.stream ▸ .copied hc, ?_⟩
          intro c hc'
          rcases hstay.marks c hc' with rfl | hmem
          · exact hp
          · exact hm c hmem
        · exact ⟨.advanced hp ha, hmarks ▸ hm⟩
      have hrest := ih hp' (fun c hc => List.mem_append_left _ (hstep.2 c hc)) hu h
      simpa using Relation.ReflTransGen.head hstep.1 hrest

theorem moves_of_use {a b : Session σ τ π} (h : Use a b) : Moves a b := by
  cases h with
  | @advance s cs c fuel access hc h =>
    obtain ⟨s', e | c', events⟩ := access
    · simpa [Except.toOption] using Relation.ReflTransGen.single (Move.failed hc h)
    · exact .single (.advanced hc h)
  | advanceBy hc h => exact moves_of_advanceBy hc h
  | remaining hc h => exact moves_of_remaining hc h
  | run hc h hu => exact moves_of_run hc (by simp [Machine.Control.marks, Stack.marks]) hu h

theorem moves_of_continues {first : TokenStream σ τ} {a : Session σ τ π} (h : Continues first a) :
    Moves ⟨first, [first.start]⟩ a := by
  induction h with
  | refl => exact .refl
  | tail _ huse ih => exact ih.trans (moves_of_use huse)

theorem Sound.move {a b : Session σ τ π} (h : Sound a) (hm : Move a b) : Sound b := by
  cases hm with
  | copied hc =>
    refine ⟨h.tidy, ?_⟩
    intro d hd
    rcases List.mem_append.mp hd with hd | hd
    · exact h.placed d hd
    · exact h.placed d (List.mem_singleton.mp hd ▸ hc)
  | advanced hc ha =>
    have hadv := TokenStream.advancing_of_advance ha
    refine ⟨hadv.tidy h.tidy, ?_⟩
    intro d hd
    rcases List.mem_append.mp hd with hd | hd
    · exact (h.placed d hd).extend hadv.grows
    · obtain rfl := List.mem_singleton.mp hd
      exact hadv.placed (h.placed _ hc)
  | failed hc ha =>
    have hadv := TokenStream.advancing_of_advance ha
    exact ⟨hadv.tidy h.tidy, fun d hd => (h.placed d hd).extend hadv.grows⟩

theorem Sound.moves {a b : Session σ τ π} (h : Sound a) (hm : Moves a b) : Sound b := by
  induction hm with
  | refl => exact h
  | tail _ hmove ih => exact ih.move hmove

theorem later_of_moves {a b : Session σ τ π} (hm : Moves a b) : a.stream.Later b.stream := by
  induction hm with
  | refl => exact .refl _
  | tail _ hmove ih =>
    refine ih.trans ?_
    cases hmove with
    | copied => exact .refl _
    | advanced hc ha => exact (TokenStream.advancing_of_advance ha).later
    | failed hc ha => exact (TokenStream.advancing_of_advance ha).later

/-- A stream that was just opened has one chunk. -/
theorem tidy_of_openSource {fuel size : Nat} {source : σ} {first : TokenStream σ τ} {events : Array Event}
    (h : TokenStream.openSource fuel source size = some ⟨first, .ok (), events⟩) :
    first.Tidy ∧ first.chunks.size = 1 := by
  have hr := TokenStream.reading_of_readChunk h
  exact ⟨hr.tidy (by simp [TokenStream.Tidy, TokenStream.layout, TokenStream.unread]), hr.size_of_ok⟩

theorem sound_of_opened {source : σ} {size : Nat} {a : Session σ τ π} (h : Opened source size a) : Sound a := by
  obtain ⟨fuel, first, events, hopen, hcont⟩ := h
  obtain ⟨htidy, hsize⟩ := tidy_of_openSource hopen
  exact (sound_start htidy (by omega)).moves (moves_of_continues hcont)

end Session

end StreamParsing
