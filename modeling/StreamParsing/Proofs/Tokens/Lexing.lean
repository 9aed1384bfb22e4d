import StreamParsing.Proofs.Machine.Reports
import StreamParsing.Proofs.Stream.Delivery

/-!
The lexer run again and again from where it last stopped. A tokenizer that is asked for tokens does just this: what it
gives are the values of the next runs, cut off where the stream below ends or where a run gives no value.
-/

namespace StreamParsing

set_option autoImplicit false

universe u

namespace Tokenizer

variable {σ : Type u} {τ π ρ ω : Type} [Source σ τ] [Position π τ] [Described τ] [Described π]

/-- What a run of the lexer from `c` gives: a value and the place behind it, or the error of a run that cannot read,
does not match or does not move on. -/
def verdict (c : Cursor τ π) : Except ReadError (Reply τ π ω) → Except ReadError (ω × Cursor τ π)
  | .error e => .error e
  | .ok (.success value after) =>
    if after.same c then .error (.unlexable ("lexer consumed no input at " ++ describe after.position))
    else .ok (value, after)
  | .ok reply => .error (.unlexable (reply.describe fun _ => ""))

/-- The end of one run of the lexer; with a value the tokenizer has moved on. -/
structure Lexing (σ : Type u) (τ π ρ ω : Type) : Type (max u 1) where
  tokenizer : Tokenizer σ τ π ρ ω
  result : Except ReadError ω
  events : Array Event

def lex (fuel : Nat) (t : Tokenizer σ τ π ρ ω) : Option (Lexing σ τ π ρ ω) :=
  (t.lexer.run fuel (.ofStream t.stream t.rules) t.cursor).map fun ⟨⟨stream, rules, log⟩, result⟩ =>
    match verdict t.cursor result with
    | .ok (value, after) => ⟨⟨stream, rules, after, t.lexer⟩, .ok value, log⟩
    | .error e => ⟨⟨stream, rules, t.cursor, t.lexer⟩, .error e, log⟩

variable {fuel fuel' count : Nat} {t t' mid : Tokenizer σ τ π ρ ω}

/-- A tokenizer that is asked for tokens runs the lexer once and goes on from there. -/
theorem next_succ (fuel count : Nat) (t : Tokenizer σ τ π ρ ω) (buffer : Array ω) (events : Array Event) :
    t.next fuel buffer events (count + 1) =
      if t.cursor.hasToken then
        match t.lex fuel with
        | none => none
        | some ⟨t', .ok value, more⟩ => t'.next fuel (buffer.push value) (events ++ more) count
        | some ⟨t', .error e, more⟩ => some ⟨t', buffer, .error e, events ++ more⟩
      else some ⟨t, buffer, .ok (), events.push (.lexedAll (Position.place τ t.cursor.position))⟩ := by
  obtain ⟨stream, rules, cursor, lexer⟩ := t
  have hrun : lexer.run fuel ⟨stream, rules, events⟩ cursor =
      (lexer.run fuel (.ofStream stream rules) cursor).map (Machine.Finish.after events) :=
    Machine.run_after events fuel (.ofStream stream rules) _
  simp only [next, lex, hrun]
  split
  · rcases lexer.run fuel (.ofStream stream rules) cursor with _ | ⟨⟨stream', rules', log⟩, e | reply⟩
    · rfl
    · rfl
    · cases reply with
      | success value after =>
        cases hsame : after.same cursor <;> simp [Machine.Finish.after, Store.after, verdict, hsame]
      | failure | abort => rfl
  · rfl

theorem lex_of_le [LawfulSource σ τ] {lexing : Lexing σ τ π ρ ω} (h : fuel ≤ fuel') (hl : t.lex fuel = some lexing) :
    t.lex fuel' = some lexing := by
  simp only [lex, Option.map_eq_some_iff] at hl ⊢
  obtain ⟨finish, hrun, heq⟩ := hl
  exact ⟨finish, Machine.run_of_le h hrun, heq⟩

structure Lexeme (σ : Type u) (τ π ρ ω : Type) : Type (max u 1) where
  before : Tokenizer σ τ π ρ ω
  value : ω
  after : Tokenizer σ τ π ρ ω

/-- The lexer runs again and again, each time with a value. -/
inductive Lexes : Tokenizer σ τ π ρ ω → List (Lexeme σ τ π ρ ω) → Tokenizer σ τ π ρ ω → Prop where
  | nil (t : Tokenizer σ τ π ρ ω) : Lexes t [] t
  | cons {t mid t' : Tokenizer σ τ π ρ ω} {fuel : Nat} {value : ω} {events : Array Event}
      {lexemes : List (Lexeme σ τ π ρ ω)} (ht : t.cursor.hasToken = true)
      (hl : t.lex fuel = some ⟨mid, .ok value, events⟩) (h : Lexes mid lexemes t') :
      Lexes t (⟨t, value, mid⟩ :: lexemes) t'

/-- The next run of the lexer gives no value, and `e` is the error that stands for it. -/
def Stops (t : Tokenizer σ τ π ρ ω) (e : ReadError) : Prop :=
  t.cursor.hasToken = true ∧ ∃ fuel t' events, t.lex fuel = some ⟨t', .error e, events⟩

/-- The runs of the lexer are over: the stream below is at its end, or the next run gives no value. -/
def Ends (t : Tokenizer σ τ π ρ ω) : Option ReadError → Prop
  | none => t.cursor.hasToken = false
  | some e => t.Stops e

/-- Where the lexer is run when up to `count` tokens are asked for. -/
def attempts (fuel : Nat) (t : Tokenizer σ τ π ρ ω) : Nat → List (Tokenizer σ τ π ρ ω)
  | 0 => []
  | count + 1 =>
    if t.cursor.hasToken then
      t :: match t.lex fuel with
        | some ⟨t', .ok _, _⟩ => t'.attempts fuel count
        | _ => []
    else []

/-- What asking for up to `count` tokens gives, and where the lexer is run for them. -/
inductive Filling (t : Tokenizer σ τ π ρ ω) (buffer : Array ω) (count : Nat) :
    List (Tokenizer σ τ π ρ ω) → Fill (Tokenizer σ τ π ρ ω) ω → Prop where
  | enough {t' : Tokenizer σ τ π ρ ω} {lexemes : List (Lexeme σ τ π ρ ω)} {events : Array Event}
      (h : t.Lexes lexemes t') (hle : lexemes.length ≤ count)
      (hfull : t'.cursor.hasToken = true → lexemes.length = count) :
      Filling t buffer count (lexemes.map Lexeme.before)
        ⟨t', buffer ++ (lexemes.map Lexeme.value).toArray, .ok (), events⟩
  | stopped {t' source : Tokenizer σ τ π ρ ω} {lexemes : List (Lexeme σ τ π ρ ω)} {buffer' : Array ω} {e : ReadError}
      {events : Array Event} (h : t.Lexes lexemes t') (hlt : lexemes.length < count)
      (he : t'.Ends (some e)) :
      Filling t buffer count (lexemes.map Lexeme.before ++ [t']) ⟨source, buffer', .error e, events⟩

theorem filling_of_next {buffer : Array ω} {events : Array Event} {fill : Fill (Tokenizer σ τ π ρ ω) ω}
    (h : t.next fuel buffer events count = some fill) : t.Filling buffer count (t.attempts fuel count) fill := by
  induction count generalizing t buffer events with
  | zero =>
    cases h
    simpa [attempts] using Filling.enough (.nil t) (Nat.le_refl 0) fun _ => rfl
  | succ count ih =>
    rw [next_succ] at h
    cases ht : t.cursor.hasToken with
    | false =>
      simp only [ht] at h
      cases h
      simpa [attempts, ht] using Filling.enough (.nil t) (Nat.zero_le _) (by simp [ht])
    | true =>
      rcases hl : t.lex fuel with _ | ⟨mid, e | value, more⟩
      · simp [ht, hl] at h
      · simp only [ht, hl, if_true] at h
        cases h
        have hstops : t.Stops e := ⟨ht, fuel, mid, more, hl⟩
        simpa [attempts, ht, hl] using Filling.stopped (.nil t) (Nat.zero_lt_succ _) hstops
      · simp only [ht, hl, if_true] at h
        have hrest := ih h
        simp only [attempts, ht, hl, if_true]
        generalize mid.attempts fuel count = runs at hrest
        cases hrest with
        | enough hlexes hle hfull =>
          simpa using Filling.enough (.cons ht hl hlexes) (Nat.succ_le_succ hle) fun h' => congrArg Nat.succ (hfull h')
        | stopped hlexes hlt he =>
          exact Filling.stopped (.cons ht hl hlexes) (Nat.succ_lt_succ hlt) he

theorem exists_next {lexemes : List (Lexeme σ τ π ρ ω)} [LawfulSource σ τ] (h : t.Lexes lexemes t')
    (hend : count ≤ lexemes.length ∨ ∃ ending, t'.Ends ending) (buffer : Array ω) (events : Array Event) :
    ∃ fuel fill, t.next fuel buffer events count = some fill := by
  induction h generalizing count buffer events with
  | nil t =>
    cases count with
    | zero => exact ⟨0, _, rfl⟩
    | succ count =>
      rcases hend with hlen | ⟨_ | e, hend⟩
      · cases hlen
      · refine ⟨0, ?_⟩
        rw [next_succ, if_neg (by simp [show t.cursor.hasToken = false from hend])]
        exact ⟨_, rfl⟩
      · obtain ⟨ht, fuel, t', more, hl⟩ := hend
        refine ⟨fuel, ?_⟩
        rw [next_succ, ht, hl]
        exact ⟨_, rfl⟩
  | @cons t mid t' fuel value more lexemes ht hl _ ih =>
    cases count with
    | zero => exact ⟨0, _, rfl⟩
    | succ count =>
      obtain ⟨fuel', fill, hnext⟩ := ih (hend.imp_left Nat.le_of_succ_le_succ) (buffer.push value) (events ++ more)
      refine ⟨max fuel fuel', fill, ?_⟩
      rw [next_succ, ht, lex_of_le (Nat.le_max_left ..) hl]
      exact next_of_le (Nat.le_max_right ..) hnext

variable [LawfulSource σ τ] {lexemes : List (Lexeme σ τ π ρ ω)}

theorem lex_unique {lexing lexing' : Lexing σ τ π ρ ω} (h : t.lex fuel = some lexing)
    (h' : t.lex fuel' = some lexing') : lexing = lexing' := by
  have hmax := lex_of_le (Nat.le_max_left fuel fuel') h
  have hmax' := lex_of_le (Nat.le_max_right fuel fuel') h'
  rw [hmax] at hmax'
  exact Option.some.inj hmax'

theorem Ends.not_lexes {ending : Option ReadError} {lexeme : Lexeme σ τ π ρ ω} (h : t.Ends ending) :
    ¬ t.Lexes (lexeme :: lexemes) t' := by
  intro hlexes
  cases hlexes with
  | cons ht hl =>
    cases ending with
    | none => simp [show t.cursor.hasToken = false from h] at ht
    | some e =>
      obtain ⟨-, fuel, s, events, hl'⟩ := h
      cases lex_unique hl hl'

theorem Ends.unique {ending ending' : Option ReadError} (h : t.Ends ending) (h' : t.Ends ending') :
    ending = ending' := by
  cases ending with
  | none =>
    cases ending' with
    | none => rfl
    | some e =>
      have ht := h'.1
      rw [show t.cursor.hasToken = false from h] at ht
      cases ht
  | some e =>
    cases ending' with
    | none =>
      have ht := h.1
      rw [show t.cursor.hasToken = false from h'] at ht
      cases ht
    | some e' =>
      obtain ⟨-, fuel, s, events, hl⟩ := h
      obtain ⟨-, fuel', s', events', hl'⟩ := h'
      cases lex_unique hl hl'
      rfl

/-- Where the runs are over in the end, any others from the same start are the first of them. -/
theorem Lexes.split {lexemes' : List (Lexeme σ τ π ρ ω)} {ending : Option ReadError} (h : t.Lexes lexemes t')
    (hend : t'.Ends ending) (h' : t.Lexes lexemes' mid) : ∃ rest, lexemes = lexemes' ++ rest ∧ mid.Lexes rest t' := by
  induction h' generalizing lexemes with
  | nil t => exact ⟨lexemes, rfl, h⟩
  | @cons t next mid fuel value events lexemes' ht hl _ ih =>
    cases h with
    | nil => exact absurd (.cons ht hl (.nil next)) hend.not_lexes
    | cons ht' hl' hrest =>
      cases lex_unique hl hl'
      obtain ⟨rest, rfl, hmid⟩ := ih hrest
      exact ⟨rest, rfl, hmid⟩

theorem Lexes.unique {lexemes' : List (Lexeme σ τ π ρ ω)} {ending ending' : Option ReadError} (h : t.Lexes lexemes t')
    (hend : t'.Ends ending) (h' : t.Lexes lexemes' mid) (hend' : mid.Ends ending') :
    lexemes = lexemes' ∧ mid = t' ∧ ending = ending' := by
  obtain ⟨rest, rfl, hrest⟩ := h.split hend h'
  cases hrest with
  | nil => exact ⟨List.append_nil _, rfl, hend.unique hend'⟩
  | cons ht hl hrest => exact absurd (.cons ht hl hrest) hend'.not_lexes

/-- A tokenizer delivers the values of the runs, and then the end of the stream below or the error of the run that
gives no value. -/
theorem delivers_of_lexes {size : Nat} {ending : Option ReadError} (hsize : 0 < size) (h : t.Lexes lexemes t')
    (hend : t'.Ends ending) : Delivers size t (lexemes.map Lexeme.value) ending := by
  generalize hn : lexemes.length = n
  induction n using Nat.strongRecOn generalizing t lexemes with
  | ind n ih =>
    obtain ⟨fuel, fill, hnext⟩ : ∃ fuel fill, t.next fuel #[] #[] size = some fill :=
      exists_next h (.inr ⟨ending, hend⟩) #[] #[]
    have hfill : Source.fill fuel t #[] size = some fill := hnext
    have hfilling := filling_of_next hnext
    generalize t.attempts fuel size = runs at hfilling
    cases hfilling with
    | @enough mid lexemes' events hlexes hle hfull =>
      cases lexemes' with
      | nil =>
        -- No run was made, so the stream below is at its end.
        cases hlexes
        have hover : t.Ends none := by
          cases ht : t.cursor.hasToken with
          | false => exact ht
          | true =>
            have hzero := hfull ht
            simp only [List.length_nil] at hzero
            omega
        obtain ⟨rfl, rfl, rfl⟩ := h.unique hend (.nil t) hover
        exact .ended hfill
      | cons lexeme lexemes' =>
        obtain ⟨rest, rfl, hrest⟩ := h.split hend hlexes
        have hlt : rest.length < n := by
          rw [← hn, List.length_append, List.length_cons]
          omega
        have hmore := Delivers.more hfill (by simp) (ih _ hlt hrest rfl)
        simpa using hmore
    | stopped hlexes hlt he =>
      obtain ⟨-, -, rfl⟩ := h.unique hend hlexes he
      exact .failed _ hfill

end Tokenizer

end StreamParsing
