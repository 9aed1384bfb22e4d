import StreamParsing.Proofs.Machine.Halting
import StreamParsing.Proofs.Stream.ReadOnce
import StreamParsing.Proofs.Tokens.Lexing

/-!
Streams of tokens against the runs of the lexer. However such a stream is used, its tokens are the values of the first
runs, each made once and in order. The end is reported only where the stream below ends; a run that gives no value is
the error of the read that makes it.
-/

namespace StreamParsing

set_option autoImplicit false

universe u

variable {σ : Type u} {τ π ρ ω κ : Type}

namespace TokenStream

section

variable [Position π τ] {s : TokenStream σ τ} {c d e : Cursor τ π}

def between (s : TokenStream σ τ) (c d : Cursor τ π) : List τ := (s.tokens.take (s.indexOf d)).drop (s.indexOf c)

theorem between_append (h : s.Reaches c d) (h' : s.Reaches d e) : s.between c d ++ s.between d e = s.between c e := by
  have hle := h.index_le
  have hle' := h'.index_le
  have hlength := h'.placed'.index_le
  unfold between
  apply List.ext_getElem?
  intro i
  simp only [List.getElem?_append, List.length_drop, List.length_take, List.getElem?_drop, List.getElem?_take]
  split
  · rw [if_pos (by omega), if_pos (by omega)]
  · rw [show s.indexOf d + (i - (min (s.indexOf d) s.tokens.length - s.indexOf c)) = s.indexOf c + i by omega]

theorem Tidy.nil_not_mem (ht : s.Tidy) (hl : s.live = true) : [] ∉ s.layout := by
  intro hmem
  obtain ⟨k, hk⟩ := List.mem_iff_getElem?.mp hmem
  have hdead := (ht k hk).2
  simp [hl] at hdead

theorem between_ne_nil (ht : s.Tidy) (h : s.Reaches c d) (hne : d.same c = false) : s.between c d ≠ [] := by
  have hle := h.index_le
  have hlength := h.placed'.index_le
  have hsame := h.placed'.same_eq ht h.placed
  rw [hne, eq_comm, decide_eq_false_iff_not] at hsame
  apply List.ne_nil_of_length_pos
  rw [between, List.length_drop, List.length_take]
  omega

theorem between_of_end (ht : s.Tidy) (h : s.Placed d) (hd : d.current = none) :
    s.between c d = s.tokens.drop (s.indexOf c) := by
  rw [between, h.index_of_end ht hd, List.take_length]

end

variable [Source σ τ] [LawfulSource σ τ] [Position π τ] {s : TokenStream σ τ} {c : Cursor τ π} {fuel fuel' : Nat}

theorem remainingAfter_of_le {found : Array τ} {events : Array Event} {access : Access σ τ (Array τ)}
    (h : fuel ≤ fuel') (hr : s.remainingAfter fuel c found events = some access) :
    s.remainingAfter fuel' c found events = some access := by
  induction fuel generalizing fuel' s c found events with
  | zero => cases hr
  | succ fuel ih =>
    obtain ⟨fuel', rfl⟩ : ∃ n, fuel' = n + 1 := ⟨fuel' - 1, by omega⟩
    have hle : fuel ≤ fuel' := by omega
    unfold remainingAfter at hr ⊢
    cases hc : c.current with
    | none => simpa only [hc] using hr
    | some t =>
      simp only [hc] at hr ⊢
      rcases ha : s.advance fuel c with _ | ⟨s', e | d, more⟩
      · simp [ha] at hr
      · rw [advance_of_le hle ha]
        simpa only [ha] using hr
      · rw [advance_of_le hle ha]
        simp only [ha] at hr
        exact ih hle hr

variable {tokens : List τ}

theorem Carries.result_of_remaining {found : Array τ} {events : Array Event} {access : Access σ τ (Array τ)}
    (h : s.Carries tokens none) (hp : s.Placed c) (hr : s.remainingAfter fuel c found events = some access) :
    access.result = .ok (found ++ (tokens.drop (s.indexOf c)).toArray) := by
  induction fuel generalizing s c found events with
  | zero => cases hr
  | succ fuel ih =>
    unfold remainingAfter at hr
    have htoken := hp.current_of_carries h
    cases hc : c.current with
    | none =>
      simp only [hc] at hr
      cases hr
      have hle := List.getElem?_eq_none_iff.mp (htoken.symm.trans hc)
      simp [List.drop_eq_nil_of_le hle]
    | some t =>
      simp only [hc] at hr
      rcases ha : s.advance fuel c with _ | ⟨s', result, more⟩
      · simp [ha] at hr
      · have hadv := advancing_of_advance ha
        obtain ⟨d, rfl⟩ := h.advance_ok hp hadv
        simp only [ha] at hr
        have hrest := ih (h.advancing hadv) (hadv.placed hp) hr
        obtain ⟨hlt, ht⟩ := List.getElem?_eq_some_iff.mp (htoken.symm.trans hc)
        rw [hrest, hadv.indexOf_eq hp hc, List.drop_eq_getElem_cons hlt, ht]
        simp

theorem Carries.exists_remaining (h : s.Carries tokens none) (hp : s.Placed c) (found : Array τ)
    (events : Array Event) : ∃ fuel access, s.remainingAfter fuel c found events = some access := by
  generalize hn : tokens.length - s.indexOf c = n
  induction n generalizing s c found events with
  | zero =>
    refine ⟨1, ?_⟩
    have hend : c.current = none := by
      rw [hp.current_of_carries h]
      apply List.getElem?_eq_none
      omega
    unfold remainingAfter
    simp only [hend]
    exact ⟨_, rfl⟩
  | succ n ih =>
    have htoken := hp.current_of_carries h
    rw [List.getElem?_eq_getElem (by omega)] at htoken
    obtain ⟨fuel, s', d, more, ha⟩ := h.exists_advance hp
    have hadv := advancing_of_advance ha
    have hindex : s'.indexOf d = s.indexOf c + 1 := hadv.indexOf_eq hp htoken
    have hcarries : s'.Carries tokens none := h.advancing hadv
    obtain ⟨fuel', access, hr⟩ :=
      ih hcarries (hadv.placed hp) (found.push tokens[s.indexOf c]) (events ++ more) (by omega)
    refine ⟨max fuel fuel' + 1, access, ?_⟩
    unfold remainingAfter
    rw [advance_of_le (Nat.le_max_left ..) ha]
    simp only [htoken]
    exact remainingAfter_of_le (Nat.le_max_right ..) hr

omit [LawfulSource σ τ] [Position π τ] in
theorem Carries.becomes [LawfulSource σ τ] {s' : TokenStream σ τ} {ending : Option ReadError}
    (h : s.Carries tokens ending) (hs : s.Becomes s') : s'.Carries tokens ending := by
  induction hs with
  | refl => exact h
  | tail _ hread ih =>
    obtain ⟨access, hr, rfl⟩ := hread
    exact ih.reading hr

/-- Moving the cursor asks the source for one more chunk. -/
def asks (s : TokenStream σ τ) (c : Cursor τ π) : Bool :=
  s.live && c.hasToken && (s.token? c.chunk (c.index + 1)).isNone && !decide (c.chunk + 1 < s.chunks.size)

omit [Source σ τ] [LawfulSource σ τ] [Position π τ] in
theorem live_of_asks (h : s.asks c = true) : s.live = true := by
  simp only [asks, Bool.and_eq_true] at h
  exact h.1.1.1

omit [LawfulSource σ τ] in
theorem advance_of_asks {access : Access σ τ (Cursor τ π)} (hasks : s.asks c = true)
    (h : s.advance fuel c = some access) :
    ∃ read, s.readChunk fuel = some read ∧ access.stream = read.stream ∧
      ∀ e, access.result = .error e ↔ read.result = .error e := by
  simp only [asks, Cursor.hasToken, Bool.and_eq_true, Option.isSome_iff_exists, Option.isNone_iff_eq_none,
    Bool.not_eq_true', decide_eq_false_iff_not] at hasks
  obtain ⟨⟨⟨-, t, hc⟩, hn⟩, hl⟩ := hasks
  simp only [advance, hc, hn, if_neg hl] at h
  rcases hr : s.readChunk fuel with _ | ⟨s', e | ok, events⟩
  · simp [hr] at h
  · simp only [hr] at h
    cases h
    exact ⟨_, rfl, rfl, fun _ => by simp⟩
  · simp only [hr] at h
    cases h
    exact ⟨_, rfl, rfl, fun _ => by simp⟩

omit [LawfulSource σ τ] in
theorem advance_of_not_asks {access : Access σ τ (Cursor τ π)} (hasks : s.asks c = false)
    (h : s.advance fuel c = some access) :
    access.stream = s ∧ ∀ e, access.result = .error e → e = .released ∧ s.live = false := by
  have hadv := advancing_of_advance h
  have hlive {t : τ} (hc : c.current = some t) (hn : s.token? c.chunk (c.index + 1) = none)
      (hl : ¬ c.chunk + 1 < s.chunks.size) : s.live = false := by
    simpa [asks, Cursor.hasToken, hc, hn, hl] using hasks
  cases hadv with
  | still | inside | across => exact ⟨rfl, by simp⟩
  | read hc hn hl hr =>
    have hdead := hlive hc hn hl
    cases hr with
    | more hl' | ended hl' => simp [hdead] at hl'
  | stopped hc hn hl hr =>
    have hdead := hlive hc hn hl
    cases hr with
    | failed hl' => simp [hdead] at hl'
    | released =>
      refine ⟨rfl, ?_⟩
      rintro _ ⟨⟩
      exact ⟨rfl, hdead⟩

end TokenStream

namespace Tokenizer

variable [Source σ τ] [Position π τ] [Described τ] [Described π] {t t' mid : Tokenizer σ τ π ρ ω} {fuel : Nat}
variable {lexemes : List (Lexeme σ τ π ρ ω)}

theorem run_of_lex {value : ω} {events : Array Event} (h : t.lex fuel = some ⟨mid, .ok value, events⟩) :
    t.lexer.run fuel (.ofStream t.stream t.rules) t.cursor =
        some ⟨⟨mid.stream, mid.rules, events⟩, .ok (.success value mid.cursor)⟩ ∧
      mid.cursor.same t.cursor = false ∧ mid.lexer = t.lexer := by
  simp only [lex, Option.map_eq_some_iff] at h
  obtain ⟨⟨⟨stream, rules, log⟩, result⟩, hrun, h⟩ := h
  cases result with
  | error e => cases h
  | ok reply =>
    cases reply with
    | failure | abort => cases h
    | success value' after =>
      simp only [verdict] at h
      cases hsame : after.same t.cursor with
      | true =>
        rw [hsame] at h
        cases h
      | false =>
        rw [hsame] at h
        cases h
        exact ⟨hrun, hsame, rfl⟩

theorem becomes_of_lexes (h : t.Lexes lexemes t') : t.stream.Becomes t'.stream := by
  induction h with
  | nil => exact .refl
  | cons ht hl _ ih =>
    obtain ⟨hrun, -, -⟩ := run_of_lex hl
    obtain ⟨steps, hleaves⟩ := Machine.leaves_of_run hrun
    exact (Machine.becomes_of_path hleaves.path).trans ih

/-- Each run ends at the place where it began or behind it. -/
def Forward (lexemes : List (Lexeme σ τ π ρ ω)) : Prop :=
  ∀ lexeme ∈ lexemes, lexeme.after.stream.Reaches lexeme.before.cursor lexeme.after.cursor

theorem forward_of_hooked [LawfulSource σ τ] {first : TokenStream σ τ} (hfirst : first.Becomes t.stream)
    (hc : t.stream.Placed t.cursor) (hp : t.lexer.Hooked (Hook.Forward first))
    (hr : t.rules.Hooked (Hook.Forward first)) (h : t.Lexes lexemes t') : Forward lexemes := by
  induction h with
  | nil => exact nofun
  | @cons t mid t' fuel value events lexemes ht hl _ ih =>
    obtain ⟨hrun, -, hlexer⟩ := run_of_lex hl
    have hforward := (Parser.evaluates_of_run hrun).forwarded (fun s hs => hs) (fun s d access hs => hs.advancing)
      hfirst hr hp hc
    have hreaches := hforward.reaches _ rfl
    have hrest := ih hforward.stream hreaches.placed' (hlexer ▸ hp) hforward.rules
    intro lexeme hmem
    rcases List.mem_cons.mp hmem with rfl | hmem
    · exact hreaches
    · exact hrest lexeme hmem

/-- The parts that forward runs consume are not empty, and they follow one another. -/
theorem slices_of_forward (ht : t.stream.Tidy) (hc : t.stream.Placed t.cursor) (hforward : Forward lexemes)
    (h : t.Lexes lexemes t') : t'.stream.Reaches t.cursor t'.cursor ∧
      (∀ lexeme ∈ lexemes, t'.stream.between lexeme.before.cursor lexeme.after.cursor ≠ []) ∧
      (lexemes.map fun lexeme => t'.stream.between lexeme.before.cursor lexeme.after.cursor).flatten =
        t'.stream.between t.cursor t'.cursor := by
  induction h with
  | nil t =>
    refine ⟨.refl hc, nofun, ?_⟩
    simp [TokenStream.between]
  | @cons t mid t' fuel value events lexemes htoken hl hlexes ih =>
    obtain ⟨hrun, hmoved, -⟩ := run_of_lex hl
    have hlexed := becomes_of_lexes (.cons htoken hl (.nil mid))
    have hbecomes := becomes_of_lexes hlexes
    have hreaches : mid.stream.Reaches t.cursor mid.cursor := hforward _ (List.mem_cons_self ..)
    have hreaches' := hreaches.later hbecomes.later
    obtain ⟨hrest, hnonempty, hflatten⟩ := ih (hlexed.tidy ht) hreaches.placed' fun lexeme hmem =>
      hforward lexeme (List.mem_cons_of_mem _ hmem)
    refine ⟨hreaches'.trans hrest, ?_, ?_⟩
    · intro lexeme hmem
      rcases List.mem_cons.mp hmem with rfl | hmem
      · exact TokenStream.between_ne_nil (hbecomes.tidy (hlexed.tidy ht)) hreaches' hmoved
      · exact hnonempty lexeme hmem
    · rw [List.map_cons, List.flatten_cons, hflatten]
      exact TokenStream.between_append hreaches' hrest

theorem Lexes.append {lexemes' : List (Lexeme σ τ π ρ ω)} (h : t.Lexes lexemes mid) (h' : mid.Lexes lexemes' t') :
    t.Lexes (lexemes ++ lexemes') t' := by
  induction h with
  | nil => exact h'
  | cons ht hl _ ih => exact .cons ht hl (ih h')

theorem Filling.of_ok {buffer buffer' : Array ω} {count : Nat} {runs : List (Tokenizer σ τ π ρ ω)}
    {events : Array Event} (h : t.Filling buffer count runs ⟨t', buffer', .ok (), events⟩) :
    ∃ lexemes, t.Lexes lexemes t' ∧ runs = lexemes.map Lexeme.before ∧
      buffer'.toList = buffer.toList ++ lexemes.map Lexeme.value ∧
      (t'.cursor.hasToken = true → lexemes.length = count) := by
  generalize hfill : (⟨t', buffer', .ok (), events⟩ : Fill (Tokenizer σ τ π ρ ω) ω) = fill at h
  cases h with
  | enough hlexes hle hfull =>
    cases hfill
    exact ⟨_, hlexes, rfl, by simp, hfull⟩
  | stopped => cases hfill

variable [LawfulSource σ τ]

theorem not_ends_of_mem {ending : Option ReadError} (h : t.Lexes lexemes t')
    (hmem : mid ∈ lexemes.map Lexeme.before) : ¬ mid.Ends ending := by
  induction h with
  | nil => cases hmem
  | cons ht hl hlexes ih =>
    rcases List.mem_cons.mp hmem with rfl | hmem
    · intro hend
      exact hend.not_lexes (.cons ht hl hlexes)
    · exact ih hmem

/-- A call that makes the run without a value is answered by the error for it, and by no other error. -/
theorem Filling.error_iff {buffer : Array ω} {count : Nat} {runs : List (Tokenizer σ τ π ρ ω)} {e : ReadError}
    {fill : Fill (Tokenizer σ τ π ρ ω) ω} (h : t.Filling buffer count runs fill) (hlexes : t.Lexes lexemes t')
    (hend : t'.Ends (some e)) (e' : ReadError) : fill.result = .error e' ↔ e' = e ∧ t' ∈ runs := by
  cases h with
  | enough h' =>
    refine ⟨nofun, ?_⟩
    rintro ⟨-, hmem⟩
    exact absurd hend (not_ends_of_mem h' hmem)
  | stopped h' hlt he =>
    obtain ⟨-, rfl, heq⟩ := hlexes.unique hend h' he
    cases heq
    simp [eq_comm]

end Tokenizer

namespace TokenStream

variable [Source σ τ] [LawfulSource σ τ] [Position π τ] [Described τ] [Described π]
variable {t t' : Tokenizer σ τ π ρ ω} {s : TokenStream (Tokenizer σ τ π ρ ω) ω} {runs : List (Tokenizer σ τ π ρ ω)}
variable {lexemes : List (Tokenizer.Lexeme σ τ π ρ ω)} {ending : Option ReadError} {fuel : Nat}

omit [LawfulSource σ τ] in
/-- Where the lexer is run when a cursor is moved. -/
def lexings (fuel : Nat) (s : TokenStream (Tokenizer σ τ π ρ ω) ω) (c : Cursor ω κ) : List (Tokenizer σ τ π ρ ω) :=
  if s.asks c then s.source.attempts fuel s.chunkSize else []

/-- The tokens of the stream are the values of the runs so far. -/
inductive Lexed (t : Tokenizer σ τ π ρ ω) (runs : List (Tokenizer σ τ π ρ ω))
    (s : TokenStream (Tokenizer σ τ π ρ ω) ω) : Prop where
  | live {lexemes : List (Tokenizer.Lexeme σ τ π ρ ω)} (hl : s.live = true) (h : t.Lexes lexemes s.source)
      (hs : s.tokens = lexemes.map (·.value)) (hr : runs = lexemes.map (·.before)) : Lexed t runs s
  | ended {lexemes : List (Tokenizer.Lexeme σ τ π ρ ω)} {t' : Tokenizer σ τ π ρ ω} (hl : s.live = false)
      (h : t.Lexes lexemes t') (he : t'.Ends none) (hs : s.tokens = lexemes.map (·.value))
      (hr : runs = lexemes.map (·.before)) : Lexed t runs s
  | stopped {lexemes : List (Tokenizer.Lexeme σ τ π ρ ω)} {t' : Tokenizer σ τ π ρ ω} {e : ReadError}
      (hl : s.live = false) (h : t.Lexes lexemes t') (he : t'.Ends (some e)) (hs : s.tokens <+: lexemes.map (·.value))
      (hfull : [] ∉ s.layout) (hr : runs = lexemes.map (·.before) ++ [t']) : Lexed t runs s

omit [LawfulSource σ τ] in
theorem filling_of_readChunk {access : Access (Tokenizer σ τ π ρ ω) ω Unit} (hl : s.live = true)
    (h : s.readChunk fuel = some access) :
    ∃ fill, Source.fill fuel s.source #[] s.chunkSize = some fill ∧
      s.source.Filling #[] s.chunkSize (s.source.attempts fuel s.chunkSize) fill := by
  obtain ⟨chunks, source, live, chunkSize, chunksRead⟩ := s
  cases hl
  rcases hf : Source.fill fuel source #[] chunkSize with _ | fill
  · simp [readChunk, hf] at h
  · exact ⟨fill, rfl, Tokenizer.filling_of_next hf⟩

theorem Lexed.readChunk {access : Access (Tokenizer σ τ π ρ ω) ω Unit} (h : s.Lexed t runs) (ht : s.Tidy)
    (hsize : 0 < s.chunkSize) (hlive : s.live = true) (hr : s.readChunk fuel = some access) :
    access.stream.Lexed t (runs ++ s.source.attempts fuel s.chunkSize) := by
  obtain ⟨fill, hfill, hfilling⟩ := filling_of_readChunk hlive hr
  have hfull : [] ∉ s.layout := ht.nil_not_mem hlive
  cases h with
  | ended hl | stopped hl => simp [hlive] at hl
  | @live lexemes _ hlexes htokens hruns =>
    subst hruns
    cases reading_of_readChunk hr with
    | released hl => simp [hlive] at hl
    | more hl hf hb =>
      cases fill_unique hfill hf
      obtain ⟨added, hadded, hnew, hbuffer, -⟩ := hfilling.of_ok
      refine .live rfl (hlexes.append hadded) ?_ (by rw [hnew, List.map_append])
      rw [List.map_append, ← htokens]
      simpa [TokenStream.tokens, layout] using hbuffer
    | ended hl hf =>
      cases fill_unique hfill hf
      obtain ⟨added, hadded, hnew, hbuffer, hcount⟩ := hfilling.of_ok
      obtain rfl : added = [] := by simpa using hbuffer
      -- A chunk without tokens was not cut off by the number asked for.
      have hend : s.source.Ends none := by
        cases hadded
        cases htoken : s.source.cursor.hasToken with
        | false => exact htoken
        | true =>
          have hzero := hcount htoken
          rw [List.length_nil] at hzero
          omega
      refine .ended rfl hlexes hend ?_ (by simp [hnew])
      rw [← htokens]
      simp [TokenStream.tokens, layout]
    | failed hl hf =>
      cases fill_unique hfill hf
      generalize hfail : Fill.mk _ _ (Except.error _) _ = fill at hfilling
      generalize s.source.attempts fuel s.chunkSize = new at hfilling
      cases hfilling with
      | enough => cases hfail
      | stopped hadded hlt he =>
        refine .stopped rfl (hlexes.append hadded) he ?_ hfull (by rw [List.map_append, List.append_assoc])
        rw [List.map_append, ← htokens]
        exact List.prefix_append ..

theorem lexed_openSource {size : Nat} {access : Access (Tokenizer σ τ π ρ ω) ω Unit}
    (h : openSource fuel t size = some access) : access.stream.Lexed t (t.attempts fuel (max size 1)) := by
  have hunread : (unread t size).Lexed t [] := .live rfl (.nil t) rfl rfl
  exact hunread.readChunk (by simp [Tidy, layout, unread]) (by simp [unread]) rfl h

theorem Lexed.tokens_prefix (h : s.Lexed t runs) (hlexes : t.Lexes lexemes t') (hend : t'.Ends ending) :
    s.tokens <+: lexemes.map (·.value) := by
  cases h with
  | live hl h' hs =>
    obtain ⟨rest, rfl, -⟩ := hlexes.split hend h'
    rw [hs, List.map_append]
    exact List.prefix_append ..
  | ended hl h' he hs =>
    obtain ⟨rfl, -, -⟩ := hlexes.unique hend h' he
    rw [hs]
  | stopped hl h' he hs =>
    obtain ⟨rfl, -, -⟩ := hlexes.unique hend h' he
    exact hs

/-- The end is not reported where a run gives no value. -/
theorem Lexed.nil_not_mem {e : ReadError} (h : s.Lexed t runs) (ht : s.Tidy) (hlexes : t.Lexes lexemes t')
    (hend : t'.Ends (some e)) : [] ∉ s.layout := by
  cases h with
  | live hl => exact ht.nil_not_mem hl
  | ended hl h' he =>
    obtain ⟨-, -, heq⟩ := hlexes.unique hend h' he
    cases heq
  | stopped hl h' he hs hfull => exact hfull

theorem Lexed.exists_readChunk (h : s.Lexed t runs) (hlexes : t.Lexes lexemes t') (hend : t'.Ends ending) :
    ∃ fuel access, s.readChunk fuel = some access := by
  apply exists_readChunk_of_fill
  intro hlive
  cases h with
  | ended hl | stopped hl => simp [hlive] at hl
  | live _ h' =>
    obtain ⟨rest, -, hrest⟩ := hlexes.split hend h'
    exact Tokenizer.exists_next hrest (.inr ⟨ending, hend⟩) #[] #[]

theorem Lexed.error_iff_of_readChunk {access : Access (Tokenizer σ τ π ρ ω) ω Unit} {e : ReadError}
    (h : s.Lexed t runs) (hlive : s.live = true) (hlexes : t.Lexes lexemes t') (hend : t'.Ends (some e))
    (hr : s.readChunk fuel = some access) (e' : ReadError) :
    access.result = .error e' ↔ e' = e ∧ t' ∈ s.source.attempts fuel s.chunkSize := by
  obtain ⟨fill, hfill, hfilling⟩ := filling_of_readChunk hlive hr
  cases h with
  | ended hl | stopped hl => simp [hlive] at hl
  | live _ h' =>
    obtain ⟨rest, -, hrest⟩ := hlexes.split hend h'
    rw [← hfilling.error_iff hrest hend e']
    cases reading_of_readChunk hr with
    | released hl => simp [hlive] at hl
    | more hl hf | ended hl hf | failed hl hf =>
      cases fill_unique hfill hf
      rfl

variable [Position κ ω] {c : Cursor ω κ} {access : Access (Tokenizer σ τ π ρ ω) ω (Cursor ω κ)}

theorem Lexed.advance (h : s.Lexed t runs) (ht : s.Tidy) (hsize : 0 < s.chunkSize)
    (ha : s.advance fuel c = some access) : access.stream.Lexed t (runs ++ s.lexings fuel c) := by
  cases hasks : s.asks c with
  | true =>
    obtain ⟨read, hr, hstream, -⟩ := advance_of_asks hasks ha
    rw [hstream, lexings, if_pos hasks]
    exact h.readChunk ht hsize (live_of_asks hasks) hr
  | false =>
    obtain ⟨hstream, -⟩ := advance_of_not_asks hasks ha
    simpa [hstream, lexings, hasks] using h

/-- A read that makes the run without a value is answered by the error for it; reads after it have no source. -/
theorem Lexed.error_cases {e : ReadError} (h : s.Lexed t runs) (hlexes : t.Lexes lexemes t') (hend : t'.Ends (some e))
    (ha : s.advance fuel c = some access) : (t' ∈ s.lexings fuel c → access.result = .error e) ∧
      ∀ e', access.result = .error e' → e' = e ∧ t' ∈ s.lexings fuel c ∨ e' = .released ∧ s.live = false := by
  cases hasks : s.asks c with
  | true =>
    obtain ⟨read, hr, -, herror⟩ := advance_of_asks hasks ha
    have hiff := h.error_iff_of_readChunk (live_of_asks hasks) hlexes hend hr
    simp only [lexings, hasks, if_true]
    refine ⟨?_, ?_⟩
    · intro hmem
      exact (herror e).mpr ((hiff e).mpr ⟨rfl, hmem⟩)
    · intro e' he'
      exact .inl ((hiff e').mp ((herror e').mp he'))
  | false =>
    obtain ⟨-, hreleased⟩ := advance_of_not_asks hasks ha
    refine ⟨?_, ?_⟩
    · intro hmem
      simp [lexings, hasks] at hmem
    · intro e' he'
      exact .inr (hreleased e' he')

end TokenStream

namespace Session

variable [Source σ τ] [Position π τ] [Described τ] [Described π] [Position κ ω]
variable {t : Tokenizer σ τ π ρ ω} {a b : Session (Tokenizer σ τ π ρ ω) ω κ} {runs first : List (Tokenizer σ τ π ρ ω)}

/-- What moves make of a session, and where the lexer is run on the way. -/
inductive Traced (a : Session (Tokenizer σ τ π ρ ω) ω κ) :
    List (Tokenizer σ τ π ρ ω) → Session (Tokenizer σ τ π ρ ω) ω κ → Prop where
  | refl : Traced a [] a
  | copied {runs : List (Tokenizer σ τ π ρ ω)} {s : TokenStream (Tokenizer σ τ π ρ ω) ω} {cs : List (Cursor ω κ)}
      {c : Cursor ω κ} (h : Traced a runs ⟨s, cs⟩) (hc : c ∈ cs) : Traced a runs ⟨s, cs ++ [c]⟩
  | moved {runs : List (Tokenizer σ τ π ρ ω)} {s : TokenStream (Tokenizer σ τ π ρ ω) ω} {cs : List (Cursor ω κ)}
      {c : Cursor ω κ} {fuel : Nat} {access : Access (Tokenizer σ τ π ρ ω) ω (Cursor ω κ)} (h : Traced a runs ⟨s, cs⟩)
      (hc : c ∈ cs) (ha : s.advance fuel c = some access) :
      Traced a (runs ++ s.lexings fuel c) ⟨access.stream, cs ++ access.result.toOption.toList⟩

theorem Traced.moves (h : Traced a runs b) : Moves a b := by
  induction h with
  | refl => exact .refl
  | copied _ hc ih => exact ih.tail (.copied hc)
  | @moved runs s cs c fuel access _ hc ha ih => exact ih.trans (moves_of_use (.advance hc ha))

theorem exists_traced (h : Moves a b) : ∃ runs, Traced a runs b := by
  induction h with
  | refl => exact ⟨[], .refl⟩
  | tail _ hmove ih =>
    obtain ⟨runs, htraced⟩ := ih
    cases hmove with
    | copied hc => exact ⟨runs, htraced.copied hc⟩
    | advanced hc ha => exact ⟨_, htraced.moved hc ha⟩
    | failed hc ha => exact ⟨_, by simpa [Except.toOption] using htraced.moved hc ha⟩

theorem Traced.lexed [LawfulSource σ τ] {size : Nat} (hreads : Reads t (max size 1) a) (hfirst : a.stream.Lexed t first)
    (h : Traced a runs b) : b.stream.Lexed t (first ++ runs) := by
  induction h with
  | refl => rwa [List.append_nil]
  | copied _ _ ih => exact ih
  | moved h hc ha ih =>
    have hbefore := hreads.moves h.moves
    rw [← List.append_assoc]
    refine ih.advance hbefore.sound.tidy ?_ ha
    rw [hbefore.readFrom.chunkSize]
    omega

theorem exists_lexed [LawfulSource σ τ] {size : Nat} (h : Opened t size a) : ∃ runs, a.stream.Lexed t runs := by
  obtain ⟨fuel, start, events, hopen, hcont⟩ := h
  obtain ⟨runs, htraced⟩ := exists_traced (moves_of_continues hcont)
  exact ⟨_, htraced.lexed (reads_start hopen) (TokenStream.lexed_openSource hopen)⟩

end Session

namespace Tokenizer

variable [Source σ τ] [Position π τ] [Described τ] [Described π] {t t' : Tokenizer σ τ π ρ ω}
variable {lexemes : List (Lexeme σ τ π ρ ω)} {size : Nat}

/-- The tokens of a lexer that comes to the end of the stream below are the values of its runs. -/
structure Complete (κ : Type) [Position κ ω] (t : Tokenizer σ τ π ρ ω) (size : Nat)
    (lexemes : List (Lexeme σ τ π ρ ω)) : Prop where
  opens : ∃ fuel access, t.lexer.tokenize fuel t.stream t.rules t.cursor size = some access
  opened : ∀ fuel access, t.lexer.tokenize fuel t.stream t.rules t.cursor size = some access → access.result = .ok ()
  current : ∀ a : Session (Tokenizer σ τ π ρ ω) ω κ, a.Opened t size → ∀ c ∈ a.cursors,
    c.current = (lexemes.map (·.value))[a.stream.indexOf c]?
  readable : ∀ a : Session (Tokenizer σ τ π ρ ω) ω κ, a.Opened t size → ∀ c ∈ a.cursors,
    ∃ fuel access, a.stream.remaining fuel c = some access
  remaining : ∀ a : Session (Tokenizer σ τ π ρ ω) ω κ, a.Opened t size → ∀ c ∈ a.cursors, ∀ fuel access,
    a.stream.remaining fuel c = some access →
      access.result = .ok ((lexemes.map (·.value)).drop (a.stream.indexOf c)).toArray

/-- The runs consume the stream below in parts that follow one another, none of them empty. -/
structure Sliced (t : Tokenizer σ τ π ρ ω) (lexemes : List (Lexeme σ τ π ρ ω)) (t' : Tokenizer σ τ π ρ ω) : Prop where
  chained : lexemes.IsChain fun lexeme next => next.before = lexeme.after
  nonempty : ∀ lexeme ∈ lexemes, t'.stream.between lexeme.before.cursor lexeme.after.cursor ≠ []
  covers : (lexemes.map fun lexeme => t'.stream.between lexeme.before.cursor lexeme.after.cursor).flatten =
    t'.stream.tokens.drop (t'.stream.indexOf t.cursor)
  whole : ∀ input ending, t.stream.Carries input ending → t'.stream.tokens = input

/-- The tokens of a lexer that stops at `t'` with the error `e` are values of the runs before, and the end is never
reported. The read that makes the run at `t'` has that error. -/
structure CutShort (κ : Type) [Position κ ω] (t : Tokenizer σ τ π ρ ω) (size : Nat)
    (lexemes : List (Lexeme σ τ π ρ ω)) (t' : Tokenizer σ τ π ρ ω) (e : ReadError) : Prop where
  opens : ∃ fuel access, t.lexer.tokenize fuel t.stream t.rules t.cursor size = some access
  opened : ∀ fuel access, t.lexer.tokenize fuel t.stream t.rules t.cursor size = some access → ∀ e',
    access.result = .error e' ↔ e' = e ∧ t' ∈ t.attempts fuel (max size 1)
  tokens : ∀ a : Session (Tokenizer σ τ π ρ ω) ω κ, a.Opened t size → a.stream.tokens <+: lexemes.map (·.value)
  hasToken : ∀ a : Session (Tokenizer σ τ π ρ ω) ω κ, a.Opened t size → ∀ c ∈ a.cursors, c.hasToken = true
  moves : ∀ a : Session (Tokenizer σ τ π ρ ω) ω κ, a.Opened t size → ∀ c ∈ a.cursors,
    ∃ fuel access, a.stream.advance fuel c = some access
  moved : ∀ a : Session (Tokenizer σ τ π ρ ω) ω κ, a.Opened t size → ∀ c ∈ a.cursors, ∀ fuel access,
    a.stream.advance fuel c = some access → (t' ∈ a.stream.lexings fuel c → access.result = .error e) ∧
      ∀ e', access.result = .error e' → e' = e ∧ t' ∈ a.stream.lexings fuel c ∨ e' = .released ∧ a.stream.live = false

/-- The runs are made in order, one after the other, and the last one may give no value. -/
def InTurn (t : Tokenizer σ τ π ρ ω) (runs : List (Tokenizer σ τ π ρ ω)) : Prop :=
  ∃ lexemes t', t.Lexes lexemes t' ∧
    (runs = lexemes.map (·.before) ∨ (∃ e, t'.Stops e) ∧ runs = lexemes.map (·.before) ++ [t'])

theorem isChain_of_lexes (h : t.Lexes lexemes t') : lexemes.IsChain fun lexeme next => next.before = lexeme.after := by
  induction h with
  | nil => exact .nil
  | cons ht hl hlexes ih =>
    cases hlexes with
    | nil => exact .singleton _
    | cons => exact .cons_cons rfl ih

variable [LawfulSource σ τ]

theorem sliced_of_forward (ht : t.stream.Tidy) (hc : t.stream.Placed t.cursor) (hforward : Forward lexemes)
    (h : t.Lexes lexemes t') (hend : t'.cursor.hasToken = false) : t.Sliced lexemes t' := by
  have hbecomes := becomes_of_lexes h
  have hcurrent : t'.cursor.current = none := by simpa [Cursor.hasToken] using hend
  obtain ⟨hreaches, hnonempty, hflatten⟩ := slices_of_forward ht hc hforward h
  refine ⟨isChain_of_lexes h, hnonempty, ?_, ?_⟩
  · rw [hflatten, TokenStream.between_of_end (hbecomes.tidy ht) hreaches.placed' hcurrent]
  · intro input ending hcarries
    exact (hcarries.becomes hbecomes).tokens_of_end (hreaches.placed'.chunk_of_end hcurrent)

theorem complete_of_lexes (κ : Type) [Position κ ω] (h : t.Lexes lexemes t') (hend : t'.cursor.hasToken = false) :
    t.Complete κ size lexemes := by
  have hdelivers : Delivers (max size 1) t (lexemes.map Lexeme.value) none := delivers_of_lexes (by omega) h hend
  refine ⟨?_, ?_, ?_, ?_, ?_⟩
  · obtain ⟨fuel, first, events, hopen⟩ := TokenStream.exists_openSource hdelivers
    exact ⟨fuel, _, hopen⟩
  · intro fuel access hopen
    exact TokenStream.openSource_ok hdelivers hopen
  · intro a ha c hc
    exact ((Session.sound_of_opened ha).placed c hc).current_of_carries (Session.carries_of_opened hdelivers ha)
  · intro a ha c hc
    exact (Session.carries_of_opened hdelivers ha).exists_remaining ((Session.sound_of_opened ha).placed c hc) #[] #[]
  · intro a ha c hc fuel access hr
    have hresult := (Session.carries_of_opened hdelivers ha).result_of_remaining
      ((Session.sound_of_opened ha).placed c hc) hr
    simpa using hresult

theorem cutShort_of_lexes (κ : Type) [Position κ ω] {e : ReadError} (h : t.Lexes lexemes t') (he : t'.Stops e) :
    t.CutShort κ size lexemes t' e := by
  have hend : t'.Ends (some e) := he
  have hunread : (TokenStream.unread t size).Lexed t [] := .live rfl (.nil t) rfl rfl
  refine ⟨hunread.exists_readChunk h hend, ?_, ?_, ?_, ?_, ?_⟩
  · intro fuel access hopen
    exact hunread.error_iff_of_readChunk rfl h hend hopen
  · intro a ha
    obtain ⟨runs, hlexed⟩ := Session.exists_lexed ha
    exact hlexed.tokens_prefix h hend
  · intro a ha c hc
    obtain ⟨runs, hlexed⟩ := Session.exists_lexed ha
    have hsound := Session.sound_of_opened ha
    cases hcurrent : c.current with
    | some token => simp [Cursor.hasToken, hcurrent]
    | none =>
      have hchunk := (hsound.placed c hc).chunk_of_end hcurrent
      exact absurd (List.mem_of_getElem? hchunk) (hlexed.nil_not_mem hsound.tidy h hend)
  · intro a ha c hc
    obtain ⟨runs, hlexed⟩ := Session.exists_lexed ha
    obtain ⟨fuel, read, hread⟩ := hlexed.exists_readChunk h hend
    obtain ⟨access, hadvance⟩ := TokenStream.exists_advance_of_readChunk hread c
    exact ⟨fuel, access, hadvance⟩
  · intro a ha c hc fuel access hadvance
    obtain ⟨runs, hlexed⟩ := Session.exists_lexed ha
    exact hlexed.error_cases h hend hadvance

omit [LawfulSource σ τ] in
theorem inTurn_of_lexed {s : TokenStream (Tokenizer σ τ π ρ ω) ω} {runs : List (Tokenizer σ τ π ρ ω)}
    (h : s.Lexed t runs) : t.InTurn runs := by
  cases h with
  | live hl hlexes hs hr => exact ⟨_, _, hlexes, .inl hr⟩
  | ended hl hlexes he hs hr => exact ⟨_, _, hlexes, .inl hr⟩
  | stopped hl hlexes he hs hfull hr => exact ⟨_, _, hlexes, .inr ⟨⟨_, he⟩, hr⟩⟩

/-- A stream of tokens iterates the lexer. If the runs come to the end of the stream below, their values are the tokens,
and runs that go forward divide what was left of that stream. If a run gives no value, the tokens are values of the runs
before it. However the stream is used, the runs are made in turn. -/
theorem tokens_iterate_lexer (κ : Type) [Position κ ω] (t : Tokenizer σ τ π ρ ω) (size : Nat) :
    (∀ lexemes t', t.Lexes lexemes t' → t'.cursor.hasToken = false → t.Complete κ size lexemes ∧
      (t.stream.Tidy → t.stream.Placed t.cursor →
        Forward lexemes ∨ t.lexer.Hooked (Hook.Forward t.stream) ∧ t.rules.Hooked (Hook.Forward t.stream) →
        t.Sliced lexemes t')) ∧
    (∀ lexemes t' e, t.Lexes lexemes t' → t'.Stops e → t.CutShort κ size lexemes t' e) ∧
    ∀ fuel access, t.lexer.tokenize fuel t.stream t.rules t.cursor size = some access →
      t.InTurn (t.attempts fuel (max size 1)) ∧ (access.result = .ok () →
        ∀ a b : Session (Tokenizer σ τ π ρ ω) ω κ, ∀ runs,
          Session.Traced ⟨access.stream, [access.stream.start]⟩ runs a →
          t.InTurn (t.attempts fuel (max size 1) ++ runs) ∧ (a.Use b → ∃ more, a.Traced more b)) := by
  refine ⟨?_, ?_, ?_⟩
  · intro lexemes t' h hend
    refine ⟨complete_of_lexes κ h hend, ?_⟩
    rintro ht hc (hforward | ⟨hp, hr⟩)
    · exact sliced_of_forward ht hc hforward h hend
    · exact sliced_of_forward ht hc (forward_of_hooked .refl hc hp hr h) h hend
  · intro lexemes t' e h he
    exact cutShort_of_lexes κ h he
  · intro fuel access hopen
    have hlexed := TokenStream.lexed_openSource hopen
    refine ⟨inTurn_of_lexed hlexed, ?_⟩
    intro hok a b runs htraced
    obtain ⟨first, result, events⟩ := access
    cases hok
    refine ⟨inTurn_of_lexed (htraced.lexed (Session.reads_start hopen) hlexed), ?_⟩
    intro huse
    exact Session.exists_traced (Session.moves_of_use huse)

/-- The sums of the items taken in twos, from a stream that has read the first of them. -/
def sums (first : Int) (rest : List Int) : Tokenizer (Items Int) Int LinearPosition Unit Int where
  stream := ⟨#[#[first]], ⟨rest.map some, 1⟩, true, 1, 1⟩
  rules := .empty
  cursor := ⟨0, 0, ⟨0⟩, some first⟩
  lexer := .zipWith (· + ·) .any .any

/-- Four items make two sums; of three items the last one is left over. -/
theorem tokens_iterate_lexer_sums :
    (∃ lexemes t', (sums 1 [2, 3, 4]).Lexes lexemes t' ∧ lexemes.map (·.value) = [3, 7] ∧
      (sums 1 [2, 3, 4]).Complete LinearPosition 2 lexemes ∧ (sums 1 [2, 3, 4]).Sliced lexemes t') ∧
    ∃ lexemes t' e, (sums 1 [2, 3]).Lexes lexemes t' ∧ lexemes.map (·.value) = [3] ∧
      (sums 1 [2, 3]).CutShort LinearPosition 2 lexemes t' e := by
  refine ⟨?_, ?_⟩
  · obtain ⟨mid, t', events, events', hfirst, hmid, hsecond, hend⟩ : ∃ mid t' events events',
        (sums 1 [2, 3, 4]).lex 10 = some ⟨mid, .ok 3, events⟩ ∧ mid.cursor.hasToken = true ∧
          mid.lex 10 = some ⟨t', .ok 7, events'⟩ ∧ t'.cursor.hasToken = false := ⟨_, _, _, _, rfl, rfl, rfl, rfl⟩
    have hlexes := Lexes.cons rfl hfirst (.cons hmid hsecond (.nil t'))
    have hopen : TokenStream.openSource 0 (Items.ofList [1, 2, 3, 4]) 1 =
        some ⟨(sums 1 [2, 3, 4]).stream, .ok (), #[.chunkRead 0 1]⟩ := rfl
    obtain ⟨htidy, hsize⟩ := Session.tidy_of_openSource hopen
    have hplaced : (sums 1 [2, 3, 4]).stream.Placed (sums 1 [2, 3, 4]).cursor :=
      TokenStream.placed_start (Nat.lt_of_lt_of_eq Nat.one_pos hsize.symm)
    have hrules : (sums 1 [2, 3, 4]).rules.Hooked (Hook.Forward (sums 1 [2, 3, 4]).stream) := by
      intro entry hmem
      simp [sums, Rules.empty] at hmem
    obtain ⟨hcomplete, hsliced⟩ := (tokens_iterate_lexer LinearPosition (sums 1 [2, 3, 4]) 2).1 _ t' hlexes hend
    exact ⟨_, t', hlexes, rfl, hcomplete,
      hsliced htidy hplaced (.inr ⟨.zipWith (.leaf trivial) (.leaf trivial), hrules⟩)⟩
  · obtain ⟨t', last, e, events, events', hfirst, htoken, hsecond⟩ : ∃ t' last e events events',
        (sums 1 [2, 3]).lex 10 = some ⟨t', .ok 3, events⟩ ∧ t'.cursor.hasToken = true ∧
          t'.lex 10 = some ⟨last, .error e, events'⟩ := ⟨_, _, _, _, _, rfl, rfl, rfl⟩
    have hlexes := Lexes.cons rfl hfirst (.nil t')
    exact ⟨_, t', e, hlexes, rfl, (tokens_iterate_lexer LinearPosition (sums 1 [2, 3]) 2).2.1 _ t' e hlexes
      ⟨htoken, 10, last, events', hsecond⟩⟩

end Tokenizer

end StreamParsing
