import StreamParsing.Proofs.Opacity.Following
import StreamParsing.Proofs.Tokens.Tokenizing

/-!
Lexing on demand against lexing first. A grammar that runs over tokens lexed as it needs them gives the reply that it
gives over the list of all tokens. If the lexer does not come to the end, the grammar does not see an end either: it is
broken off by the lexer's error, or it has come to its reply before the last token that was lexed.
-/

namespace StreamParsing

set_option autoImplicit false

universe u v

variable {σ : Type u} {σ' : Type v} {τ π ρ ω κ α : Type}
variable [Source σ τ] [Source σ' τ] [Position π τ] [Described τ] [Described π]

namespace Tokenizer

variable {P : Likeness τ π ρ} {input : List τ} {t t' : Tokenizer σ τ π ρ ω} {u u' : Tokenizer σ' τ π ρ ω}
variable {lexemes : List (Lexeme σ τ π ρ ω)} {fuel : Nat}

/-- The same lexer at the same place of two streams that carry the same input. -/
structure Alongside (P : Likeness τ π ρ) (input : List τ) (t : Tokenizer σ τ π ρ ω) (u : Tokenizer σ' τ π ρ ω) :
    Prop where
  lexer : u.lexer = t.lexer
  like : ∃ V, TokenStream.Abreast input none none t.stream u.stream V ∧ t.rules.Like P V u.rules ∧
    V.rel t.cursor u.cursor

omit [Described τ] [Described π] in
theorem Alongside.hasToken (h : Alongside P input t u) : u.cursor.hasToken = t.cursor.hasToken := by
  obtain ⟨V, -, -, hc⟩ := h.like
  rw [Cursor.hasToken, Cursor.hasToken, V.current hc]

omit [Source σ' τ] in
theorem lex_of_run {stream : TokenStream σ τ} {rules : Rules τ π ρ} {log : Array Event} {value : ω} {after : Cursor τ π}
    (h : t.lexer.run fuel (.ofStream t.stream t.rules) t.cursor =
      some ⟨⟨stream, rules, log⟩, .ok (.success value after)⟩) (hmoved : after.same t.cursor = false) :
    t.lex fuel = some ⟨⟨stream, rules, after, t.lexer⟩, .ok value, log⟩ := by
  simp [lex, h, verdict, hmoved]

variable [LawfulSource σ τ] [LawfulSource σ' τ]

omit [Described τ] [Described π] in
/-- A run of the lexer that has a reply over one of the streams has a like one over the other. -/
theorem Alongside.exists_reply (hp : t.lexer.Like P .none (.equal ω) t.lexer) (h : Alongside P input t u)
    {last : Store σ τ π ρ} {r : Reply τ π ω}
    (hrun : t.lexer.run fuel (.ofStream t.stream t.rules) t.cursor = some ⟨last, .ok r⟩) :
    ∃ fuel' last' r' W, u.lexer.run fuel' (.ofStream u.stream u.rules) u.cursor = some ⟨last', .ok r'⟩ ∧
      TokenStream.Abreast input none none last.stream last'.stream W ∧ last.rules.Like P W last'.rules ∧
      r.Like W (.equal ω) r' ∧ W.rel t.cursor u.cursor := by
  obtain ⟨V, hV, hrules, hc⟩ := h.like
  have htogether : Machine.Together (TokenStream.Abreast input none none) P (.equal ω) (.ofStream t.stream t.rules)
      (.eval t.lexer t.cursor .nil) (.ofStream u.stream u.rules) (.eval t.lexer u.cursor .nil) V :=
    ⟨hV, hrules, .eval (Parser.Like.mono t.lexer hp (Matching.none_le V)) hc .nil⟩
  obtain ⟨fuel', last', r', W, hrun', hW, hrules', hlike⟩ := Parser.exists_reply_of_abreast htogether hrun
  obtain ⟨n, hleaves⟩ := Machine.leaves_of_run hrun
  obtain ⟨n', hleaves'⟩ := Machine.leaves_of_run hrun'
  have hstart : W.rel t.cursor u.cursor := by
    apply (hW.rel_iff _ _).mpr
    exact ((hV.rel_iff _ _).mp hc).extend (Machine.later_of_path hleaves.path).grows
      (Machine.later_of_path hleaves'.path).grows
  rw [← h.lexer] at hrun'
  exact ⟨fuel', last', r', W, hrun', hW, hrules', hlike, hstart⟩

theorem lex_alongside (hp : t.lexer.Like P .none (.equal ω) t.lexer) (h : Alongside P input t u) {value : ω}
    {events : Array Event} (hl : t.lex fuel = some ⟨t', .ok value, events⟩) :
    ∃ fuel' u' events', u.lex fuel' = some ⟨u', .ok value, events'⟩ ∧ Alongside P input t' u' := by
  obtain ⟨hrun, hmoved, hlexer⟩ := run_of_lex hl
  obtain ⟨fuel', ⟨stream, rules, log⟩, r', W, hrun', hW, hrules', hlike, hstart⟩ := h.exists_reply hp hrun
  cases hlike with
  | @success _ value' _ after heq hafter =>
    obtain rfl : value = value' := heq
    -- Both runs moved on, since their starts are matched by then as well.
    have hmoved' : after.same u.cursor = false := by rw [← W.same hafter hstart, hmoved]
    refine ⟨fuel', _, log, lex_of_run hrun' hmoved', ?_, W, hW, hrules', hafter⟩
    rw [h.lexer, hlexer]

/-- A lexer that does not match over one of the streams does not match over the other. -/
theorem stops_alongside (hp : t.lexer.Like P .none (.equal ω) t.lexer) (h : Alongside P input t u)
    (ht : t.cursor.hasToken = true) {last : Store σ τ π ρ} {fault : Fault τ π}
    (hrun : t.lexer.run fuel (.ofStream t.stream t.rules) t.cursor = some ⟨last, .ok (.failure fault)⟩) :
    ∃ reason, u.Stops (.unlexable reason) := by
  obtain ⟨fuel', last', r', W, hrun', -, -, hlike, -⟩ := h.exists_reply hp hrun
  cases hlike with
  | failure hfault => exact ⟨_, h.hasToken.trans ht, fuel', _, _, by rw [lex, hrun']; rfl⟩

/-- The chunks of the stream below do not show in the values of the lexer. -/
theorem lexes_alongside (hp : t.lexer.Like P .none (.equal ω) t.lexer) (h : Alongside P input t u)
    (hlexes : t.Lexes lexemes t') : ∃ lexemes' u', u.Lexes lexemes' u' ∧
      lexemes'.map Lexeme.value = lexemes.map Lexeme.value ∧ Alongside P input t' u' := by
  induction hlexes generalizing u with
  | nil t => exact ⟨[], u, .nil u, rfl, h⟩
  | @cons t mid t' fuel value events lexemes ht hl _ ih =>
    obtain ⟨fuel', v, events', hl', hmid⟩ := lex_alongside hp h hl
    obtain ⟨-, -, hlexer⟩ := run_of_lex hl
    obtain ⟨lexemes', u', hlexes', hvalues, hend⟩ := ih (hlexer ▸ hp) hmid
    refine ⟨⟨u, value, v⟩ :: lexemes', u', .cons (h.hasToken.trans ht) hl' hlexes', ?_, hend⟩
    rw [List.map_cons, List.map_cons, hvalues]

end Tokenizer

namespace Parser

variable {p : Parser τ π ρ α} {fuel : Nat} {rules : Rules τ π ρ} {tokens : List τ}

omit [Source σ τ] [Source σ' τ] [Described τ] [Described π] in
theorem parseList_eq_some_iff {result : Except ReadError (Reply τ π α)} :
    (∃ last, p.parseList fuel rules tokens = some ⟨last, result⟩) ↔ ∃ last,
      p.run fuel (.ofStream (.ofList tokens) rules) (TokenStream.ofList tokens).start = some ⟨last, result⟩ := by
  simp only [parseList, parse]
  rcases p.run fuel (.ofStream (.ofList tokens) rules) (TokenStream.ofList tokens).start with _ | ⟨last, result'⟩
  · simp
  · simp

end Parser

namespace TokenStream

variable {t t' : Tokenizer σ τ π ρ ω} {lexemes : List (Tokenizer.Lexeme σ τ π ρ ω)} {size : Nat} {e : ReadError}

omit [Source σ' τ] [Position π τ] [Described τ] [Described π] in
theorem Reading.live_of_full {s s' : TokenStream σ τ} {events : Array Event} (h : Reading s ⟨s', .ok (), events⟩)
    (hfull : [] ∉ s'.layout) : s'.live = true := by
  cases h with
  | more => rfl
  | ended => exact absurd (by simp [layout]) hfull

/-- The stream still has its tokenizer. Each cursor that has its place is matched with itself. -/
structure Feeding (t : Tokenizer σ τ π ρ ω) (size : Nat) (s s' : TokenStream (Tokenizer σ τ π ρ ω) ω)
    (V : Matching ω LinearPosition) : Prop where
  same : s' = s
  live : s.live = true
  tidy : s.Tidy
  readFrom : s.ReadFrom t size
  lexed : ∃ runs, s.Lexed t runs
  rel_iff : ∀ c c', V.rel c c' ↔ c' = c ∧ s.Placed c

omit [Source σ' τ] in
theorem exists_feeding {s : TokenStream (Tokenizer σ τ π ρ ω) ω} (hl : s.live = true) (ht : s.Tidy)
    (hr : s.ReadFrom t size) (h : ∃ runs, s.Lexed t runs) : ∃ V, Feeding t size s s V := by
  refine ⟨⟨fun c c' => c' = c ∧ s.Placed c, ?_, ?_, ?_⟩, rfl, hl, ht, hr, h, fun _ _ => Iff.rfl⟩
  · rintro c _ ⟨rfl, -⟩
    rfl
  · rintro c _ ⟨rfl, -⟩
    rfl
  · rintro c _ d _ ⟨rfl, -⟩ ⟨rfl, -⟩
    rfl

variable [LawfulSource σ τ]

omit [Source σ' τ] in
/-- Where the lexer does not come to the end, a move that is answered leaves the tokenizer with the stream. -/
theorem joins_feeding (hsize : 0 < size) (hlexes : t.Lexes lexemes t') (hend : t'.Ends (some e)) :
    Machine.Joins (Feeding t size) := by
  intro s s₁ s' s₁' V c c' d d' fuel fuel' events events' hJ hc ha ha'
  obtain ⟨rfl, hplaced⟩ := (hJ.rel_iff c c').mp hc
  obtain ⟨rfl, hlive, htidy, hread, ⟨runs, hlexed⟩, hrel⟩ := hJ
  have hmax := advance_of_le (Nat.le_max_left fuel fuel') ha
  have hmax' := advance_of_le (Nat.le_max_right fuel fuel') ha'
  rw [hmax] at hmax'
  cases hmax'
  have hadv := advancing_of_advance ha
  have hlexed' : s₁.Lexed t (runs ++ s'.lexings fuel c') := by
    refine hlexed.advance htidy ?_ ha
    rw [hread.chunkSize]
    exact hsize
  have htidy' : s₁.Tidy := hadv.tidy htidy
  have hfull := hlexed'.nil_not_mem htidy' hlexes hend
  have hlive' : s₁.live = true := by
    cases hadv with
    | still | inside | across => exact hlive
    | read _ _ _ hr => exact hr.live_of_full hfull
  obtain ⟨W, hW⟩ := exists_feeding hlive' htidy' (hread.advancing hadv) ⟨_, hlexed'⟩
  refine ⟨W, ?_, hW, ?_⟩
  · intro x x' hx
    obtain ⟨rfl, hx⟩ := (hrel x x').mp hx
    exact (hW.rel_iff _ _).mpr ⟨rfl, hx.extend hadv.grows⟩
  · exact (hW.rel_iff _ _).mpr ⟨rfl, hadv.placed hplaced⟩

omit [Source σ' τ] in
/-- A cursor of a stream whose lexer does not come to the end has a token, and it is one of those that are lexed. -/
theorem Feeding.indexOf_lt {s last : TokenStream (Tokenizer σ τ π ρ ω) ω} {V : Matching ω LinearPosition}
    {d : Cursor ω LinearPosition} (h : Feeding t size s s V) (hlexes : t.Lexes lexemes t') (hend : t'.Ends (some e))
    (hd : V.rel d d) (hlater : s.Later last) : d.hasToken = true ∧ last.indexOf d < lexemes.length := by
  obtain ⟨-, hplaced⟩ := (h.rel_iff d d).mp hd
  obtain ⟨runs, hlexed⟩ := h.lexed
  cases hcur : d.current with
  | none =>
    have hchunk := hplaced.chunk_of_end hcur
    exact absurd (List.mem_of_getElem? hchunk) (hlexed.nil_not_mem h.tidy hlexes hend)
  | some token =>
    have hlt := (List.getElem?_eq_some_iff.mp (hplaced.token_eq hcur)).1
    have hle := (hlexed.tokens_prefix hlexes hend).length_le
    rw [List.length_map] at hle
    rw [hplaced.indexOf_extend hlater.grows]
    exact ⟨by simp [Cursor.hasToken, hcur], by omega⟩

end TokenStream

namespace Pipeline

variable {p : Pipeline τ π ρ ω κ α} {stream : TokenStream σ τ} {c : Cursor τ π} {fuel : Nat}

def tokenizer (p : Pipeline τ π ρ ω κ α) (stream : TokenStream σ τ) (c : Cursor τ π) : Tokenizer σ τ π ρ ω :=
  ⟨stream, p.lexerRules, c, p.lexer⟩

omit [Source σ' τ] in
theorem run_cases {outcome : Outcome σ τ ω α} (h : p.run fuel stream c = some outcome) :
    ∃ tokens opened events,
      TokenStream.openSource fuel (p.tokenizer stream c) p.chunkSize = some ⟨tokens, opened, events⟩ ∧
      match opened with
      | .error e => outcome.result = .error e
      | .ok () => ∃ last,
        p.grammar.run fuel ⟨tokens, p.grammarRules, events⟩ tokens.start = some ⟨last, outcome.result⟩ := by
  simp only [run, Parser.tokenize] at h
  rcases hopen : TokenStream.openSource fuel (⟨stream, p.lexerRules, c, p.lexer⟩ : Tokenizer σ τ π ρ ω) p.chunkSize
    with _ | ⟨tokens, e | ok, events⟩
  · simp [hopen] at h
  · simp only [hopen] at h
    cases h
    exact ⟨tokens, .error e, events, hopen, rfl⟩
  · simp only [hopen, Parser.parse] at h
    refine ⟨tokens, .ok (), events, hopen, ?_⟩
    rcases hrun : p.grammar.run fuel ⟨tokens, p.grammarRules, events⟩ tokens.start with _ | ⟨last, result⟩
    · simp [hrun] at h
    · simp only [hrun] at h
      cases h
      exact ⟨last, rfl⟩

omit [Source σ' τ] in
theorem run_of_le [LawfulSource σ τ] {fuel' : Nat} {outcome : Outcome σ τ ω α} (h : fuel ≤ fuel')
    (hr : p.run fuel stream c = some outcome) : p.run fuel' stream c = some outcome := by
  simp only [run, Parser.tokenize] at hr ⊢
  rcases hopen : TokenStream.openSource fuel (⟨stream, p.lexerRules, c, p.lexer⟩ : Tokenizer σ τ π ρ ω) p.chunkSize
    with _ | ⟨tokens, e | ok, events⟩
  all_goals simp only [hopen] at hr
  · cases hr
  all_goals
    have hopen' : TokenStream.openSource fuel' (⟨stream, p.lexerRules, c, p.lexer⟩ : Tokenizer σ τ π ρ ω)
        p.chunkSize = _ := TokenStream.readChunk_of_le h hopen
    simp only [hopen']
  · exact hr
  · simp only [Parser.parse] at hr ⊢
    rcases hrun : p.grammar.run fuel ⟨tokens, p.grammarRules, events⟩ tokens.start with _ | finish
    · simp [hrun] at hr
    · rw [hrun] at hr
      have hrun' : p.grammar.run fuel' ⟨tokens, p.grammarRules, events⟩ tokens.start = some finish :=
        Machine.run_of_le h hrun
      rw [hrun']
      exact hr

omit [Source σ' τ] in
theorem exists_run [LawfulSource σ τ] {tokens : TokenStream (Tokenizer σ τ π ρ ω) ω} {events : Array Event}
    {fuel' : Nat} {last : Store (Tokenizer σ τ π ρ ω) ω LinearPosition κ}
    {result : Except ReadError (Reply ω LinearPosition α)}
    (hopen : TokenStream.openSource fuel (p.tokenizer stream c) p.chunkSize = some ⟨tokens, .ok (), events⟩)
    (hrun : p.grammar.run fuel' ⟨tokens, p.grammarRules, events⟩ tokens.start = some ⟨last, result⟩) :
    ∃ fuel outcome, p.run fuel stream c = some outcome ∧ outcome.result = result := by
  refine ⟨max fuel fuel', ?_⟩
  have hopen' : TokenStream.openSource (max fuel fuel') (⟨stream, p.lexerRules, c, p.lexer⟩ : Tokenizer σ τ π ρ ω)
      p.chunkSize = some ⟨tokens, .ok (), events⟩ := TokenStream.readChunk_of_le (Nat.le_max_left ..) hopen
  have hrun' : p.grammar.run (max fuel fuel') ⟨tokens, p.grammarRules, events⟩ tokens.start = some ⟨last, result⟩ :=
    Machine.run_of_le (Nat.le_max_right ..) hrun
  simp only [run, Parser.tokenize, hopen', Parser.parse, hrun', Option.map_some]
  exact ⟨_, rfl, rfl⟩

/-- The pipeline ends if parsing the list of tokens does, and then with a reply in which the same is to be seen. -/
structure Agrees (p : Pipeline τ π ρ ω κ α) (R : Likeness ω LinearPosition α) (stream : TokenStream σ τ)
    (c : Cursor τ π) (tokens : List ω) : Prop where
  halts : (∃ fuel outcome, p.run fuel stream c = some outcome) ↔
    ∃ fuel finish, p.grammar.parseList fuel p.grammarRules tokens = some finish
  observed : ∀ fuel outcome fuel' finish, p.run fuel stream c = some outcome →
    p.grammar.parseList fuel' p.grammarRules tokens = some finish →
    ∃ r r' V, outcome.result = .ok r ∧ finish.result = .ok r' ∧ r.Like V R r'

variable {P : Likeness ω LinearPosition κ} {R : Likeness ω LinearPosition α} [LawfulSource σ τ]
variable {t' : Tokenizer σ τ π ρ ω} {lexemes : List (Tokenizer.Lexeme σ τ π ρ ω)}

omit [Source σ τ] [Source σ' τ] [Described τ] [Described π] [LawfulSource σ τ] in
theorem level_start [Source σ τ] {fuel size : Nat} {source : σ} {first : TokenStream σ τ} {events : Array Event}
    (hopen : TokenStream.openSource fuel source size = some ⟨first, .ok (), events⟩) (tokens : List τ) :
    first.Level (TokenStream.ofList tokens) (first.start : Cursor τ π) (TokenStream.ofList tokens).start := by
  obtain ⟨-, hsize⟩ := Session.tidy_of_openSource hopen
  have hlist : 0 < (TokenStream.ofList tokens).chunks.size := by
    unfold TokenStream.ofList TokenStream.ofArray
    split <;> simp
  exact ⟨TokenStream.placed_start (by omega), TokenStream.placed_start hlist, rfl⟩

omit [Source σ' τ] in
theorem halts_of_parseList (hp : p.grammar.Like P .none R p.grammar)
    (hrules : p.grammarRules.Like P .none p.grammarRules) {values : List ω} {ending : Option ReadError}
    {finish : Machine.Finish (NoSource ω) ω LinearPosition κ α}
    (hdelivers : Delivers (max p.chunkSize 1) (p.tokenizer stream c) values ending)
    (hparse : p.grammar.parseList fuel p.grammarRules values = some finish) :
    ∃ fuel outcome, p.run fuel stream c = some outcome := by
  obtain ⟨fuel', ⟨tokens, opened, events⟩, hopen⟩ := (TokenStream.carries_unread hdelivers).read_answered
  cases opened with
  | error e =>
    refine ⟨fuel', ?_⟩
    have hopen' : TokenStream.openSource fuel' (⟨stream, p.lexerRules, c, p.lexer⟩ : Tokenizer σ τ π ρ ω) p.chunkSize =
        some ⟨tokens, .error e, events⟩ := hopen
    simp only [run, Parser.tokenize, hopen']
    exact ⟨_, rfl⟩
  | ok =>
    have hlist := TokenStream.carries_ofList values
    have hlevel := level_start (π := LinearPosition) hopen values
    obtain ⟨last, result⟩ := finish
    obtain ⟨last', hrun'⟩ := Parser.parseList_eq_some_iff.mp ⟨last, hparse⟩
    obtain ⟨r, rfl⟩ := Parser.exists_ok_of_run hp hrules hlist hlevel.placed' hrun'
    obtain ⟨V, hV⟩ := TokenStream.exists_abreast (π := LinearPosition) hlist
      (TokenStream.carries_openSource hdelivers hopen)
    have hstart := (hV.rel_iff _ _).mpr ⟨hlevel.placed', hlevel.placed, rfl⟩
    obtain ⟨fuel'', last'', result, hgrammar, -⟩ :=
      Parser.exists_run_of_abreast (Parser.together_at hp hrules hV hstart #[] events) hrun'
    obtain ⟨fuel, outcome, hrun, -⟩ := exists_run hopen hgrammar
    exact ⟨fuel, outcome, hrun⟩

omit [Source σ' τ] in
/-- Every run of the pipeline is a run over the list of its tokens as well. -/
theorem phases_of_run (hp : p.grammar.Like P .none R p.grammar) (hrules : p.grammarRules.Like P .none p.grammarRules)
    {values : List ω} (hdelivers : Delivers (max p.chunkSize 1) (p.tokenizer stream c) values none)
    {outcome : Outcome σ τ ω α} (hrun : p.run fuel stream c = some outcome) :
    ∃ r last' r', outcome.result = .ok r ∧
      p.grammar.run fuel (.ofStream (.ofList values) p.grammarRules) (TokenStream.ofList values).start =
        some ⟨last', .ok r'⟩ ∧ ∃ V, r.Like V R r' := by
  obtain ⟨tokens, opened, events, hopen, hrest⟩ := run_cases hrun
  obtain rfl : opened = .ok () := TokenStream.openSource_ok hdelivers hopen
  obtain ⟨last, hgrammar⟩ := hrest
  have hcarries := TokenStream.carries_openSource hdelivers hopen
  obtain ⟨r, last', r', hok, hrun', V, -, hlike⟩ := Parser.observed_of_whole hp hrules hcarries
    (TokenStream.carries_ofList values) rfl (level_start hopen _) hgrammar
  exact ⟨r, last', r', hok, hrun', V, hlike⟩

omit [Source σ' τ] in
theorem agrees_of_lexes (hp : p.grammar.Like P .none R p.grammar) (hrules : p.grammarRules.Like P .none p.grammarRules)
    (h : (p.tokenizer stream c).Lexes lexemes t') (hend : t'.cursor.hasToken = false) :
    p.Agrees R stream c (lexemes.map (·.value)) := by
  have hdelivers : Delivers (max p.chunkSize 1) (p.tokenizer stream c) (lexemes.map (·.value)) none :=
    Tokenizer.delivers_of_lexes (by omega) h hend
  refine ⟨⟨?_, ?_⟩, ?_⟩
  · rintro ⟨fuel, outcome, hrun⟩
    obtain ⟨r, last', r', -, hrun', -⟩ := phases_of_run hp hrules hdelivers hrun
    obtain ⟨last, hparse⟩ := Parser.parseList_eq_some_iff.mpr ⟨last', hrun'⟩
    exact ⟨fuel, _, hparse⟩
  · rintro ⟨fuel, finish, hparse⟩
    exact halts_of_parseList hp hrules hdelivers hparse
  · intro fuel outcome fuel' finish hrun hparse
    obtain ⟨r, last', r', hok, hrun', V, hlike⟩ := phases_of_run hp hrules hdelivers hrun
    obtain ⟨last, result⟩ := finish
    obtain ⟨last'', hrun''⟩ := Parser.parseList_eq_some_iff.mp ⟨last, hparse⟩
    cases Machine.run_unique hrun' hrun''
    exact ⟨r, r', V, hok, rfl, hlike⟩

/-- A pipeline whose lexer stops with the error `e` behind `tokens` ends with that error, or with a reply for which the
grammar came to none but these tokens, and to no end. -/
structure CutOff (p : Pipeline τ π ρ ω κ α) (stream : TokenStream σ τ) (c : Cursor τ π) (tokens : List ω)
    (e : ReadError) : Prop where
  halts : (∃ fuel finish, p.grammar.parseList fuel p.grammarRules tokens = some finish) →
    ∃ fuel outcome, p.run fuel stream c = some outcome
  result : ∀ fuel outcome, p.run fuel stream c = some outcome → outcome.result = .error e ∨
    ∃ first events last r,
      p.lexer.tokenize fuel stream p.lexerRules c p.chunkSize = some ⟨first, .ok (), events⟩ ∧
      p.grammar.run fuel ⟨first, p.grammarRules, events⟩ first.start = some ⟨last, .ok r⟩ ∧ outcome.result = .ok r ∧
      ∀ d ∈ first.start :: Machine.passed fuel ⟨first, p.grammarRules, events⟩ (.eval p.grammar first.start .nil),
        d.hasToken = true ∧ last.stream.indexOf d < tokens.length

omit [Source σ' τ] in
theorem cutOff_of_lexes (hp : p.grammar.Like P .none R p.grammar) (hrules : p.grammarRules.Like P .none p.grammarRules)
    (h : (p.tokenizer stream c).Lexes lexemes t') {e : ReadError} (he : t'.Stops e) :
    p.CutOff stream c (lexemes.map (·.value)) e := by
  have hend : t'.Ends (some e) := he
  refine ⟨?_, ?_⟩
  · rintro ⟨fuel, finish, hparse⟩
    exact halts_of_parseList hp hrules (Tokenizer.delivers_of_lexes (by omega) h hend) hparse
  intro fuel outcome hrun
  obtain ⟨first, opened, events, hopen, hrest⟩ := run_cases hrun
  cases opened with
  | error e' =>
    have hunread : (TokenStream.unread (p.tokenizer stream c) p.chunkSize).Lexed (p.tokenizer stream c) [] :=
      .live rfl (.nil _) rfl rfl
    obtain ⟨rfl, -⟩ := (hunread.error_iff_of_readChunk rfl h hend hopen e').mp rfl
    exact .inl hrest
  | ok =>
    obtain ⟨last, hgrammar⟩ := hrest
    obtain ⟨hsound, hread, -⟩ : Session.Reads (p.tokenizer stream c) (max p.chunkSize 1)
        ⟨first, [first.start (π := LinearPosition)]⟩ := Session.reads_start hopen
    have hlexed := TokenStream.lexed_openSource hopen
    have hlive : first.live = true :=
      (TokenStream.reading_of_readChunk hopen).live_of_full (hlexed.nil_not_mem hsound.tidy h hend)
    obtain ⟨V, hV⟩ := TokenStream.exists_feeding hlive hsound.tidy hread ⟨_, hlexed⟩
    have hstart : V.rel first.start first.start :=
      (hV.rel_iff _ _).mpr ⟨rfl, hsound.placed _ (List.mem_singleton_self _)⟩
    have htogether := Parser.together_at hp hrules hV hstart events events
    have hjoins : Machine.Joins (TokenStream.Feeding (p.tokenizer stream c) (max p.chunkSize 1)) :=
      TokenStream.joins_feeding (by omega) h hend
    cases hresult : outcome.result with
    | error e' =>
      rw [hresult] at hgrammar
      obtain ⟨s, W, d, fuel', events', hW, hd, ha⟩ := Machine.related_of_error hjoins htogether hgrammar
      obtain ⟨runs, hlexed'⟩ := hW.lexed
      rcases (hlexed'.error_cases h hend ha).2 e' rfl with ⟨rfl, -⟩ | ⟨-, hdead⟩
      · exact .inl rfl
      · simp [hW.live] at hdead
    | ok r =>
      rw [hresult] at hgrammar
      refine .inr ⟨first, events, last, r, hopen, hgrammar, rfl, ?_⟩
      intro d hd
      rw [List.length_map]
      rcases List.mem_cons.mp hd with rfl | hd
      · obtain ⟨n, hleaves⟩ := Machine.leaves_of_run hgrammar
        exact hV.indexOf_lt h hend hstart (Machine.later_of_path hleaves.path)
      · obtain ⟨s, W, hW, hrel, hlater⟩ := Machine.related_of_passed hjoins htogether hgrammar hd
        exact hW.indexOf_lt h hend hrel hlater

end Pipeline

end StreamParsing
