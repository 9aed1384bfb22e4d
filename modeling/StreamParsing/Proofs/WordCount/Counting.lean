import Mathlib.Data.List.DropRight
import StreamParsing.Proofs.Machine.Verdicts
import StreamParsing.Proofs.Stream.TextReading
import StreamParsing.Proofs.Tokens.Phases
import StreamParsing.Proofs.WordCount.Words

/-!
The word counter counts words. Its lexer skips the separators on both sides of a run, so it finds run after run up to
the end of the text, in whatever pieces the text is read. It has no run to find in a text that has none, and then it
comes to the end only if there is nothing to skip either: separators alone are refused.
-/

namespace StreamParsing

set_option autoImplicit false

universe u

namespace Setting

variable {σ : Type u} {τ π ρ β : Type} [Source σ τ] [LawfulSource σ τ] [Position π τ] {S : Setting σ τ π ρ}
variable {test : τ → Bool} {t : τ} {ts : List τ}

/-- A loop that has enough tokens takes all further ones that pass the test. -/
theorem gives_rounds_satisfy (seed : Parser τ π ρ β) (step : β → τ → β) {least count : Nat} (henough : least ≤ count)
    (acc : β) (ts : List τ) :
    S.Gives (.rounds ⟨seed, .satisfy test, step, .atLeast least⟩ acc count) ts
      (.success ((ts.takeWhile test).foldl step acc) (ts.dropWhile test)) := by
  have missed {ts : List τ} {acc : β} {count : Nat} (henough : least ≤ count) (h : ts.head?.filter test = none) :
      S.Gives (.rounds ⟨seed, .satisfy test, step, .atLeast least⟩ acc count) ts (.success acc ts) := by
    intro c hc
    obtain ⟨_, hitem, ⟨⟩⟩ := yields_satisfy_failure h c hc
    have hround : Evaluates .lasting [] S.store (.rounds ⟨seed, .satisfy test, step, .atLeast least⟩ acc count c)
        S.store (.ok (if count < least then .failure _ else .success acc c)) :=
      .rounds_failed rfl (hitem.of_lasting _)
    rw [if_neg (Nat.not_lt.mpr henough)] at hround
    exact ⟨_, hround, .success hc⟩
  induction ts generalizing acc count with
  | nil => exact missed henough rfl
  | cons t ts ih =>
    cases ht : test t with
    | false =>
      rw [List.takeWhile_cons_of_neg (by simp [ht]), List.dropWhile_cons_of_neg (by simp [ht])]
      exact missed henough (by simp [ht])
    | true =>
      rw [List.takeWhile_cons_of_pos ht, List.dropWhile_cons_of_pos ht]
      intro c hc
      obtain ⟨_, hitem, ⟨hd⟩⟩ := yields_satisfy ht c hc
      obtain ⟨reply, hnext, hm⟩ := ih (Nat.le_succ_of_le henough) (step acc t) _ hd
      refine ⟨reply, .rounds_next rfl (hitem.of_lasting _) ?_ hnext, hm⟩
      rw [hc.same_eq_false hd (Nat.lt_succ_self _), Bool.false_and]

theorem yields_foldLeft_satisfy (test : τ → Bool) (seed : β) (op : β → τ → β) (ts : List τ) :
    S.Yields ((Parser.satisfy test).foldLeft seed op) ts
      (.success ((ts.takeWhile test).foldl op seed) (ts.dropWhile test)) := by
  intro c hc
  obtain ⟨reply, hrounds, hm⟩ := gives_rounds_satisfy (.pure seed) op (Nat.le_refl 0) seed ts c hc
  exact ⟨reply, .loop_seeded .pure hrounds, hm⟩

theorem yields_skipMany_satisfy (test : τ → Bool) (ts : List τ) :
    S.Yields (Parser.satisfy test).skipMany ts (.success () (ts.dropWhile test)) :=
  yields_foldLeft_satisfy test () (fun _ _ => ()) ts

theorem yields_many1_satisfy (ht : test t = true) (ts : List τ) :
    S.Yields (Parser.satisfy test).many1 (t :: ts)
      (.success (t :: ts.takeWhile test).toArray (ts.dropWhile test)) := by
  intro c hc
  obtain ⟨_, hitem, ⟨hd⟩⟩ := yields_satisfy ht c hc
  obtain ⟨reply, hnext, hm⟩ := gives_rounds_satisfy (.pure #[]) Array.push (Nat.le_refl 1) #[t] ts _ hd
  refine ⟨reply, .loop_seeded .pure (.rounds_next rfl (hitem.of_lasting _) ?_ hnext), ?_⟩
  · rw [hc.same_eq_false hd (Nat.lt_succ_self _), Bool.false_and]
  · simpa [List.foldl_push_eq_append'] using hm

theorem yields_many1_satisfy_failure (h : ts.head?.filter test = none) :
    S.Yields (Parser.satisfy test).many1 ts .failure := by
  intro c hc
  obtain ⟨_, hitem, ⟨⟩⟩ := yields_satisfy_failure h c hc
  exact ⟨_, .loop_seeded .pure (.rounds_failed rfl (hitem.of_lasting _)), .failure _⟩

end Setting

namespace Parser

variable {τ π ρ α β γ : Type} {P : Likeness τ π ρ} {V : Matching τ π}

theorem like_map {p : Parser τ π ρ α} (hp : p.Like P V (.equal α) p) (f : α → β) :
    (p.map f).Like P V (.equal β) (p.map f) := by
  refine .tryMap hp ?_
  rintro W - a _ rfl
  exact .ok rfl

theorem alikeJoins_equal (f : α → β → γ) : AlikeJoins V (.equal α) (.equal β) (.equal γ) f f := by
  rintro W - a _ b _ rfl rfl
  rfl

theorem like_foldLeft {item : Parser τ π ρ α} (hitem : item.Like P V (.equal α) item) (seed : β) (op : β → α → β)
    (bounds : Bounds) : (loop (.pure seed) item op bounds).Like P V (.equal β) (loop (.pure seed) item op bounds) :=
  .loop bounds (.pure rfl) hitem (alikeJoins_equal op)

end Parser

namespace WordCount

open Text (isAlphanumeric)

variable {σ : Type u} [Source σ Char] [LawfulSource σ Char] {ρ : Type} {text ts rest : List Char} {a : Char}

section Lexer

variable {S : Setting σ Char TextPosition ρ}

/-- The lexer reads the first run, with the separators on both sides of it. -/
theorem yields_word (h : ts.dropWhile isSeparator = a :: rest) :
    S.Yields word ts (.success (Text.lowercase (String.ofList (a :: rest.takeWhile isAlphanumeric)))
      ((rest.dropWhile isAlphanumeric).dropWhile isSeparator)) := by
  have ha := isAlphanumeric_of_dropWhile h
  have hskip := Setting.yields_skipMany_satisfy (S := S) isSeparator ts
  rw [h] at hskip
  have hrun := Setting.yields_map (Setting.yields_many1_satisfy (S := S) ha rest) fun cs => String.ofList cs.toList
  have hsep := Setting.yields_skipMany_satisfy (S := S) isSeparator (rest.dropWhile isAlphanumeric)
  exact Setting.yields_map (Setting.yields_zipWith (Setting.yields_zipWith hskip hrun) hsep) Text.lowercase

theorem yields_word_failure (h : ts.dropWhile isSeparator = []) : S.Yields word ts .failure := by
  have hskip := Setting.yields_skipMany_satisfy (S := S) isSeparator ts
  rw [h] at hskip
  have hnone : S.Yields (Parser.alphanumeric.many1) [] .failure := Setting.yields_many1_satisfy_failure rfl
  have hword := Setting.yields_zipWith (f := fun _ b => b) hskip
    (Setting.yields_map hnone fun cs => String.ofList cs.toList)
  exact Setting.yields_map (Setting.yields_zipWith_passes hword .failure) Text.lowercase

end Lexer

theorem steady_word : (word : Parser Char TextPosition ρ String).Steady := by
  have hskip {test : Char → Bool} : (Parser.satisfy test : Parser Char TextPosition ρ Char).skipMany.Steady :=
    .loop _ _ (.pure _) (.satisfy _)
  exact .tryMap _ (.zipWith _ (.zipWith _ hskip (.tryMap _ (.loop _ _ (.pure _) (.satisfy _)))) hskip)

theorem kept_empty {τ π ρ : Type} : (.empty : Rules τ π ρ).Kept := by
  intro entry hmem
  simp [Rules.empty] at hmem

def whole (text : List Char) : Setting (NoSource Char) Char TextPosition Empty := .ofList text .empty

/-- The lexer at some place of such a text. -/
def lexing (text : List Char) (c : Cursor Char TextPosition) :
    Tokenizer (NoSource Char) Char TextPosition Empty String := ⟨.ofList text, .empty, c, word⟩

variable {c : Cursor Char TextPosition}

theorem length_behind_lt (h : ts.dropWhile isSeparator = a :: rest) :
    ((rest.dropWhile isAlphanumeric).dropWhile isSeparator).length < ts.length := by
  have hdrop := (List.dropWhile_sublist (l := ts) isSeparator).length_le
  have hrest := (List.dropWhile_sublist (l := rest) isAlphanumeric).length_le
  have hgap := (List.dropWhile_sublist (l := rest.dropWhile isAlphanumeric) isSeparator).length_le
  rw [h, List.length_cons] at hdrop
  omega

theorem exists_lex (hc : (whole text).Faces c ts)
    (h : ts.dropWhile isSeparator = a :: rest) :
    ∃ fuel d events, (lexing text c).lex fuel =
        some ⟨lexing text d, .ok (Text.lowercase (String.ofList (a :: rest.takeWhile isAlphanumeric))), events⟩ ∧
      (whole text).Faces d ((rest.dropWhile isAlphanumeric).dropWhile isSeparator) := by
  obtain ⟨_, ⟨hd⟩, ⟨fuel, hrun⟩, -⟩ := (yields_word h).run kept_empty steady_word hc
  exact ⟨fuel, _, _, Tokenizer.lex_of_run hrun (hc.same_eq_false hd (length_behind_lt h)), hd⟩

/-- By induction on the length of the text that is left: behind each run a run begins, or the text is over. -/
theorem exists_lexes (hc : (whole text).Faces c ts)
    (hts : ts = [] ∨ ts.dropWhile isSeparator ≠ []) :
    ∃ lexemes t', (lexing text c).Lexes lexemes t' ∧ t'.cursor.hasToken = false ∧
      lexemes.map Tokenizer.Lexeme.value = words ts := by
  generalize hn : ts.length = n
  induction n using Nat.strongRecOn generalizing c ts with
  | ind n ih =>
    by_cases hempty : ts = []
    · obtain rfl := hempty
      have hcur : c.current = none := hc.current
      refine ⟨[], _, .nil _, ?_, words_nil.symm⟩
      rw [lexing, Cursor.hasToken, hcur]
      rfl
    · obtain ⟨a, rest, hdrop⟩ := List.exists_cons_of_ne_nil (hts.resolve_left hempty)
      obtain ⟨fuel, d, events, hlex, hd⟩ := exists_lex hc hdrop
      generalize hbehind : (rest.dropWhile isAlphanumeric).dropWhile isSeparator = behind at hd
      have hshort : behind.length < n := by
        rw [← hn, ← hbehind]
        exact length_behind_lt hdrop
      have hnext : behind = [] ∨ behind.dropWhile isSeparator ≠ [] := by
        rw [← hbehind, List.dropWhile_idempotent]
        exact Classical.em _
      obtain ⟨lexemes, t', hlexes, hend, hvalues⟩ := ih behind.length hshort hd hnext rfl
      have htoken : c.hasToken = true := by
        rw [Cursor.hasToken, hc.current, List.isSome_head?]
        simpa using hempty
      refine ⟨_, t', .cons htoken hlex hlexes, hend, ?_⟩
      rw [List.map_cons, hvalues, ← words_dropWhile_separators ts, hdrop,
        words_cons_of_letter (isAlphanumeric_of_dropWhile hdrop), ← hbehind, words_dropWhile_separators]

theorem like_word : (word : Parser Char TextPosition ρ String).Like (.equal ρ) .none (.equal String) word := by
  have htest (test : Char → Bool) : (Parser.satisfy test : Parser Char TextPosition ρ Char).Like (.equal ρ) .none
      (.equal Char) (.satisfy test) := .satisfy test fun _ => rfl
  have hskip := Parser.like_foldLeft (htest isSeparator) () (fun _ _ => ()) (.atLeast 0)
  have hrun := Parser.like_map (Parser.like_foldLeft (htest isAlphanumeric) #[] Array.push (.atLeast 1))
    fun cs => String.ofList cs.toList
  exact Parser.like_map (.zipWith (.zipWith hskip hrun (Parser.alikeJoins_equal _)) hskip (Parser.alikeJoins_equal _))
    Text.lowercase

theorem like_grammar : pipeline.grammar.Like (.equal Empty) .none (.equal Counts) pipeline.grammar :=
  Parser.like_foldLeft (.satisfy _ fun _ => rfl) ∅ add (.atLeast 0)

theorem like_empty {τ π ρ : Type} {P : Likeness τ π ρ} {V : Matching τ π} : (.empty : Rules τ π ρ).Like P V .empty :=
  ⟨rfl, fun he => by simp [Rules.empty] at he⟩

variable {s : TokenStream σ Char}

omit [LawfulSource σ Char] in
theorem alongside_start (hs : s.Carries text none) (hstart : s.Placed (s.start : Cursor Char TextPosition)) :
    Tokenizer.Alongside (.equal Empty) text (lexing text (TokenStream.ofList text).start)
      (pipeline.tokenizer s s.start) := by
  obtain ⟨V, hV⟩ := TokenStream.exists_abreast (π := TextPosition) (TokenStream.carries_ofList text) hs
  have hlist := Setting.faces_start (π := TextPosition) (ρ := Empty) text .empty
  exact ⟨rfl, V, hV, like_empty, (hV.rel_iff _ _).mpr ⟨hlist.placed, hstart, rfl⟩⟩

theorem faces_start (text : List Char) : (whole text).Faces (TokenStream.ofList text).start text :=
  Setting.faces_start text .empty

/-- The fold over the words of a list. -/
theorem exists_parseList (ws : List String) : ∃ fuel last c,
    pipeline.grammar.parseList fuel pipeline.grammarRules ws = some ⟨last, .ok (.success (ws.foldl add ∅) c)⟩ := by
  have hyields : (Setting.ofList (π := LinearPosition) (ρ := Empty) ws .empty).Yields pipeline.grammar ws
      (.success (ws.foldl add ∅) []) := by
    have hfold := Setting.yields_foldLeft_satisfy (S := .ofList (π := LinearPosition) (ρ := Empty) ws .empty)
      (fun _ => true) ∅ add ws
    rwa [List.takeWhile_eq_self_iff.mpr fun _ _ => rfl, List.dropWhile_eq_nil_iff.mpr fun _ _ => rfl] at hfold
  have hsteady : pipeline.grammar.Steady := .loop _ _ (.pure _) (.satisfy _)
  obtain ⟨_, ⟨hd⟩, ⟨fuel, hrun⟩, -⟩ := hyields.run kept_empty hsteady (Setting.faces_start ws .empty)
  obtain ⟨last, hparse⟩ := Parser.parseList_eq_some_iff.mpr ⟨_, hrun⟩
  exact ⟨fuel, last, _, hparse⟩

/-- A text that is over or that has a run is counted, however it is read. -/
theorem run_of_words (hs : s.Carries text none) (hstart : s.Placed (s.start : Cursor Char TextPosition))
    (htext : text = [] ∨ text.dropWhile isSeparator ≠ []) :
    (∃ fuel outcome, pipeline.run fuel s s.start = some outcome) ∧
      ∀ fuel outcome, pipeline.run fuel s s.start = some outcome →
        outcome.result.map counted = .ok ((words text).foldl add ∅) := by
  obtain ⟨lexemes, t', hlexes, hend, hvalues⟩ := exists_lexes (faces_start text) htext
  obtain ⟨lexemes', u', hlexes', hvalues', hlast⟩ :=
    Tokenizer.lexes_alongside like_word (alongside_start hs hstart) hlexes
  have hagrees := Pipeline.agrees_of_lexes like_grammar like_empty hlexes' (hlast.hasToken.trans hend)
  rw [hvalues', hvalues] at hagrees
  obtain ⟨fuel, last, c, hparse⟩ := exists_parseList (words text)
  refine ⟨hagrees.halts.mpr ⟨fuel, _, hparse⟩, fun fuel' outcome hrun => ?_⟩
  obtain ⟨r, r', V, hok, hok', hlike⟩ := hagrees.observed fuel' outcome fuel _ hrun hparse
  cases hok'
  cases hlike with
  | success hvalue =>
    rw [hok]
    exact congrArg Except.ok hvalue

/-- Separators alone are refused. -/
theorem run_of_separators (hs : s.Carries text none) (hstart : s.Placed (s.start : Cursor Char TextPosition))
    (hne : text ≠ []) (hnone : text.dropWhile isSeparator = []) :
    ∃ reason, (∃ fuel outcome, pipeline.run fuel s s.start = some outcome) ∧
      ∀ fuel outcome, pipeline.run fuel s s.start = some outcome →
        outcome.result.map counted = .error (.unlexable reason) := by
  have hstarts := faces_start text
  have htoken : (lexing text (TokenStream.ofList text).start).cursor.hasToken = true := by
    rw [lexing, Cursor.hasToken, hstarts.current, List.isSome_head?]
    simpa using hne
  obtain ⟨_, ⟨fault⟩, ⟨fuel, hrun⟩, -⟩ := (yields_word_failure hnone).run kept_empty steady_word hstarts
  obtain ⟨reason, hstops⟩ := Tokenizer.stops_alongside like_word (alongside_start hs hstart) htoken hrun
  have hcut := Pipeline.cutOff_of_lexes like_grammar like_empty (.nil _) hstops
  obtain ⟨fuel', last, c, hparse⟩ := exists_parseList []
  refine ⟨reason, hcut.halts ⟨fuel', _, hparse⟩, fun fuel outcome hrun => ?_⟩
  rcases hcut.result fuel outcome hrun with herror | ⟨first, events, last, r, -, -, -, hpassed⟩
  · rw [herror]
    rfl
  · -- A reply would have come to a token, but none was lexed.
    cases (hpassed _ (List.mem_cons_self ..)).2

variable {reader : Reader} {options : ReadOptions} {fuel fuel' : Nat}

theorem countWithin_of_le {result : Except ReadError Counts} (h : fuel ≤ fuel')
    (hc : countWithin fuel reader options = some result) : countWithin fuel' reader options = some result := by
  unfold countWithin at hc ⊢
  rcases hopen : TokenStream.openSource fuel (TextFeed.new reader options.encoding) options.chunkSize with
    _ | ⟨s, e | ok, events⟩
  all_goals simp only [hopen] at hc
  · cases hc
  all_goals
    have hopen' : TokenStream.openSource fuel' (TextFeed.new reader options.encoding) options.chunkSize = _ :=
      TokenStream.readChunk_of_le h hopen
    simp only [hopen']
  · exact hc
  · obtain ⟨outcome, hrun, rfl⟩ := Option.map_eq_some_iff.mp hc
    rw [Pipeline.run_of_le h hrun]
    rfl

theorem countWithin_unique {result result' : Except ReadError Counts}
    (h : countWithin fuel reader options = some result) (h' : countWithin fuel' reader options = some result') :
    result = result' := by
  have hmax := countWithin_of_le (Nat.le_max_left fuel fuel') h
  rw [countWithin_of_le (Nat.le_max_right fuel fuel') h'] at hmax
  exact (Option.some.inj hmax).symm

/-- What is known of the pipeline over every stream of the text is so of the counting. -/
theorem exists_countWithin {P : Except ReadError Counts → Prop}
    (hd : Delivers (max options.chunkSize 1) (TextFeed.new reader options.encoding) text none)
    (h : ∀ s : TokenStream TextFeed Char, s.Carries text none → s.Placed (s.start : Cursor Char TextPosition) →
      (∃ fuel outcome, pipeline.run fuel s s.start = some outcome) ∧
        ∀ fuel outcome, pipeline.run fuel s s.start = some outcome → P (outcome.result.map counted)) :
    ∃ result, P result ∧ (∃ fuel, countWithin fuel reader options = some result) ∧
      ∀ fuel result', countWithin fuel reader options = some result' → result' = result := by
  obtain ⟨fuel, s, events, hopen⟩ := TokenStream.exists_openSource hd
  obtain ⟨hcarries, hstart, -⟩ := TokenStream.opened_of_delivers TextPosition hd hopen
  obtain ⟨⟨fuel', outcome, hrun⟩, hresult⟩ := h s hcarries hstart
  have hcount : countWithin (max fuel fuel') reader options = some (outcome.result.map counted) := by
    have hopen' : TokenStream.openSource (max fuel fuel') (TextFeed.new reader options.encoding) options.chunkSize =
        some ⟨s, .ok (), events⟩ := TokenStream.readChunk_of_le (Nat.le_max_left ..) hopen
    simp only [countWithin, hopen', Pipeline.run_of_le (Nat.le_max_right ..) hrun, Option.map_some]
  exact ⟨_, hresult fuel' outcome hrun, ⟨_, hcount⟩, fun _ _ hcount' => countWithin_unique hcount' hcount⟩

section Devices

variable {bytes : List UInt8} {chars : Array Char}

theorem delivers_of_decode (hgives : Reader.Gives reader.script bytes)
    (hdecode : ((Decoder.new options.encoding).decode bytes #[] true).outcome = .ok chars) :
    Delivers (max options.chunkSize 1) (TextFeed.new reader options.encoding) chars.toList none := by
  have hdone : (TextFeed.new reader options.encoding).done = false := rfl
  obtain ⟨tokens, ending, hd, hanswer⟩ :=
    TextFeed.exists_delivers hdone hgives (Nat.lt_of_lt_of_le Nat.one_pos (Nat.le_max_right options.chunkSize 1))
  replace hanswer : TokenStream.answer tokens ending = .ok chars := hanswer.trans hdecode
  cases ending with
  | none =>
    obtain rfl : tokens.toArray = chars := Except.ok.inj hanswer
    exact hd
  | some e => cases hanswer

theorem countWithin_of_letter (hgives : Reader.Gives reader.script bytes)
    (hdecode : ((Decoder.new options.encoding).decode bytes #[] true).outcome = .ok chars)
    (htext : chars = #[] ∨ ∃ c ∈ chars, isAlphanumeric c = true) :
    ∃ counts : Counts, (∀ w, counts[w]? = tally (occurrences chars.toList w)) ∧
      (∃ fuel, countWithin fuel reader options = some (.ok counts)) ∧
      ∀ fuel result, countWithin fuel reader options = some result → result = .ok counts := by
  have hlist : chars.toList = [] ∨ chars.toList.dropWhile isSeparator ≠ [] := by
    refine htext.imp (congrArg Array.toList) ?_
    rintro ⟨c, hc, hletter⟩ hnil
    have hseparator := List.dropWhile_eq_nil_iff.mp hnil c hc.val
    simp [hletter] at hseparator
  obtain ⟨result, rfl, hexists, hunique⟩ := exists_countWithin
    (P := fun result => result = .ok ((words chars.toList).foldl add ∅)) (delivers_of_decode hgives hdecode)
    fun s hs hstart => run_of_words hs hstart hlist
  exact ⟨_, getElem?_counts_words chars.toList, hexists, hunique⟩

theorem countWithin_of_separators (hgives : Reader.Gives reader.script bytes)
    (hdecode : ((Decoder.new options.encoding).decode bytes #[] true).outcome = .ok chars) (hne : chars ≠ #[])
    (hnone : ∀ c ∈ chars, isAlphanumeric c = false) :
    ∃ reason, (∃ fuel, countWithin fuel reader options = some (.error (.unlexable reason))) ∧
      ∀ fuel result, countWithin fuel reader options = some result → result = .error (.unlexable reason) := by
  have hlist : chars.toList ≠ [] := by simpa using hne
  have hdrop : chars.toList.dropWhile isSeparator = [] := by
    rw [List.dropWhile_eq_nil_iff]
    intro c hc
    simp [hnone c ⟨hc⟩]
  obtain ⟨result, ⟨reason, rfl⟩, hexists, hunique⟩ := exists_countWithin
    (P := fun result => ∃ reason, result = .error (.unlexable reason)) (delivers_of_decode hgives hdecode)
    fun s hs hstart => by
      obtain ⟨reason, hruns, herror⟩ := run_of_separators hs hstart hlist hdrop
      exact ⟨hruns, fun fuel outcome hrun => ⟨reason, herror fuel outcome hrun⟩⟩
  exact ⟨reason, hexists, hunique⟩

/-- The counter of words against its definition, for a device that hands out the bytes of a text in any pieces. The
table sends each word to the number of maximal runs that stand for it, if the text is empty or has such a run; a text
of nothing but separators is an error. -/
theorem countWithin_counts_runs (options : ReadOptions) (hgives : Reader.Gives reader.script bytes)
    (hdecode : ((Decoder.new options.encoding).decode bytes #[] true).outcome = .ok chars) :
    (chars = #[] ∨ (∃ c ∈ chars, isAlphanumeric c = true) →
      ∃ counts : Counts, (∀ w, counts[w]? = tally (occurrences chars.toList w)) ∧
        (∃ fuel, countWithin fuel reader options = some (.ok counts)) ∧
        ∀ fuel result, countWithin fuel reader options = some result → result = .ok counts) ∧
    (chars ≠ #[] → (∀ c ∈ chars, isAlphanumeric c = false) →
      ∃ reason, (∃ fuel, countWithin fuel reader options = some (.error (.unlexable reason))) ∧
        ∀ fuel result, countWithin fuel reader options = some result → result = .error (.unlexable reason)) :=
  ⟨countWithin_of_letter hgives hdecode, countWithin_of_separators hgives hdecode⟩

end Devices

/-- The same letter in both cases, with separators on all sides, cut between what the device hands out. -/
theorem countWithin_counts_runs_letter : ∃ counts : Counts, counts["a"]? = some 2 ∧ counts["A"]? = none ∧
    ∃ fuel, countWithin fuel (.ofScript [.bytes [0x2E, 0x41], .interrupted, .bytes [0x20, 0x61, 0x2E]]) ⟨3, .utf8⟩ =
      some (.ok counts) := by
  have hgives : Reader.Gives (Reader.ofScript [.bytes [0x2E, 0x41], .interrupted, .bytes [0x20, 0x61, 0x2E]]).script
      [0x2E, 0x41, 0x20, 0x61, 0x2E] := .bytes (by decide) (.interrupted (.bytes (by decide) .exhausted))
  have hdecode : ((Decoder.new .utf8).decode [0x2E, 0x41, 0x20, 0x61, 0x2E] #[] true).outcome =
      .ok #['.', 'A', ' ', 'a', '.'] :=
    Decoder.outcome_decode_eq_ok_iff.mpr ⟨['.', 'A', ' ', 'a', '.'], by decide, by decide⟩
  obtain ⟨counts, htally, hcount, -⟩ :=
    (countWithin_counts_runs ⟨3, .utf8⟩ hgives hdecode).1 (.inr ⟨'a', by simp, by decide +kernel⟩)
  have hsmall : isAlphanumeric 'a' = true := by decide +kernel
  have hcapital : isAlphanumeric 'A' = true := by decide +kernel
  have hblank : isAlphanumeric ' ' = false := by decide +kernel
  have hstop : isAlphanumeric '.' = false := by decide +kernel
  have hlower : Text.lowercase "A" = "a" ∧ Text.lowercase "a" = "a" := by decide +kernel
  have hwords : words ['.', 'A', ' ', 'a', '.'] = ["a", "a"] := by
    simp [words_cons_of_separator, words_cons_of_letter, hsmall, hcapital, hblank, hstop, hlower]
  refine ⟨counts, ?_, ?_, hcount⟩
  · rw [htally, occurrences_eq_count, hwords]
    decide
  · rw [htally, occurrences_eq_count, hwords]
    decide

/-- A blank and a full stop have no word, but they are not counted as none: the lexer looks for a run behind them. -/
theorem countWithin_blank_stop :
    ((Decoder.new .utf8).decode [0x20, 0x2E] #[] true).outcome = .ok #[' ', '.'] ∧
    (∀ w, occurrences [' ', '.'] w = 0) ∧
    (∃ fuel reason, countWithin fuel (.ofBytes [0x20, 0x2E]) .standard = some (.error (.unlexable reason))) ∧
    ¬ ∃ fuel counts, countWithin fuel (.ofBytes [0x20, 0x2E]) .standard = some (.ok counts) := by
  have hdecode : ((Decoder.new ReadOptions.standard.encoding).decode [0x20, 0x2E] #[] true).outcome =
      .ok #[' ', '.'] :=
    Decoder.outcome_decode_eq_ok_iff.mpr ⟨[' ', '.'], by decide, by decide⟩
  have hgives : Reader.Gives (Reader.ofBytes [0x20, 0x2E]).script [0x20, 0x2E] := .bytes (by decide) .exhausted
  have hblank : isAlphanumeric ' ' = false := by decide +kernel
  have hstop : isAlphanumeric '.' = false := by decide +kernel
  have hnone : ∀ c ∈ [' ', '.'], isAlphanumeric c = false := by simp [hblank, hstop]
  obtain ⟨reason, ⟨fuel, herror⟩, hunique⟩ := countWithin_of_separators hgives hdecode (by decide)
    fun c hc => hnone c hc.val
  refine ⟨hdecode, occurrences_eq_zero hnone, ⟨fuel, reason, herror⟩, ?_⟩
  rintro ⟨fuel, counts, hcount⟩
  cases hunique fuel _ hcount

end WordCount

end StreamParsing
