import Mathlib.Data.List.TakeWhile
import StreamParsing.Calculator.Lexeme
import StreamParsing.Proofs.Literals.Decimals
import StreamParsing.Proofs.Tokens.Phases
import StreamParsing.Proofs.Tokens.Tokenizing

/-!
The calculator's lexer undoes printing. A list of tokens is written with any blanks before, between and behind them, and
with at least one between two numbers; then each run of the lexer takes one token with the blanks on both sides of it. A
number is not taken too far, since what may follow it can be no part of a literal, and a sign before it is a token of its
own.
-/

namespace StreamParsing.Calculator

set_option autoImplicit false

universe u

open Number (decimals spelling Target)

/-- A token as it is written: a number by a literal, any other token by its mark. -/
inductive Written where
  | number (lit : List Char) (h : lit ∈ decimals)
  | mark (token : Lexeme) (h : token.number? = none)

namespace Written

def chars : Written → List Char
  | number lit _ => lit
  | mark token _ => token.text.toList

def isNumber : Written → Bool
  | number _ _ => true
  | mark _ _ => false

/-- The token that is written: of a literal, the number that it is converted to. -/
inductive Means : Written → Lexeme → Prop where
  | number {lit : List Char} {h : lit ∈ decimals} {value : Float} : Target.double.read (spelling lit) = .ok value →
      Means (.number lit h) (.number value)
  | mark {token : Lexeme} {h : token.number? = none} : Means (.mark token h) token

end Written

/-- The tokens are written in order, with blanks before, between and behind them; between two numbers there is one. -/
inductive Layout : List Written → List Char → Prop where
  | nil {blanks : List Char} : (∀ c ∈ blanks, Text.isBlank c = true) → Layout [] blanks
  | cons {blanks text : List Char} {piece : Written} {pieces : List Written} : (∀ c ∈ blanks, Text.isBlank c = true) →
      Layout pieces text →
      (∀ next ∈ pieces.head?, piece.isNumber = true → next.isNumber = true →
        ∃ b ∈ text.head?, Text.isBlank b = true) →
      Layout (piece :: pieces) (blanks ++ (piece.chars ++ text))

section Characters

def marks : List Char := "+-*/^()".toList

theorem exists_mark {token : Lexeme} (h : token.number? = none) :
    ∃ c ∈ marks, token.text.toList = [c] ∧ symbol c = token := by
  cases token with
  | number => cases h
  | plus => exact ⟨'+', by decide, rfl, rfl⟩
  | minus => exact ⟨'-', by decide, rfl, rfl⟩
  | times => exact ⟨'*', by decide, rfl, rfl⟩
  | slash => exact ⟨'/', by decide, rfl, rfl⟩
  | caret => exact ⟨'^', by decide, rfl, rfl⟩
  | opening => exact ⟨'(', by decide, rfl, rfl⟩
  | closing => exact ⟨')', by decide, rfl, rfl⟩

/-- What may stand behind a number. -/
def isStop (c : Char) : Bool := Text.isBlank c || marks.contains c

/-- No character of a literal may stand behind it. -/
theorem any_isStop : "0123456789.eE".toList.any isStop = false := by decide +kernel

theorem any_isBlank : "0123456789+-*/^()".toList.any Text.isBlank = false := by decide +kernel

theorem digit_not_stop : Exclusive Number.isDigit isStop := by
  have hsubset : "0123456789".toList ⊆ "0123456789.eE".toList := by decide
  exact fun _ hc => not_of_any any_isStop (hsubset (Number.mem_digits hc))

theorem mark_not_stop : Exclusive Number.isMark isStop :=
  Number.isMark_exclusive (by decide +kernel)

theorem point_not_stop : Exclusive Number.isPoint isStop :=
  fun _ hc => eq_of_beq hc ▸ not_of_any any_isStop (by decide : '.' ∈ _)

end Characters

section Pieces

variable {pieces : List Written} {text rest : List Char}

/-- The first character of a token is no blank. -/
theorem head?_chars (piece : Written) (rest : List Char) : (piece.chars ++ rest).head?.filter Text.isBlank = none := by
  cases piece with
  | number lit h =>
    have hdigit : Exclusive Number.isDigit Text.isBlank := by
      have hsubset : "0123456789".toList ⊆ "0123456789+-*/^()".toList := by decide
      exact fun _ hc => not_of_any any_isBlank (hsubset (Number.mem_digits hc))
    exact Number.startsWith_decimals.head?_of_mem Number.nil_not_mem_decimals hdigit h rest
  | mark token h =>
    obtain ⟨c, hc, hchars, -⟩ := exists_mark h
    have hsubset : marks ⊆ "0123456789+-*/^()".toList := by decide
    have hblank := not_of_any any_isBlank (hsubset hc)
    rw [Written.chars, hchars]
    simp [hblank]

theorem chars_ne_nil (piece : Written) : piece.chars ≠ [] := by
  cases piece with
  | number lit h =>
    rintro rfl
    exact Number.nil_not_mem_decimals h
  | mark token h =>
    obtain ⟨c, -, hchars, -⟩ := exists_mark h
    rw [Written.chars, hchars]
    exact List.cons_ne_nil c []

/-- Behind a number stands a blank, a mark or nothing. -/
theorem Layout.stops (h : Layout pieces text)
    (hparted : ∀ next ∈ pieces.head?, next.isNumber = true → ∃ b ∈ text.head?, Text.isBlank b = true) {c : Char}
    (hc : c ∈ text.head?) : isStop c = true := by
  have hblank (h : Text.isBlank c = true) : isStop c = true := by simp [isStop, h]
  cases h with
  | nil hblanks => exact hblank (hblanks c (List.mem_of_mem_head? hc))
  | @cons blanks text piece pieces hblanks _ _ =>
    cases blanks with
    | cons b blanks =>
      obtain rfl := Option.some.inj hc
      exact hblank (hblanks b (List.mem_cons_self ..))
    | nil =>
      cases piece with
      | number lit hlit =>
        obtain ⟨b, hb, hblank'⟩ := hparted _ rfl rfl
        obtain rfl := Option.mem_unique hb hc
        exact hblank hblank'
      | mark token hmark =>
        obtain ⟨m, hm, hchars, -⟩ := exists_mark hmark
        have hhead : some m = some c := by simpa [Written.chars, hchars] using hc
        obtain rfl := Option.some.inj hhead
        have hcontains : marks.contains m = true := List.contains_iff_mem.mpr hm
        rw [isStop, hcontains, Bool.or_true]

/-- With the blanks at its front gone, a text still has all its tokens. -/
theorem Layout.dropWhile (h : Layout pieces text) : Layout pieces (text.dropWhile Text.isBlank) ∧
    (pieces = [] → text.dropWhile Text.isBlank = []) := by
  cases h with
  | nil hblanks =>
    have hdrop := List.dropWhile_eq_nil_iff.mpr hblanks
    rw [hdrop]
    exact ⟨.nil nofun, fun _ => rfl⟩
  | @cons blanks text piece pieces hblanks h hparted =>
    obtain ⟨-, hdrop⟩ := takeWhile_run hblanks (head?_chars piece text)
    rw [hdrop]
    exact ⟨.cons (List.forall_mem_nil _) h hparted, nofun⟩

end Pieces

section Lexer

variable {σ : Type u} {ρ : Type} [Source σ Char] [LawfulSource σ Char] {blanks rest : List Char}

open StreamParsing.Parser

/-- The lexer takes a number, and all of it. -/
theorem makes_number {lit : List Char} (hlit : lit ∈ decimals) (hstop : ∀ c ∈ rest.head?, isStop c = true)
    {value : Float} (hvalue : Target.double.read (spelling lit) = .ok value) :
    (digit.lookAhead.keepRight (float .double) : Parser Char TextPosition ρ Float).Makes σ (lit ++ rest)
      (.success value rest) := by
  have hnone {test : Char → Bool} (h : Exclusive test isStop) : rest.head?.filter test = none := by
    rw [Option.filter_eq_none_iff]
    intro c hc htest
    have hno := h c htest
    rw [hstop c hc] at hno
    cases hno
  have hfraction : ¬ Opens Number.fractions rest :=
    not_opens Number.startsWith_fractions Number.nil_not_mem_fractions (hnone point_not_stop)
  have hexponent : ¬ Opens Number.exponents rest :=
    not_opens Number.startsWith_exponents Number.nil_not_mem_exponents (hnone mark_not_stop)
  have hlongest : Longest Number.signedDecimals lit rest :=
    Number.longest_decimal (hnone digit_not_stop) hfraction hexponent ⟨[], .inl rfl, lit, hlit, rfl⟩
  have hfloat := makes_float (σ := σ) (π := TextPosition) (ρ := ρ) Target.double hlongest
  rw [hvalue] at hfloat
  cases lit with
  | nil => exact absurd hlit Number.nil_not_mem_decimals
  | cons d digits =>
    have hdigit : (digit : Parser Char TextPosition ρ Char).Makes σ (d :: (digits ++ rest)) _ :=
      makes_satisfy (Number.startsWith_decimals d digits hlit)
    exact hdigit.lookAhead.zipWith hfloat fun _ value => value

/-- One token with the blanks on both sides of it. -/
theorem makes_lexer (piece : Written) (hblanks : ∀ c ∈ blanks, Text.isBlank c = true)
    (hstop : piece.isNumber = true → ∀ c ∈ rest.head?, isStop c = true) :
    ∃ token, piece.Means token ∧ (lexer : Parser Char TextPosition ρ Lexeme).Makes σ (blanks ++ (piece.chars ++ rest))
      (.success token (rest.dropWhile Text.isBlank)) := by
  have hbefore := makes_skipMany_satisfy (σ := σ) (π := TextPosition) (ρ := ρ) Text.isBlank
    (blanks ++ (piece.chars ++ rest))
  rw [(takeWhile_run hblanks (head?_chars piece rest)).2] at hbefore
  have hbehind := makes_skipMany_satisfy (σ := σ) (π := TextPosition) (ρ := ρ) Text.isBlank rest
  cases piece with
  | number lit hlit =>
    obtain ⟨value, hvalue⟩ := Number.exists_double (Number.spelling_mem hlit)
    have hnumber := (makes_number (σ := σ) (ρ := ρ) hlit (hstop rfl) hvalue).map Lexeme.number
    exact ⟨_, .number hvalue, (hbefore.zipWith (hnumber.orElse _) fun _ b => b).zipWith hbehind fun a _ => a⟩
  | mark token hmark =>
    obtain ⟨c, hc, hchars, rfl⟩ := exists_mark hmark
    have hnone : marks.any Number.isDigit = false := by decide
    have hdigit : (digit : Parser Char TextPosition ρ Char).Makes σ (c :: rest) (.failure none (c :: rest)) :=
      makes_satisfy_failure (by simp [not_of_any hnone hc])
    have hnumber := (hdigit.lookAhead.zipWith_failure (float .double) fun _ value => value).map Lexeme.number
    have hoperator : (oneOfText "+-*/^()" : Parser Char TextPosition ρ Char).Makes σ (c :: rest) (.success c rest) :=
      makes_satisfy (List.contains_iff_mem.mpr hc)
    rw [Written.chars, hchars] at hbefore ⊢
    have hbody := hnumber.orElse_second (hoperator.map symbol)
    exact ⟨symbol c, .mark, (hbefore.zipWith hbody fun _ b => b).zipWith hbehind fun a _ => a⟩

variable {t : Tokenizer σ Char TextPosition ρ Lexeme} {tokens text : List Char} {pieces : List Written}

/-- By induction on the tokens written: a run of the lexer takes the first with the blanks around it, and the text behind
is a layout of the others that begins with one of them or is empty. -/
theorem exists_lexes (h : Layout pieces text) (hlast : pieces = [] → text = []) (hlexer : t.lexer = lexer)
    (hc : t.stream.Faces tokens none t.cursor text) :
    ∃ lexemes t', t.Lexes lexemes t' ∧ t'.cursor.hasToken = false ∧
      List.Forall₂ Written.Means pieces (lexemes.map (·.value)) := by
  induction pieces generalizing text t with
  | nil =>
    refine ⟨[], t, .nil t, ?_, .nil⟩
    rw [Cursor.hasToken, hc.current, hlast rfl]
    rfl
  | cons piece pieces ih =>
    cases h with
    | @cons blanks rest _ _ hblanks h hparted =>
      obtain ⟨token, hmeans, hmakes⟩ := makes_lexer (σ := σ) (ρ := ρ) piece hblanks fun hnumber _ =>
        h.stops fun next hnext => hparted next hnext hnumber
      have hpositive := List.length_pos_iff.mpr (chars_ne_nil piece)
      have hshort : (rest.dropWhile Text.isBlank).length < (blanks ++ (piece.chars ++ rest)).length := by
        have hle := (List.dropWhile_sublist (l := rest) Text.isBlank).length_le
        simp only [List.length_append]
        omega
      have htoken : t.cursor.hasToken = true := by
        rw [Cursor.hasToken, hc.current, List.isSome_head?]
        exact List.ne_nil_of_length_pos (by omega)
      rw [← hlexer] at hmakes
      have hstart : (Store.ofStream t.stream t.rules).stream.Faces tokens none t.cursor _ := hc
      obtain ⟨fuel, ⟨stream, rules, log⟩, result, hrun, hlater, hm⟩ := hmakes.exists_run hstart
      cases hm with
      | unread he => exact absurd rfl he
      | @success _ _ d hd =>
        have hmoved := (hc.later hlater hd.carries).same_eq_false hd hshort
        obtain ⟨hlayout, hempty⟩ := h.dropWhile
        obtain ⟨lexemes, t', hlexes, hend, hothers⟩ := ih (t := ⟨stream, rules, d, t.lexer⟩) hlayout hempty hlexer hd
        exact ⟨_, t', .cons htoken (Tokenizer.lex_of_run hrun hmoved) hlexes, hend, .cons hmeans hothers⟩

/-- A list of tokens, written with any blanks around them, is what the lexer makes of the text, and then comes the end:
whatever source the text is read from, and however many tokens are asked for at a time. -/
theorem lexer_undoes_printing (hne : pieces ≠ []) (h : Layout pieces text) (hlexer : t.lexer = lexer)
    (hc : t.stream.Faces tokens none t.cursor text) :
    ∃ lexemes t', t.Lexes lexemes t' ∧ t'.cursor.hasToken = false ∧
      List.Forall₂ Written.Means pieces (lexemes.map (·.value)) ∧
      ∀ size, t.Complete LinearPosition size lexemes := by
  obtain ⟨lexemes, t', hlexes, hend, hmeans⟩ := exists_lexes h (fun hempty => absurd hempty hne) hlexer hc
  exact ⟨lexemes, t', hlexes, hend, hmeans, fun _ => Tokenizer.complete_of_lexes LinearPosition hlexes hend⟩

/-- Two numbers with a blank between them, and a minus sign without one. -/
theorem lexer_undoes_printing_difference :
    ∃ pieces : List Written, pieces.map Written.chars = [['1'], ['2', 'E', '3'], ['-']] ∧
      Layout pieces " 1 2E3-".toList ∧
      ∃ (t : Tokenizer (NoSource Char) Char TextPosition Empty Lexeme) (lexemes : _) (t' : _),
        t.stream = .ofText " 1 2E3-" ∧ t.Lexes lexemes t' ∧ t'.cursor.hasToken = false ∧
        List.Forall₂ Written.Means pieces (lexemes.map (·.value)) ∧ ∀ size, t.Complete LinearPosition size lexemes := by
  have hdigit (d : Char) (hd : Number.isDigit d = true) : [d] ∈ spans Number.isDigit := singleton_mem_spans hd
  have hexponent : ['E', '3'] ∈ Number.exponents :=
    ⟨['E'], ⟨['E'], ⟨'E', rfl, rfl⟩, [], .inl rfl, rfl⟩, ['3'], hdigit '3' rfl, rfl⟩
  have hlarge : ['2', 'E', '3'] ∈ decimals :=
    ⟨['2'], ⟨['2'], hdigit '2' rfl, [], .inl rfl, rfl⟩, ['E', '3'], .inr hexponent, rfl⟩
  let one : Written := .number ['1'] (Number.mem_decimals (hdigit '1' rfl))
  let large : Written := .number ['2', 'E', '3'] hlarge
  let minus : Written := .mark .minus rfl
  have hblank : ∀ c ∈ [' '], Text.isBlank c = true := List.forall_mem_singleton.mpr (by decide +kernel)
  have htext : " 1 2E3-".toList = [' '] ++ (one.chars ++ ([' '] ++ (large.chars ++ ([] ++ (minus.chars ++ []))))) := rfl
  have hminus : Layout [minus] ([] ++ (minus.chars ++ [])) :=
    .cons (List.forall_mem_nil _) (.nil (List.forall_mem_nil _)) fun next hnext => absurd hnext (Option.not_mem_none next)
  have hlayout : Layout [one, large, minus] " 1 2E3-".toList := by
    rw [htext]
    refine .cons hblank (.cons hblank hminus ?_) ?_
    · rintro next hnext - hnumber
      obtain rfl := Option.some.inj hnext
      cases hnumber
    · rintro next - - -
      exact ⟨' ', rfl, hblank ' ' (List.mem_cons_self ..)⟩
  let t : Tokenizer (NoSource Char) Char TextPosition Empty Lexeme :=
    ⟨.ofText " 1 2E3-", .empty, (TokenStream.ofText " 1 2E3-").start, lexer⟩
  have hc : t.stream.Faces " 1 2E3-".toList none t.cursor " 1 2E3-".toList := TokenStream.faces_ofList _
  obtain ⟨lexemes, t', hprinted⟩ := lexer_undoes_printing (List.cons_ne_nil _ _) hlayout rfl hc
  exact ⟨[one, large, minus], rfl, hlayout, t, lexemes, t', rfl, hprinted⟩

end Lexer

end StreamParsing.Calculator
