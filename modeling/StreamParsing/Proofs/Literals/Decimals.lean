import StreamParsing.Proofs.Literals.Integers
import StreamParsing.Proofs.Literals.Longest

/-!
Decimal literals in a text. The grammar of the literals is a product of optional parts, and no part begins with a
character of the parts before it; so the parser, which takes each part where it can, ends behind the longest literal.
A point or an exponent mark without digits behind it is left to the parser that comes next.
-/

namespace StreamParsing

set_option autoImplicit false

universe u

namespace Number

def isSign : Char → Bool := "+-".toList.contains

def isMark : Char → Bool := "eE".toList.contains

def isPoint (c : Char) : Bool := c == '.'

def signs : Language Char := letters isSign

def fractions : Language Char := letters isPoint * spans isDigit

def exponents : Language Char := letters isMark * (1 + signs) * spans isDigit

/-- Digits with an optional fraction and an optional exponent. -/
def decimals : Language Char := spans isDigit * (1 + fractions) * (1 + exponents)

def signedDecimals : Language Char := (1 + signs) * decimals

theorem isSign_cases {c : Char} (h : isSign c = true) : c = '+' ∨ c = '-' :=
  List.mem_pair.mp (List.contains_iff_mem.mp h)

theorem isMark_cases {c : Char} (h : isMark c = true) : c = 'e' ∨ c = 'E' :=
  List.mem_pair.mp (List.contains_iff_mem.mp h)

theorem isSign_exclusive {test : Char → Bool} (h : ['+', '-'].any test = false) : Exclusive isSign test :=
  fun _ hc => not_of_any h (List.contains_iff_mem.mp hc)

theorem isMark_exclusive {test : Char → Bool} (h : ['e', 'E'].any test = false) : Exclusive isMark test :=
  fun _ hc => not_of_any h (List.contains_iff_mem.mp hc)

theorem sign_not_digit : Exclusive isSign isDigit := isSign_exclusive (by decide)

theorem sign_not_mark : Exclusive isSign isMark := isSign_exclusive (by decide)

theorem mark_not_digit : Exclusive isMark isDigit := isMark_exclusive (by decide)

theorem point_not_digit : Exclusive isPoint isDigit := fun _ hc => eq_of_beq hc ▸ rfl

theorem point_not_mark : Exclusive isPoint isMark := fun _ hc => eq_of_beq hc ▸ rfl

theorem signs_apart_digits : Apart (1 + signs) (spans isDigit) :=
  (avoids_letters sign_not_digit).optional.apart startsWith_spans

theorem points_apart_digits : Apart (letters isPoint) (spans isDigit) :=
  (avoids_letters point_not_digit).apart startsWith_spans

theorem marks_apart_signs : Apart (letters isMark) (1 + signs) :=
  (avoids_letters sign_not_mark.symm).apart startsWith_letters.optional

theorem marked_signs_apart_digits : Apart (letters isMark * (1 + signs)) (spans isDigit) :=
  ((avoids_letters mark_not_digit).mul (avoids_letters sign_not_digit).optional).apart startsWith_spans

theorem nil_not_mem_fractions : [] ∉ fractions := nil_not_mem_mul nil_not_mem_letters

theorem nil_not_mem_exponents : [] ∉ exponents := nil_not_mem_mul (nil_not_mem_mul nil_not_mem_letters)

theorem startsWith_fractions : StartsWith fractions isPoint := startsWith_letters.mul nil_not_mem_letters

theorem startsWith_exponents : StartsWith exponents isMark :=
  (startsWith_letters.mul nil_not_mem_letters).mul (nil_not_mem_mul nil_not_mem_letters)

theorem nil_not_mem_decimals : [] ∉ decimals := nil_not_mem_mul (nil_not_mem_mul nil_not_mem_spans)

theorem startsWith_decimals : StartsWith decimals isDigit :=
  (startsWith_spans.mul nil_not_mem_spans).mul (nil_not_mem_mul nil_not_mem_spans)

/-- A whole number, with a sign or without, has no character that another part begins with. -/
theorem avoids_wholes {test : Char → Bool} (hsign : Exclusive isSign test) (hdigit : Exclusive isDigit test) :
    Avoids ((1 + signs) * spans isDigit) test :=
  (avoids_letters hsign).optional.mul (avoids_spans hdigit)

theorem avoids_mantissas : Avoids (spans isDigit * (1 + fractions)) isMark :=
  (avoids_spans mark_not_digit.symm).mul ((avoids_letters point_not_mark).mul (avoids_spans mark_not_digit.symm)).optional

theorem wholes_apart_fractions : Apart ((1 + signs) * spans isDigit) (1 + fractions) :=
  (avoids_wholes (isSign_exclusive (by decide)) point_not_digit.symm).apart startsWith_fractions.optional

theorem mantissas_apart_exponents : Apart ((1 + signs) * spans isDigit * (1 + fractions)) (1 + exponents) := by
  rw [mul_assoc]
  exact ((avoids_letters sign_not_mark).optional.mul avoids_mantissas).apart startsWith_exponents.optional

theorem signedDecimals_eq : signedDecimals = (1 + signs) * spans isDigit * (1 + fractions) * (1 + exponents) := by
  simp only [signedDecimals, decimals, mul_assoc]

theorem mem_decimals {w : List Char} (h : w ∈ spans isDigit) : w ∈ decimals :=
  ⟨w, ⟨w, h, [], .inl rfl, List.append_nil w⟩, [], .inl rfl, List.append_nil w⟩

section Following

variable {rest : List Char}

theorem longest_sign {s ds : List Char} (hs : s ∈ 1 + signs) (hds : ds ∈ spans isDigit) :
    Longest (1 + signs) s (ds ++ rest) := by
  rcases hs with rfl | ⟨c, hc, rfl⟩
  · have hhead := startsWith_spans.head?_of_mem nil_not_mem_spans sign_not_digit.symm hds rest
    exact longest_nil (not_opens startsWith_letters nil_not_mem_letters hhead)
  · exact longest_optional (longest_letters hc)

variable (hdigit : rest.head?.filter isDigit = none)
include hdigit

theorem longest_fraction {w : List Char} (hw : w ∈ fractions) : Longest fractions w rest := by
  obtain ⟨_, ⟨c, hc, rfl⟩, ds, hds, rfl⟩ := hw
  exact (longest_letters hc).append (longest_spans hds hdigit) points_apart_digits

theorem longest_exponent {w : List Char} (hw : w ∈ exponents) : Longest exponents w rest := by
  obtain ⟨_, ⟨_, ⟨c, hc, rfl⟩, s, hs, rfl⟩, ds, hds, rfl⟩ := hw
  have hmarked : Longest (letters isMark * (1 + signs)) ([c] ++ s) (ds ++ rest) :=
    (longest_letters hc).append (longest_sign hs hds) marks_apart_signs
  exact hmarked.append (longest_spans hds hdigit) marked_signs_apart_digits

/-- A literal is the longest where nothing that follows could be a part of it. -/
theorem longest_decimal (hfraction : ¬ Opens fractions rest) (hexponent : ¬ Opens exponents rest) {lit : List Char}
    (hlit : lit ∈ signedDecimals) : Longest signedDecimals lit rest := by
  rw [signedDecimals_eq] at hlit ⊢
  obtain ⟨_, ⟨_, ⟨s, hs, ds, hds, rfl⟩, fr, hfr, rfl⟩, ex, hex, rfl⟩ := hlit
  -- From the last part to the first: each one is followed by what no longer word of its kind could go on with.
  have hlast : Longest (1 + exponents) ex rest := by
    rcases hex with rfl | hex
    · exact longest_nil hexponent
    · exact longest_optional (longest_exponent hdigit hex)
  have hmarked := startsWith_exponents.head?_of_optional nil_not_mem_exponents mark_not_digit hex hdigit
  have hmiddle : Longest (1 + fractions) fr (ex ++ rest) := by
    rcases hfr with rfl | hfr
    · refine longest_nil ?_
      rcases hex with rfl | hex
      · exact hfraction
      · have hhead := startsWith_exponents.head?_of_mem nil_not_mem_exponents point_not_mark.symm hex rest
        exact not_opens startsWith_fractions nil_not_mem_fractions hhead
    · exact longest_optional (longest_fraction hmarked hfr)
  have hpointed := startsWith_fractions.head?_of_optional nil_not_mem_fractions point_not_digit hfr hmarked
  have hwhole := (longest_sign hs hds).append (longest_spans hds hpointed) signs_apart_digits
  exact (hwhole.append hmiddle wholes_apart_fractions).append hlast mantissas_apart_exponents

end Following

/-- A literal as it is handed to the conversion, its exponent mark in lower case. -/
def spelling (lit : List Char) : List Char := lit.map fun c => if c = 'E' then 'e' else c

theorem spelling_append (u v : List Char) : spelling (u ++ v) = spelling u ++ spelling v := List.map_append

/-- Only an exponent mark is spelled otherwise. -/
theorem spelling_eq_self {lit : List Char} (h : ∀ c ∈ lit, isMark c = false) : spelling lit = lit := by
  have hid : ∀ c ∈ lit, (if c = 'E' then 'e' else c) = c := by
    intro c hc
    refine if_neg ?_
    rintro rfl
    cases h _ hc
  exact (List.map_congr_left hid).trans (List.map_id' lit)

section Conversion

theorem mem_digits {c : Char} (h : isDigit c = true) : c ∈ "0123456789".toList := by
  have hrange : '0' ≤ c ∧ c ≤ '9' := by
    unfold isDigit digitValue? at h
    by_contra hno
    rw [if_neg hno] at h
    cases h
  have hlow : 48 ≤ c.toNat := hrange.1
  have hhigh : c.toNat ≤ 57 := hrange.2
  have hall : ∀ n < 58, 48 ≤ n → Char.ofNat n ∈ "0123456789".toList := by decide
  rw [← Char.ofNat_toNat c]
  exact hall _ (by omega) hlow

theorem splitSign_of_digit {c : Char} (h : isDigit c = true) (rest : List Char) :
    splitSign (c :: rest) = (false, c :: rest) := by
  unfold splitSign
  split
  · cases ‹c :: rest = '-' :: _›
    cases h
  · cases ‹c :: rest = '+' :: _›
    cases h
  · rfl

variable {ds fr ex lit : List Char}

theorem exists_splitPoint (hds : ds ∈ spans isDigit) (hfr : fr ∈ 1 + fractions) (hex : ex ∈ 1 + exponents) :
    ∃ places, Literal.splitPoint (ds ++ (fr ++ ex)) = (ds, places, ex) := by
  have hmarked : (ex ++ []).head?.filter isDigit = none :=
    startsWith_exponents.head?_of_optional nil_not_mem_exponents mark_not_digit hex rfl
  rw [List.append_nil] at hmarked
  have hpointed := startsWith_fractions.head?_of_optional nil_not_mem_fractions point_not_digit hfr hmarked
  obtain ⟨htake, hdrop⟩ := takeWhile_run hds.2 hpointed
  unfold Literal.splitPoint
  rw [htake, hdrop]
  rcases hfr with rfl | ⟨_, ⟨c, hc, rfl⟩, places, hplaces, rfl⟩
  · refine ⟨[], ?_⟩
    rcases hex with rfl | hex
    · rfl
    · rw [List.nil_append]
      split
      · have hpoint := startsWith_exponents _ _ hex
        cases hpoint
      · rfl
  · obtain rfl := eq_of_beq hc
    obtain ⟨htake, hdrop⟩ := takeWhile_run hplaces.2 hmarked
    refine ⟨places, ?_⟩
    show (ds, (places ++ ex).takeWhile isDigit, (places ++ ex).dropWhile isDigit) = _
    rw [htake, hdrop]

theorem splitSign_append {s : List Char} (hs : s ∈ 1 + signs) (hds : ds ∈ spans isDigit) :
    ∃ negative, splitSign (s ++ ds) = (negative, ds) := by
  obtain ⟨d, digits, rfl⟩ := List.exists_cons_of_ne_nil hds.1
  rcases hs with rfl | ⟨c, hc, rfl⟩
  · exact ⟨false, splitSign_of_digit (hds.2 d (List.mem_cons_self ..)) digits⟩
  · rcases isSign_cases hc with rfl | rfl
    · exact ⟨false, rfl⟩
    · exact ⟨true, rfl⟩

theorem exists_exponent (hex : ex ∈ 1 + exponents) : ∃ n, Literal.exponent? ex = some n := by
  rcases hex with rfl | ⟨_, ⟨_, ⟨c, hc, rfl⟩, s, hs, rfl⟩, ds, hds, rfl⟩
  · exact ⟨0, rfl⟩
  · obtain ⟨negative, hsplit⟩ := splitSign_append hs hds
    have hmark := isMark_cases hc
    change ∃ n, Literal.exponent? (c :: (s ++ ds)) = some n
    rw [Literal.exponent?, hsplit]
    simp only [hmark, hds.1, ne_eq, not_false_eq_true, List.all_eq_true.mpr hds.2, and_self, if_true]
    exact ⟨_, rfl⟩

theorem exists_literal (hlit : lit ∈ decimals) : ∃ l, Literal.ofChars lit = .ok l := by
  obtain ⟨u, hu, ex, hex, rfl⟩ := Language.mem_mul.mp hlit
  obtain ⟨ds, hds, fr, hfr, rfl⟩ := Language.mem_mul.mp hu
  obtain ⟨places, hsplit⟩ := exists_splitPoint hds hfr hex
  obtain ⟨n, hn⟩ := exists_exponent hex
  obtain ⟨d, digits, rfl⟩ := List.exists_cons_of_ne_nil hds.1
  have hd := hds.2 d (List.mem_cons_self ..)
  rw [List.append_assoc, Literal.ofChars, if_neg (by simp), List.cons_append, splitSign_of_digit hd, ← List.cons_append]
  simp only [hsplit, hn]
  exact ⟨_, if_neg (by simp)⟩

theorem exists_double (hlit : lit ∈ decimals) : ∃ value, Target.double.read lit = .ok value := by
  obtain ⟨l, hl⟩ := exists_literal hlit
  cases lit with
  | nil => exact absurd hlit nil_not_mem_decimals
  | cons d rest =>
    have hd : isDigit d = true := startsWith_decimals d rest hlit
    have hall : "0123456789".toList.all (fun c => c.toLower = c ∧ c ≠ 'n' ∧ c ≠ 'i') = true := by decide
    obtain ⟨hlower, hn, hi⟩ := of_decide_eq_true (List.all_eq_true.mp hall d (mem_digits hd))
    have hfinite : Numeral.ofChars (d :: rest) = .ok (.finite l) := by
      rw [Numeral.ofChars, List.map_cons, hlower, splitSign_of_digit hd]
      simp [hn, hi, hl, Except.map]
    refine ⟨(Numeral.finite l).toFloat, ?_⟩
    change ((Numeral.ofChars (d :: rest)).map Numeral.toFloat).mapError LiteralFault.message = _
    rw [hfinite]
    rfl

/-- What a literal is converted as is a literal too. -/
theorem spelling_mem (hlit : lit ∈ decimals) : spelling lit ∈ decimals := by
  obtain ⟨u, hu, ex, hex, rfl⟩ := Language.mem_mul.mp hlit
  rw [spelling_append, spelling_eq_self (avoids_mantissas u hu)]
  refine Language.append_mem_mul hu ?_
  rcases hex with rfl | hex
  · exact .inl rfl
  · obtain ⟨_, ⟨_, ⟨c, hc, rfl⟩, s, hs, rfl⟩, ds, hds, rfl⟩ := hex
    have hsigned : Avoids ((1 + signs) * spans isDigit) isMark := avoids_wholes sign_not_mark mark_not_digit.symm
    have hspelling : spelling ([c] ++ s ++ ds) = ['e'] ++ s ++ ds := by
      rw [List.append_assoc, spelling_append, spelling_eq_self (hsigned _ (Language.append_mem_mul hs hds))]
      rcases isMark_cases hc with rfl | rfl <;> rfl
    exact .inr (hspelling ▸ Language.append_mem_mul (Language.append_mem_mul ⟨'e', rfl, rfl⟩ hs) hds)

end Conversion

end Number

namespace Parser

open Number

variable {σ : Type u} {π ρ α : Type} [Source σ Char] [LawfulSource σ Char] [Position π Char]

def spelled (lit : List Char) : String := String.ofList (spelling lit)

theorem spelled_append (u v : List Char) : spelled (u ++ v) = spelled u ++ spelled v := by
  rw [spelled, spelling_append, String.ofList_append]
  rfl

theorem spelled_eq {lit : List Char} (h : ∀ c ∈ lit, isMark c = false) : spelled lit = String.ofList lit := by
  rw [spelled, spelling_eq_self h]

theorem munches_sign : (sign : Parser Char π ρ String).Munches σ (1 + signs) spelled := by
  have hone : (oneOfText "+-" : Parser Char π ρ Char).Munches σ signs (·.headD ' ') := munches_satisfy fun _ => rfl
  refine ((hone.map Char.toString).congr ?_).withDefault rfl
  rintro _ ⟨c, hc, rfl⟩
  rw [spelled_eq (by simpa using sign_not_mark c hc)]
  rfl

theorem munches_digits : (digits : Parser Char π ρ String).Munches σ (spans isDigit) spelled := by
  refine (munches_many1.map fun cs => String.ofList cs.toList).congr ?_
  intro w hw
  rw [spelled_eq fun c hc => mark_not_digit.symm c (hw.2 c hc)]
  rfl

theorem munches_fraction : (fraction : Parser Char π ρ String).Munches σ fractions spelled := by
  have hpoint : (character '.' : Parser Char π ρ Char).Munches σ (letters isPoint) (·.headD ' ') :=
    munches_satisfy fun _ => rfl
  have hdigits : ((character '.').keepRight digits : Parser Char π ρ String).Munches σ fractions fun w => spelled w.tail := by
    refine hpoint.zipWith munches_digits points_apart_digits ?_
    rintro _ ⟨c, -, rfl⟩ v -
    rfl
  refine (hdigits.map ("." ++ ·)).congr ?_
  rintro _ ⟨_, ⟨c, hc, rfl⟩, v, -, rfl⟩
  obtain rfl := eq_of_beq hc
  exact (spelled_append ['.'] v).symm

theorem munches_exponent : (exponent : Parser Char π ρ String).Munches σ exponents spelled := by
  have hmark : (oneOfText "eE" : Parser Char π ρ Char).Munches σ (letters isMark) (·.headD ' ') :=
    munches_satisfy fun _ => rfl
  have hsign : ((oneOfText "eE").keepRight sign : Parser Char π ρ String).Munches σ (letters isMark * (1 + signs))
      fun w => spelled w.tail := by
    refine hmark.zipWith munches_sign marks_apart_signs ?_
    rintro _ ⟨c, -, rfl⟩ v -
    rfl
  refine hsign.zipWith munches_digits marked_signs_apart_digits ?_
  rintro _ ⟨_, ⟨c, hc, rfl⟩, u, -, rfl⟩ v -
  have hspelled : spelled [c] = "e" := by
    rcases isMark_cases hc with rfl | rfl <;> rfl
  rw [spelled_append, spelled_append, hspelled]
  rfl

/-- The text that the float parser converts. -/
theorem munches_decimal :
    (zipWith (· ++ ·) (zipWith (· ++ ·) signedDigits (fraction.withDefault "")) (exponent.withDefault "") :
      Parser Char π ρ String).Munches σ signedDecimals spelled := by
  have hwhole : (signedDigits : Parser Char π ρ String).Munches σ ((1 + signs) * spans isDigit) spelled :=
    munches_sign.zipWith munches_digits signs_apart_digits fun u _ v _ => spelled_append u v
  have hmantissa := hwhole.zipWith (munches_fraction.withDefault rfl) wholes_apart_fractions
    fun u _ v _ => spelled_append u v
  rw [signedDecimals_eq]
  exact hmantissa.zipWith (munches_exponent.withDefault rfl) mantissas_apart_exponents
    fun u _ v _ => spelled_append u v

theorem convert_spelled (t : Target α) (lit : List Char) : t.convert (spelled lit) =
    (t.read (spelling lit)).mapError fun reason => ConversionError.cause ⟨spelled lit, t.name, reason⟩ := by
  rw [Target.convert, spelled, String.toList_ofList]

/-- The longest literal is converted. -/
theorem makes_float (t : Target α) {lit rest : List Char} (hlit : Longest signedDecimals lit rest) :
    (float t : Parser Char π ρ α).Makes σ (lit ++ rest)
      (match t.read (spelling lit) with
      | .ok value => .success value rest
      | .error reason => .failure (some (ConversionError.cause ⟨spelled lit, t.name, reason⟩)) (lit ++ rest)) := by
  have hmakes : (float t : Parser Char π ρ α).Makes σ (lit ++ rest) _ := (munches_decimal.found hlit).tryMap t.convert
  rw [Finding.convert, convert_spelled] at hmakes
  cases hread : t.read (spelling lit) with
  | ok value =>
    rw [hread] at hmakes
    exact hmakes
  | error reason =>
    rw [hread] at hmakes
    exact hmakes

/-- A sign and digits are a literal already. -/
theorem opens_of_digits {text : List Char} (f : Front text) (hne : f.digits ≠ []) : Opens signedDecimals text := by
  have hsign : leadingSign text ∈ 1 + signs := by
    rcases leadingSign_cases text with hsign | hsign | hsign <;> rw [hsign]
    · exact .inl rfl
    · exact .inr ⟨'+', rfl, rfl⟩
    · exact .inr ⟨'-', rfl, rfl⟩
  refine ⟨leadingSign text ++ f.digits, Language.append_mem_mul hsign (mem_decimals ⟨hne, f.isDigit_of_mem⟩), f.after, ?_⟩
  rw [List.append_assoc, f.cut]

variable {store : Store σ Char π ρ} {c : Cursor Char π} {tokens text : List Char} {ending : Option ReadError}

/-- At any place of any text that begins with a literal there, the float parser converts the longest one and is then
behind it, or fails where it began, for a reason that quotes the literal. Where no literal begins, it fails behind the
sign. -/
theorem float_reports (t : Target α) (hc : store.stream.Faces tokens ending c text) :
    (Opens signedDecimals text → ∃ lit rest, lit ++ rest = text ∧ Longest signedDecimals lit rest ∧
      (float t).Reports store c tokens ending
        (match t.read (spelling lit) with
        | .ok value => .success value rest
        | .error reason => .failure (some (ConversionError.cause ⟨spelled lit, t.name, reason⟩)) text)) ∧
    (¬ Opens signedDecimals text →
      (float t).Reports store c tokens ending (.failure none (text.drop (leadingSign text).length))) := by
  constructor
  · intro hopens
    obtain ⟨lit, rest, rfl, hlongest⟩ := hopens.exists_longest
    exact ⟨lit, rest, rfl, hlongest, (makes_float t hlongest).reports hc⟩
  · intro hnone
    have hempty : (front text).digits = [] := by
      by_contra hne
      exact hnone (opens_of_digits (front text) hne)
    have hafter := (front text).append_eq_drop
    rw [hempty, List.nil_append] at hafter
    have hwhole := makes_signedDigits_failure (σ := σ) (π := π) (ρ := ρ) (front text) hempty
    rw [hafter] at hwhole
    have hmantissa := hwhole.zipWith_failure (fraction.withDefault "") (· ++ ·)
    exact ((hmantissa.zipWith_failure (exponent.withDefault "") (· ++ ·)).tryMap t.convert).reports hc

/-- Of an exponent without digits nothing is taken; the target of this run is the text itself. -/
theorem float_reports_dangling :
    let target : Target (List Char) := ⟨"text", .ok⟩
    let store : Store (NoSource Char) Char TextPosition Empty := .ofStream (.ofText "1.5E2e+") .empty
    let c : Cursor Char TextPosition := store.stream.start
    store.stream.Faces "1.5E2e+".toList none c "1.5E2e+".toList ∧ Opens signedDecimals "1.5E2e+".toList ∧
      (float target).Reports store c "1.5E2e+".toList none (.success "1.5e2".toList "e+".toList) := by
  intro target store c
  have hc : store.stream.Faces "1.5E2e+".toList none c "1.5E2e+".toList := TokenStream.faces_ofList _
  have hdigit (d : Char) (hd : isDigit d = true) : [d] ∈ spans isDigit := singleton_mem_spans hd
  have hdecimal : "1.5E2".toList ∈ decimals := by
    refine ⟨"1.5".toList, ⟨['1'], hdigit '1' rfl, ".5".toList, .inr ?_, rfl⟩, "E2".toList, .inr ?_, rfl⟩
    · exact ⟨['.'], ⟨'.', rfl, rfl⟩, ['5'], hdigit '5' rfl, rfl⟩
    · exact ⟨['E'], ⟨['E'], ⟨'E', rfl, rfl⟩, [], .inl rfl, rfl⟩, ['2'], hdigit '2' rfl, rfl⟩
  have hexponent : ¬ Opens exponents "e+".toList := by
    rintro ⟨_, ⟨u, -, ds, ⟨hne, hds⟩, rfl⟩, hpre⟩
    obtain ⟨d, ds, rfl⟩ := List.exists_cons_of_ne_nil hne
    have hnone : "e+".toList.any isDigit = false := by decide
    have hno := not_of_any hnone (hpre.subset (by simp) : d ∈ _)
    rw [hds d (List.mem_cons_self ..)] at hno
    cases hno
  have hfraction : ¬ Opens fractions "e+".toList := not_opens startsWith_fractions nil_not_mem_fractions rfl
  have hlongest : Longest signedDecimals "1.5E2".toList "e+".toList :=
    longest_decimal rfl hfraction hexponent ⟨[], .inl rfl, _, hdecimal, rfl⟩
  obtain ⟨lit, rest, heq, hlit, hreports⟩ := (float_reports target hc).1 hlongest.opens
  obtain ⟨rfl, rfl⟩ := hlit.unique hlongest heq
  exact ⟨hc, hlongest.opens, hreports⟩

end Parser

end StreamParsing
