import StreamParsing.Parser.Text
import StreamParsing.Proofs.Machine.Findings

/-!
Integers in a text. The parser takes a sign and all digits behind it and converts what it took: the number those digits
denote, if the wanted type has it. The conversion goes digit by digit and stops at the first one that takes the number
out of range, and no later digit would bring it back.
-/

namespace StreamParsing

set_option autoImplicit false

universe u

namespace Number

/-- The sign that a text begins with, or nothing. -/
def leadingSign (text : List Char) : List Char := (text.head?.filter "+-".toList.contains).toList

theorem leadingSign_cases (text : List Char) :
    leadingSign text = [] ∨ leadingSign text = ['+'] ∨ leadingSign text = ['-'] := by
  unfold leadingSign
  cases hsign : text.head?.filter "+-".toList.contains with
  | none => exact .inl rfl
  | some c =>
    have hmem : c ∈ ['+', '-'] := List.contains_iff_mem.mp (Option.filter_eq_some_iff.mp hsign).2
    simpa [List.mem_cons] using hmem

theorem leadingSign_append_drop (text : List Char) :
    leadingSign text ++ text.drop (leadingSign text).length = text := by
  unfold leadingSign
  cases hsign : text.head?.filter "+-".toList.contains with
  | none => rfl
  | some c =>
    obtain ⟨hhead, -⟩ := Option.filter_eq_some_iff.mp hsign
    obtain ⟨rest, rfl⟩ := List.head?_eq_some_iff.mp hhead
    rfl

/-- What a text begins with, as a number parser cuts it: a sign, all the digits behind it, and what follows. -/
structure Front (text : List Char) where
  digits : List Char
  after : List Char
  cut : leadingSign text ++ (digits ++ after) = text
  isDigit_of_mem : ∀ c ∈ digits, isDigit c = true
  longest : after.head?.filter isDigit = none

def front (text : List Char) : Front text where
  digits := (text.drop (leadingSign text).length).takeWhile isDigit
  after := (text.drop (leadingSign text).length).dropWhile isDigit
  cut := by rw [List.takeWhile_append_dropWhile, leadingSign_append_drop]
  isDigit_of_mem c hc := List.all_eq_true.mp List.all_takeWhile c hc
  longest := head?_dropWhile_filter isDigit _

namespace IntegerType

/-- The number itself, if the type has it. -/
def checked (t : IntegerType) (n : Int) : Except IntegerFault Int :=
  if t.highest < n then .error .tooLarge else if n < t.lowest then .error .tooSmall else .ok n

end IntegerType

namespace Front

variable {text : List Char}

theorem append_eq_drop (f : Front text) : f.digits ++ f.after = text.drop (leadingSign text).length := by
  have hcut := congrArg (List.drop (leadingSign text).length) f.cut
  rwa [List.drop_left] at hcut

def value (f : Front text) : Int :=
  if leadingSign text = ['-'] then -digitsValue f.digits else digitsValue f.digits

/-- A type without negative numbers has no use for a minus sign, not even before a zero. -/
def converted (f : Front text) (t : IntegerType) : Except IntegerFault Int :=
  if leadingSign text = ['-'] ∧ t.signed = false then .error .invalidDigit else t.checked f.value

/-- What is to be found of an integer at the text. -/
def finding (f : Front text) (t : IntegerType) : Finding Char Int :=
  if f.digits = [] then .failure none f.after
  else
    match f.converted t with
    | .ok n => .success n f.after
    | .error e =>
      .failure (some (ConversionError.cause ⟨String.ofList (leadingSign text ++ f.digits), t.name, e.message⟩)) text

end Front

section Conversion

/-- The number with these digits added behind its own. -/
def digitsFrom (n : Nat) (digits : List Char) : Nat :=
  digits.foldl (fun n c => n * 10 + (digitValue? c).getD 0) n

theorem le_digitsFrom (n : Nat) (digits : List Char) : n ≤ digitsFrom n digits := by
  induction digits generalizing n with
  | nil => exact Nat.le_refl n
  | cons c digits ih =>
    have hrest := ih (n * 10 + (digitValue? c).getD 0)
    rw [digitsFrom, List.foldl_cons]
    rw [digitsFrom] at hrest
    omega

def onSide (negative : Bool) (n : Nat) : Int := if negative then -n else n

namespace IntegerType

theorem lowest_nonpos (t : IntegerType) : t.lowest ≤ 0 := by
  unfold lowest
  split
  · have := Nat.two_pow_pos (t.bits - 1)
    omega
  · exact Int.le_refl 0

theorem highest_nonneg (t : IntegerType) : 0 ≤ t.highest := by
  have hpos := Nat.two_pow_pos (if t.signed then t.bits - 1 else t.bits)
  have hle : (1 : Int) ≤ (Nat.pow 2 (if t.signed then t.bits - 1 else t.bits) : Int) := by exact_mod_cast hpos
  unfold highest
  omega

/-- By induction on the digits: a number that has left the range stays outside, on the side where it left. -/
theorem readDigits_eq (t : IntegerType) (negative : Bool) {digits : List Char} (hdigits : ∀ c ∈ digits, isDigit c = true)
    {n : Nat} (hlow : t.lowest ≤ onSide negative n) (hhigh : onSide negative n ≤ t.highest) :
    t.readDigits negative digits (onSide negative n) = t.checked (onSide negative (digitsFrom n digits)) := by
  induction digits generalizing n with
  | nil =>
    have hchecked : t.checked (onSide negative n) = .ok (onSide negative n) := by
      rw [checked, if_neg (Int.not_lt.mpr hhigh), if_neg (Int.not_lt.mpr hlow)]
    rw [readDigits, digitsFrom, List.foldl_nil, hchecked]
  | cons c digits ih =>
    obtain ⟨d, hd⟩ := Option.isSome_iff_exists.mp (hdigits c (List.mem_cons_self ..))
    have hrest := fun c hc => hdigits c (List.mem_cons_of_mem _ hc)
    have hfrom : digitsFrom n (c :: digits) = digitsFrom (n * 10 + d) digits := by
      rw [digitsFrom, List.foldl_cons, hd]
      rfl
    have hgrow := le_digitsFrom (n * 10 + d) digits
    have hlowest := t.lowest_nonpos
    have hhighest := t.highest_nonneg
    rw [readDigits, hd, hfrom]
    cases negative with
    | true =>
      have hnext : onSide true n * 10 - d = onSide true (n * 10 + d) := by
        simp only [onSide, if_true]
        omega
      simp only [if_true, hnext]
      by_cases hout : onSide true (n * 10 + d) < t.lowest
      · simp only [onSide, if_true] at hout ⊢
        rw [if_pos hout, checked, if_neg (by omega), if_pos (by omega)]
      · rw [if_neg hout]
        exact ih hrest (Int.not_lt.mp hout) (by simp only [onSide, if_true]; omega)
    | false =>
      have hnext : onSide false n * 10 + d = onSide false (n * 10 + d) := by
        simp [onSide]
      simp only [Bool.false_eq_true, if_false, hnext]
      by_cases hout : t.highest < onSide false (n * 10 + d)
      · simp only [onSide, Bool.false_eq_true, if_false] at hout ⊢
        rw [if_pos hout, checked, if_pos (by omega)]
      · rw [if_neg hout]
        exact ih hrest (by simp only [onSide, Bool.false_eq_true, if_false]; omega) (Int.not_lt.mp hout)

end IntegerType

end Conversion

namespace IntegerType

theorem read_of_digit (t : IntegerType) {d : Char} (hd : isDigit d = true) (digits : List Char) :
    t.read (d :: digits) = t.readDigits false (d :: digits) 0 := by
  unfold read
  split
  · cases ‹d :: digits = []›
  · cases ‹d :: digits = ['+']›
    cases hd
  · cases ‹d :: digits = ['-']›
    cases hd
  · cases ‹d :: digits = '+' :: _›
    cases hd
  · cases ‹d :: digits = '-' :: _›
    cases hd
  · rfl

end IntegerType

namespace Front

variable {text : List Char}

/-- The digits with their sign are read to the number they denote. -/
theorem read_eq (f : Front text) (hne : f.digits ≠ []) (t : IntegerType) :
    t.read (leadingSign text ++ f.digits) = f.converted t := by
  have hplus : t.readDigits false f.digits 0 = t.checked (digitsValue f.digits) :=
    t.readDigits_eq false (n := 0) f.isDigit_of_mem t.lowest_nonpos t.highest_nonneg
  have hminus : t.readDigits true f.digits 0 = t.checked (-digitsValue f.digits) :=
    t.readDigits_eq true (n := 0) f.isDigit_of_mem t.lowest_nonpos t.highest_nonneg
  have hdigit := f.isDigit_of_mem
  unfold converted value
  obtain ⟨d, digits, hdigits⟩ := List.exists_cons_of_ne_nil hne
  rw [hdigits] at hplus hminus hdigit ⊢
  rcases leadingSign_cases text with hsign | hsign | hsign
  · have hread := t.read_of_digit (hdigit d (List.mem_cons_self ..)) digits
    rw [hsign, List.nil_append, hread, hplus, if_neg (by simp), if_neg (by simp)]
  · have hread : t.read (['+'] ++ d :: digits) = t.readDigits false (d :: digits) 0 := rfl
    rw [hsign, hread, hplus, if_neg (by simp), if_neg (by simp)]
  · have hread : t.read (['-'] ++ d :: digits) =
        if t.signed then t.readDigits true (d :: digits) 0 else .error .invalidDigit := rfl
    rw [hsign, hread, hminus, if_pos rfl]
    cases t.signed <;> rfl

end Front

end Number

namespace Parser

open Number

variable {σ : Type u} {π ρ α : Type} [Source σ Char] [Position π Char]

theorem makes_sign [LawfulSource σ Char] (text : List Char) : (sign : Parser Char π ρ String).Makes σ text
    (.success (String.ofList (leadingSign text)) (text.drop (leadingSign text).length)) := by
  unfold leadingSign
  cases hsign : text.head?.filter "+-".toList.contains with
  | none => exact ((makes_satisfy_failure hsign).map Char.toString).withDefault ""
  | some c =>
    obtain ⟨hhead, hc⟩ := Option.filter_eq_some_iff.mp hsign
    obtain ⟨rest, rfl⟩ := List.head?_eq_some_iff.mp hhead
    exact ((makes_satisfy hc).map Char.toString).orElse (pure "")

theorem makes_digits [LawfulSource σ Char] {ds rest : List Char} (hne : ds ≠ []) (hds : ∀ c ∈ ds, isDigit c = true)
    (hrest : rest.head?.filter isDigit = none) :
    (digits : Parser Char π ρ String).Makes σ (ds ++ rest) (.success (String.ofList ds) rest) :=
  (makes_many1_run hne hds hrest).map fun cs => String.ofList cs.toList

theorem makes_digits_failure {ts : List Char} (h : ts.head?.filter isDigit = none) :
    (digits : Parser Char π ρ String).Makes σ ts (.failure none ts) :=
  (makes_many1_satisfy_failure h).map fun cs => String.ofList cs.toList

variable [LawfulSource σ Char]

theorem makes_signedDigits {text : List Char} (f : Front text) (hne : f.digits ≠ []) :
    (signedDigits : Parser Char π ρ String).Makes σ text
      (.success (String.ofList (leadingSign text ++ f.digits)) f.after) := by
  have hdigits := makes_digits (σ := σ) (π := π) (ρ := ρ) hne f.isDigit_of_mem f.longest
  rw [f.append_eq_drop] at hdigits
  rw [String.ofList_append]
  exact (makes_sign text).zipWith hdigits (· ++ ·)

theorem makes_signedDigits_failure {text : List Char} (f : Front text) (hempty : f.digits = []) :
    (signedDigits : Parser Char π ρ String).Makes σ text (.failure none f.after) := by
  have hdigits := makes_digits_failure (σ := σ) (π := π) (ρ := ρ) f.longest
  have hsign := makes_sign (σ := σ) (π := π) (ρ := ρ) text
  have hafter := f.append_eq_drop
  rw [hempty, List.nil_append] at hafter
  rw [← hafter] at hsign
  exact hsign.zipWith hdigits (· ++ ·)

theorem convert_integer (t : IntegerType) (cs : List Char) :
    (Target.integer t).convert (String.ofList cs) = (t.read cs).mapError fun e =>
      ConversionError.cause ⟨String.ofList cs, t.name, e.message⟩ := by
  have hread : (Target.integer t).read (String.ofList cs).toList = (t.read cs).mapError IntegerFault.message := by
    rw [String.toList_ofList]
    rfl
  rw [Target.convert, hread]
  cases t.read cs <;> rfl

variable {store : Store σ Char π ρ} {c : Cursor Char π} {tokens text : List Char} {ending : Option ReadError}

/-- At any place of any text, the integer parser finds the number that the sign and all the digits there denote, if the
type has it, and is then behind them; without digits it fails where they are missing, and if the type does not have the
number it fails where it began, for a reason that quotes what was read. -/
theorem integer_reports (t : IntegerType) (hc : store.stream.Faces tokens ending c text) :
    (integer (.integer t)).Reports store c tokens ending ((front text).finding t) := by
  refine Makes.reports ?_ hc
  let f := front text
  unfold Front.finding
  by_cases hempty : f.digits = []
  · rw [if_pos hempty]
    exact (makes_signedDigits_failure f hempty).tryMap _
  · have hmakes : (integer (.integer t) : Parser Char π ρ Int).Makes σ text _ :=
      (makes_signedDigits f hempty).tryMap (Target.integer t).convert
    rw [if_neg hempty]
    rw [Finding.convert, convert_integer, f.read_eq hempty t] at hmakes
    cases hconverted : f.converted t with
    | ok n =>
      rw [hconverted] at hmakes
      exact hmakes
    | error e =>
      rw [hconverted] at hmakes
      exact hmakes

/-- The least number of eight bits, behind a leading zero, and a minus sign before a number that can have none. -/
theorem integer_reports_minus :
    let store : Store (NoSource Char) Char TextPosition Empty := .ofStream (.ofText "-0128x") .empty
    let c : Cursor Char TextPosition := store.stream.start
    let cause := ConversionError.cause ⟨"-0128", "u8", "invalid digit found in string"⟩
    store.stream.Faces "-0128x".toList none c "-0128x".toList ∧
      (integer (.integer ⟨true, 8⟩)).Reports store c "-0128x".toList none (.success (-128) ['x']) ∧
      (integer (.integer ⟨false, 8⟩)).Reports store c "-0128x".toList none (.failure (some cause) "-0128x".toList) := by
  intro store c cause
  have hc : store.stream.Faces "-0128x".toList none c "-0128x".toList := TokenStream.faces_ofList _
  exact ⟨hc, integer_reports ⟨true, 8⟩ hc, integer_reports ⟨false, 8⟩ hc⟩

end Parser

end StreamParsing
