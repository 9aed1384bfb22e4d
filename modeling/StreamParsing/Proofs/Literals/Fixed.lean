import StreamParsing.Parser.Text
import StreamParsing.Proofs.Literals.Longest
import StreamParsing.Proofs.Repetition.Sequences

/-!
Fixed texts. A literal is a sequence of single tokens, so it is taken where it stands, and where it does not stand the
parser has come as far as the text agrees with it.
-/

namespace StreamParsing

set_option autoImplicit false

universe u

variable {σ : Type u} {τ π ρ α β : Type}

/-- What a text may have in common with the literal at its beginning. -/
def beginnings (lit : List τ) : Language τ := {w | w <+: lit}

/-- A text that does not begin with a literal has a place where it differs from it first. -/
theorem exists_mismatch {lit ts : List τ} (h : ¬ lit <+: ts) :
    ∃ common t more rest, lit = common ++ t :: more ∧ ts = common ++ rest ∧ rest.head? ≠ some t := by
  induction lit generalizing ts with
  | nil => exact absurd List.nil_prefix h
  | cons t lit ih =>
    by_cases hhead : ts.head? = some t
    · obtain ⟨ts, rfl⟩ := List.head?_eq_some_iff.mp hhead
      rw [List.prefix_cons_inj] at h
      obtain ⟨common, t', more, rest, rfl, rfl, hmismatch⟩ := ih h
      exact ⟨t :: common, t', more, rest, rfl, rfl, hmismatch⟩
    · exact ⟨[], t, lit, ts, rfl, rfl, hhead⟩

theorem longest_common {common more rest : List τ} {t : τ} (h : rest.head? ≠ some t) :
    Longest (beginnings (common ++ t :: more)) common rest := by
  refine ⟨List.prefix_append common _, fun w hw hpre => ?_⟩
  by_contra hlong
  obtain ⟨further, rfl⟩ := List.prefix_of_prefix_length_le (List.prefix_append common rest) hpre (by omega)
  have hlit : further <+: t :: more := (List.prefix_append_right_inj common).mp hw
  rw [List.prefix_append_right_inj] at hpre
  cases further with
  | nil => simp at hlong
  | cons a further =>
    obtain ⟨rfl, -⟩ := List.cons_prefix_cons.mp hlit
    obtain ⟨behind, rfl⟩ := hpre
    exact h rfl

namespace Parser

section Tokens

variable [Source σ τ] [Position π τ]

omit [Position π τ] in
theorem sequence_append_cons (ps qs : List (Parser τ π ρ α)) (q : Parser τ π ρ α) :
    sequence (ps ++ q :: qs) = qs.foldl (zipWith Array.push) (zipWith Array.push (sequence ps) q) := by
  rw [sequence, List.foldl_append, List.foldl_cons]
  rfl

theorem Makes.foldl_failure {p : Parser τ π ρ (Array α)} {ts rest : List τ} {cause : Option Cause}
    (h : p.Makes σ ts (.failure cause rest)) (qs : List (Parser τ π ρ α)) :
    (qs.foldl (Parser.zipWith Array.push) p).Makes σ ts (.failure cause rest) := by
  induction qs generalizing p with
  | nil => exact h
  | cons q qs ih => exact ih (h.zipWith_failure q Array.push)

variable [LawfulSource σ τ] [BEq τ] [LawfulBEq τ]

theorem makes_tokens (lit rest : List τ) :
    (sequence (lit.map token) : Parser τ π ρ (Array τ)).Makes σ (lit ++ rest) (.success lit.toArray rest) := by
  induction lit using List.reverseRecOn generalizing rest with
  | nil => exact makes_pure #[] rest
  | append_singleton lit t ih =>
    have htoken : (token t : Parser τ π ρ τ).Makes σ (t :: rest) (.success t rest) := makes_satisfy (beq_self_eq_true t)
    rw [List.map_append, List.map_singleton, sequence_append_cons, List.append_assoc, ← List.push_toArray]
    exact (ih (t :: rest)).zipWith htoken Array.push

theorem makes_tokens_failure (common more : List τ) {rest : List τ} {t : τ} (h : rest.head? ≠ some t) :
    (sequence ((common ++ t :: more).map token) : Parser τ π ρ (Array τ)).Makes σ (common ++ rest)
      (.failure none rest) := by
  have htoken : (token t : Parser τ π ρ τ).Makes σ rest (.failure none rest) := by
    refine makes_satisfy_failure ?_
    rw [Option.filter_eq_none_iff]
    intro a ha heq
    obtain rfl := eq_of_beq heq
    exact h ha
  rw [List.map_append, List.map_cons, sequence_append_cons]
  exact ((makes_tokens common rest).zipWith htoken Array.push).foldl_failure _

end Tokens

/-- The message about a token that does not fit, or about the end of the input. -/
def unexpectedMessage [Described τ] : Option τ → String
  | some t => "Unexpected '" ++ describe t ++ "'"
  | none => "Unexpected '<EndOfStream>'"

/-- The parser takes the literal where it stands, and is then behind it; otherwise it fails at the first token that
differs, and says so. -/
structure Spells (σ : Type u) [Source σ τ] [Position π τ] [Described τ] (p : Parser τ π ρ β) (lit : List τ)
    (value : β) : Prop where
  found : ∀ {store : Store σ τ π ρ} {c : Cursor τ π} {tokens rest : List τ} {ending : Option ReadError},
    store.stream.Faces tokens ending c (lit ++ rest) → p.Reports store c tokens ending (.success value rest)
  missed : ∀ {store : Store σ τ π ρ} {c : Cursor τ π} {tokens ts : List τ} {ending : Option ReadError},
    store.stream.Faces tokens ending c ts → ¬ lit <+: ts →
    ∃ common rest, common ++ rest = ts ∧ Longest (beginnings lit) common rest ∧
      p.Reports store c tokens ending (.failure none rest) ∧
      ∀ store' fault, p.ends store c store' (.ok (.failure fault)) → fault.message = unexpectedMessage rest.head?

theorem Makes.spells [Source σ τ] [LawfulSource σ τ] [Position π τ] [Described τ] {p : Parser τ π ρ β} {lit : List τ}
    {value : β} (hfound : ∀ rest, p.Makes σ (lit ++ rest) (.success value rest))
    (hmissed : ∀ {common more rest t}, lit = common ++ t :: more → rest.head? ≠ some t →
      p.Makes σ (common ++ rest) (.failure none rest)) : p.Spells σ lit value where
  found hc := (hfound _).reports hc
  missed {store c tokens ts ending} hc h := by
    obtain ⟨common, t, more, rest, rfl, rfl, hmismatch⟩ := exists_mismatch h
    have hreports := (hmissed rfl hmismatch).reports hc
    refine ⟨common, rest, rfl, longest_common hmismatch, hreports, ?_⟩
    rintro store' fault ⟨fuel, hrun⟩
    cases hreports.meets fuel _ hrun with
    | @failure _ _ d hd =>
      rw [Fault.raised, Fault.message, Fault.unexpected, hd.current]
      cases rest.head? <;> rfl

section Theorem

variable {σchar σbyte : Type u} {πchar πbyte : Type} [Source σ τ] [LawfulSource σ τ] [Position π τ]
variable [Source σchar Char] [LawfulSource σchar Char] [Position πchar Char]
variable [Source σbyte UInt8] [LawfulSource σbyte UInt8] [Position πbyte UInt8]

/-- Whatever the parsers of a list do, a sequence of them succeeds with all values, or ends as the first one that does not
succeed, and a choice of them ends as the first one that does not fail, or as the last one if all fail. So a literal is
taken where it stands, and where it does not, the first token that differs from it is reported. -/
theorem sequence_and_choice (ps : List (Parser τ π ρ α)) :
    (sequence ps).Composes σ ps Sequenced ∧ (choice ps).Composes σ ps Chosen ∧
      (∀ text : String, (string text : Parser Char πchar ρ String).Spells σchar text.toList text) ∧
      ∀ data : List UInt8, (bytes data : Parser UInt8 πbyte ρ (Array UInt8)).Spells σbyte data data.toArray := by
  refine ⟨composes_sequence ps, composes_choice ps, ?_, ?_⟩
  · intro text
    refine Makes.spells (fun rest => (makes_tokens text.toList rest).map fun _ => text) ?_
    intro common more rest t heq h
    have htokens := makes_tokens_failure (σ := σchar) (π := πchar) (ρ := ρ) common more h
    rw [← heq] at htokens
    exact htokens.map fun _ => text
  · intro data
    refine Makes.spells (makes_tokens data) ?_
    rintro common more rest t rfl h
    exact makes_tokens_failure common more h

/-- Two letters, and a text that has another one in the place of the second. -/
theorem sequence_and_choice_mismatch :
    let p : Parser Char LinearPosition Empty Char := .satisfy (· == 'a')
    let q : Parser Char LinearPosition Empty Char := .satisfy (· == 'b')
    let store : Store (NoSource Char) Char LinearPosition Empty := .ofStream (.ofText "ac") .empty
    let c : Cursor Char LinearPosition := store.stream.start
    let behind : Cursor Char LinearPosition := ⟨0, 1, ⟨1⟩, some 'c'⟩
    (∀ r ∈ [p, q], r.Steady) ∧ store.rules.Kept ∧
      Sequenced ([p, q].map ends) store c store (.ok (.failure (.unexpected behind))) ∧
      ∃ common rest, common ++ rest = "ac".toList ∧ Longest (beginnings "ab".toList) common rest ∧
        (string "ab").Reports store c "ac".toList none (.failure none rest) := by
  intro p q store c behind
  have hsteady : ∀ r ∈ [p, q], r.Steady := by
    intro r hr
    rcases List.mem_pair.mp hr with rfl | rfl <;> exact .satisfy _
  have hrules : store.rules.Kept := by
    intro entry hmem
    cases Array.not_mem_empty entry hmem
  have hc : store.stream.Faces "ac".toList none c "ac".toList := TokenStream.faces_ofList _
  have hall : (sequence [p, q]).Composes (NoSource Char) [p, q] Sequenced ∧ _ ∧
      (∀ text, (string text : Parser Char LinearPosition Empty String).Spells (NoSource Char) text.toList text) ∧
      ∀ data, (bytes data : Parser UInt8 LinearPosition Empty (Array UInt8)).Spells (NoSource UInt8) data data.toArray :=
    sequence_and_choice [p, q]
  have hdiffers : ¬ "ab".toList <+: "ac".toList := by decide
  obtain ⟨common, rest, heq, hlongest, hreports, -⟩ := (hall.2.2.1 "ab").missed hc hdiffers
  exact ⟨hsteady, hrules, (hall.1.alone hsteady store store c _ hrules).mp ⟨20, rfl⟩, common, rest, heq, hlongest,
    hreports⟩

end Theorem

end Parser

end StreamParsing
