import Mathlib.Order.Bounds.Defs
import StreamParsing.Encoding.Decoder
import StreamParsing.Proofs.Encoding.Written

/-!
Decoding against writing. Every byte sequence divides in one way into the bytes of a text and a rest that no character
begins; a decoder finds this division, whether the bytes come at once or in parts. It accepts exactly what the encoding
writes, and it refuses all else at the end of the longest part that is written.
-/

namespace StreamParsing

set_option autoImplicit false

namespace Encoding

variable {e : Encoding} {text more : List Char} {bytes written rest : List UInt8}

theorem encode?_cons {c : Char} {front : List UInt8} (hc : e.encodeChar? c = some front)
    (h : e.encode? text = some written) : e.encode? (c :: text) = some (front ++ written) := by
  simp only [encode?, hc, h, Option.bind_some, Option.map_some]

theorem exists_of_encode?_cons {c : Char} (h : e.encode? (c :: text) = some bytes) :
    ∃ front written, e.encodeChar? c = some front ∧ e.encode? text = some written ∧ bytes = front ++ written := by
  simp only [encode?, Option.bind_eq_some_iff, Option.map_eq_some_iff] at h
  obtain ⟨front, hc, written, h, rfl⟩ := h
  exact ⟨front, written, hc, h, rfl⟩

theorem encode?_append (h : e.encode? text = some written) (h' : e.encode? more = some rest) :
    e.encode? (text ++ more) = some (written ++ rest) := by
  induction text generalizing written with
  | nil =>
    cases h
    exact h'
  | cons c text ih =>
    obtain ⟨front, written, hc, htext, rfl⟩ := exists_of_encode?_cons h
    rw [List.cons_append, List.append_assoc]
    exact encode?_cons hc (ih htext)

theorem first_append_of_encodeChar? {c : Char} {front : List UInt8} (hc : e.encodeChar? c = some front) :
    ∃ k, front.length = k + 1 ∧ ∀ rest, e.first (front ++ rest) = .char c k := by
  have hne : front ≠ [] := by
    cases e with
    | utf8 =>
      cases hc
      exact String.utf8EncodeChar_ne_nil
    | utf16le | utf16be =>
      cases hc
      simp only [Utf16.encodeChar, Utf16.ByteOrder.bytes]
      split <;> exact List.cons_ne_nil _ _
    | latin1 | ascii =>
      simp only [encodeChar?, Option.ite_none_right_eq_some] at hc
      obtain ⟨-, hc⟩ := hc
      cases hc
      exact List.cons_ne_nil _ _
  obtain ⟨k, hk⟩ := Nat.exists_eq_succ_of_ne_zero (mt List.length_eq_zero_iff.mp hne)
  exact ⟨k, hk, fun rest => first_eq_char_iff.mpr ⟨front, rest, hc, rfl, hk⟩⟩

/-- The bytes are those of the text, and a rest that does not begin with a character. -/
structure Divides (e : Encoding) (bytes : List UInt8) (text : List Char) (written rest : List UInt8) : Prop where
  encode : e.encode? text = some written
  bytes : bytes = written ++ rest
  stuck : ∀ c k, e.first rest ≠ .char c k

/-- A text whose bytes stand in front is the beginning of the text that the bytes divide into. -/
theorem Divides.begins (h : e.Divides bytes text written rest) {text' : List Char} {written' rest' : List UInt8}
    (h' : e.encode? text' = some written') (hbytes : bytes = written' ++ rest') :
    ∃ more middle, text = text' ++ more ∧ e.encode? more = some middle ∧ written = written' ++ middle ∧
      rest' = middle ++ rest := by
  obtain ⟨hencode, hdivide, hstuck⟩ := h
  rw [hdivide] at hbytes
  clear hdivide
  induction text' generalizing text written written' with
  | nil =>
    cases h'
    exact ⟨text, written, rfl, hencode, rfl, hbytes.symm⟩
  | cons c text' ih =>
    obtain ⟨front, written', hc, htext, rfl⟩ := exists_of_encode?_cons h'
    obtain ⟨k, hk, hfirst⟩ := first_append_of_encodeChar? hc
    rw [List.append_assoc] at hbytes
    cases text with
    | nil =>
      cases hencode
      rw [List.nil_append] at hbytes
      exact absurd (hbytes ▸ hfirst _) (hstuck c k)
    | cons d text =>
      obtain ⟨front', written, hd, hmore, rfl⟩ := exists_of_encode?_cons hencode
      obtain ⟨k', -, hfirst'⟩ := first_append_of_encodeChar? hd
      -- Both begin with the character that stands at the front.
      rw [List.append_assoc] at hbytes
      have hsame := (hfirst' (written ++ rest)).symm.trans (hbytes ▸ hfirst (written' ++ rest'))
      obtain ⟨rfl, -⟩ := Sequence.char.inj hsame
      obtain rfl : front' = front := Option.some.inj (hd.symm.trans hc)
      obtain ⟨more, middle, rfl, hmiddle, rfl, hrest⟩ := ih htext (List.append_cancel_left hbytes) hmore
      exact ⟨more, middle, rfl, hmiddle, (List.append_assoc ..).symm, hrest⟩

theorem Divides.unique (h : e.Divides bytes text written rest) {text' : List Char} {written' rest' : List UInt8}
    (h' : e.Divides bytes text' written' rest') : text = text' ∧ written = written' ∧ rest = rest' := by
  obtain ⟨more, middle, rfl, hmore, rfl, hrest⟩ := h.begins h'.encode h'.bytes
  cases more with
  | nil =>
    cases hmore
    exact ⟨List.append_nil _, List.append_nil _, hrest.symm⟩
  | cons c more =>
    obtain ⟨front, middle, hc, -, rfl⟩ := exists_of_encode?_cons hmore
    obtain ⟨k, -, hfirst⟩ := first_append_of_encodeChar? hc
    rw [List.append_assoc] at hrest
    exact absurd (hrest ▸ hfirst _) (h'.stuck c k)

theorem divides_of_encode? (h : e.encode? text = some bytes) : e.Divides bytes text bytes [] :=
  ⟨h, (List.append_nil _).symm, by simp⟩

/-- More bytes do not change the division before a rest that no character can begin. -/
theorem Divides.append (h : e.Divides bytes text written rest) (hrest : e.first rest ≠ .incomplete)
    (added : List UInt8) : e.Divides (bytes ++ added) text written (rest ++ added) := by
  refine ⟨h.encode, by rw [h.bytes, List.append_assoc], ?_⟩
  rw [e.settles_first rest added hrest]
  exact h.stuck

/-- A division is found by dividing the rest once more. -/
theorem Divides.next (h : e.encode? text = some written) {added : List Char} {front : List UInt8}
    (h' : e.Divides bytes added front rest) : e.Divides (written ++ bytes) (text ++ added) (written ++ front) rest :=
  ⟨encode?_append h h'.encode, by rw [h'.bytes, List.append_assoc], h'.stuck⟩

theorem exists_divides_scan (e : Encoding) (bytes : List UInt8) (out : Array Char) (used : Nat) :
    ∃ text written rest, e.Divides bytes text written rest ∧
      e.scan bytes out used =
        ⟨out ++ text.toArray, rest, used + written.length, decide (e.first rest = .incomplete)⟩ := by
  induction bytes, out, used using Encoding.scan.induct e with
  | case1 out used =>
    refine ⟨[], [], [], divides_of_encode? rfl, ?_⟩
    simp [scan]
  | case2 out used b tail c more hfirst ih =>
    obtain ⟨front, after, hc, hbytes, hlength⟩ := first_eq_char_iff.mp hfirst
    have hafter : tail.drop more = after := by
      rw [← List.drop_succ_cons (a := b), hbytes, ← hlength, List.drop_left]
    rw [hafter] at ih
    obtain ⟨text, written, rest, hdivides, hscan⟩ := ih
    have hfront : e.encode? [c] = some front := by rw [encode?_cons hc rfl, List.append_nil]
    refine ⟨c :: text, front ++ written, rest, hbytes ▸ hdivides.next hfront, ?_⟩
    rw [scan]
    simp only [hfirst, hafter, hscan]
    simp [hlength, Nat.add_assoc]
  | case3 out used b tail hfirst =>
    refine ⟨[], [], b :: tail, ⟨rfl, rfl, by simp [hfirst]⟩, ?_⟩
    simp [scan, hfirst]
  | case4 out used b tail hfirst =>
    refine ⟨[], [], b :: tail, ⟨rfl, rfl, by simp [hfirst]⟩, ?_⟩
    simp [scan, hfirst]

/-- A text without the mark that the encoding may put in front of it. -/
def unmarked (e : Encoding) : List Char → List Char
  | [] => []
  | c :: text => if e.hasMark && c == '\uFEFF' then text else c :: text

theorem unmarked_nil (e : Encoding) : e.unmarked [] = [] := rfl

theorem unmarked_append (hne : text ≠ []) (more : List Char) : e.unmarked (text ++ more) = e.unmarked text ++ more := by
  obtain ⟨c, text, rfl⟩ := List.exists_cons_of_ne_nil hne
  simp only [List.cons_append, unmarked]
  split <;> rfl

theorem unmarked_eq_of_head? (h : text.head? ≠ some '\uFEFF') : e.unmarked text = text := by
  cases text with
  | nil => rfl
  | cons c text =>
    have hc : c ≠ '\uFEFF' := fun hc => h (congrArg some hc)
    simp [unmarked, hc]

theorem mark_not_mem_of_hasMark_eq_false (h : e.hasMark = false) (hencode : e.encode? text = some bytes) :
    '\uFEFF' ∉ text := by
  have hnone : e.encodeChar? '\uFEFF' = none := by
    cases e with
    | utf8 | utf16le | utf16be => cases h
    | latin1 | ascii => rfl
  induction text generalizing bytes with
  | nil => exact List.not_mem_nil
  | cons c text ih =>
    obtain ⟨front, written, hc, htext, rfl⟩ := exists_of_encode?_cons hencode
    rw [List.mem_cons, not_or]
    refine ⟨?_, ih htext⟩
    rintro rfl
    rw [hnone] at hc
    cases hc

/-- What a decoder answers when no more bytes come: the text if they all belong to it, else where it ends. -/
def judged (e : Encoding) (out : Array Char) (text : List Char) (written rest : List UInt8) :
    Except ReadError (Array Char) :=
  if rest = [] then .ok (out ++ (e.unmarked text).toArray) else .error (.malformed e.name written.length)

end Encoding

namespace Decoder

open Encoding (Divides)

def Step.outcome (step : Step) : Except ReadError (Array Char) := step.result.map fun _ => step.out

/-- Feeds the parts in order, the last of them as the last, and stops at the first error. -/
def feed (d : Decoder) (out : Array Char) : List (List UInt8) → Except ReadError (Array Char)
  | [] => .ok out
  | part :: parts =>
    let step := d.decode part out parts.isEmpty
    match step.result with
    | .ok _ => step.decoder.feed step.out parts
    | .error error => .error error

theorem feed_singleton (d : Decoder) (out : Array Char) (bytes : List UInt8) :
    d.feed out [bytes] = (d.decode bytes out true).outcome := by
  simp only [feed, List.isEmpty_nil, Step.outcome]
  cases (d.decode bytes out true).result <;> rfl

theorem dropMark_append (e : Encoding) (out : Array Char) (text : List Char) :
    dropMark e (out ++ text.toArray) out.size = out ++ (e.unmarked text).toArray := by
  cases text with
  | nil => simp [dropMark, Encoding.unmarked]
  | cons c text =>
    have hfirst : (out ++ (c :: text).toArray)[out.size]? = some c := by simp
    have herase : (out ++ (c :: text).toArray).eraseIdxIfInBounds out.size = out ++ text.toArray := by
      apply Array.toList_inj.mp
      simp [Array.eraseIdxIfInBounds, List.eraseIdx_append_of_length_le]
    rw [dropMark, hfirst, herase, Option.some_beq_some, Encoding.unmarked]
    split <;> rfl

/-- What was decoded so far: the bytes of `text` are used up, and the pending ones begin a character. -/
structure Fed (before : Array Char) (text : List Char) (written : List UInt8) (d : Decoder) (out : Array Char) :
    Prop where
  encode : d.encoding.encode? text = some written
  begun : d.encoding.first d.pending = .incomplete
  offset : d.offset = written.length
  started : d.started = !text.isEmpty
  out : out = before ++ (d.encoding.unmarked text).toArray

variable {before out : Array Char} {text text' : List Char} {written written' rest : List UInt8} {d : Decoder}

theorem fed_new (e : Encoding) (out : Array Char) : Fed out [] [] (new e) out where
  encode := rfl
  begun := e.first_nil
  offset := rfl
  started := rfl
  out := by simp [Encoding.unmarked]

/-- One call divides the bytes that it has seen with the earlier ones. Either the rest begins a character and the
decoder goes on from there, or nothing that comes later can help. -/
theorem Fed.decode (h : Fed before text written d out) (part : List UInt8) (last : Bool) :
    ∃ text' written' rest, Divides d.encoding (written ++ (d.pending ++ part)) text' written' rest ∧
      if d.encoding.first rest = .incomplete then
        let step := d.decode part out last
        step.decoder.encoding = d.encoding ∧ step.decoder.pending = rest ∧
          Fed before text' written' step.decoder step.out ∧
          step.result =
            if last && !rest.isEmpty then .error (.malformed d.encoding.name written'.length) else .ok ()
      else (d.decode part out last).result = .error (.malformed d.encoding.name written'.length) := by
  obtain ⟨added, front, rest, hdivides, hscan⟩ := d.encoding.exists_divides_scan (d.pending ++ part) out 0
  have hnext := Divides.next h.encode hdivides
  refine ⟨_, _, rest, hnext, ?_⟩
  have hused : d.offset + (0 + front.length) = (written ++ front).length := by
    rw [h.offset, List.length_append, Nat.zero_add]
  simp only [Decoder.decode, hscan, decide_eq_true_eq, errorAt, hused]
  split
  · rename_i hrest
    refine ⟨rfl, rfl, ⟨hnext.encode, hrest, rfl, ?_, ?_⟩, rfl⟩
    · rw [h.started]
      cases text <;> cases added <;> simp
    · -- The mark goes with the first characters; until then the output is what it was.
      rw [h.started, h.out]
      cases text with
      | cons c text =>
        rw [Encoding.unmarked_append (List.cons_ne_nil c text)]
        simp
      | nil =>
        cases added with
        | nil => simp [Encoding.unmarked]
        | cons c added =>
          simpa [Encoding.unmarked_nil] using dropMark_append d.encoding before (c :: added)
  · rfl

/-- Feeding parts gives the answer for the division of everything that was fed. -/
theorem Fed.feed {parts : List (List UInt8)} (h : Fed before text written d out) (hparts : parts ≠ [])
    (hdivides : Divides d.encoding (written ++ (d.pending ++ parts.flatten)) text' written' rest) :
    d.feed out parts = d.encoding.judged before text' written' rest := by
  induction parts generalizing text written d out with
  | nil => exact absurd rfl hparts
  | cons part parts ih =>
    obtain ⟨text₁, written₁, rest₁, hdivides₁, hstep⟩ := h.decode part parts.isEmpty
    have hall : written ++ (d.pending ++ (part :: parts).flatten) =
        written ++ (d.pending ++ part) ++ parts.flatten := by
      simp only [List.flatten_cons, List.append_assoc]
    rw [hall] at hdivides
    simp only [Decoder.feed]
    by_cases hopen : d.encoding.first rest₁ = .incomplete
    · rw [if_pos hopen] at hstep
      obtain ⟨hencoding, hpending, hfed, hresult⟩ := hstep
      cases parts with
      | nil =>
        rw [List.flatten_nil, List.append_nil] at hdivides
        obtain ⟨rfl, rfl, rfl⟩ := hdivides.unique hdivides₁
        rw [hresult, Encoding.judged]
        cases rest with
        | nil =>
          rw [if_pos rfl, ← hencoding]
          exact congrArg Except.ok hfed.out
        | cons b rest => rfl
      | cons next parts =>
        rw [hresult]
        rw [hdivides₁.bytes, List.append_assoc, ← hpending, ← hencoding] at hdivides
        rw [← hencoding]
        exact ih hfed (List.cons_ne_nil _ _) hdivides
    · -- The bytes that come later do not change where the text ends.
      rw [if_neg hopen] at hstep
      obtain ⟨rfl, rfl, rfl⟩ := hdivides.unique (hdivides₁.append hopen parts.flatten)
      have hne : rest₁ ++ parts.flatten ≠ [] := by
        intro hnil
        rw [List.append_eq_nil_iff] at hnil
        exact hopen (hnil.1 ▸ Encoding.first_nil _)
      rw [hstep, Encoding.judged, if_neg hne]

theorem outcome_decode_of_divides {e : Encoding} {bytes : List UInt8} (out : Array Char)
    (h : Divides e bytes text written rest) :
    ((new e).decode bytes out true).outcome = e.judged out text written rest := by
  rw [← feed_singleton]
  exact (fed_new e out).feed (List.cons_ne_nil _ _) (by simpa [new] using h)

theorem feed_new (e : Encoding) (out : Array Char) (parts : List (List UInt8)) :
    (new e).feed out parts = ((new e).decode parts.flatten out true).outcome := by
  obtain ⟨text, written, rest, h, -⟩ := e.exists_divides_scan parts.flatten out 0
  rw [outcome_decode_of_divides out h]
  cases parts with
  | nil =>
    have hnil : Divides e [] [] [] [] := Encoding.divides_of_encode? rfl
    obtain ⟨rfl, rfl, rfl⟩ := h.unique hnil
    simp [feed, Encoding.judged, Encoding.unmarked_nil]
  | cons part parts => exact (fed_new e out).feed (List.cons_ne_nil _ _) (by simpa [new] using h)

/-- A decoder that is fed parts ends as one that is fed everything at once: with the same characters, from which a mark
in front is dropped wherever it was cut, or with the same error at the same offset. -/
theorem feed_eq_decode_flatten (e : Encoding) (parts : List (List UInt8)) (out : Array Char) :
    (new e).feed out parts = ((new e).decode parts.flatten out true).outcome ∧
      ∀ text, e.hasMark → e.encode? ('\uFEFF' :: text) = some parts.flatten →
        (new e).feed out parts = .ok (out ++ text.toArray) := by
  refine ⟨feed_new e out parts, ?_⟩
  intro text hmark hencode
  rw [feed_new, outcome_decode_of_divides out (Encoding.divides_of_encode? hencode)]
  simp [Encoding.judged, Encoding.unmarked, hmark]

theorem outcome_decode_eq_ok_iff {e : Encoding} {bytes : List UInt8} {result : Array Char} :
    ((new e).decode bytes out true).outcome = .ok result ↔
      ∃ text, e.encode? text = some bytes ∧ result = out ++ (e.unmarked text).toArray := by
  constructor
  · intro hok
    obtain ⟨text, written, rest, h, -⟩ := e.exists_divides_scan bytes out 0
    rw [outcome_decode_of_divides out h, Encoding.judged] at hok
    split at hok
    · rename_i hrest
      refine ⟨text, ?_, (Except.ok.inj hok).symm⟩
      rw [h.encode, h.bytes, hrest, List.append_nil]
    · cases hok
  · rintro ⟨text, hencode, rfl⟩
    rw [outcome_decode_of_divides out (Encoding.divides_of_encode? hencode), Encoding.judged, if_pos rfl]

theorem exists_outcome_decode_eq_error {e : Encoding} {bytes : List UInt8} (out : Array Char)
    (hnone : ∀ text, e.encode? text ≠ some bytes) : ∃ k,
      ((new e).decode bytes out true).outcome = .error (.malformed e.name k) ∧
        IsGreatest {k | k ≤ bytes.length ∧ ∃ text, e.encode? text = some (bytes.take k)} k := by
  obtain ⟨text, written, rest, h, -⟩ := e.exists_divides_scan bytes out 0
  have hrest : rest ≠ [] := by
    rintro rfl
    apply hnone text
    rw [h.encode, h.bytes, List.append_nil]
  refine ⟨written.length, ?_, ⟨?_, text, ?_⟩, ?_⟩
  · rw [outcome_decode_of_divides out h, Encoding.judged, if_neg hrest]
  · rw [h.bytes, List.length_append]
    omega
  · rw [h.bytes, List.take_left, h.encode]
  · -- A longer part that is written would be divided further than the bytes are.
    rintro k ⟨hk, text', hencode⟩
    obtain ⟨more, middle, -, -, hwritten, -⟩ := h.begins hencode (List.take_append_drop k bytes).symm
    rw [hwritten, List.length_append, List.length_take]
    omega

/-- The decoder accepts exactly the bytes of the texts. Of all others it reports how many belong to a text. -/
theorem decode_eq_ok_iff_encode? (e : Encoding) (bytes : List UInt8) (out : Array Char) :
    (∀ result, ((new e).decode bytes out true).outcome = .ok result ↔
      ∃ text, e.encode? text = some bytes ∧ result = out ++ (e.unmarked text).toArray) ∧
    ((∀ text, e.encode? text ≠ some bytes) → ∃ k,
      ((new e).decode bytes out true).outcome = .error (.malformed e.name k) ∧
        IsGreatest {k | k ≤ bytes.length ∧ ∃ text, e.encode? text = some (bytes.take k)} k) ∧
    (e.hasMark = false → ∀ text, e.encode? text = some bytes → '\uFEFF' ∉ text) ∧
    ∀ text, text.head? ≠ some '\uFEFF' →
      e.encode? text = some bytes ∨ e.hasMark ∧ e.encode? ('\uFEFF' :: text) = some bytes →
      ((new e).decode bytes out true).outcome = .ok (out ++ text.toArray) := by
  refine ⟨fun _ => outcome_decode_eq_ok_iff, exists_outcome_decode_eq_error out,
    fun hmark _ => Encoding.mark_not_mem_of_hasMark_eq_false hmark, ?_⟩
  rintro text hhead (hencode | ⟨hmark, hencode⟩)
  · exact outcome_decode_eq_ok_iff.mpr ⟨text, hencode, by rw [Encoding.unmarked_eq_of_head? hhead]⟩
  · exact outcome_decode_eq_ok_iff.mpr ⟨_, hencode, by simp [Encoding.unmarked, hmark]⟩

end Decoder

end StreamParsing
