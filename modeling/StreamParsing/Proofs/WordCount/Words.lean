import Mathlib.Data.List.TakeWhile
import Mathlib.Data.Set.Card
import StreamParsing.WordCount

/-!
The words of a text: its maximal runs of letters and number signs, in small letters. They are found from the front, run
by run, and counting them in a table gives for each word the number of the runs that it stands for.
-/

namespace StreamParsing.WordCount

set_option autoImplicit false

open Text (isAlphanumeric)

abbrev isSeparator (c : Char) : Bool := !isAlphanumeric c

/-- A text cut into a part of it and what stands on both sides. -/
structure Cut where
  before : List Char
  run : List Char
  after : List Char
  deriving DecidableEq, Repr

namespace Cut

/-- The part is a maximal run of letters and number signs. -/
structure Maximal (s : Cut) (text : List Char) : Prop where
  text_eq : text = s.before ++ (s.run ++ s.after)
  nonempty : s.run ≠ []
  letters : ∀ c ∈ s.run, isAlphanumeric c = true
  left : ∀ c, s.before.getLast? = some c → isAlphanumeric c = false
  right : ∀ c, s.after.head? = some c → isAlphanumeric c = false

/-- The word that the part stands for, whatever its case. -/
def word (s : Cut) : String := Text.lowercase (String.ofList s.run)

/-- The same part of a text with more in front of it. -/
def behind (front : List Char) (s : Cut) : Cut := { s with before := front ++ s.before }

theorem behind_injective (front : List Char) : Function.Injective (behind front) := by
  rintro ⟨before, run, after⟩ ⟨before', run', after'⟩ h
  simp only [behind, mk.injEq, List.append_cancel_left_eq] at h
  obtain ⟨rfl, rfl, rfl⟩ := h
  rfl

variable {s : Cut} {front rest : List Char} {c : Char}

theorem Maximal.exists_head (h : s.Maximal rest) (hs : s.before = []) :
    ∃ c, rest.head? = some c ∧ isAlphanumeric c = true := by
  obtain ⟨c, run, hrun⟩ := List.exists_cons_of_ne_nil h.nonempty
  refine ⟨c, ?_, h.letters c (by rw [hrun]; exact List.mem_cons_self ..)⟩
  rw [h.text_eq, hs, hrun]
  rfl

/-- Text in front changes no run, unless it ends where a run begins. -/
theorem maximal_behind_iff
    (hgap : ∀ a b, front.getLast? = some a → rest.head? = some b → isAlphanumeric b = true → isAlphanumeric a = false) :
    (s.behind front).Maximal (front ++ rest) ↔ s.Maximal rest := by
  constructor
  · rintro ⟨htext, hne, hletters, hleft, hright⟩
    simp only [behind, List.append_assoc, List.append_cancel_left_eq] at htext
    refine ⟨htext, hne, hletters, fun c hc => hleft c ?_, hright⟩
    simp [behind, hc]
  · intro h
    refine ⟨by simp [behind, h.text_eq], h.nonempty, h.letters, fun a ha => ?_, h.right⟩
    by_cases hs : s.before = []
    · obtain ⟨b, hb, hletter⟩ := h.exists_head hs
      have hlast : front.getLast? = some a := by simpa [behind, hs] using ha
      exact hgap a b hlast hb hletter
    · rw [behind, List.getLast?_append_of_ne_nil _ hs] at ha
      exact h.left a ha

/-- In a text that begins with a separator every run stands behind it. -/
theorem Maximal.exists_behind_separator (h : s.Maximal (c :: rest)) (hc : isAlphanumeric c = false) :
    ∃ s', s = behind [c] s' := by
  obtain ⟨_ | ⟨a, before⟩, run, after⟩ := s
  · obtain ⟨b, hb, hletter⟩ := h.exists_head rfl
    cases hb
    rw [hc] at hletter
    cases hletter
  · obtain ⟨rfl, -⟩ := List.cons.inj h.text_eq
    exact ⟨⟨before, run, after⟩, rfl⟩

theorem takeWhile_run {p : Char → Bool} {run after : List Char} (h : ∀ c ∈ run, p c = true)
    (hafter : ∀ c, after.head? = some c → p c = false) : (run ++ after).takeWhile p = run := by
  rw [List.takeWhile_append_of_pos h]
  cases after with
  | nil => simp
  | cons c after => simp [hafter c rfl]

/-- In a text that begins with a run, this is the first, and every other run stands behind it. -/
theorem Maximal.eq_or_behind_run (h : s.Maximal (front ++ rest)) (hfront : ∀ c ∈ front, isAlphanumeric c = true)
    (hrest : ∀ c, rest.head? = some c → isAlphanumeric c = false) :
    s = ⟨[], front, rest⟩ ∨ ∃ s', s = behind front s' := by
  obtain ⟨before, run, after⟩ := s
  obtain ⟨htext, -, hletters, hleft, hright⟩ := h
  by_cases hbefore : before = []
  · obtain rfl := hbefore
    rw [List.nil_append] at htext
    have htake := congrArg (List.takeWhile isAlphanumeric) htext
    rw [takeWhile_run hfront hrest, takeWhile_run hletters hright] at htake
    obtain rfl : front = run := htake
    obtain rfl := List.append_cancel_left htext
    exact .inl rfl
  · rcases List.append_eq_append_iff.mp htext with ⟨more, rfl, -⟩ | ⟨more, rfl, -⟩
    · exact .inr ⟨⟨more, run, after⟩, rfl⟩
    · -- The part would begin inside the first run.
      have hlast := List.getLast?_eq_some_getLast hbefore
      have hletter := hfront _ (List.mem_append_left more (List.getLast_mem hbefore))
      rw [hleft _ hlast] at hletter
      cases hletter

end Cut

/-- The maximal runs of a text, from the front. -/
def cuts (text : List Char) : List Cut :=
  match text with
  | [] => []
  | c :: rest =>
    if isAlphanumeric c then
      ⟨[], c :: rest.takeWhile isAlphanumeric, rest.dropWhile isAlphanumeric⟩ ::
        (cuts (rest.dropWhile isAlphanumeric)).map (Cut.behind (c :: rest.takeWhile isAlphanumeric))
    else (cuts rest).map (Cut.behind [c])
termination_by text.length
decreasing_by
  · exact Nat.lt_succ_of_le (List.dropWhile_sublist _).length_le
  · exact Nat.lt_succ_self _

theorem isAlphanumeric_of_dropWhile {text rest : List Char} {c : Char} (h : text.dropWhile isSeparator = c :: rest) :
    isAlphanumeric c = true := by
  have hnot := List.head?_dropWhile_not isSeparator text
  rw [h] at hnot
  simpa using hnot

theorem head?_dropWhile_letters (rest : List Char) (c : Char) (h : (rest.dropWhile isAlphanumeric).head? = some c) :
    isAlphanumeric c = false := by
  have hnot := List.head?_dropWhile_not isAlphanumeric rest
  rw [h] at hnot
  simpa using hnot

theorem mem_cuts_iff {text : List Char} {s : Cut} : s ∈ cuts text ↔ s.Maximal text := by
  induction text using cuts.induct generalizing s with
  | case1 =>
    simp only [cuts, List.not_mem_nil, false_iff]
    intro h
    have hnil := h.text_eq
    simp [h.nonempty] at hnil
  | case2 c rest hc ih =>
    have hafter := head?_dropWhile_letters rest
    have hne := List.cons_ne_nil c (rest.takeWhile isAlphanumeric)
    have hrun : ∀ a ∈ c :: rest.takeWhile isAlphanumeric, isAlphanumeric a = true := by
      intro a ha
      rcases List.mem_cons.mp ha with rfl | ha
      · exact hc
      · exact List.mem_takeWhile_imp ha
    have htext : c :: rest = c :: rest.takeWhile isAlphanumeric ++ rest.dropWhile isAlphanumeric := by simp
    rw [cuts, if_pos hc, List.mem_cons, List.mem_map, htext]
    generalize c :: rest.takeWhile isAlphanumeric = run at hne hrun
    generalize rest.dropWhile isAlphanumeric = after at hafter ih
    have hbehind (s : Cut) : (s.behind run).Maximal (run ++ after) ↔ s.Maximal after := by
      apply Cut.maximal_behind_iff
      intro a b _ hb hletter
      rw [hafter b hb] at hletter
      cases hletter
    constructor
    · rintro (rfl | ⟨s', hs', rfl⟩)
      · exact ⟨rfl, hne, hrun, nofun, hafter⟩
      · exact (hbehind s').mpr (ih.mp hs')
    · intro h
      rcases h.eq_or_behind_run hrun hafter with rfl | ⟨s', rfl⟩
      · exact .inl rfl
      · exact .inr ⟨s', ih.mpr ((hbehind s').mp h), rfl⟩
  | case3 c rest hc ih =>
    rw [Bool.not_eq_true] at hc
    have hbehind (s : Cut) : (s.behind [c]).Maximal (c :: rest) ↔ s.Maximal rest := by
      apply Cut.maximal_behind_iff
      rintro a b ⟨⟩ - -
      exact hc
    rw [cuts, if_neg (by simp [hc]), List.mem_map]
    constructor
    · rintro ⟨s', hs', rfl⟩
      exact (hbehind s').mpr (ih.mp hs')
    · intro h
      obtain ⟨s', rfl⟩ := h.exists_behind_separator hc
      exact ⟨s', ih.mpr ((hbehind s').mp h), rfl⟩

theorem nodup_cuts (text : List Char) : (cuts text).Nodup := by
  induction text using cuts.induct with
  | case1 => simp [cuts]
  | case2 c rest hc ih =>
    rw [cuts, if_pos hc]
    refine List.nodup_cons.mpr ⟨?_, ih.map (Cut.behind_injective _)⟩
    intro hmem
    obtain ⟨s, -, hs⟩ := List.mem_map.mp hmem
    simp [Cut.behind] at hs
  | case3 c rest hc ih =>
    rw [cuts, if_neg hc]
    exact ih.map (Cut.behind_injective [c])

def words (text : List Char) : List String := (cuts text).map Cut.word

@[simp] theorem words_nil : words [] = [] := by simp [words, cuts]

theorem words_cons_of_letter {c : Char} (hc : isAlphanumeric c = true) (rest : List Char) :
    words (c :: rest) = Text.lowercase (String.ofList (c :: rest.takeWhile isAlphanumeric)) ::
      words (rest.dropWhile isAlphanumeric) := by
  rw [words, cuts, if_pos hc, List.map_cons, List.map_map]
  rfl

theorem words_cons_of_separator {c : Char} (hc : isAlphanumeric c = false) (rest : List Char) :
    words (c :: rest) = words rest := by
  rw [words, cuts, if_neg (by simp [hc]), List.map_map]
  rfl

theorem words_dropWhile_separators (text : List Char) :
    words (text.dropWhile isSeparator) = words text := by
  induction text with
  | nil => rfl
  | cons c rest ih =>
    cases hc : isAlphanumeric c with
    | true => simp [hc]
    | false => simpa [hc, words_cons_of_separator hc] using ih

/-- The number of maximal runs of the text that stand for the word. -/
noncomputable def occurrences (text : List Char) (w : String) : Nat := {s : Cut | s.Maximal text ∧ s.word = w}.ncard

theorem occurrences_eq_count (text : List Char) (w : String) : occurrences text w = (words text).count w := by
  have hset : {s : Cut | s.Maximal text ∧ s.word = w} = ((cuts text).filter fun s => s.word == w).toFinset := by
    ext s
    simp [mem_cuts_iff]
  rw [occurrences, hset, Set.ncard_coe_finset, List.toFinset_card_of_nodup ((nodup_cuts text).filter _), words,
    List.count, List.countP_map, List.countP_eq_length_filter]
  rfl

theorem occurrences_eq_zero {text : List Char} (h : ∀ c ∈ text, isAlphanumeric c = false) (w : String) :
    occurrences text w = 0 := by
  have hnone : ∀ s : Cut, ¬ s.Maximal text := by
    intro s hs
    obtain ⟨c, hc⟩ := List.exists_mem_of_ne_nil _ hs.nonempty
    have hletter := hs.letters c hc
    rw [h c (by rw [hs.text_eq]; simp [hc])] at hletter
    cases hletter
  simp [occurrences, hnone]

/-- The entry of a table for something that was counted so many times. -/
def tally (n : Nat) : Option Nat := if n = 0 then none else some n

theorem getElem?_add {counts : Counts} {n : Nat} (v w : String) (h : counts[w]? = tally n) :
    (add counts v)[w]? = tally (n + if v = w then 1 else 0) := by
  rw [add, Std.TreeMap.getElem?_alter]
  by_cases hv : v = w
  · obtain rfl := hv
    rw [h]
    cases n <;> simp [tally]
  · simp [hv, h]

theorem getElem?_foldl_add (ws : List String) {counts : Counts} {n : Nat} {w : String} (h : counts[w]? = tally n) :
    (ws.foldl add counts)[w]? = tally (n + ws.count w) := by
  induction ws generalizing counts n with
  | nil => exact h
  | cons v ws ih =>
    rw [List.foldl_cons, ih (getElem?_add v w h), List.count_cons, Nat.add_assoc, Nat.add_comm (ws.count w)]
    simp

/-- Counting the words of a text gives for each word the number of its occurrences. -/
theorem getElem?_counts_words (text : List Char) (w : String) :
    ((words text).foldl add ∅)[w]? = tally (occurrences text w) := by
  rw [occurrences_eq_count, getElem?_foldl_add (words text) (n := 0) (by simp [tally]), Nat.zero_add]

end StreamParsing.WordCount
