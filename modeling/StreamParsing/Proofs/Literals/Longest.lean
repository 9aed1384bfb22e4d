import Mathlib.Computability.Language
import Mathlib.Data.Nat.Find
import StreamParsing.Proofs.Machine.Findings

/-!
The longest word of a language that a text begins with. A parser made of optional and repeated parts takes, in each part,
the longest word it can; that adds up to the longest word of the whole language if no later part can begin inside an
earlier one.
-/

namespace StreamParsing

set_option autoImplicit false

universe u

variable {α : Type}

def Opens (L : Language α) (text : List α) : Prop := ∃ w ∈ L, w <+: text

/-- Of the words of the language that the text `word ++ rest` begins with, `word` is the longest. -/
structure Longest (L : Language α) (word rest : List α) : Prop where
  mem : word ∈ L
  length_le : ∀ w ∈ L, w <+: word ++ rest → w.length ≤ word.length

/-- No word of the second language begins with a letter of the first. -/
def Apart (K L : Language α) : Prop := ∀ u ∈ K, ∀ a ∈ u, ∀ v, a :: v ∉ L

def letters (test : α → Bool) : Language α := {w | ∃ a, test a = true ∧ w = [a]}

def spans (test : α → Bool) : Language α := {w | w ≠ [] ∧ ∀ a ∈ w, test a = true}

section Words

variable {K L : Language α} {text u v w rest : List α} {test : α → Bool}

theorem nil_not_mem_letters : [] ∉ letters test := by
  rintro ⟨a, -, heq⟩
  cases heq

theorem nil_not_mem_spans : [] ∉ spans test := fun h => h.1 rfl

theorem nil_not_mem_mul (h : [] ∉ K) : [] ∉ K * L := by
  rintro ⟨u, hu, v, -, heq⟩
  exact h ((List.append_eq_nil_iff.mp heq).1 ▸ hu)

/-- The words found are no longer than the text, so one of them is the longest. -/
theorem Opens.exists_longest (h : Opens L text) : ∃ word rest, word ++ rest = text ∧ Longest L word rest := by
  classical
  obtain ⟨w, hw, hpre⟩ := h
  let n := Nat.findGreatest (fun n => text.take n ∈ L) text.length
  have htake {w : List α} (hpre : w <+: text) : text.take w.length = w := (List.prefix_iff_eq_take.mp hpre).symm
  have hmem : text.take n ∈ L := by
    refine Nat.findGreatest_spec (P := fun n => text.take n ∈ L) hpre.length_le ?_
    rw [htake hpre]
    exact hw
  refine ⟨text.take n, text.drop n, List.take_append_drop n text, hmem, fun w' hw' hpre' => ?_⟩
  rw [List.take_append_drop] at hpre'
  have hle : w'.length ≤ n := by
    apply Nat.le_findGreatest hpre'.length_le
    rw [htake hpre']
    exact hw'
  have hn : n ≤ text.length := Nat.findGreatest_le _
  rw [List.length_take]
  omega

theorem Longest.opens (h : Longest L w rest) : Opens L (w ++ rest) := ⟨w, h.mem, List.prefix_append w rest⟩

theorem Longest.unique {rest' : List α} (h : Longest L u rest) (h' : Longest L v rest')
    (heq : u ++ rest = v ++ rest') : u = v ∧ rest = rest' := by
  have hle := h.length_le v h'.mem (heq ▸ List.prefix_append v rest')
  have hge := h'.length_le u h.mem (heq ▸ List.prefix_append u rest)
  exact List.append_inj heq (Nat.le_antisymm hge hle)

/-- A word of a product takes no more of the first language than its longest word: what goes on earlier would begin
inside that word. -/
theorem Longest.exists_second (hu : Longest K u rest) (hapart : Apart K L) (hw : w ∈ K * L) (hpre : w <+: u ++ rest) :
    ∃ v ∈ L, v <+: rest ∧ w.length ≤ u.length + v.length := by
  obtain ⟨u', hu', v, hv, rfl⟩ := Language.mem_mul.mp hw
  have hpre' : u' <+: u ++ rest := (List.prefix_append u' v).trans hpre
  have hle := hu.length_le u' hu' hpre'
  obtain ⟨between, rfl⟩ := List.prefix_of_prefix_length_le hpre' (List.prefix_append u rest) hle
  rw [List.append_assoc, List.prefix_append_right_inj] at hpre
  cases between with
  | nil =>
    refine ⟨v, hv, hpre, ?_⟩
    rw [List.length_append, List.append_nil]
  | cons a between =>
    cases v with
    | nil => exact ⟨[], hv, List.nil_prefix, by simp⟩
    | cons b v =>
      obtain ⟨rfl, -⟩ := List.cons_prefix_cons.mp hpre
      exact absurd hv (hapart _ hu.mem b (by simp) v)

theorem Longest.append (hu : Longest K u (v ++ rest)) (hv : Longest L v rest) (hapart : Apart K L) :
    Longest (K * L) (u ++ v) rest := by
  refine ⟨Language.append_mem_mul hu.mem hv.mem, fun w hw hpre => ?_⟩
  rw [List.append_assoc] at hpre
  obtain ⟨v', hv', hpre', hle⟩ := hu.exists_second hapart hw hpre
  have hle' := hv.length_le v' hv' hpre'
  rw [List.length_append]
  omega

/-- The empty word is the longest only where there is no other. -/
theorem longest_optional (h : Longest L w rest) : Longest (1 + L) w rest := by
  refine ⟨.inr h.mem, fun w' hw' hpre => ?_⟩
  rcases hw' with rfl | hw'
  · exact Nat.zero_le _
  · exact h.length_le w' hw' hpre

theorem longest_nil (h : ¬ Opens L rest) : Longest (1 + L) [] rest := by
  refine ⟨.inl rfl, fun w hw hpre => ?_⟩
  rcases hw with rfl | hw
  · exact Nat.le_refl _
  · exact absurd ⟨w, hw, hpre⟩ h

theorem longest_letters {a : α} (ha : test a = true) : Longest (letters test) [a] rest := by
  refine ⟨⟨a, ha, rfl⟩, ?_⟩
  rintro _ ⟨b, -, rfl⟩ -
  exact Nat.le_refl 1

theorem longest_spans (hw : w ∈ spans test) (hrest : rest.head?.filter test = none) : Longest (spans test) w rest := by
  refine ⟨hw, fun w' hw' hpre => ?_⟩
  by_contra hlong
  obtain ⟨more, rfl⟩ := List.prefix_of_prefix_length_le (List.prefix_append w rest) hpre (by omega)
  rw [List.prefix_append_right_inj] at hpre
  cases more with
  | nil => simp at hlong
  | cons a more =>
    obtain ⟨behind, rfl⟩ := hpre
    have ha := hw'.2 a (by simp)
    simp [ha] at hrest

theorem Longest.stops (h : Longest (spans test) w rest) : rest.head?.filter test = none := by
  rw [Option.filter_eq_none_iff]
  intro a hhead ha
  obtain ⟨behind, rfl⟩ := List.head?_eq_some_iff.mp hhead
  have hmem : w ++ [a] ∈ spans test := by
    refine ⟨by simp, fun b hb => ?_⟩
    rcases List.mem_append.mp hb with hb | hb
    · exact h.mem.2 b hb
    · rwa [List.mem_singleton.mp hb]
  have hlong := h.length_le _ hmem (by simp)
  rw [List.length_append, List.length_singleton] at hlong
  omega

theorem head?_of_not_opens (h : ¬ Opens L text) (hone : ∀ a, test a = true → [a] ∈ L) :
    text.head?.filter test = none := by
  rw [Option.filter_eq_none_iff]
  intro a hhead ha
  obtain ⟨rest, rfl⟩ := List.head?_eq_some_iff.mp hhead
  exact h ⟨[a], hone a ha, by simp⟩

theorem singleton_mem_spans {a : α} (h : test a = true) : [a] ∈ spans test := ⟨by simp, by simpa using h⟩

end Words

section Alphabets

variable {α : Type} {K L : Language α} {test test' : α → Bool}

def Exclusive (test test' : α → Bool) : Prop := ∀ a, test a = true → test' a = false

theorem Exclusive.symm (h : Exclusive test test') : Exclusive test' test := by
  intro a ha
  by_contra hboth
  rw [h a (by simpa using hboth)] at ha
  cases ha

theorem not_of_any {l : List α} (h : l.any test = false) {a : α} (ha : a ∈ l) : test a = false :=
  eq_false_of_ne_true (List.any_eq_false.mp h a ha)

def Avoids (K : Language α) (test : α → Bool) : Prop := ∀ u ∈ K, ∀ a ∈ u, test a = false

def StartsWith (L : Language α) (test : α → Bool) : Prop := ∀ a v, a :: v ∈ L → test a = true

theorem Avoids.apart (hK : Avoids K test) (hL : StartsWith L test) : Apart K L := by
  intro u hu a ha v hv
  have hno := hK u hu a ha
  rw [hL a v hv] at hno
  cases hno

theorem Avoids.mul (hK : Avoids K test) (hL : Avoids L test) : Avoids (K * L) test := by
  rintro _ ⟨u, hu, v, hv, rfl⟩ a ha
  rcases List.mem_append.mp ha with ha | ha
  · exact hK u hu a ha
  · exact hL v hv a ha

theorem Avoids.optional (h : Avoids L test) : Avoids (1 + L) test := by
  rintro u (rfl | hu) a ha
  · cases ha
  · exact h u hu a ha

theorem avoids_letters (h : Exclusive test test') : Avoids (letters test) test' := by
  rintro _ ⟨b, hb, rfl⟩ a ha
  rw [List.mem_singleton.mp ha]
  exact h b hb

theorem avoids_spans (h : Exclusive test test') : Avoids (spans test) test' :=
  fun _ hu a ha => h a (hu.2 a ha)

theorem startsWith_letters : StartsWith (letters test) test := by
  rintro a v ⟨b, hb, heq⟩
  obtain ⟨rfl, rfl⟩ := List.cons.inj heq
  exact hb

theorem startsWith_spans : StartsWith (spans test) test := fun a _ h => h.2 a (List.mem_cons_self ..)

theorem StartsWith.optional (h : StartsWith L test) : StartsWith (1 + L) test := by
  rintro a v (heq | hv)
  · cases heq
  · exact h a v hv

theorem StartsWith.mul (h : StartsWith K test) (hne : [] ∉ K) : StartsWith (K * L) test := by
  rintro a v ⟨u, hu, w, -, heq⟩
  cases u with
  | nil => exact absurd hu hne
  | cons b u =>
    obtain ⟨rfl, -⟩ := List.cons.inj heq
    exact h b u hu

theorem not_opens (h : StartsWith L test) (hne : [] ∉ L) {text : List α} (hhead : text.head?.filter test = none) :
    ¬ Opens L text := by
  rintro ⟨w, hw, hpre⟩
  cases w with
  | nil => exact hne hw
  | cons a w =>
    obtain ⟨rest, rfl⟩ := hpre
    have ha := h a w hw
    simp [ha] at hhead

theorem StartsWith.head?_of_mem (h : StartsWith L test) (hne : [] ∉ L) (hexclusive : Exclusive test test') {w : List α}
    (hw : w ∈ L) (rest : List α) : (w ++ rest).head?.filter test' = none := by
  cases w with
  | nil => exact absurd hw hne
  | cons a w =>
    have ha := hexclusive a (h a w hw)
    simp [ha]

theorem StartsWith.head?_of_optional (h : StartsWith L test) (hne : [] ∉ L) (hexclusive : Exclusive test test')
    {w rest : List α} (hw : w ∈ 1 + L) (hrest : rest.head?.filter test' = none) :
    (w ++ rest).head?.filter test' = none := by
  rcases hw with rfl | hw
  · exact hrest
  · exact h.head?_of_mem hne hexclusive hw rest

end Alphabets

namespace Parser

variable {σ : Type u} {τ π ρ β γ : Type} [Source σ τ] [Position π τ]

/-- The parser takes the longest word of the language there is, and fails where there is none. -/
structure Munches (σ : Type u) [Source σ τ] [Position π τ] (p : Parser τ π ρ α) (L : Language τ)
    (value : List τ → α) : Prop where
  found : ∀ {word rest : List τ}, Longest L word rest → p.Makes σ (word ++ rest) (.success (value word) rest)
  missed : ∀ {text : List τ}, ¬ Opens L text → ∃ cause rest, p.Makes σ text (.failure cause rest)

variable {p : Parser τ π ρ α} {q : Parser τ π ρ β} {K L : Language τ} {value value' : List τ → α} {second : List τ → β}

theorem Munches.congr (h : p.Munches σ L value) (heq : ∀ w ∈ L, value w = value' w) : p.Munches σ L value' where
  found hlongest := heq _ hlongest.mem ▸ h.found hlongest
  missed := h.missed

theorem Munches.map (h : p.Munches σ L value) (f : α → β) : (p.map f).Munches σ L (f ∘ value) where
  found hlongest := (h.found hlongest).map f
  missed hnone := by
    obtain ⟨cause, rest, hp⟩ := h.missed hnone
    exact ⟨cause, rest, hp.map f⟩

theorem Munches.zipWith {join : α → β → γ} {whole : List τ → γ} (hp : p.Munches σ K value) (hq : q.Munches σ L second)
    (hapart : Apart K L) (hwhole : ∀ u ∈ K, ∀ v ∈ L, whole (u ++ v) = join (value u) (second v)) :
    (Parser.zipWith join p q).Munches σ (K * L) whole where
  found {word rest} hlongest := by
    obtain ⟨u, hu, v, hv, heq⟩ := Language.mem_mul.mp hlongest.mem
    have hopens : Opens K (word ++ rest) := ⟨u, hu, by simp [← heq]⟩
    obtain ⟨u, behind, htext, hu⟩ := hopens.exists_longest
    obtain ⟨v, hv, hpre, -⟩ := hu.exists_second hapart hlongest.mem (htext ▸ List.prefix_append word rest)
    obtain ⟨v, rest', rfl, hv⟩ := Opens.exists_longest ⟨v, hv, hpre⟩
    rw [← List.append_assoc] at htext
    obtain ⟨rfl, rfl⟩ := (hu.append hv hapart).unique hlongest htext
    rw [hwhole u hu.mem v hv.mem, List.append_assoc]
    exact (hp.found hu).zipWith (hq.found hv) join
  missed {text} hnone := by
    by_cases hopens : Opens K text
    · obtain ⟨u, behind, rfl, hu⟩ := hopens.exists_longest
      have hnone' : ¬ Opens L behind := by
        rintro ⟨v, hv, hpre⟩
        exact hnone ⟨u ++ v, Language.append_mem_mul hu.mem hv, (List.prefix_append_right_inj u).mpr hpre⟩
      obtain ⟨cause, rest, hq⟩ := hq.missed hnone'
      exact ⟨cause, rest, (hp.found hu).zipWith hq join⟩
    · obtain ⟨cause, rest, hp⟩ := hp.missed hopens
      exact ⟨cause, rest, hp.zipWith_failure q join⟩

theorem Munches.withDefault (h : p.Munches σ L value) {a : α} (ha : value [] = a) :
    (p.withDefault a).Munches σ (1 + L) value where
  found {word rest} hlongest := by
    by_cases hopens : Opens L (word ++ rest)
    · obtain ⟨u, behind, htext, hu⟩ := hopens.exists_longest
      obtain ⟨rfl, rfl⟩ := (longest_optional hu).unique hlongest htext
      exact (h.found hu).orElse (pure a)
    · obtain ⟨cause, behind, hp⟩ := h.missed hopens
      obtain ⟨rfl, -⟩ := (longest_nil hopens).unique hlongest rfl
      rw [ha]
      exact hp.withDefault a
  missed hnone := absurd ⟨[], .inl rfl, List.nil_prefix⟩ hnone

section Letters

variable [LawfulSource σ τ] {test : τ → Bool}

theorem munches_satisfy {value : List τ → τ} (hvalue : ∀ t, value [t] = t) :
    (satisfy test : Parser τ π ρ τ).Munches σ (letters test) value where
  found {word rest} hlongest := by
    obtain ⟨t, ht, rfl⟩ := hlongest.mem
    rw [hvalue]
    exact makes_satisfy ht
  missed {text} hnone :=
    ⟨none, text, makes_satisfy_failure (head?_of_not_opens hnone fun t ht => ⟨t, ht, rfl⟩)⟩

theorem munches_many1 : (satisfy test : Parser τ π ρ τ).many1.Munches σ (spans test) List.toArray where
  found hlongest := makes_many1_run hlongest.mem.1 hlongest.mem.2 hlongest.stops
  missed {text} hnone :=
    ⟨none, text, makes_many1_satisfy_failure (head?_of_not_opens hnone fun _ => singleton_mem_spans)⟩

end Letters

end Parser

end StreamParsing
