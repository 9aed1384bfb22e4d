import Mathlib.Algebra.GroupWithZero.Nat
import Mathlib.Data.List.DropRight
import StreamParsing.Parser.Repetition
import StreamParsing.Proofs.Stream.History
import StreamParsing.Proofs.Stream.Order

/-!
What positions tell. A position is the number of tokens passed, or the line, column and offset that the text passed
leads to, modulo 2^64. As long as no count overflows, positions are ordered as the numbers of tokens before them; so
cursors of one stream are the same place exactly if their positions are equal.
-/

namespace StreamParsing

set_option autoImplicit false

universe u

variable {σ : Type u} {τ π : Type}

structure Coordinates where
  line : Nat
  column : Nat
  offset : Nat

namespace Coordinates

/-- The coordinates behind some tokens, of which some end a line and each takes a number of bytes. -/
def behind (lineEnd : τ → Bool) (width : τ → Nat) (tokens : List τ) : Coordinates where
  line := 1 + tokens.countP lineEnd
  column := 1 + (tokens.rtakeWhile fun t => !lineEnd t).length
  offset := (tokens.map width).sum

structure Fit (k : Coordinates) : Prop where
  line : k.line < 2 ^ 64
  column : k.column < 2 ^ 64
  offset : k.offset < 2 ^ 64

def Before (k k' : Coordinates) : Prop := k.line < k'.line ∨ k.line = k'.line ∧ k.column < k'.column

theorem Before.trans {k k' k'' : Coordinates} (h : Before k k') (h' : Before k' k'') : Before k k'' := by
  unfold Before at *
  omega

def ofText (text : List Char) : Coordinates where
  line := 1 + text.count '\n'
  column := 1 + (text.rtakeWhile (· != '\n')).length
  offset := (text.map Char.utf8Size).sum

def ofBytes (data : List UInt8) : Coordinates where
  line := 1 + data.count 10
  column := 1 + (data.rtakeWhile (· != 10)).length
  offset := data.length

theorem behind_bytes (data : List UInt8) : behind (· == 10) (fun _ => 1) data = ofBytes data := by
  simp [behind, ofBytes, List.count, bne]

def toPosition (k : Coordinates) : TextPosition := ⟨.ofNat k.line, .ofNat k.column, .ofNat k.offset⟩

variable {lineEnd : τ → Bool} {width : τ → Nat}

theorem behind_concat_lineEnd (tokens : List τ) {t : τ} (ht : lineEnd t = true) :
    behind lineEnd width (tokens ++ [t]) =
      ⟨(behind lineEnd width tokens).line + 1, 1, (behind lineEnd width tokens).offset + width t⟩ := by
  have hlast : ¬ (!lineEnd t) = true := by simp [ht]
  have hwhile := List.rtakeWhile_concat_neg (fun t => !lineEnd t) tokens t hlast
  simp [behind, hwhile, ht, Nat.add_assoc]

theorem behind_concat (tokens : List τ) {t : τ} (ht : lineEnd t = false) :
    behind lineEnd width (tokens ++ [t]) =
      ⟨(behind lineEnd width tokens).line, (behind lineEnd width tokens).column + 1,
        (behind lineEnd width tokens).offset + width t⟩ := by
  have hlast : (!lineEnd t) = true := by simp [ht]
  have hwhile := List.rtakeWhile_concat_pos (fun t => !lineEnd t) tokens t hlast
  simp [behind, hwhile, ht, Nat.add_assoc]

theorem step_behind (tokens : List τ) (t : τ) :
    (behind lineEnd width tokens).toPosition.step (lineEnd t) (.ofNat (width t)) =
      (behind lineEnd width (tokens ++ [t])).toPosition := by
  cases ht : lineEnd t with
  | true =>
    rw [behind_concat_lineEnd tokens ht]
    simp [TextPosition.step, toPosition]
  | false =>
    rw [behind_concat tokens ht]
    simp [TextPosition.step, toPosition]

theorem before_concat (tokens : List τ) (t : τ) :
    Before (behind lineEnd width tokens) (behind lineEnd width (tokens ++ [t])) := by
  cases ht : lineEnd t with
  | true =>
    rw [behind_concat_lineEnd tokens ht]
    exact .inl (Nat.lt_succ_self _)
  | false =>
    rw [behind_concat tokens ht]
    exact .inr ⟨rfl, Nat.lt_succ_self _⟩

theorem before_append (tokens : List τ) {more : List τ} (hm : more ≠ []) :
    Before (behind lineEnd width tokens) (behind lineEnd width (tokens ++ more)) := by
  induction more using List.reverseRecOn with
  | nil => exact absurd rfl hm
  | append_singleton more t ih =>
    rw [← List.append_assoc]
    by_cases he : more = []
    · rw [he, List.append_nil]
      exact before_concat tokens t
    · exact (ih he).trans (before_concat _ t)

theorem before_take {tokens : List τ} {i j : Nat} (hij : i < j) (hj : j ≤ tokens.length) :
    Before (behind lineEnd width (tokens.take i)) (behind lineEnd width (tokens.take j)) := by
  obtain ⟨more, hmore⟩ := List.take_prefix_take_left (l := tokens) (Nat.le_of_lt hij)
  rw [← hmore]
  apply before_append
  rintro rfl
  have hlen := congrArg List.length hmore
  simp only [List.append_nil, List.length_take] at hlen
  omega

end Coordinates

theorem LinearPosition.compare_eq (p q : LinearPosition) : compare p q = compare p.index q.index := by
  change instOrdLinearPosition.ord p q = _
  simp only [instOrdLinearPosition.ord, Ordering.then_eq]

namespace TextPosition

def coordinates (p : TextPosition) : Coordinates := ⟨p.line.toNat, p.column.toNat, p.offset.toNat⟩

theorem coordinates_toPosition {k : Coordinates} (h : k.Fit) : k.toPosition.coordinates = k := by
  simp only [coordinates, Coordinates.toPosition, UInt64.toNat_ofNat_of_lt' h.line,
    UInt64.toNat_ofNat_of_lt' h.column, UInt64.toNat_ofNat_of_lt' h.offset]

theorem compare_eq (p q : TextPosition) :
    compare p q = (compare p.line q.line).then ((compare p.column q.column).then (compare p.offset q.offset)) := by
  change instOrdTextPosition.ord p q = _
  simp only [instOrdTextPosition.ord, Ordering.then_eq]

theorem compare_self (p : TextPosition) : compare p p = .eq := by
  simp [compare_eq]

theorem compare_of_before {p q : TextPosition} (h : p.coordinates.Before q.coordinates) :
    compare p q = .lt ∧ compare q p = .gt := by
  rw [compare_eq, compare_eq]
  rcases h with hline | ⟨hline, hcolumn⟩
  · have hlt : p.line < q.line := hline
    simp [Std.compare_eq_lt.mpr hlt, Std.compare_eq_gt.mpr hlt]
  · have heq : p.line = q.line := UInt64.toNat_inj.mp hline
    have hlt : p.column < q.column := hcolumn
    simp [heq, Std.compare_eq_lt.mpr hlt, Std.compare_eq_gt.mpr hlt]

/-- Text positions are carried over tokens of type `τ` as over pieces of a text. -/
structure Over (τ : Type) [Position TextPosition τ] (lineEnd : τ → Bool) (width : τ → Nat) : Prop where
  start : Position.start τ = TextPosition.start
  advance : ∀ (p : TextPosition) (t : τ), Position.advance p t = p.step (lineEnd t) (.ofNat (width t))

theorem over_chars : Over Char (· == '\n') Char.utf8Size := ⟨rfl, fun _ _ => rfl⟩

theorem over_bytes : Over UInt8 (· == 10) (fun _ => 1) := ⟨rfl, fun _ _ => rfl⟩

theorem Over.positionAt_eq [Position TextPosition τ] {lineEnd : τ → Bool} {width : τ → Nat}
    (h : Over τ lineEnd width) (tokens : List τ) (i : Nat) :
    positionAt tokens i = (Coordinates.behind lineEnd width (tokens.take i)).toPosition := by
  unfold positionAt
  induction tokens.take i using List.reverseRecOn with
  | nil => exact h.start
  | append_singleton passed t ih =>
    rw [List.foldl_concat, ih, h.advance, Coordinates.step_behind]

end TextPosition

namespace TokenStream

variable {s : TokenStream σ τ} {c d : Cursor τ π}

/-- Two cursors compare alike by place, by position and by the number of tokens before them. -/
structure Coincide [Ord π] (s : TokenStream σ τ) (c d : Cursor τ π) : Prop where
  same : c.same d = true ↔ s.indexOf c = s.indexOf d
  shared : c.same d = true → c.sharesChunk d = true
  position : c.position = d.position ↔ s.indexOf c = s.indexOf d
  order : compare c.position d.position = compare (s.indexOf c) (s.indexOf d)

variable [Position π τ]

theorem coincide_of_placed [Ord π] (ht : s.Tidy) (hc : s.Placed c) (hd : s.Placed d)
    (hself : ∀ p : π, compare p p = .eq)
    (hlt : s.indexOf c < s.indexOf d → compare c.position d.position = .lt)
    (hgt : s.indexOf d < s.indexOf c → compare c.position d.position = .gt) : s.Coincide c d := by
  have horder : compare c.position d.position = compare (s.indexOf c) (s.indexOf d) := by
    rcases Nat.lt_trichotomy (s.indexOf c) (s.indexOf d) with h | h | h
    · rw [hlt h, Std.compare_eq_lt.mpr h]
    · rw [hc.position, hd.position, h, hself, Nat.compare_eq_eq.mpr rfl]
    · rw [hgt h, Std.compare_eq_gt.mpr h]
  refine ⟨?_, ?_, ?_, horder⟩
  · rw [hc.same_eq ht hd, decide_eq_true_iff]
  · intro h
    exact (Bool.and_eq_true_iff.mp h).1
  · refine ⟨?_, ?_⟩
    · intro h
      rw [h, hself] at horder
      exact Nat.compare_eq_eq.mp horder.symm
    · intro h
      rw [hc.position, hd.position, h]

/-- Two cursors that a history of one stream, from its beginning on, leads to. -/
def Obtained [Source σ τ] (s : TokenStream σ τ) (c d : Cursor τ π) : Prop :=
  ∃ first cursors, first.Initial ∧ Session.History first ⟨s, cursors⟩ ∧ c ∈ cursors ∧ d ∈ cursors

theorem Obtained.placed [Source σ τ] (h : s.Obtained c d) : s.Tidy ∧ s.Placed c ∧ s.Placed d := by
  obtain ⟨first, cursors, hfirst, hhistory, hc, hd⟩ := h
  have hsound := hhistory.sound hfirst
  exact ⟨hsound.tidy, hsound.placed c hc, hsound.placed d hd⟩

omit [Position π τ] in
theorem Placed.index_eq {c : Cursor τ LinearPosition} (h : s.Placed c) : c.position.index = .ofNat (s.indexOf c) := by
  have hat (i : Nat) (hi : i ≤ s.tokens.length) : (positionAt s.tokens i : LinearPosition).index = .ofNat i := by
    induction i with
    | zero => rfl
    | succ i ih =>
      rw [positionAt_succ (List.getElem?_eq_getElem hi)]
      change (positionAt s.tokens i : LinearPosition).index + 1 = _
      rw [ih (by omega)]
      simp
  rw [h.position, hat _ h.index_le]

omit [Position π τ] in
theorem Placed.coincide_of_index {c d : Cursor τ LinearPosition} (ht : s.Tidy) (hc : s.Placed c) (hd : s.Placed d)
    (hfit : s.indexOf c < 2 ^ 64) (hfit' : s.indexOf d < 2 ^ 64) :
    c.position.index.toNat = s.indexOf c ∧ s.Coincide c d := by
  have hcn : c.position.index.toNat = s.indexOf c := by rw [hc.index_eq, UInt64.toNat_ofNat_of_lt' hfit]
  have hdn : d.position.index.toNat = s.indexOf d := by rw [hd.index_eq, UInt64.toNat_ofNat_of_lt' hfit']
  refine ⟨hcn, coincide_of_placed ht hc hd ?_ ?_ ?_⟩
  · intro p
    simp [LinearPosition.compare_eq]
  · intro h
    rw [← hcn, ← hdn] at h
    rw [LinearPosition.compare_eq]
    exact Std.compare_eq_lt.mpr h
  · intro h
    rw [← hcn, ← hdn] at h
    rw [LinearPosition.compare_eq]
    exact Std.compare_eq_gt.mpr h

section

omit [Position π τ]

variable [Position TextPosition τ] {lineEnd : τ → Bool} {width : τ → Nat} {c d : Cursor τ TextPosition}

theorem Placed.coordinates_eq (hover : TextPosition.Over τ lineEnd width) (h : s.Placed c)
    (hfit : (Coordinates.behind lineEnd width (s.tokens.take (s.indexOf c))).Fit) :
    c.position.coordinates = .behind lineEnd width (s.tokens.take (s.indexOf c)) := by
  rw [h.position, hover.positionAt_eq, TextPosition.coordinates_toPosition hfit]

theorem Placed.coincide_of_text (hover : TextPosition.Over τ lineEnd width) (ht : s.Tidy) (hc : s.Placed c)
    (hd : s.Placed d) (hfit : (Coordinates.behind lineEnd width (s.tokens.take (s.indexOf c))).Fit)
    (hfit' : (Coordinates.behind lineEnd width (s.tokens.take (s.indexOf d))).Fit) :
    c.position.coordinates = .behind lineEnd width (s.tokens.take (s.indexOf c)) ∧ s.Coincide c d := by
  have hcp := hc.coordinates_eq hover hfit
  have hdp := hd.coordinates_eq hover hfit'
  refine ⟨hcp, coincide_of_placed ht hc hd TextPosition.compare_self ?_ ?_⟩
  · intro h
    apply (TextPosition.compare_of_before _).1
    rw [hcp, hdp]
    exact Coordinates.before_take h hd.index_le
  · intro h
    apply (TextPosition.compare_of_before _).2
    rw [hcp, hdp]
    exact Coordinates.before_take h hc.index_le

end

/-- Cursors obtained from one stream are the same place exactly if as many tokens are before them, which is exactly if
their positions are equal, and positions are ordered by these numbers. A linear position is this number; a text
position is the line, the column and the offset that the tokens before the cursor lead to. -/
theorem positions_coincide :
    (∀ (σ : Type u) (τ π : Type) [Source σ τ] [Position π τ] (s : TokenStream σ τ) (c d : Cursor τ π),
      s.Obtained c d → (c.same d = true ↔ s.indexOf c = s.indexOf d) ∧ (c.same d = true ↔ c = d)) ∧
    (∀ (σ : Type u) (τ : Type) [Source σ τ] (s : TokenStream σ τ) (c d : Cursor τ LinearPosition),
      s.Obtained c d → s.indexOf c < 2 ^ 64 → s.indexOf d < 2 ^ 64 →
        c.position.index.toNat = s.indexOf c ∧ s.Coincide c d) ∧
    (∀ (σ : Type u) [Source σ Char] (s : TokenStream σ Char) (c d : Cursor Char TextPosition),
      s.Obtained c d → (Coordinates.ofText (s.tokens.take (s.indexOf c))).Fit →
        (Coordinates.ofText (s.tokens.take (s.indexOf d))).Fit →
          c.position.coordinates = .ofText (s.tokens.take (s.indexOf c)) ∧ s.Coincide c d) ∧
    (∀ (σ : Type u) [Source σ UInt8] (s : TokenStream σ UInt8) (c d : Cursor UInt8 TextPosition),
      s.Obtained c d → (Coordinates.ofBytes (s.tokens.take (s.indexOf c))).Fit →
        (Coordinates.ofBytes (s.tokens.take (s.indexOf d))).Fit →
          c.position.coordinates = .ofBytes (s.tokens.take (s.indexOf c)) ∧
            c.position.offset.toNat = s.indexOf c ∧ s.Coincide c d) := by
  refine ⟨?_, ?_, ?_, ?_⟩
  · intro σ τ π _ _ s c d h
    obtain ⟨ht, hc, hd⟩ := h.placed
    have hsame : c.same d = true ↔ s.indexOf c = s.indexOf d := by rw [hc.same_eq ht hd, decide_eq_true_iff]
    refine ⟨hsame, hsame.trans ⟨hc.eq_of_indexOf ht hd, ?_⟩⟩
    rintro rfl
    rfl
  · intro σ τ _ s c d h hfit hfit'
    obtain ⟨ht, hc, hd⟩ := h.placed
    exact hc.coincide_of_index ht hd hfit hfit'
  · intro σ _ s c d h hfit hfit'
    obtain ⟨ht, hc, hd⟩ := h.placed
    exact hc.coincide_of_text TextPosition.over_chars ht hd hfit hfit'
  · intro σ _ s c d h hfit hfit'
    obtain ⟨ht, hc, hd⟩ := h.placed
    simp only [← Coordinates.behind_bytes] at hfit hfit' ⊢
    obtain ⟨hposition, hcoincide⟩ := hc.coincide_of_text TextPosition.over_bytes ht hd hfit hfit'
    refine ⟨hposition, ?_, hcoincide⟩
    have hoffset := congrArg Coordinates.offset hposition
    rw [Coordinates.behind_bytes] at hoffset
    simpa [Coordinates.ofBytes, TextPosition.coordinates, hc.index_le] using hoffset

/-- Three characters, the second of which ends a line, read in chunks of one and then let go. -/
def twoLines : TokenStream (Items Char) Char := ⟨#[#['é'], #['\n'], #['x']], ⟨[], 3⟩, false, 1, 3⟩

/-- A parser is run at the start, and the cursor that it reaches is moved. -/
theorem obtained_twoLines :
    twoLines.Obtained (⟨2, 0, ⟨2, 1, 3⟩, some 'x'⟩ : Cursor Char TextPosition) ⟨1, 0, ⟨1, 2, 2⟩, some '\n'⟩ := by
  let start : Cursor Char TextPosition := ⟨0, 0, ⟨1, 1, 0⟩, some 'é'⟩
  let next : Cursor Char TextPosition := ⟨1, 0, ⟨1, 2, 2⟩, some '\n'⟩
  let last : Cursor Char TextPosition := ⟨2, 0, ⟨2, 1, 3⟩, some 'x'⟩
  let first : TokenStream (Items Char) Char := ⟨#[#['é']], ⟨[some '\n', some 'x'], 1⟩, true, 1, 1⟩
  let second : TokenStream (Items Char) Char := ⟨#[#['é'], #['\n']], ⟨[some 'x'], 2⟩, true, 1, 2⟩
  let p : Parser Char TextPosition Unit Char := Parser.any
  let third : TokenStream (Items Char) Char := { twoLines with live := true }
  have hopen : openSource 0 (⟨[some 'é', some '\n', some 'x'], 0⟩ : Items Char) 1 =
    some ⟨first, .ok (), #[.chunkRead 0 1]⟩ := rfl
  have hrun : Session.Use ⟨first, [start]⟩ ⟨second, [start, next]⟩ := by
    have h : p.run 3 ⟨first, .empty, #[]⟩ start =
      some ⟨⟨second, .empty, #[.chunkRead 1 1]⟩, .ok (.success 'é' next)⟩ := rfl
    exact .run (.head _) h (And.intro nofun (And.intro nofun trivial))
  have hmove : Session.Use ⟨second, [start, next]⟩ ⟨third, [start, next, last]⟩ := by
    have h : second.advance 0 next = some ⟨third, .ok last, #[.chunkRead 2 1]⟩ := rfl
    exact .advance (.tail _ (.head _)) h
  refine ⟨first, [start, next, last], .opened hopen, ?_, .tail _ (.tail _ (.head _)), .tail _ (.head _)⟩
  exact ((Relation.ReflTransGen.single (.use hrun)).tail (.use hmove)).tail .release

theorem obtained_bytes (π : Type) [Position π UInt8] :
    (ofList [10, 65]).Obtained (⟨0, 1, Position.advance (Position.start UInt8) (10 : UInt8), some 65⟩ : Cursor UInt8 π)
      ⟨0, 0, Position.start UInt8, some 10⟩ := by
  have hmove : (ofList [10, 65]).advance 0 (⟨0, 0, Position.start UInt8, some 10⟩ : Cursor UInt8 π) =
    some ⟨ofList [10, 65], .ok ⟨0, 1, Position.advance (Position.start UInt8) (10 : UInt8), some 65⟩, #[]⟩ := rfl
  refine ⟨ofList [10, 65], _, .whole rfl rfl, .single (.use (.advance (.head _) hmove)), ?_, .head _⟩
  exact .tail _ (.head _)

theorem positions_coincide_twoLines :
    ((⟨2, 1, 3⟩ : TextPosition).coordinates = Coordinates.ofText ['é', '\n'] ∧
      twoLines.Coincide (⟨2, 0, ⟨2, 1, 3⟩, some 'x'⟩ : Cursor Char TextPosition) ⟨1, 0, ⟨1, 2, 2⟩, some '\n'⟩) ∧
    (ofList [10, 65]).Coincide (⟨0, 1, ⟨1⟩, some 65⟩ : Cursor UInt8 LinearPosition) ⟨0, 0, ⟨0⟩, some 10⟩ ∧
    (⟨2, 1, 1⟩ : TextPosition).coordinates = Coordinates.ofBytes [10] ∧
      (ofList [10, 65]).Coincide (⟨0, 1, ⟨2, 1, 1⟩, some 65⟩ : Cursor UInt8 TextPosition)
        ⟨0, 0, ⟨1, 1, 0⟩, some 10⟩ := by
  obtain ⟨-, hlinear, htext, hbytes⟩ := positions_coincide
  refine ⟨?_, ?_, ?_⟩
  · exact htext _ twoLines _ _ obtained_twoLines ⟨by decide, by decide, by decide⟩ ⟨by decide, by decide, by decide⟩
  · exact (hlinear _ _ _ _ _ (obtained_bytes LinearPosition) (by decide) (by decide)).2
  · have h := hbytes _ _ _ _ (obtained_bytes TextPosition) ⟨by decide, by decide, by decide⟩
      ⟨by decide, by decide, by decide⟩
    exact ⟨h.1, h.2.2⟩

end TokenStream

end StreamParsing
