import Mathlib.Data.List.GetD
import StreamParsing.Run

/-!
Where cursors stand. The chunks of a stream, joined, are the tokens read so far, and a placed cursor is at one of
them or at the end: it has that token, the position that the tokens before it lead to, and no second form. What
an access to a stream can do is said here once, by cases.
-/

namespace StreamParsing

set_option autoImplicit false

universe u v

def positionAt {τ π : Type} [Position π τ] (tokens : List τ) (i : Nat) : π :=
  (tokens.take i).foldl Position.advance (Position.start τ)

theorem positionAt_succ {τ π : Type} [Position π τ] {tokens : List τ} {i : Nat} {t : τ}
    (ht : tokens[i]? = some t) :
    (positionAt tokens (i + 1) : π) = Position.advance (positionAt tokens i) t := by
  simp [positionAt, List.take_add_one, ht, List.foldl_append]

theorem positionAt_extend {τ π : Type} [Position π τ] {tokens tokens' : List τ} {i : Nat}
    (h : tokens <+: tokens') (hi : i ≤ tokens.length) :
    (positionAt tokens' i : π) = positionAt tokens i := by
  obtain ⟨rest, rfl⟩ := h
  simp only [positionAt, List.take_append_of_le_length hi]

namespace TokenStream

variable {σ : Type u} {τ π : Type} {s s' : TokenStream σ τ} {c d : Cursor τ π}

def layout (s : TokenStream σ τ) : List (List τ) := s.chunks.toList.map Array.toList

def tokens (s : TokenStream σ τ) : List τ := s.layout.flatten

/-- The number of tokens before a cursor. -/
def indexOf (s : TokenStream σ τ) (c : Cursor τ π) : Nat := (s.layout.take c.chunk).flatten.length + c.index

@[simp] theorem length_layout : s.layout.length = s.chunks.size := by simp [layout]

theorem token?_eq {k i : Nat} : s.token? k i = (s.layout.getD k [])[i]? := by
  simp only [token?, layout, List.getD_eq_getElem?_getD, List.getElem?_map, Array.getElem?_toList,
    Array.getD_eq_getD_getElem?]
  cases s.chunks[k]? <;> simp

theorem token?_extend {σ' : Type v} {s' : TokenStream σ' τ} {k i : Nat} (hk : k < s.chunks.size)
    (hs : s.layout <+: s'.layout) : s'.token? k i = s.token? k i := by
  have hlt : k < s.layout.length := by simpa using hk
  obtain ⟨rest, hrest⟩ := hs
  rw [token?_eq, token?_eq, ← hrest, List.getD_append _ _ _ _ hlt]

/-- Only the last chunk may be empty, and then nothing more is read. -/
def Tidy (s : TokenStream σ τ) : Prop :=
  ∀ k, s.layout[k]? = some [] → k + 1 = s.chunks.size ∧ s.live = false

structure Placed [Position π τ] (s : TokenStream σ τ) (c : Cursor τ π) : Prop where
  loaded : c.chunk < s.chunks.size
  current : c.current = s.token? c.chunk c.index
  first : c.current = none → c.index = 0
  position : c.position = positionAt s.tokens (s.indexOf c)

theorem placed_start [Position π τ] (h : 0 < s.chunks.size) : Placed s (s.start : Cursor τ π) :=
  ⟨h, rfl, fun _ => rfl, rfl⟩

/-- The cursor is at the last token of the newest chunk. -/
structure AtRim (s : TokenStream σ τ) (c : Cursor τ π) : Prop where
  newest : c.chunk + 1 = s.chunks.size
  last : c.index + 1 = (s.layout.getD c.chunk []).length

theorem length_take_succ {k : Nat} {chunk : List τ} (hk : s.layout[k]? = some chunk) :
    (s.layout.take (k + 1)).flatten.length = (s.layout.take k).flatten.length + chunk.length := by
  simp [List.take_add_one, hk]

theorem tokens_split {k : Nat} {chunk : List τ} (hk : s.layout[k]? = some chunk) :
    s.tokens = (s.layout.take k).flatten ++ (chunk ++ (s.layout.drop (k + 1)).flatten) := by
  obtain ⟨hlt, rfl⟩ := List.getElem?_eq_some_iff.mp hk
  rw [tokens, ← List.flatten_cons, ← List.drop_eq_getElem_cons hlt, ← List.flatten_append,
    List.take_append_drop]

namespace Placed

variable [Position π τ]

theorem chunk_eq (h : Placed s c) : ∃ chunk, s.layout[c.chunk]? = some chunk ∧ c.current = chunk[c.index]? := by
  have hlt : c.chunk < s.layout.length := by simpa using h.loaded
  refine ⟨s.layout[c.chunk], List.getElem?_eq_getElem hlt, ?_⟩
  rw [h.current, token?_eq, List.getD_eq_getElem _ _ hlt]

theorem index_le (h : Placed s c) : s.indexOf c ≤ s.tokens.length := by
  obtain ⟨chunk, hk, hcur⟩ := h.chunk_eq
  have hi : c.index ≤ chunk.length := by
    cases hc : c.current with
    | none => simp [h.first hc]
    | some t =>
      obtain ⟨hlt, -⟩ := List.getElem?_eq_some_iff.mp (hcur.symm.trans hc)
      exact Nat.le_of_lt hlt
  rw [tokens_split hk, indexOf, List.length_append, List.length_append]
  omega

/-- A cursor with a token has the token of its index. -/
theorem token_eq (h : Placed s c) {t : τ} (ht : c.current = some t) : s.tokens[s.indexOf c]? = some t := by
  obtain ⟨chunk, hk, hcur⟩ := h.chunk_eq
  obtain ⟨hi, -⟩ := List.getElem?_eq_some_iff.mp (hcur.symm.trans ht)
  rw [tokens_split hk, indexOf, List.getElem?_append_right (by omega), Nat.add_sub_cancel_left,
    List.getElem?_append_left hi, ← hcur, ht]

/-- A cursor without a token is at the end. -/
theorem chunk_of_end (h : Placed s c) (hn : c.current = none) : s.layout[c.chunk]? = some [] := by
  obtain ⟨chunk, hk, hcur⟩ := h.chunk_eq
  rw [hn, h.first hn] at hcur
  cases chunk with
  | nil => exact hk
  | cons t rest => cases hcur

theorem index_of_end (ht : s.Tidy) (h : Placed s c) (hn : c.current = none) : s.indexOf c = s.tokens.length := by
  have hk := h.chunk_of_end hn
  have hlast := (ht _ hk).1
  have hdrop : s.layout.drop (c.chunk + 1) = [] := by
    apply List.drop_eq_nil_of_le
    rw [length_layout]
    omega
  rw [tokens_split hk, hdrop, indexOf, h.first hn]
  simp

/-- A cursor of an earlier chunk is before one of a later chunk. -/
theorem indexOf_lt (ht : s.Tidy) (hc : Placed s c) (hd : Placed s d) (hlt : c.chunk < d.chunk) :
    s.indexOf c < s.indexOf d := by
  cases hcur : c.current with
  | none =>
    have hlast := (ht _ (hc.chunk_of_end hcur)).1
    have hloaded := hd.loaded
    omega
  | some t =>
    obtain ⟨chunk, hk, hchunk⟩ := hc.chunk_eq
    obtain ⟨hi, -⟩ := List.getElem?_eq_some_iff.mp (hchunk.symm.trans hcur)
    have htake : (s.layout.take (c.chunk + 1)).flatten <+: (s.layout.take d.chunk).flatten := by
      obtain ⟨rest, hrest⟩ := List.take_prefix_take_left hlt
      exact ⟨rest.flatten, by rw [← List.flatten_append, hrest]⟩
    have hle := htake.length_le
    rw [length_take_succ hk] at hle
    simp only [indexOf]
    omega

/-- Cursors are at the same place exactly if as many tokens are before them. -/
theorem same_eq (ht : s.Tidy) (hc : Placed s c) (hd : Placed s d) :
    c.same d = decide (s.indexOf c = s.indexOf d) := by
  rw [Cursor.same, Bool.eq_iff_iff]
  simp only [Bool.and_eq_true, beq_iff_eq, decide_eq_true_eq]
  refine ⟨?_, ?_⟩
  · rintro ⟨hchunk, hindex⟩
    simp only [indexOf, hchunk, hindex]
  · intro heq
    have hchunk : c.chunk = d.chunk := by
      rcases Nat.lt_trichotomy c.chunk d.chunk with hlt | heq' | hlt
      · have := hc.indexOf_lt ht hd hlt
        omega
      · exact heq'
      · have := hd.indexOf_lt ht hc hlt
        omega
    refine ⟨hchunk, ?_⟩
    simp only [indexOf, hchunk] at heq
    omega

theorem indexOf_extend (h : Placed s c) (hs : s.layout <+: s'.layout) : s'.indexOf c = s.indexOf c := by
  have hle : c.chunk ≤ s.layout.length := by simpa using Nat.le_of_lt h.loaded
  obtain ⟨rest, hrest⟩ := hs
  simp only [indexOf, ← hrest, List.take_append_of_le_length hle]

theorem extend (h : Placed s c) (hs : s.layout <+: s'.layout) : Placed s' c where
  loaded := by
    have := hs.length_le
    simp only [length_layout] at this
    exact Nat.lt_of_lt_of_le h.loaded this
  current := by rw [h.current, token?_extend h.loaded hs]
  first := h.first
  position := by
    have htok : s.tokens <+: s'.tokens := by
      obtain ⟨rest, hrest⟩ := hs
      exact ⟨rest.flatten, by simp [tokens, ← hrest]⟩
    rw [h.position, h.indexOf_extend hs, positionAt_extend htok h.index_le]

end Placed

section

variable [Source σ τ]

/-- What reading one more chunk can lead to. -/
inductive Reading (s : TokenStream σ τ) : Access σ τ Unit → Prop where
  | more {fuel : Nat} {source : σ} {buffer : Array τ} {events : Array Event} (hl : s.live = true)
      (hf : Source.fill fuel s.source #[] s.chunkSize = some ⟨source, buffer, .ok (), events⟩)
      (hb : buffer.toList ≠ []) :
      Reading s ⟨⟨s.chunks.push buffer, source, true, s.chunkSize, s.chunksRead + 1⟩, .ok (),
        events.push (.chunkRead s.chunksRead buffer.size)⟩
  | ended {fuel : Nat} {source : σ} {events : Array Event} (hl : s.live = true)
      (hf : Source.fill fuel s.source #[] s.chunkSize = some ⟨source, #[], .ok (), events⟩) :
      Reading s ⟨⟨s.chunks.push #[], (Source.close source).1, false, s.chunkSize, s.chunksRead + 1⟩, .ok (),
        (events ++ (Source.close source).2).push (.exhausted s.chunksRead)⟩
  | failed {fuel : Nat} {source : σ} {buffer : Array τ} {e : ReadError} {events : Array Event} (hl : s.live = true)
      (hf : Source.fill fuel s.source #[] s.chunkSize = some ⟨source, buffer, .error e, events⟩) :
      Reading s ⟨⟨s.chunks, (Source.close source).1, false, s.chunkSize, s.chunksRead⟩, .error e,
        (events ++ (Source.close source).2).push (.readFailed e)⟩
  | released (hl : s.live = false) : Reading s ⟨s, .error .released, #[]⟩

theorem readChunk_released (hl : s.live = false) (fuel : Nat) : s.readChunk fuel = some ⟨s, .error .released, #[]⟩ := by
  obtain ⟨chunks, source, live, chunkSize, chunksRead⟩ := s
  cases hl
  rfl

theorem reading_of_readChunk {fuel : Nat} {access : Access σ τ Unit} (h : s.readChunk fuel = some access) :
    Reading s access := by
  obtain ⟨chunks, source, live, chunkSize, chunksRead⟩ := s
  cases live with
  | false =>
    cases h
    exact .released rfl
  | true =>
    simp only [readChunk, if_true] at h
    rcases hf : Source.fill fuel source #[] chunkSize with _ | ⟨source', buffer, e | ok, events⟩
    · simp [hf] at h
    · simp only [hf] at h
      cases h
      exact .failed rfl hf
    · simp only [hf] at h
      by_cases hb : buffer.isEmpty = true
      · simp only [hb, if_true] at h
        cases h
        obtain rfl : buffer = #[] := by simpa using hb
        exact .ended rfl hf
      · simp only [hb] at h
        cases h
        refine .more rfl hf ?_
        simpa using hb

/-- What moving a cursor can lead to. -/
inductive Advancing [Position π τ] (s : TokenStream σ τ) (c : Cursor τ π) : Access σ τ (Cursor τ π) → Prop where
  | still (hc : c.current = none) : Advancing s c ⟨s, .ok c, #[]⟩
  | inside {t next : τ} (hc : c.current = some t) (hn : s.token? c.chunk (c.index + 1) = some next) :
      Advancing s c ⟨s, .ok ⟨c.chunk, c.index + 1, Position.advance c.position t, some next⟩, #[]⟩
  | across {t : τ} (hc : c.current = some t) (hn : s.token? c.chunk (c.index + 1) = none)
      (hl : c.chunk + 1 < s.chunks.size) :
      Advancing s c ⟨s, .ok ⟨c.chunk + 1, 0, Position.advance c.position t, s.token? (c.chunk + 1) 0⟩, #[]⟩
  | read {t : τ} {s' : TokenStream σ τ} {events : Array Event} (hc : c.current = some t)
      (hn : s.token? c.chunk (c.index + 1) = none) (hl : ¬ c.chunk + 1 < s.chunks.size)
      (hr : Reading s ⟨s', .ok (), events⟩) :
      Advancing s c ⟨s', .ok ⟨c.chunk + 1, 0, Position.advance c.position t, s'.token? (c.chunk + 1) 0⟩, events⟩
  | stopped {t : τ} {s' : TokenStream σ τ} {e : ReadError} {events : Array Event} (hc : c.current = some t)
      (hn : s.token? c.chunk (c.index + 1) = none) (hl : ¬ c.chunk + 1 < s.chunks.size)
      (hr : Reading s ⟨s', .error e, events⟩) : Advancing s c ⟨s', .error e, events⟩

theorem advancing_of_advance [Position π τ] {fuel : Nat} {access : Access σ τ (Cursor τ π)}
    (h : s.advance fuel c = some access) : Advancing s c access := by
  unfold advance at h
  split at h
  · rename_i hc
    cases h
    exact .still hc
  · rename_i t hc
    split at h
    · rename_i next hn
      cases h
      exact .inside hc hn
    · rename_i hn
      by_cases hl : c.chunk + 1 < s.chunks.size
      · simp only [hl, if_true] at h
        cases h
        exact .across hc hn hl
      · simp only [hl, if_false] at h
        rcases hr : s.readChunk fuel with _ | ⟨s', e | ok, events⟩
        · simp [hr] at h
        · simp only [hr] at h
          cases h
          exact .stopped hc hn hl (reading_of_readChunk hr)
        · simp only [hr] at h
          cases h
          exact .read hc hn hl (reading_of_readChunk hr)

theorem exists_readChunk_of_fill
    (h : s.live = true → ∃ fuel fill, Source.fill fuel s.source #[] s.chunkSize = some fill) :
    ∃ fuel access, s.readChunk fuel = some access := by
  obtain ⟨chunks, source, live, chunkSize, chunksRead⟩ := s
  cases live with
  | false => exact ⟨0, _, rfl⟩
  | true =>
    obtain ⟨fuel, ⟨source', buffer, e | ok, events⟩, hf⟩ := h rfl
    · refine ⟨fuel, ?_⟩
      simp only [readChunk, if_true, hf]
      exact ⟨_, rfl⟩
    · refine ⟨fuel, ?_⟩
      simp only [readChunk, if_true, hf]
      split <;> exact ⟨_, rfl⟩

theorem exists_advance_of_readChunk [Position π τ] {fuel : Nat} {read : Access σ τ Unit}
    (h : s.readChunk fuel = some read) (c : Cursor τ π) : ∃ access, s.advance fuel c = some access := by
  obtain ⟨s', e | ok, events⟩ := read
  all_goals
    unfold advance
    simp only [h]
    split
    · exact ⟨_, rfl⟩
    · split
      · exact ⟨_, rfl⟩
      · split <;> exact ⟨_, rfl⟩

theorem Reading.layout_of_ok {events : Array Event} (h : Reading s ⟨s', .ok (), events⟩) :
    ∃ chunk, s'.layout = s.layout ++ [chunk] := by
  cases h with
  | more => exact ⟨_, by simp [layout]; rfl⟩
  | ended => exact ⟨[], by simp [layout]⟩

theorem Reading.size_of_ok {events : Array Event} (h : Reading s ⟨s', .ok (), events⟩) :
    s'.chunks.size = s.chunks.size + 1 := by
  obtain ⟨chunk, heq⟩ := h.layout_of_ok
  rw [← length_layout, heq, List.length_append, length_layout, List.length_singleton]

theorem Reading.layout_of_error {e : ReadError} {events : Array Event} (h : Reading s ⟨s', .error e, events⟩) :
    s'.layout = s.layout ∧ s'.live = false := by
  cases h with
  | failed => exact ⟨rfl, rfl⟩
  | released hl => exact ⟨rfl, hl⟩

theorem Reading.tidy {access : Access σ τ Unit} (ht : s.Tidy) (h : Reading s access) : access.stream.Tidy := by
  have old {k : Nat} (hl : s.live = true) (hk : s.layout[k]? = some []) : False := by
    have := (ht k hk).2
    simp [hl] at this
  cases h with
  | more hl hf hb =>
    intro k hk
    simp only [layout, Array.toList_push, List.map_append, List.getElem?_append] at hk
    split at hk
    · exact (old hl hk).elim
    · rw [List.map_singleton, List.getElem?_singleton] at hk
      split at hk
      · exact absurd (Option.some.inj hk) hb
      · cases hk
  | ended hl hf =>
    intro k hk
    simp only [layout, Array.toList_push, List.map_append, List.getElem?_append] at hk
    split at hk
    · exact (old hl hk).elim
    · rename_i hle
      have hlt := (List.getElem?_eq_some_iff.mp hk).1
      simp only [List.length_map, Array.length_toList, List.length_singleton] at hle hlt
      refine ⟨?_, rfl⟩
      simp only [Array.size_push]
      omega
  | failed hl hf =>
    intro k hk
    exact (old hl hk).elim
  | released hl => exact ht

end

namespace Placed

variable [Position π τ] {t : τ}

/-- Behind the last token of a chunk stands none of that chunk. -/
theorem last_of_none (h : Placed s c) (hc : c.current = some t) (hn : s.token? c.chunk (c.index + 1) = none) :
    c.index + 1 = (s.layout.getD c.chunk []).length := by
  have hcur := h.current
  rw [hc, token?_eq] at hcur
  have hlt := (List.getElem?_eq_some_iff.mp hcur.symm).1
  rw [token?_eq] at hn
  have hle := List.getElem?_eq_none_iff.mp hn
  omega

theorem indexOf_across (h : Placed s c) (hc : c.current = some t)
    (hn : s.token? c.chunk (c.index + 1) = none) :
    (s.layout.take (c.chunk + 1)).flatten.length = s.indexOf c + 1 := by
  have hlast := h.last_of_none hc hn
  obtain ⟨chunk, hk, -⟩ := h.chunk_eq
  have hd : s.layout.getD c.chunk [] = chunk := by simp [hk]
  rw [hd] at hlast
  rw [length_take_succ hk, indexOf]
  omega

theorem inside (h : Placed s c) (hc : c.current = some t) {next : τ}
    (hn : s.token? c.chunk (c.index + 1) = some next) :
    Placed s ⟨c.chunk, c.index + 1, Position.advance c.position t, some next⟩ where
  loaded := h.loaded
  current := hn.symm
  first := by simp
  position := by
    have hi : s.indexOf (⟨c.chunk, c.index + 1, Position.advance c.position t, some next⟩ : Cursor τ π) =
        s.indexOf c + 1 := rfl
    rw [hi, positionAt_succ (h.token_eq hc), h.position]

theorem across (h : Placed s c) (hc : c.current = some t) (hn : s.token? c.chunk (c.index + 1) = none)
    (hl : c.chunk + 1 < s.chunks.size) :
    Placed s ⟨c.chunk + 1, 0, Position.advance c.position t, s.token? (c.chunk + 1) 0⟩ where
  loaded := hl
  current := rfl
  first := fun _ => rfl
  position := by
    have hi : s.indexOf (⟨c.chunk + 1, 0, Position.advance c.position t, s.token? (c.chunk + 1) 0⟩ :
        Cursor τ π) = s.indexOf c + 1 := h.indexOf_across hc hn
    rw [hi, positionAt_succ (h.token_eq hc), h.position]

end Placed

namespace Advancing

variable [Source σ τ] [Position π τ] {access : Access σ τ (Cursor τ π)}

theorem grows (h : Advancing s c access) : s.layout <+: access.stream.layout := by
  cases h with
  | still | inside | across => exact List.prefix_rfl
  | read hc hn hl hr =>
    obtain ⟨chunk, heq⟩ := hr.layout_of_ok
    exact ⟨[chunk], heq.symm⟩
  | stopped hc hn hl hr => exact hr.layout_of_error.1 ▸ List.prefix_rfl

theorem tidy (ht : s.Tidy) (h : Advancing s c access) : access.stream.Tidy := by
  cases h with
  | still | inside | across => exact ht
  | read hc hn hl hr => exact hr.tidy ht
  | stopped hc hn hl hr => exact hr.tidy ht

/-- Only a move from the last token of the newest chunk touches the source. -/
theorem atRim (hp : Placed s c) (h : Advancing s c access) (hs : access.stream ≠ s) : s.AtRim c := by
  cases h with
  | still | inside | across => exact absurd rfl hs
  | read hc hn hl hr | stopped hc hn hl hr => exact ⟨by have := hp.loaded; omega, hp.last_of_none hc hn⟩

theorem placed {events : Array Event} (hp : Placed s c) (h : Advancing s c ⟨s', .ok d, events⟩) : Placed s' d := by
  have hs := h.grows
  cases h with
  | still => exact hp
  | inside hc hn => exact hp.inside hc hn
  | across hc hn hl => exact hp.across hc hn hl
  | read hc hn hl hr =>
    have hl' : c.chunk + 1 < s'.chunks.size := by
      have := hr.size_of_ok
      have := hp.loaded
      omega
    have hn' : s'.token? c.chunk (c.index + 1) = none := by rw [token?_extend hp.loaded hs, hn]
    exact (hp.extend hs).across hc hn' hl'

theorem indexOf_eq {events : Array Event} {t : τ} (hp : Placed s c) (hc : c.current = some t)
    (h : Advancing s c ⟨s', .ok d, events⟩) : s'.indexOf d = s.indexOf c + 1 := by
  have hs := h.grows
  cases h with
  | still hn => simp [hc] at hn
  | inside => rfl
  | across hc' hn hl =>
    rw [indexOf, hp.indexOf_across hc' hn, Nat.add_zero]
  | read hc' hn hl hr =>
    have hn' : s'.token? c.chunk (c.index + 1) = none := by rw [token?_extend hp.loaded hs, hn]
    rw [indexOf, (hp.extend hs).indexOf_across hc' hn', Nat.add_zero, hp.indexOf_extend hs]

theorem eq_of_end {events : Array Event} (hc : c.current = none) (h : Advancing s c ⟨s', .ok d, events⟩) :
    s' = s ∧ d = c := by
  cases h with
  | still => exact ⟨rfl, rfl⟩
  | inside hc' | across hc' | read hc' => simp [hc] at hc'

/-- A move that reads a chunk ends in it. -/
theorem newest {events : Array Event} (hp : Placed s c) (h : Advancing s c ⟨s', .ok d, events⟩)
    (hs : s' ≠ s) : d.chunk + 1 = s'.chunks.size := by
  have hrim := h.atRim hp hs
  cases h with
  | still | inside | across => exact absurd rfl hs
  | read hc hn hl hr => rw [hr.size_of_ok, ← hrim.newest]

end Advancing

/-- The stream `s'` is `s` after more use: chunks were added, and none after the source was let go. -/
structure Later (s s' : TokenStream σ τ) : Prop where
  grows : s.layout <+: s'.layout
  released : s.live = false → s' = s

namespace Later

theorem refl (s : TokenStream σ τ) : Later s s := ⟨List.prefix_rfl, fun _ => rfl⟩

theorem trans {s'' : TokenStream σ τ} (h : Later s s') (h' : Later s' s'') : Later s s'' where
  grows := h.grows.trans h'.grows
  released := by
    intro hl
    have heq := h.released hl
    rw [h'.released (heq ▸ hl), heq]

theorem size_le (h : Later s s') : s.chunks.size ≤ s'.chunks.size := by
  simpa using h.grows.length_le

end Later

section

variable [Source σ τ] [Position π τ] {access : Access σ τ (Cursor τ π)}

omit [Position π τ] in
theorem Reading.later {read : Access σ τ Unit} (h : Reading s read) : Later s read.stream := by
  refine ⟨?_, ?_⟩
  · obtain ⟨s', e | ok, events⟩ := read
    · exact h.layout_of_error.1 ▸ List.prefix_rfl
    · obtain ⟨chunk, heq⟩ := h.layout_of_ok
      exact ⟨[chunk], heq.symm⟩
  · intro hl
    cases h with
    | more hl' | ended hl' | failed hl' => simp [hl] at hl'
    | released => rfl

theorem Advancing.later (h : Advancing s c access) : Later s access.stream := by
  cases h with
  | still | inside | across => exact .refl s
  | read hc hn hl hr => exact hr.later
  | stopped hc hn hl hr => exact hr.later

/-- A cursor that was moved once moves the same way later on, without a read; where the read failed, there is no
source any more. -/
theorem advance_again (hp : Placed s c) (h : Advancing s c access) (hl : Later access.stream s') (fuel : Nat) :
    s'.advance fuel c = some ⟨s', access.result.mapError fun _ => .released, #[]⟩ := by
  have hs := h.later.grows.trans hl.grows
  have htok (i : Nat) : s'.token? c.chunk i = s.token? c.chunk i := token?_extend hp.loaded hs
  cases h with
  | still hc =>
    simp only [advance, hc]
    rfl
  | inside hc hn =>
    simp only [advance, hc, htok, hn]
    rfl
  | across hc hn hlt =>
    have hlt' : c.chunk + 1 < s'.chunks.size := Nat.lt_of_lt_of_le hlt hl.size_le
    simp only [advance, hc, htok, hn, if_pos hlt', token?_extend hlt hs]
    rfl
  | read hc hn hle hr =>
    rename_i t s₁ events
    have hlt : c.chunk + 1 < s₁.chunks.size := by
      have := hr.size_of_ok
      have := hp.loaded
      omega
    have hlt' : c.chunk + 1 < s'.chunks.size := Nat.lt_of_lt_of_le hlt hl.size_le
    simp only [advance, hc, htok, hn, if_pos hlt', token?_extend hlt hl.grows]
    rfl
  | stopped hc hn hle hr =>
    rename_i t s₁ e events
    obtain ⟨hlayout, hlive⟩ := hr.layout_of_error
    obtain rfl : s' = s₁ := hl.released hlive
    have hsize : s'.chunks.size = s.chunks.size := by rw [← length_layout, hlayout, length_layout]
    simp only [advance, hc, htok, hn, hsize, if_neg hle, readChunk_released hlive]
    rfl

end

end TokenStream

end StreamParsing
