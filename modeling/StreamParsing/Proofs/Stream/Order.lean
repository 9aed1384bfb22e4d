import Mathlib.Logic.Relation
import StreamParsing.Proofs.Stream.Places

/-!
The order of cursors. One cursor reaches another if both have their places and the second has no fewer tokens before
it. Between such cursors the stream has been read, so the first moves to the second without a read.
-/

namespace StreamParsing

set_option autoImplicit false

universe u

variable {σ : Type u} {τ π : Type} [Position π τ]

namespace TokenStream

structure Reaches (s : TokenStream σ τ) (c d : Cursor τ π) : Prop where
  placed : s.Placed c
  placed' : s.Placed d
  index_le : s.indexOf c ≤ s.indexOf d

variable {s s' : TokenStream σ τ} {c d e : Cursor τ π}

theorem Reaches.refl (h : s.Placed c) : s.Reaches c c := ⟨h, h, Nat.le_refl _⟩

theorem Reaches.trans (h : s.Reaches c d) (h' : s.Reaches d e) : s.Reaches c e :=
  ⟨h.placed, h'.placed', Nat.le_trans h.index_le h'.index_le⟩

theorem Reaches.later (h : s.Reaches c d) (hs : s.Later s') : s'.Reaches c d := by
  refine ⟨h.placed.extend hs.grows, h.placed'.extend hs.grows, ?_⟩
  rw [h.placed.indexOf_extend hs.grows, h.placed'.indexOf_extend hs.grows]
  exact h.index_le

/-- Cursors with the same number of tokens before them are equal. -/
theorem Placed.eq_of_indexOf (ht : s.Tidy) (hc : s.Placed c) (hd : s.Placed d) (h : s.indexOf c = s.indexOf d) :
    c = d := by
  have hsame := hc.same_eq ht hd
  simp only [h, decide_true, Cursor.same, Bool.and_eq_true, beq_iff_eq] at hsame
  obtain ⟨hchunk, hindex⟩ := hsame
  have hposition : c.position = d.position := by rw [hc.position, hd.position, h]
  have hcurrent : c.current = d.current := by rw [hc.current, hd.current, hchunk, hindex]
  obtain ⟨chunk, index, position, current⟩ := c
  obtain ⟨chunk', index', position', current'⟩ := d
  simp only at hchunk hindex hposition hcurrent
  subst hchunk hindex hposition hcurrent
  rfl

theorem Placed.eq_of_same (ht : s.Tidy) (hc : s.Placed c) (hd : s.Placed d) (h : c.same d = true) : c = d := by
  rw [hc.same_eq ht hd, decide_eq_true_eq] at h
  exact hc.eq_of_indexOf ht hd h

theorem Placed.hasToken_of_lt (ht : s.Tidy) (hc : s.Placed c) (hd : s.Placed d) (h : s.indexOf c < s.indexOf d) :
    ∃ t, c.current = some t := by
  cases hcur : c.current with
  | some t => exact ⟨t, rfl⟩
  | none =>
    have hend := hc.index_of_end ht hcur
    have hle := hd.index_le
    omega

/-- Behind a cursor that is before another one, the next token or the next chunk has been read. -/
theorem Placed.chunk_lt_of_lt (ht : s.Tidy) (hc : s.Placed c) (hd : s.Placed d) (h : s.indexOf c < s.indexOf d)
    (hn : s.token? c.chunk (c.index + 1) = none) : c.chunk + 1 < s.chunks.size := by
  obtain ⟨t, hcur⟩ := hc.hasToken_of_lt ht hd h
  have hloaded := hd.loaded
  have hlast := hc.last_of_none hcur hn
  rcases Nat.lt_trichotomy c.chunk d.chunk with hlt | heq | hlt
  · omega
  · exfalso
    simp only [indexOf, heq] at h
    have hdcur := hd.current
    rw [token?_eq, ← heq] at hdcur
    cases hdtok : d.current with
    | none =>
      have := hd.first hdtok
      omega
    | some t' =>
      rw [hdtok] at hdcur
      have hlen := (List.getElem?_eq_some_iff.mp hdcur.symm).1
      omega
  · have := hd.indexOf_lt ht hc hlt
    omega

/-- What a cursor of a tidy stream has before it is the token of its index; there is none at the end. -/
theorem Placed.current_eq (ht : s.Tidy) (h : s.Placed c) : c.current = s.tokens[s.indexOf c]? := by
  cases hcur : c.current with
  | some t => exact (h.token_eq hcur).symm
  | none => rw [h.index_of_end ht hcur, List.getElem?_eq_none (Nat.le_refl _)]

variable [Source σ τ]

theorem Placed.advance_of_lt (ht : s.Tidy) (hc : s.Placed c) (hd : s.Placed d) (h : s.indexOf c < s.indexOf d) :
    ∃ c', (∀ fuel, s.advance fuel c = some ⟨s, .ok c', #[]⟩) ∧ s.Placed c' ∧ s.indexOf c' = s.indexOf c + 1 := by
  obtain ⟨t, hcur⟩ := hc.hasToken_of_lt ht hd h
  have hadvance : ∃ c', ∀ fuel, s.advance fuel c = some ⟨s, .ok c', #[]⟩ := by
    cases hn : s.token? c.chunk (c.index + 1) with
    | some next => exact ⟨_, fun fuel => by simp only [advance, hcur, hn]; rfl⟩
    | none =>
      have hlt := hc.chunk_lt_of_lt ht hd h hn
      exact ⟨_, fun fuel => by simp only [advance, hcur, hn, if_pos hlt]; rfl⟩
  obtain ⟨c', ha⟩ := hadvance
  have hadv := advancing_of_advance (ha 0)
  exact ⟨c', ha, hadv.placed hc, hadv.indexOf_eq hc hcur⟩

/-- A cursor moves to any cursor that it reaches, and nothing is read on the way. -/
theorem Reaches.advanceBy (ht : s.Tidy) (h : s.Reaches c d) (fuel : Nat) :
    s.advanceBy fuel c (s.indexOf d - s.indexOf c) = some ⟨s, .ok d, #[]⟩ := by
  generalize hn : s.indexOf d - s.indexOf c = n
  induction n generalizing c with
  | zero =>
    have heq : s.indexOf c = s.indexOf d := by
      have := h.index_le
      omega
    rw [h.placed.eq_of_indexOf ht h.placed' heq]
    rfl
  | succ n ih =>
    obtain ⟨c', ha, hplaced, hindex⟩ := h.placed.advance_of_lt ht h.placed' (by omega)
    obtain ⟨t, hcur⟩ := h.placed.hasToken_of_lt ht h.placed' (by omega)
    have hrest := ih ⟨hplaced, h.placed', by omega⟩ (by omega)
    have htoken : c.hasToken = true := by simp [Cursor.hasToken, hcur]
    simp only [TokenStream.advanceBy, advanceByAfter, htoken, if_true, ha, Array.append_empty]
    exact hrest

omit [Source σ τ] in
/-- Where no token on the way lowers the position, it is not lowered on the whole. -/
theorem Reaches.position_le (h : s.Reaches c d) {le : π → π → Prop} (hrefl : ∀ q, le q q)
    (htrans : ∀ q q' q'', le q q' → le q' q'' → le q q'')
    (hstep : ∀ i, s.indexOf c ≤ i → i < s.indexOf d → le (positionAt s.tokens i) (positionAt s.tokens (i + 1))) :
    le c.position d.position := by
  rw [h.placed.position, h.placed'.position]
  obtain ⟨n, hn⟩ := Nat.exists_eq_add_of_le h.index_le
  rw [hn] at hstep ⊢
  clear hn
  induction n with
  | zero => exact hrefl _
  | succ n ih =>
    have hlow := ih fun i hi hlt => hstep i hi (by omega)
    exact htrans _ _ _ hlow (hstep _ (by omega) (by omega))

theorem Advancing.reaches {events : Array Event} (hp : s.Placed c) (h : Advancing s c ⟨s', .ok d, events⟩) :
    s'.Reaches c d := by
  refine ⟨hp.extend h.grows, h.placed hp, ?_⟩
  rw [hp.indexOf_extend h.grows]
  cases hcur : c.current with
  | none =>
    obtain ⟨rfl, rfl⟩ := h.eq_of_end hcur
    exact Nat.le_refl _
  | some t =>
    rw [h.indexOf_eq hp hcur]
    omega

/-- What reading chunks makes of a stream. -/
def Becomes (s s' : TokenStream σ τ) : Prop :=
  Relation.ReflTransGen (fun s s' => ∃ access, Reading s access ∧ access.stream = s') s s'

theorem Becomes.advancing {first : TokenStream σ τ} {access : Access σ τ (Cursor τ π)} (h : first.Becomes s)
    (ha : Advancing s c access) : first.Becomes access.stream := by
  cases ha with
  | still | inside | across => exact h
  | read hc hn hl hr => exact h.tail ⟨_, hr, rfl⟩
  | stopped hc hn hl hr => exact h.tail ⟨_, hr, rfl⟩

omit [Position π τ] in
theorem Becomes.tidy (h : s.Becomes s') (ht : s.Tidy) : s'.Tidy := by
  induction h with
  | refl => exact ht
  | tail _ hread ih =>
    obtain ⟨access, hr, rfl⟩ := hread
    exact hr.tidy ih

omit [Position π τ] in
theorem Becomes.later (h : s.Becomes s') : s.Later s' := by
  induction h with
  | refl => exact .refl s
  | tail _ hread ih =>
    obtain ⟨access, hr, rfl⟩ := hread
    exact ih.trans hr.later

omit [Position π τ] in
theorem Reading.exists_readChunk {access : Access σ τ Unit} (h : Reading s access) :
    ∃ fuel, s.readChunk fuel = some access := by
  obtain ⟨chunks, source, live, chunkSize, chunksRead⟩ := s
  cases h with
  | @more fuel _ buffer _ hl hf hb =>
    obtain rfl : live = true := hl
    have hne : buffer.isEmpty = false := by simpa using hb
    refine ⟨fuel, ?_⟩
    simp only [readChunk, if_true, hf, hne]
    rfl
  | @ended fuel _ _ hl hf =>
    obtain rfl : live = true := hl
    refine ⟨fuel, ?_⟩
    simp only [readChunk, if_true, hf]
    rfl
  | @failed fuel _ _ _ _ hl hf =>
    obtain rfl : live = true := hl
    refine ⟨fuel, ?_⟩
    simp only [readChunk, if_true, hf]
  | released hl =>
    obtain rfl : live = false := hl
    exact ⟨0, rfl⟩

/-- What reading chunks makes of a stream as long as no read fails. -/
def Toward (s s' : TokenStream σ τ) : Prop :=
  Relation.ReflTransGen (fun s s' => ∃ events, Reading s ⟨s', .ok (), events⟩) s s'

omit [Position π τ] in
theorem Toward.becomes (h : s.Toward s') : s.Becomes s' := by
  induction h with
  | refl => exact .refl
  | tail _ hread ih =>
    obtain ⟨events, hr⟩ := hread
    exact ih.tail ⟨_, hr, rfl⟩

theorem Advancing.toward {events : Array Event} (h : Advancing s c ⟨s', .ok d, events⟩) : s.Toward s' := by
  cases h with
  | still | inside | across => exact .refl
  | read hc hn hl hr => exact .single ⟨_, hr⟩

/-- With the fuel that the next chunk takes, every cursor moves as long as there is a token to move to in what the
stream can be read to. -/
theorem Toward.exists_fuel (h : s.Toward s') (ht : s'.Tidy) (hd : s'.Placed d) :
    ∃ fuel, ∀ c : Cursor τ π, s.Placed c → (c.current = none ∨ s.indexOf c < s'.indexOf d) →
      ∃ s₁ e events, s.advance fuel c = some ⟨s₁, .ok e, events⟩ ∧ s₁.Toward s' := by
  rcases Relation.ReflTransGen.cases_head h with rfl | ⟨s₁, ⟨events, hr⟩, hrest⟩
  · refine ⟨0, ?_⟩
    rintro c hc (hend | hlt)
    · exact ⟨s, c, #[], by simp only [advance, hend], .refl⟩
    · obtain ⟨e, ha, -, -⟩ := hc.advance_of_lt ht hd hlt
      exact ⟨s, e, #[], ha 0, .refl⟩
  · obtain ⟨fuel, hread⟩ := hr.exists_readChunk
    refine ⟨fuel, fun c _ _ => ?_⟩
    unfold advance
    split
    · exact ⟨_, _, _, rfl, h⟩
    · split
      · exact ⟨_, _, _, rfl, h⟩
      · split
        · exact ⟨_, _, _, rfl, h⟩
        · simp only [hread]
          exact ⟨_, _, _, rfl, hrest⟩

end TokenStream

end StreamParsing
