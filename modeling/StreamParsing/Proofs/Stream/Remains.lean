import StreamParsing.Proofs.Stream.History
import StreamParsing.Proofs.Stream.Order
import StreamParsing.Proofs.Stream.ReadOnce

/-!
What remains of a stream whose source is gone. All tokens read can still be passed, and the end can be reached if it
was read; any other move from the last token is refused. What was read is what any other use of the same source reads.
-/

namespace StreamParsing

set_option autoImplicit false

universe u v

variable {σ : Type u} {σ' : Type v} {τ π : Type}

namespace TokenStream

variable {s s' : TokenStream σ τ}

def EndRead (s : TokenStream σ τ) : Prop := [] ∈ s.layout

theorem exists_chunk_of_lt {chunks : List (List τ)} {i : Nat} (h : i < chunks.flatten.length) :
    ∃ k j chunk, chunks[k]? = some chunk ∧ j < chunk.length ∧ (chunks.take k).flatten.length + j = i := by
  induction chunks generalizing i with
  | nil => cases h
  | cons first rest ih =>
    rw [List.flatten_cons, List.length_append] at h
    by_cases hi : i < first.length
    · exact ⟨0, i, first, rfl, hi, by simp⟩
    · obtain ⟨k, j, chunk, hk, hj, hsum⟩ := ih (i := i - first.length) (by omega)
      refine ⟨k + 1, j, chunk, hk, hj, ?_⟩
      rw [List.take_succ_cons, List.flatten_cons, List.length_append]
      omega

section

variable [Position π τ] {c d : Cursor τ π}

/-- Every token has a cursor in front of it. -/
theorem exists_placed_of_lt (π : Type) [Position π τ] {i : Nat} (h : i < s.tokens.length) :
    ∃ d : Cursor τ π, s.Placed d ∧ s.indexOf d = i := by
  obtain ⟨k, j, chunk, hk, hj, hsum⟩ := exists_chunk_of_lt h
  have htoken : s.token? k j = some chunk[j] := by
    rw [token?_eq, List.getD_eq_getElem?_getD, hk, Option.getD_some, List.getElem?_eq_getElem hj]
  refine ⟨⟨k, j, positionAt s.tokens i, s.token? k j⟩, ⟨?_, rfl, ?_, ?_⟩, hsum⟩
  · have hlt := (List.getElem?_eq_some_iff.mp hk).1
    rwa [length_layout] at hlt
  · intro hn
    rw [htoken] at hn
    cases hn
  · rw [← hsum]
    rfl

theorem EndRead.exists_placed (π : Type) [Position π τ] (h : s.EndRead) (ht : s.Tidy) :
    ∃ d : Cursor τ π, s.Placed d ∧ d.current = none ∧ s.indexOf d = s.tokens.length := by
  obtain ⟨k, hk⟩ := List.mem_iff_getElem?.mp h
  have htoken : s.token? k 0 = none := by
    rw [token?_eq, List.getD_eq_getElem?_getD, hk]
    rfl
  have hplaced : s.Placed (⟨k, 0, positionAt s.tokens (s.layout.take k).flatten.length, none⟩ : Cursor τ π) := by
    refine ⟨?_, htoken.symm, fun _ => rfl, rfl⟩
    have hlt := (List.getElem?_eq_some_iff.mp hk).1
    rwa [length_layout] at hlt
  exact ⟨_, hplaced, rfl, hplaced.index_of_end ht rfl⟩

theorem Placed.endRead (h : s.Placed c) (hc : c.current = none) : s.EndRead :=
  List.mem_of_getElem? (h.chunk_of_end hc)

theorem Placed.endRead_of_index (ht : s.Tidy) (h : s.Placed c) (hi : s.tokens.length ≤ s.indexOf c) : s.EndRead := by
  apply h.endRead
  rw [h.current_eq ht, List.getElem?_eq_none hi]

theorem tokens_prefix (h : s.layout <+: s'.layout) : s.tokens <+: s'.tokens := by
  obtain ⟨rest, hrest⟩ := h
  exact ⟨rest.flatten, by simp [tokens, ← hrest]⟩

variable [Source σ τ]

theorem Placed.advance_inside (ht : s.Tidy) (h : s.Placed c) (hi : s.indexOf c + 1 < s.tokens.length) :
    ∃ d, (∀ fuel, s.advance fuel c = some ⟨s, .ok d, #[]⟩) ∧ s.indexOf d = s.indexOf c + 1 := by
  obtain ⟨e, he, hindex⟩ := exists_placed_of_lt π hi
  obtain ⟨d, ha, -, hd⟩ := h.advance_of_lt ht he (by omega)
  exact ⟨d, ha, hd⟩

theorem Placed.advance_to_end (ht : s.Tidy) (h : s.Placed c) (hi : s.indexOf c + 1 = s.tokens.length)
    (hend : s.EndRead) : ∃ d, (∀ fuel, s.advance fuel c = some ⟨s, .ok d, #[]⟩) ∧ d.current = none := by
  obtain ⟨e, he, -, hindex⟩ := hend.exists_placed π ht
  obtain ⟨d, ha, hd, hd'⟩ := h.advance_of_lt ht he (by omega)
  refine ⟨d, ha, ?_⟩
  rw [hd.current_eq ht, List.getElem?_eq_none (by omega)]

/-- Without a source, and if the end was not read, no cursor moves over the last token. -/
theorem Placed.advance_refused (ht : s.Tidy) (h : s.Placed c) (hi : s.indexOf c + 1 = s.tokens.length)
    (hend : ¬ s.EndRead) (hl : s.live = false) (fuel : Nat) :
    s.advance fuel c = some ⟨s, .error .released, #[]⟩ := by
  obtain ⟨⟨s', e | d, events⟩, ha⟩ := exists_advance_of_readChunk (readChunk_released hl fuel) c
  · rw [ha]
    cases advancing_of_advance ha with
    | stopped _ _ _ hr =>
      cases hr with
      | failed hl' => simp [hl] at hl'
      | released => rfl
  · exfalso
    have hadv := advancing_of_advance ha
    obtain rfl : s' = s := hadv.later.released hl
    cases hc : c.current with
    | none => exact hend (h.endRead hc)
    | some t =>
      have hindex := hadv.indexOf_eq h hc
      exact hend ((hadv.placed h).endRead_of_index ht (by omega))

/-- Why a cursor was not moved. -/
inductive Denied (s : TokenStream σ τ) (e : ReadError) (s' : TokenStream σ τ) : Prop where
  /-- The source failed just now, and it is let go. -/
  | failed {fuel : Nat} {source : σ} {buffer : Array τ} {events : Array Event} (hl : s.live = true)
      (hf : Source.fill fuel s.source #[] s.chunkSize = some ⟨source, buffer, .error e, events⟩)
      (hs : s' = ⟨s.chunks, (Source.close source).1, false, s.chunkSize, s.chunksRead⟩)
  | released (hl : s.live = false) (he : e = .released) (hs : s' = s)

theorem denied_of_advance {fuel : Nat} {e : ReadError} {events : Array Event}
    (h : s.advance fuel c = some ⟨s', .error e, events⟩) : s.Denied e s' := by
  cases advancing_of_advance h with
  | stopped _ _ _ hr =>
    cases hr with
    | failed hl hf => exact .failed hl hf rfl
    | released hl => exact .released hl rfl rfl

end

section

variable [Source σ τ] {source : σ} {size : Nat}

/-- The stream is as reads from the source left it, or was let go after them. -/
def Drawn (source : σ) (size : Nat) (s : TokenStream σ τ) : Prop :=
  ∃ u : TokenStream σ τ, u.ReadFrom source size ∧ (s = u ∨ s = u.release.1)

theorem drawn_of_openSource {fuel : Nat} {events : Array Event}
    (h : openSource fuel source size = some ⟨s, .ok (), events⟩) : s.Drawn source (max size 1) :=
  ⟨s, (ReadFrom.unread source size).reading (reading_of_readChunk h), .inl rfl⟩

theorem Drawn.advancing [Position π τ] {c : Cursor τ π} {access : Access σ τ (Cursor τ π)}
    (h : s.Drawn source size) (ha : Advancing s c access) : access.stream.Drawn source size := by
  obtain ⟨u, hu, rfl | rfl⟩ := h
  · exact ⟨_, hu.advancing ha, .inl rfl⟩
  · exact ⟨u, hu, .inr (ha.later.released u.live_release)⟩

theorem Drawn.release (h : s.Drawn source size) : s.release.1.Drawn source size := by
  obtain ⟨u, hu, rfl | rfl⟩ := h
  · exact ⟨_, hu, .inr rfl⟩
  · exact ⟨u, hu, .inr (u.release.1.later_release.released u.live_release)⟩

theorem Drawn.fills (h : s.Drawn source size) : ∃ last, Fills size source s.chunks last := by
  obtain ⟨u, ⟨-, last, hfills, -⟩, hs⟩ := h
  refine ⟨last, ?_⟩
  rcases hs with rfl | rfl
  · exact hfills
  · rwa [chunks_release]

/-- The source answers that nothing comes after `chunks`. -/
def EndsAfter (source : σ) (size : Nat) (chunks : Array (Array τ)) : Prop :=
  ∃ mid fuel source' events, Fills size source chunks mid ∧
    Source.fill fuel mid #[] size = some ⟨source', #[], .ok (), events⟩

theorem Drawn.endsAfter (h : s.Drawn source size) (ht : s.Tidy) (hend : s.EndRead) :
    ∃ chunks, s.chunks = chunks.push #[] ∧ EndsAfter source size chunks := by
  obtain ⟨last, hfills⟩ := h.fills
  obtain ⟨k, hk⟩ := List.mem_iff_getElem?.mp hend
  have hnewest := (ht k hk).1
  generalize hchunks : s.chunks = chunks at hfills
  cases hfills with
  | none =>
    rw [hchunks] at hnewest
    simp at hnewest
  | @more fuel chunks mid last buffer events hfills hf =>
    have hbuffer : buffer = #[] := by
      have hsize : k = chunks.size := by simpa [hchunks] using hnewest
      simpa [layout, hchunks, hsize] using hk
    rw [hbuffer] at hf ⊢
    exact ⟨chunks, rfl, mid, fuel, last, events, hfills, hf⟩

end

/-- The stream `s'` can be read, with no failure, to a stream that holds what `s` holds: to the end if that was read. -/
structure Supplies (s : TokenStream σ τ) [Source σ' τ] (s' whole : TokenStream σ' τ) : Prop where
  toward : s'.Toward whole
  tokens : s.tokens <+: whole.tokens
  ended : s.EndRead → whole.EndRead ∧ whole.tokens = s.tokens

section

variable [Source σ τ] [LawfulSource σ τ] {source last last' : σ} {size : Nat} {chunks chunks' : Array (Array τ)}

theorem fills_unique (h : Fills size source chunks last) (h' : Fills size source chunks' last')
    (hs : chunks.size = chunks'.size) : chunks = chunks' ∧ last = last' := by
  induction h generalizing chunks' last' with
  | none =>
    cases h' with
    | none => exact ⟨rfl, rfl⟩
    | more => simp at hs
  | more _ hf ih =>
    cases h' with
    | none => simp at hs
    | more h' hf' =>
      simp only [Array.size_push, Nat.add_right_cancel_iff] at hs
      obtain ⟨rfl, rfl⟩ := ih h' hs
      cases fill_unique hf hf'
      exact ⟨rfl, rfl⟩

theorem fills_begin (h : Fills size source chunks last) (h' : Fills size source chunks' last')
    (hs : chunks.size ≤ chunks'.size) : chunks.toList <+: chunks'.toList := by
  induction h' with
  | none =>
    obtain rfl : chunks = #[] := Array.eq_empty_of_size_eq_zero (Nat.le_zero.mp hs)
    exact List.prefix_rfl
  | @more fuel chunks' mid last' buffer events h' hf ih =>
    by_cases heq : chunks.size = (chunks'.push buffer).size
    · rw [(fills_unique h (h'.more hf) heq).1]
    · rw [Array.size_push] at hs heq
      have hle := ih (by omega)
      rw [Array.toList_push]
      exact hle.trans (List.prefix_append _ _)

/-- A stream that was read as far or less far, and whose source was not let go, can be read to the same chunks. -/
theorem exists_toward_of_fills (h : Fills size source chunks last)
    (hfull : ∀ k : Nat, (chunks.toList.map Array.toList)[k]? = some [] → k + 1 = chunks.size)
    (h' : s.ReadFrom source size) (hs : s.chunks.size ≤ chunks.size) :
    ∃ whole : TokenStream σ τ, s.Toward whole ∧ whole.ReadFrom source size ∧ whole.chunks = chunks := by
  induction h with
  | none => exact ⟨s, .refl, h', Array.eq_empty_of_size_eq_zero (Nat.le_zero.mp hs)⟩
  | @more fuel chunks mid last buffer events h hf ih =>
    rcases Nat.lt_or_eq_of_le hs with hlt | heq
    · rw [Array.size_push] at hlt
      have hpush (k : Nat) (hk : (chunks.toList.map Array.toList)[k]? = some []) : False := by
        have hk' := (List.getElem?_eq_some_iff.mp hk).1
        have hlast := hfull k (by rwa [Array.toList_push, List.map_append, List.getElem?_append_left hk'])
        rw [List.length_map, Array.length_toList] at hk'
        rw [Array.size_push] at hlast
        omega
      obtain ⟨w, htoward, hread, hchunks⟩ := ih (fun k hk => (hpush k hk).elim) (by omega)
      obtain ⟨hsize, mid', hfills, hkeeps⟩ := hread
      rw [hchunks] at hfills
      obtain rfl := (fills_unique hfills h rfl).2
      cases hkeeps with
      | live hl hw =>
        rw [← hw, ← hsize] at hf
        have hread : w.ReadFrom source size := ⟨hsize, w.source, hw ▸ hchunks ▸ hfills, .live hl rfl⟩
        by_cases hb : buffer.toList = []
        · obtain rfl : buffer = #[] := Array.toList_eq_nil_iff.mp hb
          have hr := Reading.ended hl hf
          exact ⟨_, htoward.tail ⟨_, hr⟩, hread.reading hr, congrArg (·.push #[]) hchunks⟩
        · have hr := Reading.more hl hf hb
          exact ⟨_, htoward.tail ⟨_, hr⟩, hread.reading hr, congrArg (·.push buffer) hchunks⟩
      | ended hl hempty =>
        rw [List.getLast?_eq_getElem?, layout, hchunks] at hempty
        exact (hpush _ hempty).elim
      | failed hl hf' =>
        rw [hsize] at hf'
        cases fill_unique hf hf'
    · obtain ⟨hsize, last', hfills, hkeeps⟩ := h'
      have hchunks := (fills_unique hfills (h.more hf) heq).1
      exact ⟨s, .refl, ⟨hsize, last', hfills, hkeeps⟩, hchunks⟩

/-- Any other use of the same source reads, or can still read, what the stream holds. -/
theorem Drawn.exists_supplies {s' : TokenStream σ τ} (h : s.Drawn source size) (ht : s.Tidy)
    (h' : s'.ReadFrom source size) (ht' : s'.Tidy) : ∃ whole, s.Supplies s' whole := by
  obtain ⟨last, hfills⟩ := h.fills
  by_cases hle : s'.chunks.size ≤ s.chunks.size
  · obtain ⟨whole, htoward, -, hchunks⟩ := exists_toward_of_fills hfills (fun k hk => (ht k hk).1) h' hle
    have hlayout : whole.layout = s.layout := by rw [layout, hchunks, layout]
    have htokens : whole.tokens = s.tokens := by rw [tokens, hlayout, tokens]
    refine ⟨whole, htoward, htokens ▸ List.prefix_rfl, ?_⟩
    intro hend
    exact ⟨by rwa [EndRead, hlayout], htokens⟩
  · obtain ⟨-, last', hfills', -⟩ := h'
    have hgrows : s.layout <+: s'.layout := (fills_begin hfills hfills' (by omega)).map _
    refine ⟨s', .refl, tokens_prefix hgrows, ?_⟩
    intro hend
    exfalso
    obtain ⟨k, hk⟩ := List.mem_iff_getElem?.mp hend
    obtain ⟨rest, hrest⟩ := hgrows
    have hk' : s'.layout[k]? = some [] := by
      rw [← hrest, List.getElem?_append_left (List.getElem?_eq_some_iff.mp hk).1, hk]
    have hlast := (ht k hk).1
    have hlast' := (ht' k hk').1
    omega

end

end TokenStream

namespace Session

variable [Source σ τ] [Position π τ] {source : σ} {size : Nat} {a b : Session σ τ π}

theorem drawn_of_moves (h : a.stream.Drawn source size) (hm : Moves a b) : b.stream.Drawn source size := by
  induction hm with
  | refl => exact h
  | tail _ hmove ih =>
    cases hmove with
    | copied => exact ih
    | advanced hc ha => exact ih.advancing (TokenStream.advancing_of_advance ha)
    | failed hc ha => exact ih.advancing (TokenStream.advancing_of_advance ha)

theorem History.drawn {fuel : Nat} {first : TokenStream σ τ} {events : Array Event}
    (hopen : TokenStream.openSource fuel source size = some ⟨first, .ok (), events⟩) (h : History first a) :
    a.stream.Drawn source (max size 1) := by
  induction h with
  | refl => exact TokenStream.drawn_of_openSource hopen
  | tail _ hd ih =>
    cases hd with
    | use hu => exact drawn_of_moves ih (moves_of_use hu)
    | release => exact ih.release

end Session

end StreamParsing
