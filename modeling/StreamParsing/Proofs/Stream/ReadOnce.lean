import Mathlib.Data.Set.Finite.Lemmas
import StreamParsing.Parser.Shaping
import StreamParsing.Proofs.Stream.Delivery

/-!
Every token is read once. However a stream is used, its chunks are what the successive calls for tokens gave, in
order; a chunk is asked for only from the last token before it, and never again. For a sequence of items this gives
the exact number of items taken from it: whole chunks up to the one of the furthest cursor.
-/

namespace StreamParsing

set_option autoImplicit false

universe u

variable {σ : Type u} {τ π : Type}

section

variable [Source σ τ]

/-- Successive calls for `size` tokens each, all of them answered, and the chunks they give. -/
inductive Fills (size : Nat) (source : σ) : Array (Array τ) → σ → Prop where
  | none : Fills size source #[] source
  | more {fuel : Nat} {chunks : Array (Array τ)} {mid source' : σ} {buffer : Array τ} {events : Array Event} :
      Fills size source chunks mid →
      Source.fill fuel mid #[] size = some ⟨source', buffer, .ok (), events⟩ →
      Fills size source (chunks.push buffer) source'

namespace TokenStream

/-- What became of the source after the last call that gave a chunk: nothing yet, or it was let go, because that
chunk was empty or because one more call failed. -/
inductive Keeps (s : TokenStream σ τ) (last : σ) : Prop where
  | live (hl : s.live = true) (hs : s.source = last)
  | ended (hl : s.live = false) (hempty : s.layout.getLast? = some []) (hs : s.source = (Source.close last).1)
  | failed {fuel : Nat} {source : σ} {buffer : Array τ} {e : ReadError} {events : Array Event}
      (hl : s.live = false)
      (hf : Source.fill fuel last #[] s.chunkSize = some ⟨source, buffer, .error e, events⟩)
      (hs : s.source = (Source.close source).1)

structure ReadFrom (source : σ) (size : Nat) (s : TokenStream σ τ) : Prop where
  chunkSize : s.chunkSize = size
  filled : ∃ last, Fills size source s.chunks last ∧ s.Keeps last

variable {s : TokenStream σ τ} {source : σ} {size : Nat}

theorem ReadFrom.unread (source : σ) (size : Nat) :
    ReadFrom source (max size 1) (unread source size : TokenStream σ τ) :=
  ⟨rfl, source, .none, .live rfl rfl⟩

theorem ReadFrom.reading {access : Access σ τ Unit} (h : ReadFrom source size s) (hr : Reading s access) :
    ReadFrom source size access.stream := by
  obtain ⟨rfl, last, hfills, hkeeps⟩ := h
  -- Only a live source is called, and it is the one that the last chunk left.
  have hlast (hl : s.live = true) : s.source = last := by
    cases hkeeps with
    | live _ hs => exact hs
    | ended hl' => simp [hl] at hl'
    | failed hl' => simp [hl] at hl'
  cases hr with
  | more hl hf hb =>
    rw [hlast hl] at hf
    exact ⟨rfl, _, hfills.more hf, .live rfl rfl⟩
  | ended hl hf =>
    rw [hlast hl] at hf
    exact ⟨rfl, _, hfills.more hf, .ended rfl (by simp [layout]) rfl⟩
  | failed hl hf =>
    rw [hlast hl] at hf
    exact ⟨rfl, last, hfills, .failed rfl hf rfl⟩
  | released hl => exact ⟨rfl, last, hfills, hkeeps⟩

theorem ReadFrom.advancing [Position π τ] {c : Cursor τ π} {access : Access σ τ (Cursor τ π)}
    (h : ReadFrom source size s) (ha : Advancing s c access) : ReadFrom source size access.stream := by
  cases ha with
  | still | inside | across => exact h
  | read hc hn hl hr => exact h.reading hr
  | stopped hc hn hl hr => exact h.reading hr

end TokenStream

namespace Session

variable [Position π τ]

/-- Some cursor of the session is in the newest chunk. -/
def Fresh (a : Session σ τ π) : Prop := ∃ c ∈ a.cursors, c.chunk + 1 = a.stream.chunks.size

theorem Fresh.move {a b : Session σ τ π} (h : Fresh a) (hsound : Sound a) (hm : Move a b) : Fresh b := by
  obtain ⟨d, hd, hnew⟩ := h
  cases hm with
  | copied hc => exact ⟨d, List.mem_append_left _ hd, hnew⟩
  | @advanced s s' cs c c' fuel events hc ha =>
    have hadv := TokenStream.advancing_of_advance ha
    by_cases hs : s' = s
    · exact ⟨d, List.mem_append_left _ hd, hs ▸ hnew⟩
    · exact ⟨c', by simp, hadv.newest (hsound.placed c hc) hs⟩
  | @failed s s' cs c fuel e events hc ha =>
    refine ⟨d, hd, hnew.trans ?_⟩
    cases TokenStream.advancing_of_advance ha with
    | stopped _ _ _ hr =>
      rw [← TokenStream.length_layout, ← TokenStream.length_layout, hr.layout_of_error.1]

/-- What holds of a session however the stream over `source` was used. -/
structure Faithful (source : σ) (size : Nat) (a : Session σ τ π) : Prop where
  /-- The chunks are what the calls for tokens gave, in order, and no other call was answered. -/
  filled : ∃ last, Fills size source a.stream.chunks last ∧ a.stream.Keeps last
  /-- Only the last chunk may be empty: it marks the end. -/
  tidy : a.stream.Tidy
  /-- A move touches the stream only from the last token of the newest chunk. -/
  lazily : ∀ c ∈ a.cursors, ∀ fuel access, a.stream.advance fuel c = some access → access.stream ≠ a.stream →
    a.stream.AtRim c
  /-- A cursor that was moved once is moved the same way ever after, without a call. -/
  once : ∀ c ∈ a.cursors, ∀ fuel access, a.stream.advance fuel c = some access →
    ∀ b, Moves ⟨access.stream, a.cursors ++ access.result.toOption.toList⟩ b →
      ∀ fuel', b.stream.advance fuel' c = some ⟨b.stream, access.result.mapError fun _ => .released, #[]⟩

/-- The invariant behind these properties. -/
structure Reads (source : σ) (size : Nat) (a : Session σ τ π) : Prop where
  sound : Sound a
  readFrom : a.stream.ReadFrom source size
  fresh : Fresh a

variable {source : σ} {size : Nat} {a b : Session σ τ π}

theorem Reads.move (h : Reads source size a) (hm : Move a b) : Reads source size b := by
  refine ⟨h.sound.move hm, ?_, h.fresh.move h.sound hm⟩
  cases hm with
  | copied => exact h.readFrom
  | advanced hc ha => exact h.readFrom.advancing (TokenStream.advancing_of_advance ha)
  | failed hc ha => exact h.readFrom.advancing (TokenStream.advancing_of_advance ha)

theorem Reads.moves (h : Reads source size a) (hm : Moves a b) : Reads source size b := by
  induction hm with
  | refl => exact h
  | tail _ hmove ih => exact ih.move hmove

theorem reads_start {fuel : Nat} {first : TokenStream σ τ} {events : Array Event}
    (h : TokenStream.openSource fuel source size = some ⟨first, .ok (), events⟩) :
    Reads source (max size 1) (⟨first, [first.start]⟩ : Session σ τ π) := by
  have hr := TokenStream.reading_of_readChunk h
  obtain ⟨htidy, hsize⟩ := tidy_of_openSource h
  exact ⟨sound_start htidy (by omega), (TokenStream.ReadFrom.unread source size).reading hr,
    first.start, by simp, hsize.symm⟩

theorem reads_of_opened (h : Opened source size a) : Reads source (max size 1) a := by
  obtain ⟨fuel, first, events, hopen, hcont⟩ := h
  exact (reads_start hopen).moves (moves_of_continues hcont)

theorem Reads.faithful (h : Reads source size a) : Faithful source size a where
  filled := h.readFrom.filled
  tidy := h.sound.tidy
  lazily := by
    intro c hc fuel access ha hs
    exact (TokenStream.advancing_of_advance ha).atRim (h.sound.placed c hc) hs
  once := by
    intro c hc fuel access ha b hm fuel'
    have hadv := TokenStream.advancing_of_advance ha
    exact TokenStream.advance_again (h.sound.placed c hc) hadv (later_of_moves hm) fuel'

end Session

end

namespace Items

variable {entries : List (Option τ)} {size : Nat} {chunks : Array (Array τ)} {last : Items τ}

/-- The first `k` chunks hold `size` items each, as far as there are so many. -/
structure Dealt (entries : List (Option τ)) (size : Nat) (chunks : Array (Array τ)) (last : Items τ) : Prop where
  pulled : last.pulled = min (sequence entries).length (size * chunks.size)
  rest : (sequence last.rest).length = (sequence entries).length - size * chunks.size
  length_take : ∀ k, k ≤ chunks.size →
    ((chunks.toList.map Array.toList).take k).flatten.length = min (sequence entries).length (size * k)

theorem dealt_of_fills (h : Fills size (⟨entries, 0⟩ : Items τ) chunks last) :
    Dealt entries size chunks last := by
  induction h with
  | none => exact ⟨by simp, by simp, by simp⟩
  | @more fuel chunks mid source' buffer events hfills hf ih =>
    obtain ⟨hpulled, hrest, hlen⟩ := ih
    obtain ⟨hp, hr, hs⟩ := take_spec size mid #[]
    have hfill : Source.fill fuel mid #[] size =
      some ⟨(mid.take size #[]).1, (mid.take size #[]).2, .ok (), #[]⟩ := rfl
    rw [hfill] at hf
    cases hf
    have hmul : size * (chunks.size + 1) = size * chunks.size + size := Nat.mul_succ _ _
    have hlength := congrArg List.length hr
    have hbuffer := congrArg List.length hs
    simp only [List.length_drop] at hlength
    simp only [List.nil_append, List.length_take, Array.length_toList] at hbuffer
    refine ⟨?_, ?_, ?_⟩
    · rw [Array.size_push, hmul]
      omega
    · rw [Array.size_push, hmul]
      omega
    · intro k hk
      rw [Array.size_push] at hk
      have hsize : (chunks.toList.map Array.toList).length = chunks.size := by simp
      by_cases hk' : k ≤ chunks.size
      · rw [Array.toList_push, List.map_append, List.take_append_of_le_length (by omega)]
        exact hlen k hk'
      · obtain rfl : k = chunks.size + 1 := by omega
        have hall := hlen chunks.size (Nat.le_refl _)
        rw [List.take_of_length_le (by omega)] at hall
        rw [List.take_of_length_le (by simp), Array.toList_push, List.map_append, List.flatten_append,
          List.length_append, hall, hmul]
        simp only [List.map_cons, List.map_nil, List.flatten_cons, List.flatten_nil, List.append_nil,
          Array.length_toList]
        omega

variable [Position π τ] {s : TokenStream (Items τ) τ} {c : Cursor τ π}

/-- A cursor with a token is before the end of its chunk. -/
theorem Dealt.indexOf_lt (h : Dealt entries size s.chunks last) (hp : s.Placed c) {t : τ} (hc : c.current = some t) :
    min (sequence entries).length (size * c.chunk) ≤ s.indexOf c ∧
      s.indexOf c < min (sequence entries).length (size * (c.chunk + 1)) := by
  obtain ⟨chunk, hk, hcur⟩ := hp.chunk_eq
  have hlt := (List.getElem?_eq_some_iff.mp (hcur.symm.trans hc)).1
  have hloaded := hp.loaded
  have hbefore := h.length_take c.chunk (by omega)
  have hafter := h.length_take (c.chunk + 1) (by omega)
  have hsucc := s.length_take_succ hk
  simp only [TokenStream.layout] at hsucc
  simp only [TokenStream.indexOf, TokenStream.layout]
  omega

/-- At the end all items were taken. -/
theorem Dealt.indexOf_of_end (h : Dealt entries size s.chunks last) (ht : s.Tidy) (hp : s.Placed c)
    (hsize : 0 < size) (hc : c.current = none) :
    s.indexOf c = (sequence entries).length ∧ (sequence entries).length ≤ size * c.chunk ∧ c.chunk + 1 = s.chunks.size := by
  have hk := hp.chunk_of_end hc
  have hlast := (ht _ hk).1
  have hbefore := h.length_take c.chunk (by omega)
  have hafter := h.length_take (c.chunk + 1) (by omega)
  have hsucc := s.length_take_succ hk
  have hmul : size * (c.chunk + 1) = size * c.chunk + size := Nat.mul_succ _ _
  simp only [TokenStream.layout, List.length_nil] at hsucc
  simp only [TokenStream.indexOf, TokenStream.layout, hp.first hc]
  omega

theorem pulled_of_reads {a : Session (Items τ) τ π} (h : a.Reads ⟨entries, 0⟩ size) (hsize : 0 < size) :
    ∃ c ∈ a.cursors, (∀ d ∈ a.cursors, a.stream.indexOf d ≤ a.stream.indexOf c) ∧
      (Source.tally a.stream.source).pulled =
        min (sequence entries).length (size * (a.stream.indexOf c / size + 1)) := by
  obtain ⟨hsound, ⟨-, last, hfills, hkeeps⟩, f, hf, hnew⟩ := h
  have hdealt := dealt_of_fills hfills
  have hpulled : (Source.tally a.stream.source).pulled = min (sequence entries).length (size * a.stream.chunks.size) := by
    rw [← hdealt.pulled]
    cases hkeeps with
    | live _ hs => rw [hs]; rfl
    | ended _ _ hs => rw [hs]; rfl
    | failed _ hfail => cases hfail
  obtain ⟨c, hc, hmax⟩ := Set.exists_max_image {c | c ∈ a.cursors} a.stream.indexOf
    (List.finite_toSet a.cursors) ⟨f, hf⟩
  refine ⟨c, hc, hmax, ?_⟩
  have hcf := hmax f hf
  have hmul : size * (f.chunk + 1) = size * f.chunk + size := Nat.mul_succ _ _
  rw [hpulled, ← hnew]
  cases hfcur : f.current with
  | some t =>
    -- The furthest cursor is in the newest chunk, and all chunks before that one are full.
    have hfi := hdealt.indexOf_lt (hsound.placed f hf) hfcur
    have hdiv : a.stream.indexOf c / size = f.chunk := by
      cases hccur : c.current with
      | none =>
        have hci := hdealt.indexOf_of_end hsound.tidy (hsound.placed c hc) hsize hccur
        have hchunk : c.chunk = f.chunk := by omega
        rw [hchunk] at hci
        omega
      | some t' =>
        have hci := hdealt.indexOf_lt (hsound.placed c hc) hccur
        have hle : size * (c.chunk + 1) ≤ size * (f.chunk + 1) :=
          Nat.mul_le_mul_left _ (by have := (hsound.placed c hc).loaded; omega)
        apply Nat.div_eq_of_lt_le
        · rw [Nat.mul_comm]
          omega
        · rw [Nat.mul_comm]
          omega
    rw [hdiv]
  | none =>
    have hfi := hdealt.indexOf_of_end hsound.tidy (hsound.placed f hf) hsize hfcur
    have hci : a.stream.indexOf c ≤ (sequence entries).length := by
      have hle := (hsound.placed c hc).index_le
      have hall := hdealt.length_take a.stream.chunks.size (Nat.le_refl _)
      rw [List.take_of_length_le (by simp)] at hall
      simp only [TokenStream.tokens, TokenStream.layout] at hle
      omega
    have heq : a.stream.indexOf c = (sequence entries).length := by omega
    have hover : (sequence entries).length < size * ((sequence entries).length / size + 1) := Nat.lt_mul_div_succ _ hsize
    rw [heq]
    omega

end Items

namespace Session

/-- However a stream is used, its chunks are read once each, in order and only when needed. Of a sequence of items
as many were taken as make up whole chunks to beyond the furthest cursor. -/
theorem tokens_read_once [Source σ τ] [Position π τ] :
    (∀ (source : σ) (size : Nat) (a : Session σ τ π), Opened source size a →
      (∀ b, Use a b → Moves a b) ∧ ∀ b, Moves a b → Faithful source (max size 1) b) ∧
    ∀ (entries : List (Option τ)) (size : Nat) (a : Session (Items τ) τ π), Opened ⟨entries, 0⟩ size a →
      ∃ c ∈ a.cursors, (∀ d ∈ a.cursors, a.stream.indexOf d ≤ a.stream.indexOf c) ∧
        (Source.tally a.stream.source).pulled =
          min (Items.sequence entries).length (max size 1 * (a.stream.indexOf c / max size 1 + 1)) := by
  refine ⟨?_, ?_⟩
  · intro source size a h
    refine ⟨fun b huse => moves_of_use huse, ?_⟩
    intro b hm
    exact ((reads_of_opened h).moves hm).faithful
  · intro entries size a h
    exact Items.pulled_of_reads (reads_of_opened h) (by omega)

/-- A look ahead over two items in chunks of one, of a sequence that goes on after its end. -/
def glanced : Session (Items Nat) Nat LinearPosition where
  stream := ⟨#[#[4], #[7]], ⟨[none, some 9], 2⟩, true, 1, 2⟩
  cursors := [⟨0, 0, ⟨0⟩, some 4⟩, ⟨0, 0, ⟨0⟩, some 4⟩, ⟨1, 0, ⟨1⟩, some 7⟩, ⟨0, 0, ⟨0⟩, some 4⟩]

theorem opened_glanced : Opened (⟨[some 4, some 7, none, some 9], 0⟩ : Items Nat) 0 glanced := by
  refine ⟨0, ⟨#[#[4]], ⟨[some 7, none, some 9], 1⟩, true, 1, 1⟩, _, rfl, .single ?_⟩
  let p : Parser Nat LinearPosition Unit Nat := Parser.any.lookAhead
  have hrun : p.run 9 ⟨⟨#[#[4]], (⟨[some 7, none, some 9], 1⟩ : Items Nat), true, 1, 1⟩, .empty, #[]⟩
      ⟨0, 0, ⟨0⟩, some 4⟩ = some ⟨⟨glanced.stream, .empty, #[.chunkRead 1 1]⟩, .ok (.success 4 ⟨0, 0, ⟨0⟩, some 4⟩)⟩ :=
    rfl
  have hforged : Machine.Unforged 9 [⟨0, 0, ⟨0⟩, some 4⟩]
      ⟨⟨#[#[4]], (⟨[some 7, none, some 9], 1⟩ : Items Nat), true, 1, 1⟩, .empty, #[]⟩
      (.eval p ⟨0, 0, ⟨0⟩, some 4⟩ .nil) := by
    refine And.intro nofun (And.intro nofun (And.intro ?_ (And.intro nofun trivial)))
    intro c hc
    cases hc
    exact .head _
  exact Use.run (List.mem_singleton_self _) hrun hforged

theorem tokens_read_once_glanced :
    Opened (⟨[some 4, some 7, none, some 9], 0⟩ : Items Nat) 0 glanced ∧
      Faithful (⟨[some 4, some 7, none, some 9], 0⟩ : Items Nat) 1 glanced ∧
      ∃ c ∈ glanced.cursors, (∀ d ∈ glanced.cursors, glanced.stream.indexOf d ≤ glanced.stream.indexOf c) ∧
        2 = min 2 (1 * (glanced.stream.indexOf c / 1 + 1)) := by
  have h := opened_glanced
  obtain ⟨hread, hpulled⟩ := @tokens_read_once (Items Nat) Nat LinearPosition _ _
  exact ⟨h, (hread _ _ _ h).2 _ .refl, hpulled _ _ _ h⟩

end Session

end StreamParsing
