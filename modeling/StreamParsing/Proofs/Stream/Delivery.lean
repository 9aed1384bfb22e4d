import StreamParsing.Proofs.Fuel
import StreamParsing.Proofs.Stream.Session

/-!
What a source delivers: a sequence of tokens followed by the end or by an error, whatever the chunks it comes in. A
stream over such a source carries the sequence: what it has read is the beginning of it, and what follows is still to
be delivered.
-/

namespace StreamParsing

set_option autoImplicit false

universe u

variable {σ : Type u} {τ π : Type} [Source σ τ]

/-- The source gives these tokens when it is asked for `size` at a time, and then the end or the given error. The
tokens that a failing call would still have had to give are lost. -/
inductive Delivers (size : Nat) : σ → List τ → Option ReadError → Prop where
  | ended {fuel : Nat} {source source' : σ} {events : Array Event} :
      Source.fill fuel source #[] size = some ⟨source', #[], .ok (), events⟩ → Delivers size source [] none
  | more {fuel : Nat} {source source' : σ} {buffer : Array τ} {events : Array Event} {rest : List τ}
      {ending : Option ReadError} :
      Source.fill fuel source #[] size = some ⟨source', buffer, .ok (), events⟩ → buffer.toList ≠ [] →
      Delivers size source' rest ending → Delivers size source (buffer.toList ++ rest) ending
  | failed {fuel : Nat} {source source' : σ} {buffer : Array τ} {e : ReadError} {events : Array Event}
      (lost : List τ) : Source.fill fuel source #[] size = some ⟨source', buffer, .error e, events⟩ →
      Delivers size source lost (some e)

namespace TokenStream

/-- The tokens in `rest` are still to come. -/
inductive Ahead (s : TokenStream σ τ) (rest : List τ) (ending : Option ReadError) : Prop where
  | live (hl : s.live = true) (hd : Delivers s.chunkSize s.source rest ending)
  | ended (hl : s.live = false) (hempty : s.layout.getLast? = some []) (hrest : rest = [])
  | failed (hl : s.live = false) (hfull : [] ∉ s.layout) (he : ending ≠ none)

structure Carries (tokens : List τ) (ending : Option ReadError) (s : TokenStream σ τ) : Prop where
  tidy : s.Tidy
  ahead : ∃ rest, s.tokens ++ rest = tokens ∧ s.Ahead rest ending

variable {s s' : TokenStream σ τ} {c : Cursor τ π} {tokens : List τ} {ending : Option ReadError}

theorem Carries.begins (h : s.Carries tokens ending) : s.tokens <+: tokens := by
  obtain ⟨rest, hrest, -⟩ := h.ahead
  exact ⟨rest, hrest⟩

/-- Once the end was read, the stream holds all tokens. -/
theorem Carries.tokens_of_end (h : s.Carries tokens ending) {k : Nat} (hk : s.layout[k]? = some []) :
    s.tokens = tokens := by
  obtain ⟨rest, hrest, hahead⟩ := h.ahead
  have hlive := (h.tidy k hk).2
  cases hahead with
  | live hl => simp [hl] at hlive
  | ended hl hempty hr => simpa [hr] using hrest
  | failed hl hfull => exact absurd (List.mem_of_getElem? hk) hfull

section

variable [Position π τ]

theorem Placed.current_of_carries (h : s.Placed c) (hs : s.Carries tokens ending) :
    c.current = tokens[s.indexOf c]? := by
  cases hcur : c.current with
  | some t =>
    obtain ⟨rest, hrest⟩ := hs.begins
    have htok := h.token_eq hcur
    have hlt := (List.getElem?_eq_some_iff.mp htok).1
    rw [← hrest, List.getElem?_append_left hlt, htok]
  | none =>
    rw [h.index_of_end hs.tidy hcur, hs.tokens_of_end (h.chunk_of_end hcur),
      List.getElem?_eq_none (Nat.le_refl _)]

theorem Placed.position_of_carries (h : s.Placed c) (hs : s.Carries tokens ending) :
    c.position = positionAt tokens (s.indexOf c) := by
  rw [h.position, positionAt_extend hs.begins h.index_le]

end

variable [LawfulSource σ τ]

theorem fill_unique {fuel fuel' size : Nat} {source : σ} {fill fill' : Fill σ τ}
    (h : Source.fill fuel source #[] size = some fill) (h' : Source.fill fuel' source #[] size = some fill') :
    fill = fill' := by
  have hmax := LawfulSource.fill_of_le (Nat.le_max_left fuel fuel') h
  have hmax' := LawfulSource.fill_of_le (Nat.le_max_right fuel fuel') h'
  rw [hmax] at hmax'
  exact Option.some.inj hmax'

theorem Carries.reading {access : Access σ τ Unit} (h : s.Carries tokens ending) (hr : Reading s access) :
    access.stream.Carries tokens ending := by
  refine ⟨hr.tidy h.tidy, ?_⟩
  obtain ⟨rest, hrest, hahead⟩ := h.ahead
  have hdeliver (hl : s.live = true) : Delivers s.chunkSize s.source rest ending := by
    cases hahead with
    | live _ hd => exact hd
    | ended hl' | failed hl' => simp [hl] at hl'
  cases hr with
  | more hl hf hb =>
    have hd := hdeliver hl
    cases hd with
    | ended hf' =>
      cases fill_unique hf hf'
      exact absurd rfl hb
    | more hf' hb' hd' =>
      cases fill_unique hf hf'
      refine ⟨_, ?_, .live rfl hd'⟩
      rw [← hrest]
      simp [TokenStream.tokens, layout]
    | failed lost hf' => cases fill_unique hf hf'
  | ended hl hf =>
    have hd := hdeliver hl
    cases hd with
    | ended hf' => exact ⟨[], by rw [← hrest]; simp [TokenStream.tokens, layout], .ended rfl (by simp [layout]) rfl⟩
    | more hf' hb' hd' =>
      cases fill_unique hf hf'
      exact absurd rfl hb'
    | failed lost hf' => cases fill_unique hf hf'
  | failed hl hf =>
    have hd := hdeliver hl
    have hfull : [] ∉ s.layout := by
      intro hmem
      obtain ⟨k, hk⟩ := List.mem_iff_getElem?.mp hmem
      have := (h.tidy k hk).2
      simp [hl] at this
    cases hd with
    | ended hf' | more hf' hb' hd' => cases fill_unique hf hf'
    | failed lost hf' => exact ⟨rest, hrest, .failed rfl hfull (by simp)⟩
  | released hl => exact ⟨rest, hrest, hahead⟩

variable [Position π τ]

theorem Carries.advancing {access : Access σ τ (Cursor τ π)} (h : s.Carries tokens ending)
    (ha : Advancing s c access) : access.stream.Carries tokens ending := by
  cases ha with
  | still | inside | across => exact h
  | read hc hn hl hr => exact h.reading hr
  | stopped hc hn hl hr => exact h.reading hr

/-- Over a source that does not fail, every cursor can be moved. -/
theorem Carries.advance_ok {access : Access σ τ (Cursor τ π)} (h : s.Carries tokens none) (hp : s.Placed c)
    (ha : Advancing s c access) : ∃ d, access.result = .ok d := by
  cases ha with
  | still | inside | across | read => exact ⟨_, rfl⟩
  | stopped hc hn hl hr =>
    obtain ⟨rest, -, hahead⟩ := h.ahead
    exfalso
    cases hr with
    | failed hlive hf =>
      cases hahead with
      | live _ hd =>
        cases hd with
        | ended hf' | more hf' => cases fill_unique hf hf'
      | ended hl' | failed hl' => simp [hlive] at hl'
    | released hlive =>
      cases hahead with
      | live hl' => simp [hlive] at hl'
      | failed _ _ he => exact he rfl
      | ended _ hempty =>
        -- The last chunk is the one of the cursor, which has a token.
        obtain ⟨chunk, hk, hcur⟩ := hp.chunk_eq
        have hnewest : s.layout.length - 1 = c.chunk := by
          have := hp.loaded
          rw [length_layout]
          omega
        rw [List.getLast?_eq_getElem?, hnewest, hk] at hempty
        cases hempty
        simp [hc] at hcur

end TokenStream

namespace TokenStream

variable {tokens : List τ} {ending : Option ReadError} {source : σ} {size : Nat}

theorem carries_unread (hd : Delivers (max size 1) source tokens ending) :
    (unread source size).Carries tokens ending :=
  ⟨by simp [Tidy, layout, unread], tokens, rfl, .live rfl hd⟩

theorem carries_openSource [LawfulSource σ τ] {fuel : Nat} {first : TokenStream σ τ} {events : Array Event}
    (hd : Delivers (max size 1) source tokens ending)
    (h : openSource fuel source size = some ⟨first, .ok (), events⟩) : first.Carries tokens ending :=
  (carries_unread hd).reading (reading_of_readChunk h)

/-- A stream over a source that does not fail can be opened. -/
theorem exists_openSource (hd : Delivers (max size 1) source tokens none) :
    ∃ fuel first events, openSource fuel source size = some ⟨first, .ok (), events⟩ := by
  have opened {fuel : Nat} {source' : σ} {buffer : Array τ} {events : Array Event}
      (hf : Source.fill fuel source #[] (max size 1) = some ⟨source', buffer, .ok (), events⟩) :
      ∃ fuel first events, openSource fuel source size = some ⟨first, .ok (), events⟩ := by
    refine ⟨fuel, ?_⟩
    simp only [openSource, unread, readChunk, if_true, hf]
    split <;> exact ⟨_, _, rfl⟩
  cases hd with
  | ended hf => exact opened hf
  | more hf => exact opened hf

theorem openSource_ok [LawfulSource σ τ] {fuel : Nat} {access : Access σ τ Unit}
    (hd : Delivers (max size 1) source tokens none) (h : openSource fuel source size = some access) :
    access.result = .ok () := by
  cases reading_of_readChunk h with
  | more | ended => rfl
  | released hl => cases hl
  | failed hl hf =>
    cases hd with
    | ended hf' | more hf' => cases fill_unique hf hf'

omit [Source σ τ] in
theorem carries_ofList (tokens : List τ) : (ofList tokens).Carries tokens none := by
  cases tokens with
  | nil =>
    refine ⟨?_, [], rfl, .ended rfl rfl rfl⟩
    intro k hk
    obtain rfl : k = 0 := by
      have := (List.getElem?_eq_some_iff.mp hk).1
      simpa [layout, ofList, ofArray] using this
    exact ⟨rfl, rfl⟩
  | cons t rest =>
    refine ⟨?_, [], by simp [TokenStream.tokens, layout, ofList, ofArray], .ended rfl ?_ rfl⟩
    · intro k hk
      have hlayout : (ofList (t :: rest)).layout = [t :: rest, []] := by simp [layout, ofList, ofArray]
      rw [hlayout] at hk
      rcases k with _ | _ | k
      · cases hk
      · exact ⟨rfl, rfl⟩
      · cases hk
    · simp [layout, ofList, ofArray]

end TokenStream

namespace Session

variable [LawfulSource σ τ] [Position π τ] {tokens : List τ} {ending : Option ReadError} {a b : Session σ τ π}

theorem carries_of_moves (h : a.stream.Carries tokens ending) (hm : Moves a b) :
    b.stream.Carries tokens ending := by
  induction hm with
  | refl => exact h
  | tail _ hmove ih =>
    cases hmove with
    | copied => exact ih
    | advanced hc ha => exact ih.advancing (TokenStream.advancing_of_advance ha)
    | failed hc ha => exact ih.advancing (TokenStream.advancing_of_advance ha)

theorem carries_of_opened {source : σ} {size : Nat} (hd : Delivers (max size 1) source tokens ending)
    (h : Opened source size a) : a.stream.Carries tokens ending := by
  obtain ⟨fuel, first, events, hopen, hcont⟩ := h
  exact carries_of_moves (TokenStream.carries_openSource hd hopen) (moves_of_continues hcont)

end Session

namespace Items

/-- The items up to the first moment at which nothing is left. -/
def sequence (entries : List (Option τ)) : List τ := (entries.takeWhile Option.isSome).filterMap id

theorem take_spec (max : Nat) (items : Items τ) (buffer : Array τ) :
    (items.take max buffer).1.pulled = items.pulled + min max (sequence items.rest).length ∧
      sequence (items.take max buffer).1.rest = (sequence items.rest).drop max ∧
      (items.take max buffer).2.toList = buffer.toList ++ (sequence items.rest).take max := by
  induction max generalizing items buffer with
  | zero => simp [take]
  | succ max ih =>
    obtain ⟨rest, pulled⟩ := items
    rcases rest with _ | ⟨_ | t, rest⟩
    · simp [take, sequence]
    · simp [take, sequence]
    · obtain ⟨hp, hr, hs⟩ := ih ⟨rest, pulled + 1⟩ (buffer.push t)
      have hseq : sequence (some t :: rest) = t :: sequence rest := by simp [sequence]
      simp only [take, hseq, hp, hr, hs]
      refine ⟨?_, by simp, by simp⟩
      simp only [List.length_cons]
      omega

theorem delivers {size : Nat} (hsize : 0 < size) (items : Items τ) :
    Delivers size items (sequence items.rest) none := by
  generalize hn : (sequence items.rest).length = n
  induction n using Nat.strongRecOn generalizing items with
  | ind n ih =>
    obtain ⟨-, hrest, hbuffer⟩ := take_spec size items #[]
    have hfill : Source.fill 0 items #[] size =
      some ⟨(items.take size #[]).1, (items.take size #[]).2, .ok (), #[]⟩ := rfl
    simp only [List.nil_append] at hbuffer
    cases hseq : sequence items.rest with
    | nil =>
      have hempty : (items.take size #[]).2 = #[] := by
        rw [hseq, List.take_nil] at hbuffer
        exact Array.toList_eq_nil_iff.mp hbuffer
      rw [hempty] at hfill
      exact .ended hfill
    | cons t rest =>
      have hlt : (sequence (items.take size #[]).1.rest).length < n := by
        rw [hrest, List.length_drop, hn]
        have : 0 < n := by rw [← hn, hseq]; simp
        omega
      have hd := ih _ hlt _ rfl
      have hne : (items.take size #[]).2.toList ≠ [] := by
        rw [hbuffer, hseq]
        cases size with
        | zero => cases hsize
        | succ size => simp
      have hmore := Delivers.more hfill hne hd
      rwa [hbuffer, hrest, List.take_append_drop, hseq] at hmore

end Items

end StreamParsing
