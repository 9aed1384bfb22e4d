import StreamParsing.Proofs.Tokens.Tokenizing

/-!
All tokens of a source. A stream is opened over the source and everything from its start is taken: the answer is the
tokens that the source delivers, or the error that it fails with, however many chunks are read on the way.
-/

namespace StreamParsing

set_option autoImplicit false

universe u

variable {σ : Type u} {τ π : Type} [Source σ τ]

namespace TokenStream

omit [Source σ τ] in
/-- The tokens that are delivered, or the error that takes the place of the end. -/
def answer (tokens : List τ) : Option ReadError → Except ReadError (Array τ)
  | none => .ok tokens.toArray
  | some e => .error e

/-- All tokens of a source, taken from the start of a stream that is opened over it. -/
def readAll (π : Type) [Position π τ] (fuel : Nat) (source : σ) (size : Nat) : Option (Except ReadError (Array τ)) :=
  match openSource fuel source size with
  | none => none
  | some ⟨_, .error e, _⟩ => some (.error e)
  | some ⟨s, .ok _, _⟩ => (s.remaining fuel (s.start : Cursor τ π)).map (·.result)

variable {s : TokenStream σ τ} {c : Cursor τ π} {tokens : List τ} {e : ReadError} {fuel fuel' : Nat}

theorem exists_fill_of_delivers {size : Nat} {source : σ} {ending : Option ReadError}
    (h : Delivers size source tokens ending) : ∃ fuel fill, Source.fill fuel source #[] size = some fill := by
  cases h with
  | ended hf => exact ⟨_, _, hf⟩
  | more hf => exact ⟨_, _, hf⟩
  | failed lost hf => exact ⟨_, _, hf⟩

theorem Carries.delivers {ending : Option ReadError} (h : s.Carries tokens ending) (hl : s.live = true) :
    ∃ rest, Delivers s.chunkSize s.source rest ending := by
  obtain ⟨rest, -, hahead⟩ := h.ahead
  cases hahead with
  | live _ hd => exact ⟨rest, hd⟩
  | ended hl' | failed hl' => simp [hl] at hl'

section

variable [LawfulSource σ τ]

/-- A read from a source that is to fail gives tokens or fails with the error. -/
theorem Carries.reading_of_error {access : Access σ τ Unit} (h : s.Carries tokens (some e)) (hl : s.live = true)
    (hr : Reading s access) : access.result = .error e ∨ access.stream.live = true := by
  obtain ⟨rest, hd⟩ := h.delivers hl
  cases hr with
  | more => exact .inr rfl
  | ended _ hf =>
    cases hd with
    | more hf' hb => cases fill_unique hf hf'; exact absurd rfl hb
    | failed lost hf' => cases fill_unique hf hf'
  | failed _ hf =>
    cases hd with
    | more hf' => cases fill_unique hf hf'
    | failed lost hf' =>
      cases fill_unique hf hf'
      exact .inl rfl
  | released hl' => simp [hl] at hl'

variable [Position π τ]

theorem Carries.advancing_of_error {access : Access σ τ (Cursor τ π)} (h : s.Carries tokens (some e))
    (hl : s.live = true) (ha : Advancing s c access) :
    access.result = .error e ∨ access.stream.live = true ∧ ∃ d, access.result = .ok d := by
  cases ha with
  | still | inside | across => exact .inr ⟨hl, _, rfl⟩
  | read _ _ _ hr =>
    rcases h.reading_of_error hl hr with herror | hlive
    · cases herror
    · exact .inr ⟨hlive, _, rfl⟩
  | stopped _ _ _ hr =>
    rcases h.reading_of_error hl hr with herror | hlive
    · cases herror
      exact .inl rfl
    · simp [hr.layout_of_error.2] at hlive

omit [Source σ τ] [LawfulSource σ τ] in
/-- No cursor is at the end of a stream that still has its source. -/
theorem Placed.exists_current (hp : s.Placed c) (ht : s.Tidy) (hl : s.live = true) : ∃ t, c.current = some t := by
  cases hc : c.current with
  | some t => exact ⟨t, rfl⟩
  | none =>
    have hdead := (ht _ (hp.chunk_of_end hc)).2
    simp [hl] at hdead

theorem Carries.error_of_remaining {found : Array τ} {events : Array Event} {access : Access σ τ (Array τ)}
    (h : s.Carries tokens (some e)) (hl : s.live = true) (hp : s.Placed c)
    (hr : s.remainingAfter fuel c found events = some access) : access.result = .error e := by
  induction fuel generalizing s c found events with
  | zero => cases hr
  | succ fuel ih =>
    unfold remainingAfter at hr
    obtain ⟨t, hc⟩ := hp.exists_current h.tidy hl
    simp only [hc] at hr
    rcases ha : s.advance fuel c with _ | ⟨s', result, more⟩
    · simp [ha] at hr
    · have hadv := advancing_of_advance ha
      rcases h.advancing_of_error hl hadv with herror | ⟨hlive, d, hok⟩
      · obtain rfl : result = .error e := herror
        simp only [ha] at hr
        cases hr
        rfl
      · obtain rfl : result = .ok d := hok
        simp only [ha] at hr
        exact ih (h.advancing hadv) hlive (hadv.placed hp) hr

/-- By induction on the tokens that the source can still deliver. -/
theorem Carries.exists_remaining_of_error (h : s.Carries tokens (some e)) (hl : s.live = true) (hp : s.Placed c)
    (found : Array τ) (events : Array Event) : ∃ fuel access, s.remainingAfter fuel c found events = some access := by
  generalize hn : tokens.length - s.indexOf c = n
  induction n using Nat.strongRecOn generalizing s c found events with
  | ind n ih =>
    obtain ⟨t, hc⟩ := hp.exists_current h.tidy hl
    obtain ⟨fuel, read, hread⟩ := exists_readChunk_of_fill (s := s) fun hl =>
      exists_fill_of_delivers (h.delivers hl).choose_spec
    obtain ⟨⟨s', result, more⟩, ha⟩ := exists_advance_of_readChunk hread c
    have hadv := advancing_of_advance ha
    rcases h.advancing_of_error hl hadv with herror | ⟨hlive, d, hok⟩
    · obtain rfl : result = .error e := herror
      refine ⟨fuel + 1, ?_⟩
      unfold remainingAfter
      simp only [hc, ha]
      exact ⟨_, rfl⟩
    · obtain rfl : result = .ok d := hok
      have hindex : s'.indexOf d = s.indexOf c + 1 := hadv.indexOf_eq hp hc
      have hlt : s.indexOf c < tokens.length := by
        rw [hp.current_of_carries h] at hc
        exact (List.getElem?_eq_some_iff.mp hc).1
      obtain ⟨fuel', access, hr⟩ :=
        ih (tokens.length - s'.indexOf d) (by omega) (h.advancing hadv) hlive (hadv.placed hp) (found.push t)
          (events ++ more) rfl
      refine ⟨max fuel fuel' + 1, access, ?_⟩
      unfold remainingAfter
      rw [advance_of_le (Nat.le_max_left ..) ha]
      simp only [hc]
      exact remainingAfter_of_le (Nat.le_max_right ..) hr

/-- A stream over a source that is to fail has its source when it was opened. -/
theorem opened_of_delivers (π : Type) [Position π τ] {source : σ} {size : Nat} {ending : Option ReadError}
    {events : Array Event} (hd : Delivers (max size 1) source tokens ending)
    (h : openSource fuel source size = some ⟨s, .ok (), events⟩) :
    s.Carries tokens ending ∧ s.Placed (s.start : Cursor τ π) ∧ ∀ e, ending = some e → s.live = true := by
  refine ⟨carries_openSource hd h, placed_start ?_, ?_⟩
  · rw [(Session.tidy_of_openSource h).2]
    exact Nat.one_pos
  · rintro e rfl
    rcases (carries_unread hd).reading_of_error rfl (reading_of_readChunk h) with herror | hlive
    · cases herror
    · exact hlive

/-- What is read from a source is what it delivers. -/
theorem readAll_eq_answer {source : σ} {size : Nat} {ending : Option ReadError} {result : Except ReadError (Array τ)}
    (hd : Delivers (max size 1) source tokens ending) (h : readAll π fuel source size = some result) :
    result = answer tokens ending := by
  unfold readAll at h
  rcases hopen : openSource fuel source size with _ | ⟨s, e' | ok, events⟩
  all_goals simp only [hopen] at h
  · cases h
  · cases h
    cases ending with
    | none => cases openSource_ok hd hopen
    | some e =>
      have hreading := reading_of_readChunk hopen
      rcases (carries_unread hd).reading_of_error rfl hreading with herror | hlive
      · exact congrArg Except.error (Except.error.inj herror)
      · simp [hreading.layout_of_error.2] at hlive
  · simp only [Option.map_eq_some_iff] at h
    obtain ⟨access, hremaining, rfl⟩ := h
    obtain ⟨hcarries, hplaced, hlive⟩ := opened_of_delivers π hd hopen
    cases ending with
    | none =>
      have hstart : s.indexOf (s.start : Cursor τ π) = 0 := rfl
      simpa [answer, hstart] using hcarries.result_of_remaining hplaced hremaining
    | some e => exact hcarries.error_of_remaining (hlive e rfl) hplaced hremaining

theorem exists_readAll (π : Type) [Position π τ] {source : σ} {size : Nat} {ending : Option ReadError}
    (hd : Delivers (max size 1) source tokens ending) :
    ∃ fuel, readAll π fuel source size = some (answer tokens ending) := by
  obtain ⟨fuel, ⟨s, e' | ok, events⟩, hopen⟩ := exists_readChunk_of_fill (s := unread source size) fun _ =>
    exists_fill_of_delivers hd
  · have hread : readAll π fuel source size = some (.error e') := by simp only [readAll, openSource, hopen]
    exact ⟨fuel, by rw [hread, readAll_eq_answer hd hread]⟩
  · obtain ⟨hcarries, hplaced, hlive⟩ := opened_of_delivers π hd hopen
    obtain ⟨fuel', access, hremaining⟩ : ∃ fuel access,
        s.remainingAfter fuel (s.start : Cursor τ π) #[] #[] = some access := by
      cases ending with
      | none => exact hcarries.exists_remaining hplaced #[] #[]
      | some e => exact hcarries.exists_remaining_of_error (hlive e rfl) hplaced #[] #[]
    have hread : readAll π (max fuel fuel') source size = some access.result := by
      have hopen' := readChunk_of_le (Nat.le_max_left fuel fuel') hopen
      have hremaining' := remainingAfter_of_le (Nat.le_max_right fuel fuel') hremaining
      simp only [readAll, openSource, hopen', remaining, hremaining', Option.map_some]
    exact ⟨max fuel fuel', by rw [hread, readAll_eq_answer hd hread]⟩

end

end TokenStream

end StreamParsing
