import StreamParsing.Proofs.Opacity.Following
import StreamParsing.Proofs.Opacity.Locality
import StreamParsing.Proofs.Stream.Remains

/-!
Runs over a stream whose source was let go or has failed. Such a run is refused a read, or it gives the reply that it
would give if the source were still there: it cannot come to the end unless the source reported the end.
-/

namespace StreamParsing

set_option autoImplicit false

universe u v

variable {σ : Type u} {σ' : Type v} {τ π ρ α β ω : Type} [Source σ τ] [Source σ' τ] [Position π τ]

namespace TokenStream

variable {s s₁ : TokenStream σ τ} {s' whole : TokenStream σ' τ} {c d : Cursor τ π}

omit [Source σ τ] [Position π τ] in
theorem loaded_of_token? {k i : Nat} {t : τ} (h : s.token? k i = some t) : k < s.chunks.size := by
  by_contra hle
  simp [token?, Array.getD_eq_getD_getElem?, Array.getElem?_eq_none (by omega : s.chunks.size ≤ k)] at h

/-- A move that succeeds without a source is the same move in every stream that goes on from what was read. -/
theorem advance_of_grows {fuel : Nat} {events : Array Event} (hl : s.live = false) (hs : s.layout <+: s'.layout)
    (h : s.advance fuel c = some ⟨s₁, .ok d, events⟩) :
    s'.advance fuel c = some ⟨s', .ok d, #[]⟩ ∧ s₁ = s ∧ events = #[] := by
  have hsize : s.chunks.size ≤ s'.chunks.size := by simpa using hs.length_le
  cases advancing_of_advance h with
  | still hc => exact ⟨by simp only [advance, hc], rfl, rfl⟩
  | inside hc hn =>
    have hn' := (token?_extend (loaded_of_token? hn) hs).trans hn
    exact ⟨by simp only [advance, hc, hn'], rfl, rfl⟩
  | across hc hn hlt =>
    have hn' := (token?_extend (by omega) hs).trans hn
    have hlt' : c.chunk + 1 < s'.chunks.size := by omega
    exact ⟨by simp only [advance, hc, hn', if_pos hlt', token?_extend hlt hs], rfl, rfl⟩
  | read hc hn hle hr =>
    cases hr with
    | more hl' | ended hl' => simp [hl] at hl'

/-- The stream runs beside itself, and its cursors are matched by their index. -/
structure Alone (s s₁ s₁' : TokenStream σ τ) (V : Matching τ π) : Prop where
  first : s₁ = s
  second : s₁' = s
  rel_iff : ∀ c c', V.rel c c' ↔ s.Level s c c'

omit [Source σ τ] in
theorem exists_alone (ht : s.Tidy) : ∃ V : Matching τ π, Alone s s s V := by
  refine ⟨⟨s.Level s, ?_, ?_, ?_⟩, rfl, rfl, fun _ _ => Iff.rfl⟩
  · intro c c' hc
    rw [hc.placed.position, hc.placed'.position, hc.index]
  · intro c c' hc
    rw [hc.placed.current_eq ht, hc.placed'.current_eq ht, hc.index]
  · intro c c' d d' hc hd
    rw [hc.placed.same_eq ht hd.placed, hc.placed'.same_eq ht hd.placed', hc.index, hd.index]

theorem joins_alone (hl : s.live = false) :
    Machine.Joins (Alone s : TokenStream σ τ → TokenStream σ τ → Matching τ π → Prop) := by
  intro s₁ s₂ s₁' s₂' V c c' d d' fuel fuel' events events' hJ hc ha ha'
  obtain ⟨rfl, rfl, hiff⟩ := hJ
  have hadv := advancing_of_advance ha
  have hadv' := advancing_of_advance ha'
  obtain rfl := hadv.later.released hl
  obtain rfl := hadv'.later.released hl
  refine ⟨V, le_rfl, ⟨rfl, rfl, hiff⟩, ?_⟩
  exact (hiff d d').mpr (((hiff c c').mp hc).advance (V.current hc) hadv hadv')

omit [Source σ τ] in
/-- All cursors of `s` are up to a place that the other stream can be read to, and up to there it has the same tokens. -/
theorem Supplies.exists_limit (h : s.Supplies s' whole) (ht : s.Tidy) (ht' : whole.Tidy) (hc : s.Placed c) :
    ∃ e : Cursor τ π, whole.Placed e ∧ (∀ j ≤ whole.indexOf e, s.tokens[j]? = whole.tokens[j]?) ∧
      ∀ d : Cursor τ π, s.Placed d → s.indexOf d ≤ whole.indexOf e := by
  by_cases hend : s.EndRead
  · obtain ⟨hend', htokens⟩ := h.ended hend
    obtain ⟨e, he, -, hindex⟩ := hend'.exists_placed π ht'
    refine ⟨e, he, fun j _ => by rw [htokens], ?_⟩
    intro d hd
    rw [hindex, htokens]
    exact hd.index_le
  · -- No cursor is at the end, so the last token is the limit.
    have hlt (d : Cursor τ π) (hd : s.Placed d) : s.indexOf d < s.tokens.length := by
      by_contra hle
      exact hend (hd.endRead_of_index ht (by omega))
    have hpos := hlt c hc
    obtain ⟨rest, hrest⟩ := h.tokens
    have hlen : s.tokens.length - 1 < whole.tokens.length := by
      rw [← hrest, List.length_append]
      omega
    obtain ⟨e, he, hindex⟩ := exists_placed_of_lt π hlen
    refine ⟨e, he, ?_, ?_⟩
    · intro j hj
      rw [← hrest, List.getElem?_append_left (by omega)]
    · intro d hd
      have := hlt d hd
      omega

/-- What moving a cursor gives, whatever became of the source. -/
structure Secured (s : TokenStream σ τ) (c : Cursor τ π) : Prop where
  atEnd : c.current = none → s.EndRead
  inside : s.indexOf c + 1 < s.tokens.length →
    ∃ d, (∀ fuel, s.advance fuel c = some ⟨s, .ok d, #[]⟩) ∧ s.indexOf d = s.indexOf c + 1
  toEnd : s.indexOf c + 1 = s.tokens.length → s.EndRead →
    ∃ d, (∀ fuel, s.advance fuel c = some ⟨s, .ok d, #[]⟩) ∧ d.current = none
  refused : s.indexOf c + 1 = s.tokens.length → ¬ s.EndRead → s.live = false →
    ∀ fuel, s.advance fuel c = some ⟨s, .error .released, #[]⟩
  denied : ∀ fuel s' e events, s.advance fuel c = some ⟨s', .error e, events⟩ → s.Denied e s'

theorem Placed.secured (ht : s.Tidy) (h : s.Placed c) : s.Secured c where
  atEnd := h.endRead
  inside := h.advance_inside ht
  toEnd := h.advance_to_end ht
  refused := h.advance_refused ht
  denied _ _ _ _ := denied_of_advance

end TokenStream

namespace Machine

variable {s : TokenStream σ τ} {s' : TokenStream σ' τ} {rules : Rules τ π ρ} {log : Array Event} {fuel : Nat}

def Progress.onto (s' : TokenStream σ' τ) : Progress σ τ π ρ ω → Progress σ' τ π ρ ω
  | .next store control => .next ⟨s', store.rules, store.log⟩ control
  | .done store reply => .done ⟨s', store.rules, store.log⟩ reply
  | .broken store e => .broken ⟨s', store.rules, store.log⟩ e
  | .starved => .starved

omit [Source σ τ] [Source σ' τ] in
theorem resume_onto (frame : Frame τ π ρ α β) (reply : Reply τ π α) (k : Stack τ π ρ β ω) :
    resume ⟨s', rules, log⟩ frame reply k = (resume ⟨s, rules, log⟩ frame reply k).onto s' := by
  cases frame with
  | zipRight f first | reshape hook start => rfl
  | zipLeft f q | orElse q start | seed loop | seedTill loop | stopTill loop round => cases reply <;> rfl
  | tryMap f start | tryBind check next start | itemTill loop round =>
    cases reply with
    | success value c =>
      simp only [resume]
      split <;> rfl
    | failure fault | abort fault => rfl
  | item loop round =>
    cases reply with
    | success value c | failure fault =>
      simp only [resume]
      split <;> rfl
    | abort fault => rfl

theorem step_onto {mid : Store σ τ π ρ} {control between : Control τ π ρ ω} (hl : s.live = false)
    (hs : s.layout <+: s'.layout) (h : step .counted fuel ⟨s, rules, log⟩ control = .next mid between) :
    mid.stream = s ∧ step .counted fuel ⟨s', rules, log⟩ control = .next ⟨s', mid.rules, mid.log⟩ between := by
  have hstream : mid.stream = s := by
    rcases stays_or_moves_of_step h with hstays | ⟨-, events, ha⟩
    · exact hstays.stream
    · exact (TokenStream.advance_of_grows hl hs ha).2.1
  refine ⟨hstream, ?_⟩
  have onto {progress : Progress σ' τ π ρ ω}
      (heq : progress = (step .counted fuel ⟨s, rules, log⟩ control).onto s') :
      progress = .next ⟨s', mid.rules, mid.log⟩ between := by
    rw [heq, h]
    rfl
  cases control with
  | back reply k =>
    cases k with
    | nil => cases h
    | cons frame k => exact onto (resume_onto frame reply k)
  | eval p c k =>
    cases p with
    | satisfy test =>
      cases hc : c.current.filter test with
      | none =>
        apply onto
        rw [step_satisfy_refused hc, step_satisfy_refused hc]
        rfl
      | some t =>
        rw [step_satisfy_taken hc] at h ⊢
        rcases ha : s.advance fuel c with _ | ⟨s₁, e | d, events⟩
        · simp [Store.access, ha] at h
        · simp [Store.access, ha] at h
        · obtain ⟨ha', rfl, rfl⟩ := TokenStream.advance_of_grows hl hs ha
          simp only [Store.access, ha, Option.map_some] at h
          simp only [Store.access, ha', Option.map_some]
          cases h
          rfl
    | endOfInput | fail message | rule number | handle number =>
      apply onto
      simp only [step, evaluate]
      split <;> rfl
    | _ => exact onto rfl

/-- A run that has a reply though there is no source is the same run over every stream that goes on from what was
read. -/
theorem run_onto {last : Store σ τ π ρ} {control : Control τ π ρ ω} {r : Reply τ π ω} (hl : s.live = false)
    (hs : s.layout <+: s'.layout) (h : run .counted fuel ⟨s, rules, log⟩ control = some ⟨last, .ok r⟩) :
    last.stream = s ∧ run .counted fuel ⟨s', rules, log⟩ control = some ⟨⟨s', last.rules, last.log⟩, .ok r⟩ := by
  induction fuel generalizing rules log control with
  | zero => simp [run] at h
  | succ fuel ih =>
    rw [run] at h ⊢
    cases hstep : step .counted fuel ⟨s, rules, log⟩ control with
    | starved | broken => simp [hstep] at h
    | done =>
      simp only [hstep] at h
      cases h
      obtain ⟨rfl, rfl⟩ := control_of_done hstep
      exact ⟨rfl, rfl⟩
    | next mid between =>
      obtain ⟨hstream, hstep'⟩ := step_onto hl hs hstep
      simp only [hstep, hstep'] at h ⊢
      obtain ⟨stream, rules₁, log₁⟩ := mid
      obtain rfl := hstream
      exact ih h

theorem released_of_run {last : Store σ τ π ρ} {control : Control τ π ρ ω} {e : ReadError} (hl : s.live = false)
    (h : run .counted fuel ⟨s, rules, log⟩ control = some ⟨last, .error e⟩) : e = .released := by
  induction fuel generalizing rules log control with
  | zero => simp [run] at h
  | succ fuel ih =>
    rw [run] at h
    cases hstep : step .counted fuel ⟨s, rules, log⟩ control with
    | starved | done => simp [hstep] at h
    | broken =>
      simp only [hstep] at h
      cases h
      obtain ⟨events, ha⟩ := advance_of_broken hstep
      cases TokenStream.denied_of_advance ha with
      | failed hl' => simp [hl] at hl'
      | released _ he => exact he
    | next mid between =>
      obtain ⟨stream, rules₁, log₁⟩ := mid
      obtain rfl := (step_onto hl List.prefix_rfl hstep).1
      simp only [hstep] at h
      exact ih h

end Machine
namespace Parser

variable {P : Likeness τ π ρ} {R : Likeness τ π α} {p : Parser τ π ρ α} {rules : Rules τ π ρ} {log : Array Event}
variable {s : TokenStream σ τ} {s' whole : TokenStream σ' τ} {c c' : Cursor τ π} {fuel : Nat}

omit [Source σ τ] in
theorem together_alone (hp : p.Like P .none R p) (hrules : rules.Like P .none rules) (ht : s.Tidy) (hc : s.Placed c)
    (log : Array Event) : ∃ V, Machine.Together (TokenStream.Alone s) P R ⟨s, rules, log⟩ (.eval p c .nil)
      ⟨s, rules, log⟩ (.eval p c .nil) V := by
  obtain ⟨V, hV⟩ := TokenStream.exists_alone (π := π) ht
  exact ⟨V, together_at hp hrules hV ((hV.rel_iff c c).mpr ⟨hc, hc, rfl⟩) log log⟩

/-- Without a source, a run of a parser that does not look into cursors passes only cursors of the stream. -/
theorem placed_of_passed (hp : p.Like P .none R p) (hrules : rules.Like P .none rules) (ht : s.Tidy)
    (hl : s.live = false) (hc : s.Placed c) {d : Cursor τ π}
    (hd : d ∈ Machine.passed fuel ⟨s, rules, log⟩ (.eval p c .nil)) : s.Placed d := by
  obtain ⟨V, htogether⟩ := together_alone hp hrules ht hc log
  obtain ⟨s₁, W, hW, hrel, -⟩ := Machine.matched_of_passed (TokenStream.joins_alone hl) htogether hd
  exact ((hW.rel_iff d d).mp hrel).placed

/-- A reply given without a source is the reply that any stream gives which can be read to the same tokens. -/
theorem exists_run_supplied [LawfulSource σ' τ] (hp : p.Like P .none R p) (hrules : rules.Like P .none rules) (ht : s.Tidy)
    (hl : s.live = false) (hc : s.Placed c) {last : Store σ τ π ρ} {r : Reply τ π α}
    (hr : p.run fuel ⟨s, rules, log⟩ c = some ⟨last, .ok r⟩) (hs : s.Supplies s' whole) (ht' : s'.Tidy)
    (hc' : s'.Placed c') (hindex : s.indexOf c = s'.indexOf c') (log' : Array Event) :
    ∃ fuel' last' r', p.run fuel' ⟨s', rules, log'⟩ c' = some ⟨last', .ok r'⟩ ∧
      Observed R s last'.stream r r' := by
  obtain rfl : last.stream = s := (Machine.run_onto hl List.prefix_rfl hr).1
  have hwhole : whole.Tidy := hs.toward.becomes.tidy ht'
  obtain ⟨e, he, htokens, hlimit⟩ := hs.exists_limit ht hwhole hc
  have hA : TokenStream.AgreeUpTo (whole.indexOf e) last.stream whole := ⟨ht, hwhole, htokens⟩
  obtain ⟨V, hV⟩ := TokenStream.exists_near (π := π) hA List.prefix_rfl hs.toward
  have hrel : V.rel c c' := (hV.rel_iff c c').mpr ⟨⟨hc, hc', hindex⟩, hlimit c hc⟩
  have htogether := together_at hp hrules hV hrel log log'
  obtain ⟨n, last', r', W, hleaves, hlast, hreply⟩ :=
    Machine.run_follows hA he rfl htogether hr fun d hd => hlimit d (placed_of_passed hp hrules ht hl hc hd)
  obtain ⟨fuel', hrun⟩ := Machine.run_of_leaves hleaves
  refine ⟨fuel', last', r', hrun, W, ?_, hreply⟩
  intro x x' hx
  exact ((hlast.rel_iff x x').mp hx).1

end Parser

namespace Session

/-- Losing the source does not change replies. However a stream was used and whenever its source was let go or failed,
all tokens read can be passed, and a move over the last one is refused each time unless the end was read; only an end
that the source reported is ever seen. A run is refused, or it gives the reply that it gives over every stream which
goes on from the same chunks; and if its parser does not look into cursors, over every stream that can be read to the
same tokens. Any other use of the same source makes such a stream. -/
theorem loss_keeps_replies [LawfulSource σ τ] :
    (∀ (first : TokenStream σ τ) (a : Session σ τ π), first.Initial → History first a →
      (∀ c ∈ a.cursors, a.stream.Secured c) ∧
      (a.stream.live = false →
        (∀ b, Relation.ReflTransGen Deed a b → b.stream = a.stream) ∧
        ∀ (ρ α : Type) (p : Parser τ π ρ α) (rules : Rules τ π ρ), ∀ c ∈ a.cursors, ∀ fuel log finish,
          p.run fuel ⟨a.stream, rules, log⟩ c = some finish →
          finish.result = .error .released ∨ ∃ r, finish.result = .ok r ∧
            (∀ (σ' : Type v) [Source σ' τ] (s' : TokenStream σ' τ), a.stream.layout <+: s'.layout →
              p.run fuel ⟨s', rules, log⟩ c = some ⟨⟨s', finish.store.rules, finish.store.log⟩, .ok r⟩) ∧
            ∀ (P : Likeness τ π ρ) (R : Likeness τ π α), p.Like P .none R p → rules.Like P .none rules →
              ∀ (σ' : Type v) [Source σ' τ] [LawfulSource σ' τ] (first' : TokenStream σ' τ) (a' : Session σ' τ π)
                whole, first'.Initial → History first' a' → a.stream.Supplies a'.stream whole → ∀ c' ∈ a'.cursors,
                  a.stream.indexOf c = a'.stream.indexOf c' → ∀ log', ∃ fuel' last' r',
                    p.run fuel' ⟨a'.stream, rules, log'⟩ c' = some ⟨last', .ok r'⟩ ∧
                      Observed R a.stream last'.stream r r')) ∧
    ∀ (source : σ) (size fuel : Nat) (first : TokenStream σ τ) (events : Array Event) (a : Session σ τ π),
      TokenStream.openSource fuel source size = some ⟨first, .ok (), events⟩ → History first a →
        (a.stream.EndRead →
          ∃ chunks, a.stream.chunks = chunks.push #[] ∧ TokenStream.EndsAfter source (max size 1) chunks) ∧
        ∀ a' : Session σ τ π, Opened source size a' → ∃ whole, a.stream.Supplies a'.stream whole := by
  refine ⟨?_, ?_⟩
  · intro first a hfirst h
    obtain ⟨htidy, hplaced⟩ := h.sound hfirst
    refine ⟨fun c hc => (hplaced c hc).secured htidy, ?_⟩
    intro hl
    refine ⟨fun b hb => (later_of_deeds hb).released hl, ?_⟩
    intro ρ α p rules c hc fuel log finish hr
    obtain ⟨last, e | r⟩ := finish
    · exact .inl (congrArg _ (Machine.released_of_run hl hr))
    · refine .inr ⟨r, rfl, fun σ' _ s' hs => (Machine.run_onto hl hs hr).2, ?_⟩
      intro P R hp hrules σ' _ _ first' a' whole hfirst' h' hs c' hc' hindex log'
      obtain ⟨htidy', hplaced'⟩ := h'.sound hfirst'
      exact Parser.exists_run_supplied hp hrules htidy hl (hplaced c hc) hr hs htidy' (hplaced' c' hc') hindex log'
  · intro source size fuel first events a hopen h
    have hdrawn := h.drawn hopen
    have hsound := h.sound (.opened hopen)
    refine ⟨hdrawn.endsAfter hsound.tidy, ?_⟩
    intro a' h'
    have hreads := reads_of_opened h'
    exact hdrawn.exists_supplies hsound.tidy hreads.readFrom hreads.sound.tidy

/-- Two items in one chunk, behind which the source fails. -/
def brokenOff : TokenStream (Batches Nat) Nat := ⟨#[#[4, 7]], ⟨[⟨#[9], some (.device "broken")⟩], 2, 1⟩, true, 2, 1⟩

/-- A move over the second item has failed. -/
def afterFailure : Session (Batches Nat) Nat LinearPosition where
  stream := ⟨#[#[4, 7]], ⟨[], 3, 2⟩, false, 2, 1⟩
  cursors := [⟨0, 0, ⟨0⟩, some 4⟩, ⟨0, 1, ⟨1⟩, some 7⟩]

theorem history_afterFailure : History brokenOff afterFailure := by
  let start : Cursor Nat LinearPosition := ⟨0, 0, ⟨0⟩, some 4⟩
  let second : Cursor Nat LinearPosition := ⟨0, 1, ⟨1⟩, some 7⟩
  have hmove : Use ⟨brokenOff, [start]⟩ ⟨brokenOff, [start, second]⟩ := by
    have h : brokenOff.advance 0 start = some ⟨brokenOff, .ok second, #[]⟩ := rfl
    exact .advance (.head _) h
  have hfail : Use ⟨brokenOff, [start, second]⟩ afterFailure := by
    have h : brokenOff.advance 0 second = some ⟨afterFailure.stream, .error (.device "broken"),
      #[.readFailed (.device "broken")]⟩ := rfl
    exact .advance (.tail _ (.head _)) h
  exact ((Relation.ReflTransGen.single (.use hmove)).tail (.use hfail)).tail .release

/-- The first item is still found, as among tokens that are all there; nothing is found after the second. -/
theorem loss_keeps_replies_afterFailure :
    let second : Cursor Nat LinearPosition := ⟨0, 1, ⟨1⟩, some 7⟩
    let whole : TokenStream (NoSource Nat) Nat := .ofList [4, 7, 9]
    (∀ fuel, afterFailure.stream.advance fuel second = some ⟨afterFailure.stream, .error .released, #[]⟩) ∧
      (∃ fuel last r, Parser.itemNotBeforeEight.run fuel ⟨whole, .empty, #[]⟩ whole.start = some ⟨last, .ok r⟩ ∧
        Observed (.pair .cursor (.equal Nat)) afterFailure.stream last.stream
          (.success (⟨0, 0, ⟨0⟩, some 4⟩, 4) second) r) ∧
      ∃ supplied, afterFailure.stream.Supplies brokenOff supplied := by
  intro second whole
  have hopen : TokenStream.openSource 0 (Batches.ofList [⟨#[4, 7], none⟩, ⟨#[9], some (.device "broken")⟩]) 2 =
    some ⟨brokenOff, .ok (), #[.chunkRead 0 2]⟩ := rfl
  have hrules : (.empty : Rules Nat LinearPosition Unit).Like (.equal Unit) .none .empty :=
    ⟨rfl, fun he => by simp [Rules.empty] at he⟩
  have hrun : Parser.itemNotBeforeEight.run 40 ⟨afterFailure.stream, .empty, #[]⟩ ⟨0, 0, ⟨0⟩, some 4⟩ =
    some ⟨⟨afterFailure.stream, .empty, #[]⟩, .ok (.success (⟨0, 0, ⟨0⟩, some 4⟩, 4) second)⟩ := rfl
  have hend : ¬ afterFailure.stream.EndRead := by
    change [] ∉ [[4, 7]]
    decide
  have hsupplies : afterFailure.stream.Supplies whole whole :=
    ⟨.refl, ⟨[9], rfl⟩, fun h => absurd h hend⟩
  obtain ⟨hlost, hopened⟩ := loss_keeps_replies (σ := Batches Nat) (τ := Nat) (π := LinearPosition)
  obtain ⟨hsecured, hruns⟩ := hlost _ _ (.opened hopen) history_afterFailure
  refine ⟨(hsecured second (.tail _ (.head _))).refused rfl hend rfl, ?_, ?_⟩
  · rcases (hruns rfl).2 Unit _ _ _ _ (.head _) 40 #[] _ hrun with he | ⟨r, hr, -, hobserved⟩
    · cases he
    · cases hr
      obtain ⟨fuel, last, r', hrun', hlike⟩ := hobserved (.equal Unit) (.pair .cursor (.equal Nat))
        Parser.like_itemNotBeforeEight hrules _ whole ⟨whole, [whole.start]⟩ whole (.whole rfl rfl) .refl hsupplies _
        (.head _) rfl #[]
      exact ⟨fuel, last, r', hrun', hlike⟩
  · exact (hopened _ _ _ _ _ _ hopen history_afterFailure).2 ⟨brokenOff, [brokenOff.start]⟩ ⟨0, _, _, hopen, .refl⟩

end Session

end StreamParsing
