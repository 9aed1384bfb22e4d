import StreamParsing.Proofs.Machine.Finite
import StreamParsing.Proofs.Machine.Forward
import StreamParsing.Proofs.Stream.Delivery

/-!
Runs end, except for left recursion. Over a stream that ends, a finite parser whose definitions are entered again only
behind the place where they were entered has a reply. The proof is by the tokens that are left, then by the unfolding of
the parser: a definition that is entered where nothing was consumed is one more that may not be entered there again.
Loops end for reasons of their own: those with an upper bound by counting, the others by running out of tokens or by
consuming nothing once they have run often enough.
-/

namespace StreamParsing

set_option autoImplicit false

universe u

variable {σ : Type u} {τ π ρ α β γ ω : Type}

namespace TokenStream

variable [Source σ τ] {s : TokenStream σ τ} {tokens : List τ}

theorem Carries.exists_readChunk (h : s.Carries tokens none) : ∃ fuel access, s.readChunk fuel = some access := by
  obtain ⟨rest, -, hahead⟩ := h.ahead
  obtain ⟨chunks, source, live, chunkSize, chunksRead⟩ := s
  cases hahead with
  | ended hl | failed hl =>
    cases hl
    exact ⟨0, _, rfl⟩
  | live hl hd =>
    cases hl
    have hfill : ∃ fuel fill, Source.fill fuel source #[] chunkSize = some fill := by
      cases hd with
      | ended hf => exact ⟨_, _, hf⟩
      | more hf => exact ⟨_, _, hf⟩
    obtain ⟨fuel, ⟨source', buffer, e | ok, events⟩, hf⟩ := hfill
    · exact ⟨fuel, by simp only [readChunk, if_true, hf]; exact ⟨_, rfl⟩⟩
    · refine ⟨fuel, ?_⟩
      simp only [readChunk, if_true, hf]
      split <;> exact ⟨_, rfl⟩

/-- Over a source that ends, every cursor moves if a read is given enough fuel. -/
theorem Carries.exists_advance [LawfulSource σ τ] [Position π τ] {c : Cursor τ π} (h : s.Carries tokens none)
    (hp : s.Placed c) : ∃ fuel s' d events, s.advance fuel c = some ⟨s', .ok d, events⟩ := by
  obtain ⟨fuel, read, hr⟩ := h.exists_readChunk
  obtain ⟨⟨s', result, events⟩, ha⟩ := exists_advance_of_readChunk hr c
  obtain ⟨d, hd⟩ := h.advance_ok hp (advancing_of_advance ha)
  cases hd
  exact ⟨fuel, s', d, events, ha⟩

end TokenStream

namespace Machine

variable [Source σ τ] [Position π τ]

section Inside

variable {store mid store' : Store σ τ π ρ} {control between control' : Control τ π ρ ω}

/-- A path that has not yet come back to `k`. -/
inductive Inside (k : Stack τ π ρ β ω) :
    Store σ τ π ρ → Control τ π ρ ω → Store σ τ π ρ → Control τ π ρ ω → Prop where
  | refl (store : Store σ τ π ρ) (control : Control τ π ρ ω) : Inside k store control store control
  | cons {store mid store' : Store σ τ π ρ} {control between control' : Control τ π ρ ω} : Within k control →
      Moves .counted store control mid between → Inside k mid between store' control' →
        Inside k store control store' control'

variable {k : Stack τ π ρ β ω} {frame : Frame τ π ρ γ β}

theorem Inside.trans (h : Inside k store control mid between) (h' : Inside k mid between store' control') :
    Inside k store control store' control' := by
  induction h with
  | refl => exact h'
  | cons hw hm _ ih => exact .cons hw hm (ih h')

theorem Inside.path (h : Inside k store control store' control') : Path .counted store control store' control' := by
  induction h with
  | refl => exact .refl _ _
  | cons _ hm _ ih => exact .cons hm ih

theorem Inside.of_cons (h : Inside (.cons frame k) store control store' control') :
    Inside k store control store' control' := by
  induction h with
  | refl => exact .refl _ _
  | cons hw hm _ ih => exact .cons hw.of_cons hm ih

theorem Leaves.inside {n : Nat} {reply : Reply τ π β} (h : Leaves .counted k n store control store' (.ok reply)) :
    Inside k store control store' (.back reply k) := by
  generalize hr : (Except.ok reply : Except ReadError (Reply τ π β)) = result at h
  induction h with
  | back =>
    cases hr
    exact .refl _ _
  | broken => cases hr
  | step hw hm _ ih => exact .cons hw hm (ih hr)

/-- Inside an activation of a definition, handles to it are met only behind the place where the activation began. -/
def NoLeftRecursion (store : Store σ τ π ρ) (control : Control τ π ρ ω) : Prop :=
  ∀ (began mid met : Store σ τ π ρ) (number : Nat) (p : Parser τ π ρ ρ) (c d : Cursor τ π) (k k' : Stack τ π ρ ρ ω)
    (between : Control τ π ρ ω), Path .counted store control began (.eval p c k) →
    p = .rule number ∨ p = .handle number → Moves .counted began (.eval p c k) mid between →
    Inside k mid between met (.eval (.handle number) d k') → met.stream.indexOf c < met.stream.indexOf d

theorem NoLeftRecursion.of_path (h : NoLeftRecursion store control) (hp : Path .counted store control mid between) :
    NoLeftRecursion mid between :=
  fun _ _ _ _ _ _ _ _ _ _ hp' => h _ _ _ _ _ _ _ _ _ _ (hp.trans hp')

/-- Before the run comes back to `k`, handles to the definitions in `active` are met only behind the index `i`. -/
def Spares (active : List Nat) (i : Nat) (k : Stack τ π ρ β ω) (store : Store σ τ π ρ) (control : Control τ π ρ ω) :
    Prop :=
  ∀ number ∈ active, ∀ (met : Store σ τ π ρ) (d : Cursor τ π) (k' : Stack τ π ρ ρ ω),
    Inside k store control met (.eval (.handle number) d k') → i < met.stream.indexOf d

end Inside

section Halts

variable {store mid store' : Store σ τ π ρ} {control between : Control τ π ρ ω} {k : Stack τ π ρ β ω}

/-- The run comes back to `k` with a reply. -/
def Halts (k : Stack τ π ρ β ω) (store : Store σ τ π ρ) (control : Control τ π ρ ω) : Prop :=
  ∃ store' reply, Finishes .counted k store control store' (.ok reply)

theorem Halts.here (store : Store σ τ π ρ) (reply : Reply τ π β) : Halts k store (.back reply k) :=
  ⟨store, reply, .here store reply⟩

theorem Halts.step (hw : Within k control) (hm : Moves .counted store control mid between) (h : Halts k mid between) :
    Halts k store control := by
  obtain ⟨store', reply, hf⟩ := h
  exact ⟨store', reply, hf.step hw hm⟩

/-- A frame that answers at once. -/
theorem Halts.answered {frame : Frame τ π ρ α β} {reply : Reply τ π α} {answer : Reply τ π β}
    (hm : Moves .counted store (.back reply (.cons frame k)) mid (.back answer k)) :
    Halts k store (.back reply (.cons frame k)) := .step (within_back _ _ _) hm (.here _ _)

variable [LawfulSource σ τ] {tokens : List τ}

theorem halts_leaf {p : Parser τ π ρ β} {c : Cursor τ π} (hp : p.IsLeaf) (hs : store.stream.Carries tokens none)
    (hc : store.stream.Placed c) : Halts k store (.eval p c k) := by
  have answered {store' : Store σ τ π ρ} {answer : Reply τ π β}
      (hm : Moves .counted store (.eval p c k) store' (.back answer k)) : Halts k store (.eval p c k) :=
    .step (within_eval _ _ _) hm (.here _ _)
  cases p with
  | pure | peek | abort => exact answered ⟨0, rfl⟩
  | endOfInput => exact answered moves_endOfInput
  | fail message => exact answered (moves_fail message)
  | satisfy test =>
    cases htoken : c.current.filter test with
    | none => exact answered ⟨0, step_satisfy_refused htoken⟩
    | some t =>
      obtain ⟨fuel, s', d, events, ha⟩ := hs.exists_advance hc
      have haccess : store.access (·.advance fuel c) =
          some (⟨s', store.rules, store.log ++ events⟩, .ok d) := by simp [Store.access, ha]
      exact answered (moves_taken htoken haccess)
  | _ => exact hp.elim

end Halts

section Going

variable [LawfulSource σ τ]

/-- What holds all along a run that is to come back to `k`, with the definitions in `active` entered at the index `i`
or before it. -/
structure Going (first : TokenStream σ τ) (tokens : List τ) (rules : Rules τ π ρ) (active : List Nat) (i : Nat)
    (k : Stack τ π ρ β ω) (store : Store σ τ π ρ) (control : Control τ π ρ ω) : Prop where
  carries : store.stream.Carries tokens none
  becomes : first.Becomes store.stream
  hooked : store.rules.Hooked (Hook.Forward first)
  grown : rules.Grows store.rules
  productive : NoLeftRecursion store control
  spared : Spares active i k store control

variable {first : TokenStream σ τ} {tokens : List τ} {rules : Rules τ π ρ} {active : List Nat} {i : Nat}
variable {k : Stack τ π ρ β ω} {store mid : Store σ τ π ρ} {control between : Control τ π ρ ω}

omit [LawfulSource σ τ] in
theorem Going.moves (h : Going first tokens rules active i k store control) (hw : Within k control)
    (hm : Moves .counted store control mid between) (hs : mid.stream = store.stream) (hr : mid.rules = store.rules) :
    Going first tokens rules active i k mid between where
  carries := hs ▸ h.carries
  becomes := hs ▸ h.becomes
  hooked := hr ▸ h.hooked
  grown := hr ▸ h.grown
  productive := h.productive.of_path (.cons hm (.refl _ _))
  spared := fun number hn met d k' hin => h.spared number hn met d k' (.cons hw hm hin)

omit [LawfulSource σ τ] in
theorem Going.above {frame : Frame τ π ρ α β} (h : Going first tokens rules active i k store control) :
    Going first tokens rules active i (.cons frame k) store control :=
  ⟨h.carries, h.becomes, h.hooked, h.grown, h.productive,
    fun number hn met d k' hin => h.spared number hn met d k' hin.of_cons⟩

/-- The parser has a reply wherever it is run at the index `i` or behind it. -/
def Ends (first : TokenStream σ τ) (tokens : List τ) (rules : Rules τ π ρ) (active : List Nat) (i : Nat)
    (p : Parser τ π ρ α) : Prop :=
  ∀ (ω : Type) (k : Stack τ π ρ α ω) (store : Store σ τ π ρ) (c : Cursor τ π),
    Going first tokens rules active i k store (.eval p c k) → store.stream.Placed c →
    i ≤ store.stream.indexOf c → Halts k store (.eval p c k)

variable {p : Parser τ π ρ α} {frame : Frame τ π ρ α β} {c : Cursor τ π}

/-- A run above a frame comes back to the frame, and ends if it ends from there. -/
theorem Ends.then (hp : Ends first tokens rules active i p) (hhook : p.Hooked (Hook.Forward first))
    (hg : Going first tokens rules active i k store (.eval p c (.cons frame k))) (hc : store.stream.Placed c)
    (hi : i ≤ store.stream.indexOf c)
    (hnext : ∀ mid reply, Going first tokens rules active i k mid (.back reply (.cons frame k)) →
      mid.stream.Reaches c reply.cursor → mid.stream.indexOf c = store.stream.indexOf c →
      Halts k mid (.back reply (.cons frame k))) :
    Halts k store (.eval p c (.cons frame k)) := by
  obtain ⟨mid, reply, hf⟩ := hp _ _ store c hg.above hc hi
  have hforward : Forwarded (fun s => s.Carries tokens none ∧ first.Becomes s) (Hook.Forward first) store.stream c mid
      (.ok reply) := by
    have hjob : Finishes .counted (.cons frame k) store ((Job.run p c).control (.cons frame k)) mid (.ok reply) := hf
    refine forwarded_of_finishes (fun s hs => hs.2) ?_ hjob ⟨hg.carries, hg.becomes⟩ hg.hooked hhook hc
    exact fun s d access hs ha => ⟨hs.1.advancing ha, hs.2.advancing ha⟩
  have hin : Inside k store (.eval p c (.cons frame k)) mid (.back reply (.cons frame k)) := by
    obtain ⟨n, hl⟩ := hf
    exact hl.inside.of_cons
  have hback : Going first tokens rules active i k mid (.back reply (.cons frame k)) :=
    { carries := hforward.stream.1
      becomes := hforward.stream.2
      hooked := hforward.rules
      grown := hg.grown.trans (grows_of_path hin.path)
      productive := hg.productive.of_path hin.path
      spared := fun number hn met d k' hin' => hg.spared number hn met d k' (hin.trans hin') }
  have hindex := hc.indexOf_extend hforward.later.grows
  obtain ⟨store', answer, hf'⟩ := hnext mid reply hback (hforward.reaches reply rfl) hindex
  exact ⟨store', answer, hf.lift hf'⟩

theorem Ends.through {start : Control τ π ρ ω} (hp : Ends first tokens rules active i p)
    (hhook : p.Hooked (Hook.Forward first)) (hg : Going first tokens rules active i k store start)
    (hw : Within k start) (hm : Moves .counted store start store (.eval p c (.cons frame k)))
    (hc : store.stream.Placed c) (hi : i ≤ store.stream.indexOf c)
    (hnext : ∀ mid reply, Going first tokens rules active i k mid (.back reply (.cons frame k)) →
      mid.stream.Reaches c reply.cursor → mid.stream.indexOf c = store.stream.indexOf c →
      Halts k mid (.back reply (.cons frame k))) :
    Halts k store start :=
  .step hw hm (hp.then hhook (hg.moves hw hm rfl rfl) hc hi hnext)

end Going

section Loops

/-- An upper bound for the rounds that are still to come, with `left` tokens ahead. -/
def roundsLeft (bounds : Bounds) (left count : Nat) : Nat :=
  match bounds.max with
  | some max => max - count
  | none => left + (bounds.min - count)

variable {first : TokenStream σ τ} {tokens : List τ} {rules : Rules τ π ρ} {active : List Nat} {i : Nat}
variable {k : Stack τ π ρ β ω} {store mid : Store σ τ π ρ} {c d : Cursor τ π} {bounds : Bounds} {count : Nat}

/-- A round that the loop goes on after has counted towards an upper bound, consumed something, or was one of those
that have to be. -/
theorem roundsLeft_lt (hs : mid.stream.Carries tokens none) (hreaches : mid.stream.Reaches c d)
    (hr : bounds.reached count = false) (hstall : (d.same c && bounds.stallsAt (count + 1)) = false) :
    roundsLeft bounds (tokens.length - mid.stream.indexOf d) (count + 1) <
      roundsLeft bounds (tokens.length - mid.stream.indexOf c) count := by
  obtain ⟨min, max⟩ := bounds
  cases max with
  | some max =>
    have : count < max := by simpa [Bounds.reached] using hr
    simp only [roundsLeft]
    omega
  | none =>
    have hle : mid.stream.indexOf d ≤ tokens.length :=
      Nat.le_trans hreaches.placed'.index_le hs.begins.length_le
    have horder := hreaches.index_le
    simp only [roundsLeft]
    rw [hreaches.placed'.same_eq hs.tidy hreaches.placed] at hstall
    by_cases hsame : mid.stream.indexOf d = mid.stream.indexOf c
    · have : count + 1 < min := by simpa [hsame, Bounds.stallsAt] using hstall
      omega
    · omega

variable [LawfulSource σ τ]

theorem halts_rounds {loop : Loop τ π ρ α β} (hitem : Ends first tokens rules active i loop.item)
    (hhook : loop.item.Hooked (Hook.Forward first)) {acc : β}
    (hg : Going first tokens rules active i k store (nextRound loop acc count c k)) (hc : store.stream.Placed c)
    (hi : i ≤ store.stream.indexOf c) : Halts k store (nextRound loop acc count c k) := by
  generalize hn : roundsLeft loop.bounds (tokens.length - store.stream.indexOf c) count = n
  induction n using Nat.strong_induction_on generalizing store c count acc with
  | _ n ih =>
  cases hr : loop.bounds.reached count with
  | true =>
    rw [nextRound_reached hr]
    exact .here _ _
  | false =>
    rw [nextRound_open hr] at hg ⊢
    refine hitem.then hhook hg hc hi fun mid reply hback hreaches hindex => ?_
    cases reply with
    | success value d =>
      cases hstall : d.same c && loop.bounds.stallsAt (count + 1) with
      | true => exact .answered (moves_stalled hstall)
      | false =>
        have hlt := roundsLeft_lt hback.carries hreaches hr hstall
        have hm : Moves .counted mid (.back (.success value d) (.cons (.item loop ⟨acc, count, c⟩) k)) mid
            (nextRound loop (loop.step acc value) (count + 1) d k) := moves_item hstall
        rw [hindex, hn] at hlt
        refine .step (within_back _ _ _) hm (ih _ hlt (hback.moves (within_back _ _ _) hm rfl rfl) hreaches.placed' ?_ rfl)
        exact Nat.le_trans (hindex ▸ hi) hreaches.index_le
    | failure fault => exact .answered (moves_missing fault)
    | abort fault => exact .answered ⟨0, rfl⟩

theorem halts_roundsTill {loop : LoopTill τ π ρ α β γ} (hitem : Ends first tokens rules active i loop.item)
    (hhook : loop.item.Hooked (Hook.Forward first)) (hstop : Ends first tokens rules active i loop.stop)
    (hhook' : loop.stop.Hooked (Hook.Forward first)) {acc : β}
    (hg : Going first tokens rules active i k store (nextRoundTill loop acc count c k)) (hc : store.stream.Placed c)
    (hi : i ≤ store.stream.indexOf c) : Halts k store (nextRoundTill loop acc count c k) := by
  generalize hn : roundsLeft loop.bounds (tokens.length - store.stream.indexOf c) count = n
  induction n using Nat.strong_induction_on generalizing store c count acc with
  | _ n ih =>
  cases hr : loop.bounds.reached count with
  | true =>
    rw [nextRoundTill_reached hr]
    exact .here _ _
  | false =>
    rw [nextRoundTill_open hr] at hg ⊢
    refine hstop.then hhook' hg hc hi fun mid reply hback hreaches hindex => ?_
    cases reply with
    | success value d => exact .answered ⟨0, rfl⟩
    | abort fault => exact .answered ⟨0, rfl⟩
    | failure fault =>
      -- The end does not match here, so an item is tried at the same place.
      refine hitem.through hhook hback (within_back _ _ _) ⟨0, rfl⟩ hreaches.placed (hindex ▸ hi) ?_
      intro mid' reply hback' hreaches' hindex'
      cases reply with
      | success value d =>
        cases hstall : d.same c && loop.bounds.stallsAt (count + 1) with
        | true => exact .answered (moves_stalledTill hstall)
        | false =>
          have hlt := roundsLeft_lt hback'.carries hreaches' hr hstall
          have hm : Moves .counted mid' (.back (.success value d) (.cons (.itemTill loop ⟨acc, count, c⟩) k)) mid'
              (nextRoundTill loop (loop.step acc value) (count + 1) d k) := moves_itemTill hstall
          rw [hindex', hindex, hn] at hlt
          refine .step (within_back _ _ _) hm
            (ih _ hlt (hback'.moves (within_back _ _ _) hm rfl rfl) hreaches'.placed' ?_ rfl)
          exact Nat.le_trans (hindex' ▸ hindex ▸ hi) hreaches'.index_le
      | failure fault => exact .answered ⟨0, rfl⟩
      | abort fault => exact .answered ⟨0, rfl⟩

end Loops

section Parsers

variable [LawfulSource σ τ]
variable {first : TokenStream σ τ} {tokens : List τ} {rules : Rules τ π ρ} {active : List Nat} {i : Nat}
variable {p : Parser τ π ρ α} {q : Parser τ π ρ β}

theorem Ends.tryMap (hp : Ends first tokens rules active i p) (hhook : p.Hooked (Hook.Forward first))
    (f : α → Except Cause β) : Ends first tokens rules active i (.tryMap p f) := by
  intro ω k store c hg hc hi
  refine hp.through hhook hg (within_eval _ _ _) ⟨0, rfl⟩ hc hi ?_
  intro mid reply _ _ _
  exact .answered (moves_convert reply)

theorem Ends.tryBind {check : α → Except Cause β} {next : β → Parser τ π ρ γ}
    (hp : Ends first tokens rules active i p) (hhook : p.Hooked (Hook.Forward first))
    (hnext : ∀ b, Ends first tokens rules active i (next b)) :
    Ends first tokens rules active i (.tryBind p check next) := by
  intro ω k store c hg hc hi
  refine hp.through hhook hg (within_eval _ _ _) ⟨0, rfl⟩ hc hi ?_
  intro mid reply hback hreaches hindex
  cases reply with
  | success value d =>
    cases hcheck : check value with
    | error cause => exact .answered (moves_refused hcheck)
    | ok checked =>
      have hm : Moves .counted mid (.back (.success value d) (.cons (.tryBind check next c) k)) mid
          (.eval (next checked) d k) := moves_checked hcheck
      have hgoing := hback.moves (within_back _ _ _) hm rfl rfl
      have hle : i ≤ mid.stream.indexOf d := Nat.le_trans (hindex ▸ hi) hreaches.index_le
      exact .step (within_back _ _ _) hm (hnext checked ω k mid d hgoing hreaches.placed' hle)
  | failure fault => exact .answered ⟨0, rfl⟩
  | abort fault => exact .answered ⟨0, rfl⟩

theorem Ends.zipWith (hp : Ends first tokens rules active i p) (hhook : p.Hooked (Hook.Forward first))
    (hq : Ends first tokens rules active i q) (hhook' : q.Hooked (Hook.Forward first)) (f : α → β → γ) :
    Ends first tokens rules active i (.zipWith f p q) := by
  intro ω k store c hg hc hi
  refine hp.through hhook hg (within_eval _ _ _) ⟨0, rfl⟩ hc hi ?_
  intro mid reply hback hreaches hindex
  cases reply with
  | success value d =>
    have hle : i ≤ mid.stream.indexOf d := Nat.le_trans (hindex ▸ hi) hreaches.index_le
    refine hq.through hhook' hback (within_back _ _ _) ⟨0, rfl⟩ hreaches.placed' hle ?_
    intro mid' reply' _ _ _
    exact .answered ⟨0, rfl⟩
  | failure fault => exact .answered ⟨0, rfl⟩
  | abort fault => exact .answered ⟨0, rfl⟩

theorem Ends.orElse {p q : Parser τ π ρ α} (hp : Ends first tokens rules active i p)
    (hhook : p.Hooked (Hook.Forward first)) (hq : Ends first tokens rules active i q) :
    Ends first tokens rules active i (.orElse p q) := by
  intro ω k store c hg hc hi
  refine hp.through hhook hg (within_eval _ _ _) ⟨0, rfl⟩ hc hi ?_
  intro mid reply hback hreaches hindex
  cases reply with
  | success value d => exact .answered ⟨0, rfl⟩
  | abort fault => exact .answered ⟨0, rfl⟩
  | failure fault =>
    have hm : Moves .counted mid (.back (.failure fault) (.cons (.orElse q c) k)) mid (.eval q c k) := ⟨0, rfl⟩
    have hgoing := hback.moves (within_back _ _ _) hm rfl rfl
    exact .step (within_back _ _ _) hm (hq ω k mid c hgoing hreaches.placed (hindex ▸ hi))

theorem Ends.reshape (hp : Ends first tokens rules active i p) (hhook : p.Hooked (Hook.Forward first))
    (hook : Hook τ π α β) : Ends first tokens rules active i (.reshape p hook) := by
  intro ω k store c hg hc hi
  refine hp.through hhook hg (within_eval _ _ _) ⟨0, rfl⟩ hc hi ?_
  intro mid reply _ _ _
  exact .answered ⟨0, rfl⟩

theorem Ends.loop {item : Parser τ π ρ β} {add : α → β → α} {bounds : Bounds}
    (hp : Ends first tokens rules active i p) (hhook : p.Hooked (Hook.Forward first))
    (hitem : Ends first tokens rules active i item) (hhook' : item.Hooked (Hook.Forward first)) :
    Ends first tokens rules active i (.loop p item add bounds) := by
  intro ω k store c hg hc hi
  refine hp.through hhook hg (within_eval _ _ _) ⟨0, rfl⟩ hc hi ?_
  intro mid reply hback hreaches hindex
  cases reply with
  | success acc d =>
    have hm : Moves .counted mid (.back (.success acc d) (.cons (.seed ⟨p, item, add, bounds⟩) k)) mid
        (nextRound ⟨p, item, add, bounds⟩ acc 0 d k) := ⟨0, rfl⟩
    have hgoing := hback.moves (within_back _ _ _) hm rfl rfl
    have hle : i ≤ mid.stream.indexOf d := Nat.le_trans (hindex ▸ hi) hreaches.index_le
    exact .step (within_back _ _ _) hm (halts_rounds hitem hhook' hgoing hreaches.placed' hle)
  | failure fault => exact .answered ⟨0, rfl⟩
  | abort fault => exact .answered ⟨0, rfl⟩

theorem Ends.loopTill {item : Parser τ π ρ β} {stop : Parser τ π ρ γ} {add : α → β → α} {bounds : Bounds}
    (hp : Ends first tokens rules active i p) (hhook : p.Hooked (Hook.Forward first))
    (hitem : Ends first tokens rules active i item) (hhook' : item.Hooked (Hook.Forward first))
    (hstop : Ends first tokens rules active i stop) (hhook'' : stop.Hooked (Hook.Forward first)) :
    Ends first tokens rules active i (.loopTill p item stop add bounds) := by
  intro ω k store c hg hc hi
  refine hp.through hhook hg (within_eval _ _ _) ⟨0, rfl⟩ hc hi ?_
  intro mid reply hback hreaches hindex
  cases reply with
  | success acc d =>
    have hm : Moves .counted mid (.back (.success acc d) (.cons (.seedTill ⟨⟨p, item, add, bounds⟩, stop⟩) k)) mid
        (nextRoundTill ⟨⟨p, item, add, bounds⟩, stop⟩ acc 0 d k) := ⟨0, rfl⟩
    have hgoing := hback.moves (within_back _ _ _) hm rfl rfl
    have hle : i ≤ mid.stream.indexOf d := Nat.le_trans (hindex ▸ hi) hreaches.index_le
    exact .step (within_back _ _ _) hm
      (halts_roundsTill hitem hhook' hstop hhook'' hgoing hreaches.placed' hle)
  | failure fault => exact .answered ⟨0, rfl⟩
  | abort fault => exact .answered ⟨0, rfl⟩

end Parsers

section Definitions

variable {first : TokenStream σ τ} {tokens : List τ} {rules later : Rules τ π ρ} {active : List Nat} {i number : Nat}
variable {store : Store σ τ π ρ} {c : Cursor τ π} {p q : Parser τ π ρ ρ} {k : Stack τ π ρ ρ ω}

/-- With a definition entered where nothing was consumed, there is one more that is not entered there again. -/
theorem Going.entered (h : Going first tokens rules active i k store (.eval p c k))
    (hp : p = .rule number ∨ p = .handle number) (hf : store.rules.force number = some (q, later))
    (hm : Moves .counted store (.eval p c k) { store with rules := later } (.eval q c k)) (hc : store.stream.Placed c)
    (hi : store.stream.indexOf c = i) :
    Going first tokens later (number :: active) i k { store with rules := later } (.eval q c k) where
  carries := h.carries
  becomes := h.becomes
  hooked := (h.hooked.force hf).2
  grown := .refl
  productive := h.productive.of_path (.cons hm (.refl _ _))
  spared := by
    intro other hother met d k' hin
    rcases List.mem_cons.mp hother with rfl | hother
    · have hlt := h.productive _ _ _ _ _ _ _ _ _ _ (.refl _ _) hp hm hin
      have hlater := later_of_path hin.path
      rw [hc.indexOf_extend hlater.grows, hi] at hlt
      exact hlt
    · exact h.spared other hother met d k' (.cons (within_eval _ _ _) hm hin)

theorem halts_entered (h : Going first tokens rules active i k store (.eval p c k))
    (hp : p = .rule number ∨ p = .handle number) (hf : store.rules.force number = some (q, later))
    (hm : Moves .counted store (.eval p c k) { store with rules := later } (.eval q c k)) (hc : store.stream.Placed c)
    (hi : store.stream.indexOf c = i) (hq : Ends first tokens later (number :: active) i q) :
    Halts k store (.eval p c k) :=
  .step (within_eval _ _ _) hm (hq ω k _ c (h.entered hp hf hm hc hi) hc (Nat.le_of_eq hi.symm))

/-- What has a reply behind `i`, with no definition active there, has to be looked at only at `i`. -/
theorem ends_of_at {p : Parser τ π ρ α}
    (hlater : ∀ j, i < j → j ≤ tokens.length → Ends first tokens rules [] j p)
    (hat : ∀ (ω : Type) (k : Stack τ π ρ α ω) (store : Store σ τ π ρ) (c : Cursor τ π),
      Going first tokens rules active i k store (.eval p c k) → store.stream.Placed c →
      store.stream.indexOf c = i → Halts k store (.eval p c k)) :
    Ends first tokens rules active i p := by
  intro ω k store c hg hc hi
  rcases Nat.eq_or_lt_of_le hi with heq | hlt
  · exact hat ω k store c hg hc heq.symm
  · have hle : store.stream.indexOf c ≤ tokens.length := Nat.le_trans hc.index_le hg.carries.begins.length_le
    have hfree : Going first tokens rules [] (store.stream.indexOf c) k store (.eval p c k) :=
      ⟨hg.carries, hg.becomes, hg.hooked, hg.grown, hg.productive, nofun⟩
    exact hlater _ hlt hle ω k store c hfree hc (Nat.le_refl _)

end Definitions

section Ending

variable [LawfulSource σ τ] {first : TokenStream σ τ} {tokens : List τ}

/-- Finite parsers have replies. The induction is on the tokens behind `i`, then on the unfolding of the parser. -/
theorem ends_of_finite {rules : Rules τ π ρ} {active : List Nat} {i : Nat} {p : Parser τ π ρ α}
    (hfinite : p.Finite rules active) (hclosed : p.Finite rules []) (hhook : p.Hooked (Hook.Forward first)) :
    Ends first tokens rules active i p := by
  generalize hn : tokens.length - i = n
  induction n using Nat.strong_induction_on generalizing i rules active α with
  | _ n outer =>
  have hlater {α : Type} {rules : Rules τ π ρ} {p : Parser τ π ρ α} (hp : p.Finite rules [])
      (hh : p.Hooked (Hook.Forward first)) (j : Nat) (hj : i < j) (hle : j ≤ tokens.length) :
      Ends first tokens rules [] j p := outer (tokens.length - j) (by omega) hp hp hh rfl
  induction hfinite with
  | leaf hp =>
    intro ω k store c hg hc _
    exact halts_leaf hp hg.carries hc
  | tryMap _ ih => exact (ih hclosed.parts hhook.parts).tryMap hhook.parts _
  | tryBind _ _ ihp ihn =>
    have hnext := fun b => ihn b (hclosed.parts.2 b) (hhook.parts.2 b)
    exact (ihp hclosed.parts.1 hhook.parts.1).tryBind hhook.parts.1 hnext
  | zipWith _ _ ihp ihq =>
    have hq := ihq hclosed.parts.2 hhook.parts.2
    exact (ihp hclosed.parts.1 hhook.parts.1).zipWith hhook.parts.1 hq hhook.parts.2 _
  | orElse _ _ ihp ihq =>
    exact (ihp hclosed.parts.1 hhook.parts.1).orElse hhook.parts.1 (ihq hclosed.parts.2 hhook.parts.2)
  | reshape _ ih => exact (ih hclosed.parts hhook.parts).reshape hhook.parts _
  | loop _ _ ihs ihi =>
    have hitem := ihi hclosed.parts.2 hhook.parts.2
    exact (ihs hclosed.parts.1 hhook.parts.1).loop hhook.parts.1 hitem hhook.parts.2
  | loopTill _ _ _ ihs ihi iht =>
    have hitem := ihi hclosed.parts.1.2 hhook.parts.1.2
    have hstop := iht hclosed.parts.2 hhook.parts.2
    exact (ihs hclosed.parts.1.1 hhook.parts.1.1).loopTill hhook.parts.1.1 hitem hhook.parts.1.2 hstop hhook.parts.2
  | @rule _ _ number _ ih =>
    refine ends_of_at (hlater hclosed hhook) fun ω k store c hg hc hi => ?_
    cases hf : store.rules.force number with
    | none => exact .step (within_eval _ _ _) (moves_unbound hf) (.here _ _)
    | some found =>
      obtain ⟨q, later⟩ := found
      have hq : q.Finite later [] := by
        cases hclosed with
        | leaf h => exact h.elim
        | rule h => exact .of_force (fun mid p last hm => h mid p last (hg.grown.trans hm)) hf
      have hends := ih store.rules q later hg.grown hf hq (hg.hooked.force hf).1
      exact halts_entered hg (.inl rfl) hf (moves_rule hf) hc hi hends
  | @handle _ _ number _ ih =>
    refine ends_of_at (hlater hclosed hhook) fun ω k store c hg hc hi => ?_
    cases hf : store.rules.force number with
    | none => exact .step (within_eval _ _ _) (moves_dangling (.inr hf)) (.here _ _)
    | some found =>
      obtain ⟨q, later⟩ := found
      cases halive : Liveness.counted store.rules k.holds number with
      | false => exact .step (within_eval _ _ _) (moves_dangling (.inl halive)) (.here _ _)
      | true =>
        have hq : q.Finite later [] := by
          cases hclosed with
          | leaf h => exact h.elim
          | active h => cases h
          | handle h => exact .of_force (fun mid p last hm => h mid p last (hg.grown.trans hm)) hf
        have hends := ih store.rules q later hg.grown hf hq (hg.hooked.force hf).1
        exact halts_entered hg (.inr rfl) hf (moves_handle halive hf) hc hi hends
  | active hactive =>
    refine ends_of_at (hlater hclosed hhook) fun ω k store c hg hc hi => ?_
    have hlt := hg.spared _ hactive store c k (.refl _ _)
    omega
  | @draft _ _ _ parser new _ ih =>
    intro ω k store c hg hc hi
    have hm : Moves .counted store (.eval (.draft parser new) c k)
        { store with rules := store.rules.append (new store.rules.entries.size) false }
        (.eval (parser store.rules.entries.size) c k) := ⟨0, rfl⟩
    have hfinite : (parser store.rules.entries.size).Finite
        (store.rules.append (new store.rules.entries.size) false) [] := by
      cases hclosed with
      | leaf h => exact h.elim
      | draft h => exact h store.rules hg.grown
    cases hhook with
    | leaf h => exact h.elim
    | draft hp hn =>
      refine .step (within_eval _ _ _) hm (ih store.rules hg.grown hfinite (hp _) ω k _ c ?_ hc hi)
      exact
        { carries := hg.carries
          becomes := hg.becomes
          hooked := hg.hooked.append (hn _) false
          grown := .refl
          productive := hg.productive.of_path (.cons hm (.refl _ _))
          spared := fun number hnumber met d k' hin =>
            hg.spared number hnumber met d k' (.cons (within_eval _ _ _) hm hin) }

end Ending

section Calls

/-- The definition that is entered here, whether through a handle, and the index. -/
def call? (s : TokenStream σ τ) : Control τ π ρ ω → Option (Bool × Nat × Nat)
  | .eval (.rule number) c _ => some (false, number, s.indexOf c)
  | .eval (.handle number) c _ => some (true, number, s.indexOf c)
  | _ => none

/-- The definitions entered in the given number of steps. -/
def calls (fuel : Nat) (store : Store σ τ π ρ) (control : Control τ π ρ ω) : Nat → List (Bool × Nat × Nat)
  | 0 => (call? store.stream control).toList
  | n + 1 =>
    (call? store.stream control).toList ++
      match step .counted fuel store control with
      | .next store control => calls fuel store control n
      | _ => []

/-- Entering a definition through a handle leads behind all places where it was entered before. -/
def Climbs (calls : List (Bool × Nat × Nat)) : Prop :=
  calls.Pairwise fun a b => b.1 = true → a.2.1 = b.2.1 → a.2.2 < b.2.2

instance (calls : List (Bool × Nat × Nat)) : Decidable (Climbs calls) :=
  inferInstanceAs (Decidable (List.Pairwise _ calls))

variable {fuel n : Nat} {store mid store' last : Store σ τ π ρ} {control between control' : Control τ π ρ ω}
variable {reply : Reply τ π ω} {call : Bool × Nat × Nat}

theorem mem_calls (h : call? store.stream control = some call) : call ∈ calls fuel store control n := by
  cases n <;> simp [calls, h]

variable [LawfulSource σ τ]

theorem calls_of_moves (h : after .counted fuel store control n = some (last, .back reply .nil))
    (hm : Moves .counted store control mid between) :
    ∃ m, after .counted fuel mid between m = some (last, .back reply .nil) ∧
      calls fuel store control n = (call? store.stream control).toList ++ calls fuel mid between m := by
  cases n with
  | zero =>
    cases h
    obtain ⟨fuel', hs⟩ := hm
    cases hs
  | succ n =>
    rw [after] at h
    split at h
    · rename_i store₁ control₁ hs
      obtain ⟨rfl, rfl⟩ := Moves.deterministic ⟨fuel, hs⟩ hm
      exact ⟨n, h, by rw [calls, hs]⟩
    · cases h

theorem calls_of_path (hp : Path .counted store control store' control')
    (h : after .counted fuel store control n = some (last, .back reply .nil)) :
    ∃ m, after .counted fuel store' control' m = some (last, .back reply .nil) ∧
      calls fuel store' control' m <:+ calls fuel store control n := by
  induction hp generalizing n with
  | refl => exact ⟨n, h, List.suffix_rfl⟩
  | cons hm _ ih =>
    obtain ⟨m, hafter, hcalls⟩ := calls_of_moves h hm
    obtain ⟨m', hafter', hsuffix⟩ := ih hafter
    exact ⟨m', hafter', hsuffix.trans ⟨_, hcalls.symm⟩⟩

/-- Over tokens that are all there, a run that ends shows whether it has left recursion. -/
theorem noLeftRecursion_of_climbs (hl : store.stream.live = false)
    (h : after .counted fuel store control n = some (last, .back reply .nil))
    (hc : Climbs (calls fuel store control n)) :
    NoLeftRecursion store control := by
  intro began mid met number p c d k k' between hpath hp hm hin
  have hbegan := (later_of_path hpath).released hl
  have hmet := (later_of_path (hpath.trans (.cons hm hin.path))).released hl
  obtain ⟨m, hafter, hsuffix⟩ := calls_of_path hpath h
  obtain ⟨m', hafter', hcalls⟩ := calls_of_moves hafter hm
  obtain ⟨m'', -, hsuffix'⟩ := calls_of_path hin.path hafter'
  have hcall : ∃ through, call? began.stream (.eval p c k) = some (through, number, began.stream.indexOf c) := by
    rcases hp with rfl | rfl
    · exact ⟨false, rfl⟩
    · exact ⟨true, rfl⟩
  obtain ⟨through, hcall⟩ := hcall
  have hmem : (true, number, met.stream.indexOf d) ∈ calls fuel mid between m' :=
    hsuffix'.subset (mem_calls rfl)
  have hclimbs : Climbs (calls fuel began (.eval p c k) m) := List.Pairwise.sublist hsuffix.sublist hc
  rw [hcalls, hcall] at hclimbs
  have hlt := (List.pairwise_cons.mp hclimbs).1 _ hmem rfl rfl
  rw [hmet, ← hbegan] at hlt ⊢
  exact hlt

end Calls

end Machine

namespace Parser

variable [Source σ τ] [LawfulSource σ τ] [Position π τ]

/-- Over a stream that ends, a finite parser has a reply, unless it recurs to the left. Loops of finite parsers are
finite, whatever their items consume. -/
theorem run_halts {tokens : List τ} {store : Store σ τ π ρ} {c : Cursor τ π} {p : Parser τ π ρ α}
    (hs : store.stream.Carries tokens none) (hc : store.stream.Placed c)
    (hr : store.rules.Hooked (Hook.Forward store.stream)) (hp : p.Hooked (Hook.Forward store.stream))
    (hfinite : p.Finite store.rules []) (hleft : Machine.NoLeftRecursion store (.eval p c .nil)) :
    (∃ fuel last reply, p.run fuel store c = some ⟨last, .ok reply⟩) ∧
    ∀ {α β : Type} (item : Parser τ π ρ α) (other : Parser τ π ρ β) (op : Parser τ π ρ (α → α → α)),
      item.Finite store.rules [] → other.Finite store.rules [] → op.Finite store.rules [] →
      item.many.Finite store.rules [] ∧ (∀ n, (item.atLeast n).Finite store.rules []) ∧
      (item.manyTill other).Finite store.rules [] ∧ item.skipMany.Finite store.rules [] ∧
      (∀ (seed : β) (f : β → α → β), (item.foldLeft seed f).Finite store.rules []) ∧
      (∀ (seed : β) (f : α → β → β), (item.foldRight seed f).Finite store.rules []) ∧
      (item.sepBy other).Finite store.rules [] ∧ (item.chainLeft1 op).Finite store.rules [] ∧
      (item.chainRight1 op).Finite store.rules [] ∧ (∀ n, (item.times n).Finite store.rules []) ∧
      ∀ low high, (item.repeatBetween low high).Finite store.rules [] := by
  constructor
  · have hgoing : Machine.Going store.stream tokens store.rules [] 0 .nil store (.eval p c .nil) :=
      ⟨hs, .refl, hr, .refl, hleft, nofun⟩
    obtain ⟨last, reply, n, hl⟩ :=
      Machine.ends_of_finite hfinite hfinite hp α .nil store c hgoing hc (Nat.zero_le _)
    obtain ⟨fuel, hrun⟩ := Machine.run_of_leaves hl
    exact ⟨fuel, last, reply, hrun⟩
  · intro α β item other op hitem hother hop
    exact ⟨hitem.collect _, fun n => hitem.collect _, hitem.manyTill hother, hitem.skipLoop _, hitem.foldLeft,
      hitem.foldRight, hitem.sepBy hother, hitem.chainLeft1 hop, hitem.chainRight1 hop, fun n => hitem.collect _,
      fun low high => hitem.collect _⟩

end Parser

theorem hooked_nestingStore (text : String) (first : TokenStream (NoSource Char) Char) :
    (nestingStore text).rules.Hooked (Hook.Forward first) := by
  intro entry hmem
  have hentry : entry = ⟨.defined _, true⟩ := List.mem_singleton.mp (Array.mem_toList_iff.mpr hmem)
  subst hentry
  have hbracket (test : Char → Bool) : (Parser.satisfy test : Parser Char TextPosition Nat Char).Hooked
      (Hook.Forward first) := .leaf trivial
  have hnone : (Parser.pure 0 : Parser Char TextPosition Nat Nat).Hooked (Hook.Forward first) := .leaf trivial
  exact .defined (.orElse (.tryMap (.zipWith (.zipWith (hbracket _) (.handle 0)) (hbracket _))) hnone)

theorem ranked_nestingStore (text : String) : Parser.Ranked (nestingStore text).rules (fun _ => 0) 1 := by
  intro n hn
  obtain rfl : n = 0 := by omega
  refine ⟨_, _, rfl, ?_⟩
  have hbracket (test : Char → Bool) : (Parser.satisfy test : Parser Char TextPosition Nat Char).Refers
      (fun m => m < 1 ∧ 0 < 0) (· < 1) := .leaf trivial
  have hnone : (Parser.pure 0 : Parser Char TextPosition Nat Nat).Refers (fun m => m < 1 ∧ 0 < 0) (· < 1) :=
    .leaf trivial
  exact .orElse (.tryMap (.zipWith (.zipWith (hbracket _) (.handle Nat.one_pos)) (hbracket _))) hnone

/-- A bracket is consumed before the brackets inside it are entered. -/
theorem run_halts_nesting :
    let store := nestingStore "(())"
    let c : Cursor Char TextPosition := store.stream.start
    Machine.NoLeftRecursion store (.eval (.rule 0) c .nil) ∧
      ∃ fuel last reply, (Parser.rule 0 : Parser Char TextPosition Nat Nat).run fuel store c =
        some ⟨last, .ok reply⟩ := by
  intro store c
  have hends : ∃ last reply, Machine.after .counted 0 store (.eval (.rule 0) c .nil) 37 = some (last, .back reply .nil) :=
    ⟨_, _, rfl⟩
  obtain ⟨last, reply, hends⟩ := hends
  have hleft : Machine.NoLeftRecursion store (.eval (.rule 0) c .nil) :=
    Machine.noLeftRecursion_of_climbs rfl hends (by decide)
  have hfinite : (Parser.rule 0 : Parser Char TextPosition Nat Nat).Finite store.rules [] :=
    Parser.finite_of_ranked (ranked_nestingStore "(())") 1 (.rule ⟨Nat.one_pos, Nat.one_pos⟩)
  have hhalts := Parser.run_halts (TokenStream.carries_ofList "(())".toList) (TokenStream.placed_start (by decide))
    (hooked_nestingStore "(())" _) (.rule 0) hfinite hleft
  exact ⟨hleft, hhalts.1⟩

end StreamParsing
