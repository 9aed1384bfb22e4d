import StreamParsing.Proofs.Machine.Forward

/-!
Parsers that are run again at a place where they were run. All tokens that they need have been read by then, so over
what the stream has become since they end as before, and nothing is read; only a failed read finds no source any more.
-/

namespace StreamParsing

set_option autoImplicit false

universe u

variable {σ : Type u} {τ π ρ α β : Type}

/-- The outcome when the reads are made again. -/
def Outcome.again (result : Outcome τ π α) : Outcome τ π α := result.mapError fun _ => .released

theorem Outcome.again_map (f : Reply τ π α → Reply τ π β) (result : Outcome τ π α) :
    Outcome.again (result.map f) = (Outcome.again result).map f := by
  cases result <;> rfl

theorem Passes.again {first : Outcome τ π α} {result : Outcome τ π β} (h : Passes first result) :
    Passes first.again result.again := by
  cases h with
  | failure fault => exact .failure fault
  | abort fault => exact .abort fault
  | error => exact .error .released

theorem Firm.again {first : Outcome τ π α} (h : Firm first) : Firm first.again := by
  intro fault heq
  cases first with
  | error => cases heq
  | ok reply => exact h fault heq

variable [Source σ τ] [Position π τ]

/-- A parser can begin at the cursor: it has its place in what became of the stream `first`, and the hooks of the rules
go forward there. -/
structure Store.Ready (first : TokenStream σ τ) (store : Store σ τ π ρ) (c : Cursor τ π) : Prop where
  becomes : first.Becomes store.stream
  rules : store.rules.Hooked (Hook.Forward first)
  placed : store.stream.Placed c

variable {alive : Liveness τ π ρ} {held : List Nat} {first last : TokenStream σ τ} {store store' : Store σ τ π ρ}
variable {job : Job τ π ρ α} {result : Outcome τ π α} {c : Cursor τ π}

namespace Evaluates

theorem forward (heval : Evaluates alive held store job store' result) (h : store.Ready first job.cursor)
    (hj : job.Hooked (Hook.Forward first)) :
    Forwarded first.Becomes (Hook.Forward first) store.stream job.cursor store' result :=
  heval.forwarded (fun _ hs => hs) (fun _ _ _ hs hadv => hs.advancing hadv) h.becomes h.rules hj h.placed

/-- Something else can begin there afterwards. -/
theorem retried (heval : Evaluates alive held store job store' result) (h : store.Ready first job.cursor)
    (hj : job.Hooked (Hook.Forward first)) : store'.Ready first job.cursor := by
  have hforward := heval.forward h hj
  exact ⟨hforward.stream, hforward.rules, h.placed.extend hforward.later.grows⟩

/-- Something can go on where the evaluation ended. -/
theorem continued {reply : Reply τ π α} (heval : Evaluates alive held store job store' (.ok reply))
    (h : store.Ready first job.cursor) (hj : job.Hooked (Hook.Forward first)) : store'.Ready first reply.cursor := by
  have hforward := heval.forward h hj
  exact ⟨hforward.stream, hforward.rules, hforward.placed⟩

end Evaluates

theorem Store.access_again {fuel : Nat} {c : Cursor τ π} {result : Except ReadError (Cursor τ π)}
    (h : store.access (·.advance fuel c) = some (store', result)) (hc : store.stream.Placed c)
    (hlast : store'.stream.Later last) (rules : Rules τ π ρ) (log : Array Event) :
    Store.access ⟨last, rules, log⟩ (·.advance fuel c) = some (⟨last, rules, log⟩, result.mapError fun _ => .released) := by
  obtain ⟨events, hadv⟩ := Machine.Store.advance_of_access h
  have hagain := TokenStream.advance_again hc (TokenStream.advancing_of_advance hadv) hlast fuel
  simp only [Store.access, hagain, Option.map_some, Array.append_empty]

/-- An evaluation can be made again over all that the stream becomes. -/
theorem Evaluates.again (h : Evaluates alive held store job store' result) (hready : store.Ready first job.cursor)
    (hj : job.Hooked (Hook.Forward first)) (hlast : store'.stream.Later last) (log : Array Event) :
    ∃ log', Evaluates alive held ⟨last, store.rules, log⟩ job ⟨last, store'.rules, log'⟩ result.again := by
  induction h generalizing log with
  | pure => exact ⟨log, .pure⟩
  | peek => exact ⟨log, .peek⟩
  | refused hc => exact ⟨log, .refused hc⟩
  | taken hc ha =>
    rw [Store.rules_of_access ha]
    exact ⟨log, .taken hc (Store.access_again ha hready.placed hlast _ log)⟩
  | unread hc ha =>
    rw [Store.rules_of_access ha]
    exact ⟨log, .unread hc (Store.access_again ha hready.placed hlast _ log)⟩
  | endOfInput => exact ⟨log, .endOfInput⟩
  | fail => exact ⟨log, .fail⟩
  | abort => exact ⟨log, .abort⟩
  | tryMap _ ih =>
    obtain ⟨log', heval⟩ := ih hready hj.parts hlast log
    exact ⟨log', Outcome.again_map _ _ ▸ .tryMap heval⟩
  | bind_next hp hc hn ihp ihn =>
    have hnext := hp.continued hready hj.parts.1
    obtain ⟨log₁, hp'⟩ := ihp hready hj.parts.1 ((hn.forward hnext (hj.parts.2 _)).later.trans hlast) log
    obtain ⟨log₂, hn'⟩ := ihn hnext (hj.parts.2 _) hlast log₁
    exact ⟨log₂, .bind_next hp' hc hn'⟩
  | bind_refused _ hc ih =>
    obtain ⟨log', heval⟩ := ih hready hj.parts.1 hlast log
    exact ⟨log', .bind_refused heval hc⟩
  | bind_stopped _ pass ih =>
    obtain ⟨log', heval⟩ := ih hready hj.parts.1 hlast log
    exact ⟨log', .bind_stopped heval pass.again⟩
  | zip_next hp hq ihp ihq =>
    have hnext := hp.continued hready hj.parts.1
    obtain ⟨log₁, hp'⟩ := ihp hready hj.parts.1 ((hq.forward hnext hj.parts.2).later.trans hlast) log
    obtain ⟨log₂, hq'⟩ := ihq hnext hj.parts.2 hlast log₁
    exact ⟨log₂, Outcome.again_map _ _ ▸ .zip_next hp' hq'⟩
  | zip_stopped _ pass ih =>
    obtain ⟨log', heval⟩ := ih hready hj.parts.1 hlast log
    exact ⟨log', .zip_stopped heval pass.again⟩
  | else_first _ firm ih =>
    obtain ⟨log', heval⟩ := ih hready hj.parts.1 hlast log
    exact ⟨log', .else_first heval firm.again⟩
  | else_second hp hq ihp ihq =>
    have hnext := hp.retried hready hj.parts.1
    obtain ⟨log₁, hp'⟩ := ihp hready hj.parts.1 ((hq.forward hnext hj.parts.2).later.trans hlast) log
    obtain ⟨log₂, hq'⟩ := ihq hnext hj.parts.2 hlast log₁
    exact ⟨log₂, .else_second hp' hq'⟩
  | reshape _ ih =>
    obtain ⟨log', heval⟩ := ih hready hj.parts hlast log
    exact ⟨log', Outcome.again_map _ _ ▸ .reshape heval⟩
  | loop_seeded hs hr ihs ihr =>
    have hnext := hs.continued hready hj.parts.1
    obtain ⟨log₁, hs'⟩ := ihs hready hj.parts.1 ((hr.forward hnext hj.parts).later.trans hlast) log
    obtain ⟨log₂, hr'⟩ := ihr hnext hj.parts hlast log₁
    exact ⟨log₂, .loop_seeded hs' hr'⟩
  | loop_stopped _ pass ih =>
    obtain ⟨log', heval⟩ := ih hready hj.parts.1 hlast log
    exact ⟨log', .loop_stopped heval pass.again⟩
  | till_seeded hs hr ihs ihr =>
    have hnext := hs.continued hready hj.parts.1.1
    obtain ⟨log₁, hs'⟩ := ihs hready hj.parts.1.1 ((hr.forward hnext hj.parts).later.trans hlast) log
    obtain ⟨log₂, hr'⟩ := ihr hnext hj.parts hlast log₁
    exact ⟨log₂, .till_seeded hs' hr'⟩
  | till_stopped _ pass ih =>
    obtain ⟨log', heval⟩ := ih hready hj.parts.1.1 hlast log
    exact ⟨log', .till_stopped heval pass.again⟩
  | rule hf _ ih =>
    obtain ⟨hp, hrules⟩ := hready.rules.force hf
    obtain ⟨log', heval⟩ := ih ⟨hready.becomes, hrules, hready.placed⟩ hp hlast log
    exact ⟨log', .rule hf heval⟩
  | unbound hf => exact ⟨log, .unbound hf⟩
  | handle hl hf _ ih =>
    obtain ⟨hp, hrules⟩ := hready.rules.force hf
    obtain ⟨log', heval⟩ := ih ⟨hready.becomes, hrules, hready.placed⟩ hp hlast log
    exact ⟨log', .handle hl hf heval⟩
  | dangling h => exact ⟨_, .dangling h⟩
  | draft _ ih =>
    cases hj with
    | leaf hp => exact hp.elim
    | draft hp hn =>
      obtain ⟨log', heval⟩ := ih ⟨hready.becomes, hready.rules.append (hn _) false, hready.placed⟩ (hp _) hlast log
      exact ⟨log', .draft heval⟩
  | rounds_reached hr => exact ⟨log, .rounds_reached hr⟩
  | rounds_stalled hr _ hs ih =>
    obtain ⟨log', heval⟩ := ih hready hj.2 hlast log
    exact ⟨_, .rounds_stalled hr heval hs⟩
  | rounds_next hr hp hs hn ihp ihr =>
    have hnext := hp.continued hready hj.2
    obtain ⟨log₁, hp'⟩ := ihp hready hj.2 ((hn.forward hnext hj).later.trans hlast) log
    obtain ⟨log₂, hn'⟩ := ihr hnext hj hlast log₁
    exact ⟨log₂, .rounds_next hr hp' hs hn'⟩
  | rounds_failed hr _ ih =>
    obtain ⟨log', heval⟩ := ih hready hj.2 hlast log
    exact ⟨log', .rounds_failed hr heval⟩
  | rounds_stopped hr _ firm pass ih =>
    obtain ⟨log', heval⟩ := ih hready hj.2 hlast log
    exact ⟨log', .rounds_stopped hr heval firm.again pass.again⟩
  | till_reached hr => exact ⟨log, .till_reached hr⟩
  | till_ended hr _ ih =>
    obtain ⟨log', heval⟩ := ih hready hj.2 hlast log
    exact ⟨log', .till_ended hr heval⟩
  | till_barred hr _ firm pass ih =>
    obtain ⟨log', heval⟩ := ih hready hj.2 hlast log
    exact ⟨log', .till_barred hr heval firm.again pass.again⟩
  | till_stalled hr ht hp hs iht ihp =>
    have hitem := ht.retried hready hj.2
    obtain ⟨log₁, ht'⟩ := iht hready hj.2 ((hp.forward hitem hj.1.2).later.trans hlast) log
    obtain ⟨log₂, hp'⟩ := ihp hitem hj.1.2 hlast log₁
    exact ⟨log₂, .till_stalled hr ht' hp' hs⟩
  | till_next hr ht hp hs hn iht ihp ihr =>
    have hitem := ht.retried hready hj.2
    have hnext := hp.continued hitem hj.1.2
    have hlater := (hn.forward hnext hj).later.trans hlast
    obtain ⟨log₁, ht'⟩ := iht hready hj.2 ((hp.forward hitem hj.1.2).later.trans hlater) log
    obtain ⟨log₂, hp'⟩ := ihp hitem hj.1.2 hlater log₁
    obtain ⟨log₃, hn'⟩ := ihr hnext hj hlast log₂
    exact ⟨log₃, .till_next hr ht' hp' hs hn'⟩
  | till_lacking hr ht hp pass iht ihp =>
    have hitem := ht.retried hready hj.2
    obtain ⟨log₁, ht'⟩ := iht hready hj.2 ((hp.forward hitem hj.1.2).later.trans hlast) log
    obtain ⟨log₂, hp'⟩ := ihp hitem hj.1.2 hlast log₁
    exact ⟨log₂, .till_lacking hr ht' hp' pass.again⟩

end StreamParsing
