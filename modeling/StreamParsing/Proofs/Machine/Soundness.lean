import StreamParsing.Proofs.Machine.Moves

/-!
From the direct reading to the machine: whatever evaluates is computed by a run, over any pending work. The
proof follows the evaluation, one case for each of its rules.
-/

namespace StreamParsing

set_option autoImplicit false

universe u

namespace Machine

variable {σ : Type u} {τ π ρ α β γ δ ω : Type} [Source σ τ] [Position π τ]
variable {alive : Liveness τ π ρ} {upkeep : Upkeep τ π ρ ω} {store mid store' : Store σ τ π ρ}
variable {control between : Control τ π ρ ω}

/-- A run that starts above `k` and comes back to `k`, or breaks off, after some number of steps. -/
def Finishes (upkeep : Upkeep τ π ρ ω) (k : Stack τ π ρ β ω) (store : Store σ τ π ρ) (control : Control τ π ρ ω)
    (store' : Store σ τ π ρ) (result : Outcome τ π β) : Prop :=
  ∃ n, Leaves upkeep k n store control store' result

namespace Finishes

variable {k : Stack τ π ρ β ω} {frame : Frame τ π ρ α β} {result : Outcome τ π β}

theorem here (store : Store σ τ π ρ) (reply : Reply τ π β) :
    Finishes upkeep k store (.back reply k) store (.ok reply) := ⟨0, .back store reply⟩

theorem step (hw : Within k control) (hm : Moves upkeep store control mid between)
    (h : Finishes upkeep k mid between store' result) : Finishes upkeep k store control store' result := by
  obtain ⟨n, hl⟩ := h
  exact ⟨n + 1, .step hw hm hl⟩

theorem lift {reply : Reply τ π α} (h : Finishes upkeep (.cons frame k) store control mid (.ok reply))
    (h' : Finishes upkeep k mid (.back reply (.cons frame k)) store' result) :
    Finishes upkeep k store control store' result := by
  obtain ⟨n, hl⟩ := h
  obtain ⟨m, hl'⟩ := h'
  exact ⟨n + m, hl.lift hl'⟩

theorem path {reply : Reply τ π β} (h : Finishes upkeep k store control store' (.ok reply)) :
    Path upkeep store control store' (.back reply k) := by
  obtain ⟨n, hl⟩ := h
  exact hl.path

/-- A frame that turns every reply into another one turns the outcome accordingly. -/
theorem map {first : Outcome τ π α} {g : Reply τ π α → Reply τ π β}
    (h : Finishes upkeep (.cons frame k) store control store' first)
    (hg : ∀ reply, Moves upkeep store' (.back reply (.cons frame k)) store' (.back (g reply) k)) :
    Finishes upkeep k store control store' (first.map g) := by
  cases first with
  | ok reply => exact h.lift (.step (within_back reply frame k) (hg reply) (.here _ _))
  | error e =>
    obtain ⟨n, hl⟩ := h
    exact ⟨n, hl.lift_error⟩

/-- An outcome without a value passes every frame that relays such replies. -/
theorem pass {first : Outcome τ π α} (h : Finishes upkeep (.cons frame k) store control store' first)
    (hp : Passes first result)
    (hf : ∀ {reply reply'}, Passes (.ok reply) (.ok reply') →
      Moves upkeep store' (.back reply (.cons frame k)) store' (.back reply' k)) :
    Finishes upkeep k store control store' result := by
  cases hp with
  | failure fault => exact h.lift (.step (within_back _ frame k) (hf (.failure fault)) (.here _ _))
  | abort fault => exact h.lift (.step (within_back _ frame k) (hf (.abort fault)) (.here _ _))
  | error e =>
    obtain ⟨n, hl⟩ := h
    exact ⟨n, hl.lift_error⟩

/-- Aborts and read errors pass also the frames that answer a failure. -/
theorem pass_firm {first : Outcome τ π α} (h : Finishes upkeep (.cons frame k) store control store' first)
    (hp : Passes first result) (firm : Firm first)
    (hf : ∀ fault, Moves upkeep store' (.back (.abort fault) (.cons frame k)) store' (.back (.abort fault) k)) :
    Finishes upkeep k store control store' result := by
  cases hp with
  | failure fault => exact absurd rfl (firm fault)
  | abort fault => exact h.lift (.step (within_back _ frame k) (hf fault) (.here _ _))
  | error e =>
    obtain ⟨n, hl⟩ := h
    exact ⟨n, hl.lift_error⟩

end Finishes

section Sound

variable {k : Stack τ π ρ β ω} {frame : Frame τ π ρ α β} {p : Parser τ π ρ α} {c : Cursor τ π}
variable {start : Control τ π ρ ω} {result : Outcome τ π β}

/-- A parser is run above a frame; the run goes on with what the frame makes of its reply. -/
theorem Finishes.chain {mid' : Store σ τ π ρ} {reply : Reply τ π α} (hw : Within k start)
    (ha : Agrees alive upkeep store start) (hm : Moves upkeep store start store (.eval p c (.cons frame k)))
    (hp : Agrees alive upkeep store (.eval p c (.cons frame k)) →
      Finishes upkeep (.cons frame k) store (.eval p c (.cons frame k)) mid (.ok reply))
    (hr : Moves upkeep mid (.back reply (.cons frame k)) mid' between)
    (hq : Agrees alive upkeep mid' between → Finishes upkeep k mid' between store' result) :
    Finishes upkeep k store start store' result := by
  have hp := hp (ha.of_moves hm)
  have hq := hq (((ha.of_moves hm).of_path hp.path).of_moves hr)
  exact .step hw hm (hp.lift (.step (within_back reply frame k) hr hq))

/-- A parser is run above a frame that relays its outcome. -/
theorem Finishes.relay {first : Outcome τ π α} (hw : Within k start) (ha : Agrees alive upkeep store start)
    (hm : Moves upkeep store start store (.eval p c (.cons frame k)))
    (hp : Agrees alive upkeep store (.eval p c (.cons frame k)) →
      Finishes upkeep (.cons frame k) store (.eval p c (.cons frame k)) store' first)
    (pass : Passes first result)
    (hf : ∀ {reply reply'}, Passes (.ok reply) (.ok reply') →
      Moves upkeep store' (.back reply (.cons frame k)) store' (.back reply' k)) :
    Finishes upkeep k store start store' result :=
  .step hw hm ((hp (ha.of_moves hm)).pass pass hf)

/-- Whatever evaluates is run by the machine, over any pending work. -/
theorem finishes_of_evaluates {held : List Nat} {job : Job τ π ρ α} {result : Outcome τ π α}
    (h : Evaluates alive held store job store' result) :
    ∀ {ω : Type} {upkeep : Upkeep τ π ρ ω} (k : Stack τ π ρ α ω), k.holds = held →
      Agrees alive upkeep store (job.control k) →
      Finishes upkeep k store (job.control k) store' result := by
  induction h with
  | pure =>
    intro ω upkeep k _ _
    exact .step (within_eval _ _ k) ⟨0, rfl⟩ (.here _ _)
  | peek =>
    intro ω upkeep k _ _
    exact .step (within_eval _ _ k) ⟨0, rfl⟩ (.here _ _)
  | refused hc =>
    intro ω upkeep k _ _
    exact .step (within_eval _ _ k) ⟨0, step_satisfy_refused hc⟩ (.here _ _)
  | taken hc ha =>
    intro ω upkeep k _ _
    exact .step (within_eval _ _ k) (moves_taken hc ha) (.here _ _)
  | unread hc ha =>
    intro ω upkeep k _ _
    exact ⟨0, .broken (within_eval _ _ k) (breaks_unread hc ha)⟩
  | endOfInput =>
    intro ω upkeep k _ _
    exact .step (within_eval _ _ k) moves_endOfInput (.here _ _)
  | fail =>
    intro ω upkeep k _ _
    exact .step (within_eval _ _ k) (moves_fail _) (.here _ _)
  | abort =>
    intro ω upkeep k _ _
    exact .step (within_eval _ _ k) ⟨0, rfl⟩ (.here _ _)
  | @tryMap _ _ _ _ _ _ f c _ _ ih =>
    intro ω upkeep k hk ha
    have hp := ih (.cons (.tryMap f c) k) hk (ha.of_moves ⟨0, rfl⟩)
    exact .step (within_eval _ _ k) ⟨0, rfl⟩ (hp.map moves_convert)
  | bind_next _ hc _ ihp ihq =>
    intro ω upkeep k hk ha
    exact .chain (within_eval _ _ k) ha ⟨0, rfl⟩ (ihp _ hk) (moves_checked hc) (ihq k hk)
  | bind_refused _ hc ihp =>
    intro ω upkeep k hk ha
    exact .chain (within_eval _ _ k) ha ⟨0, rfl⟩ (ihp _ hk) (moves_refused hc) fun _ => .here _ _
  | bind_stopped _ hp ihp =>
    intro ω upkeep k hk ha
    exact .relay (within_eval _ _ k) ha ⟨0, rfl⟩ (ihp _ hk) hp relays_tryBind
  | zip_next _ _ ihp ihq =>
    intro ω upkeep k hk ha
    subst hk
    refine .chain (within_eval _ _ k) ha ⟨0, rfl⟩ (ihp (.cons (.zipLeft _ _) k) rfl) ⟨0, rfl⟩ fun hq => ?_
    exact (ihq (.cons (.zipRight _ _) k) rfl hq).map fun _ => ⟨0, rfl⟩
  | zip_stopped _ hp ihp =>
    intro ω upkeep k hk ha
    subst hk
    exact .relay (within_eval _ _ k) ha ⟨0, rfl⟩ (ihp (.cons (.zipLeft _ _) k) rfl) hp relays_zipLeft
  | @else_first _ _ _ _ _ q c result _ firm ihp =>
    intro ω upkeep k hk ha
    subst hk
    have hp := ihp (.cons (.orElse q c) k) rfl (ha.of_moves ⟨0, rfl⟩)
    refine .step (within_eval _ _ k) ⟨0, rfl⟩ ?_
    rcases result with e | ⟨value, c'⟩ | fault | fault
    · obtain ⟨n, hl⟩ := hp
      exact ⟨n, hl.lift_error⟩
    · exact hp.lift (.step (within_back _ _ k) ⟨0, rfl⟩ (.here _ _))
    · exact absurd rfl (firm fault)
    · exact hp.lift (.step (within_back _ _ k) ⟨0, rfl⟩ (.here _ _))
  | else_second _ _ ihp ihq =>
    intro ω upkeep k hk ha
    subst hk
    exact .chain (within_eval _ _ k) ha ⟨0, rfl⟩ (ihp (.cons (.orElse _ _) k) rfl) ⟨0, rfl⟩ (ihq k rfl)
  | @reshape _ _ _ _ _ _ hook c _ _ ih =>
    intro ω upkeep k hk ha
    have hp := ih (.cons (.reshape hook c) k) hk (ha.of_moves ⟨0, rfl⟩)
    exact .step (within_eval _ _ k) ⟨0, rfl⟩ (hp.map fun _ => ⟨0, rfl⟩)
  | loop_seeded _ _ ihs ihr =>
    intro ω upkeep k hk ha
    subst hk
    exact .chain (within_eval _ _ k) ha ⟨0, rfl⟩ (ihs (.cons (.seed _) k) rfl) ⟨0, rfl⟩ (ihr k rfl)
  | loop_stopped _ hp ihs =>
    intro ω upkeep k hk ha
    subst hk
    exact .relay (within_eval _ _ k) ha ⟨0, rfl⟩ (ihs (.cons (.seed _) k) rfl) hp relays_seed
  | till_seeded _ _ ihs ihr =>
    intro ω upkeep k hk ha
    subst hk
    exact .chain (within_eval _ _ k) ha ⟨0, rfl⟩ (ihs (.cons (.seedTill _) k) rfl) ⟨0, rfl⟩ (ihr k rfl)
  | till_stopped _ hp ihs =>
    intro ω upkeep k hk ha
    subst hk
    exact .relay (within_eval _ _ k) ha ⟨0, rfl⟩ (ihs (.cons (.seedTill _) k) rfl) hp relays_seedTill
  | rule hf _ ih =>
    intro ω upkeep k hk ha
    exact .step (within_eval _ _ k) (moves_rule hf) (ih k hk (ha.of_moves (moves_rule hf)))
  | unbound hf =>
    intro ω upkeep k _ _
    exact .step (within_eval _ _ k) (moves_unbound hf) (.here _ _)
  | handle hl hf _ ih =>
    intro ω upkeep k hk ha
    subst hk
    have hc := (ha _ _ _ _ (.refl _ _) (by simp [hf])).symm.trans hl
    exact .step (within_eval _ _ k) (moves_handle hc hf) (ih k rfl (ha.of_moves (moves_handle hc hf)))
  | @dangling _ store number _ h =>
    intro ω upkeep k hk ha
    subst hk
    refine .step (within_eval _ _ k) (moves_dangling ?_) (.here _ _)
    rcases h with hl | hf
    · by_cases hf : store.rules.force number = none
      · exact .inr hf
      · exact .inl ((ha _ _ _ _ (.refl _ _) hf).symm.trans hl)
    · exact .inr hf
  | draft _ ih =>
    intro ω upkeep k hk ha
    exact .step (within_eval _ _ k) ⟨0, rfl⟩ (ih k hk (ha.of_moves ⟨0, rfl⟩))
  | rounds_reached hr =>
    intro ω upkeep k _ _
    simp only [Job.control, nextRound_reached hr]
    exact .here _ _
  | rounds_stalled hr _ hs ihp =>
    intro ω upkeep k hk ha
    subst hk
    simp only [Job.control, nextRound_open hr] at ha ⊢
    exact (ihp (.cons (.item _ _) k) rfl ha).lift
      (.step (within_back _ _ k) (moves_stalled hs) (.here _ _))
  | rounds_next hr _ hs _ ihp ihr =>
    intro ω upkeep k hk ha
    subst hk
    simp only [Job.control, nextRound_open hr] at ha ⊢
    have hp := ihp (.cons (.item _ _) k) rfl ha
    have hq := ihr k rfl ((ha.of_path hp.path).of_moves (moves_item hs))
    exact hp.lift (.step (within_back _ _ k) (moves_item hs) hq)
  | rounds_failed hr _ ihp =>
    intro ω upkeep k hk ha
    subst hk
    simp only [Job.control, nextRound_open hr] at ha ⊢
    exact (ihp (.cons (.item _ _) k) rfl ha).lift
      (.step (within_back _ _ k) (moves_missing _) (.here _ _))
  | rounds_stopped hr _ firm pass ihp =>
    intro ω upkeep k hk ha
    subst hk
    simp only [Job.control, nextRound_open hr] at ha ⊢
    exact (ihp (.cons (.item _ _) k) rfl ha).pass_firm pass firm fun _ => ⟨0, rfl⟩
  | till_reached hr =>
    intro ω upkeep k _ _
    simp only [Job.control, nextRoundTill_reached hr]
    exact .here _ _
  | till_ended hr _ ihs =>
    intro ω upkeep k hk ha
    subst hk
    simp only [Job.control, nextRoundTill_open hr] at ha ⊢
    exact (ihs (.cons (.stopTill _ _) k) rfl ha).lift (.step (within_back _ _ k) ⟨0, rfl⟩ (.here _ _))
  | till_barred hr _ firm pass ihs =>
    intro ω upkeep k hk ha
    subst hk
    simp only [Job.control, nextRoundTill_open hr] at ha ⊢
    exact (ihs (.cons (.stopTill _ _) k) rfl ha).pass_firm pass firm fun _ => ⟨0, rfl⟩
  | till_stalled hr _ _ hs ihs ihp =>
    intro ω upkeep k hk ha
    subst hk
    simp only [Job.control, nextRoundTill_open hr] at ha ⊢
    have hp := ihs (.cons (.stopTill _ _) k) rfl ha
    refine hp.lift (.chain (within_back _ _ k) (ha.of_path hp.path) ⟨0, rfl⟩
      (ihp (.cons (.itemTill _ _) k) rfl) (moves_stalledTill hs) fun _ => .here _ _)
  | till_next hr _ _ hs _ ihs ihp ihr =>
    intro ω upkeep k hk ha
    subst hk
    simp only [Job.control, nextRoundTill_open hr] at ha ⊢
    have hp := ihs (.cons (.stopTill _ _) k) rfl ha
    refine hp.lift (.chain (within_back _ _ k) (ha.of_path hp.path) ⟨0, rfl⟩
      (ihp (.cons (.itemTill _ _) k) rfl) (moves_itemTill hs) (ihr k rfl))
  | till_lacking hr _ _ pass ihs ihp =>
    intro ω upkeep k hk ha
    subst hk
    simp only [Job.control, nextRoundTill_open hr] at ha ⊢
    have hp := ihs (.cons (.stopTill _ _) k) rfl ha
    refine hp.lift (.relay (within_back _ _ k) (ha.of_path hp.path) ⟨0, rfl⟩
      (ihp (.cons (.itemTill _ _) k) rfl) pass relays_itemTill)

end Sound

end Machine

end StreamParsing
