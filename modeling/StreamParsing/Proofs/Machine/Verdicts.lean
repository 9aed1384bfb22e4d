import StreamParsing.Parser.Repetition
import StreamParsing.Parser.Shaping
import StreamParsing.Proofs.Machine.Refinement
import StreamParsing.Proofs.Machine.Retention
import StreamParsing.Proofs.Opacity.Chunking

/-!
What parsers make of lists. Over a stream that holds all its tokens, a cursor stands for the tokens from it on, and a
parser takes such a list to a verdict: a value with the tokens left over, a failure or an abort. The verdict on a
combinator follows from the verdicts on its parts; the store stays as it is.
-/

namespace StreamParsing

set_option autoImplicit false

universe u

variable {σ : Type u} {τ π ρ α β γ : Type}

inductive Verdict (τ α : Type) where
  | success (value : α) (rest : List τ)
  | failure
  | abort

namespace Verdict

def map (f : α → β) : Verdict τ α → Verdict τ β
  | success value rest => success (f value) rest
  | failure => failure
  | abort => abort

/-- What is left of a failure that is final. -/
def required : Verdict τ α → Verdict τ α
  | failure => abort
  | v => v

/-- A verdict without a value, which is also the verdict on what waits for the value. -/
inductive Passes : Verdict τ α → Verdict τ β → Prop where
  | failure : Passes failure failure
  | abort : Passes abort abort

end Verdict

/-- A store over a stream that holds all its tokens, and these tokens. -/
structure Setting (σ : Type u) (τ π ρ : Type) [Source σ τ] [LawfulSource σ τ] where
  store : Store σ τ π ρ
  tokens : List τ
  carries : store.stream.Carries tokens none
  ended : store.stream.live = false

namespace Setting

def ofList (tokens : List τ) (rules : Rules τ π ρ) : Setting (NoSource τ) τ π ρ where
  store := .ofStream (.ofList tokens) rules
  tokens := tokens
  carries := TokenStream.carries_ofList tokens
  ended := rfl

variable [Source σ τ] [LawfulSource σ τ] [Position π τ] {S : Setting σ τ π ρ} {c d : Cursor τ π} {ts rest : List τ} {t : τ}

/-- The tokens from the cursor on are those of the list. -/
structure Faces (S : Setting σ τ π ρ) (c : Cursor τ π) (ts : List τ) : Prop where
  placed : S.store.stream.Placed c
  remaining : S.tokens.drop (S.store.stream.indexOf c) = ts

theorem faces_start (tokens : List τ) (rules : Rules τ π ρ) :
    (ofList tokens rules).Faces (TokenStream.ofList tokens).start tokens := by
  refine ⟨TokenStream.placed_start ?_, rfl⟩
  unfold ofList Store.ofStream TokenStream.ofList TokenStream.ofArray
  split <;> simp

namespace Faces

theorem current (h : S.Faces c ts) : c.current = ts.head? := by
  rw [h.placed.current_of_carries S.carries, ← h.remaining, List.head?_drop]

theorem advance (h : S.Faces c (t :: ts)) (fuel : Nat) :
    ∃ d, S.store.stream.advance fuel c = some ⟨S.store.stream, .ok d, #[]⟩ ∧ S.Faces d ts := by
  obtain ⟨d, ha⟩ := TokenStream.exists_advance S.carries S.ended h.placed fuel
  have hadv := TokenStream.advancing_of_advance ha
  refine ⟨d, ha, hadv.placed h.placed, ?_⟩
  rw [hadv.indexOf_eq h.placed h.current, ← List.tail_drop, h.remaining]
  rfl

theorem same_eq_false (h : S.Faces c ts) (h' : S.Faces d rest) (hlt : rest.length < ts.length) :
    d.same c = false := by
  rw [h'.placed.same_eq S.carries.tidy h.placed, decide_eq_false_iff_not]
  intro hindex
  rw [← h.remaining, ← h'.remaining, hindex] at hlt
  exact Nat.lt_irrefl _ hlt

end Faces

inductive Meets (S : Setting σ τ π ρ) : Verdict τ α → Reply τ π α → Prop where
  | success {value : α} {rest : List τ} {c : Cursor τ π} : S.Faces c rest →
      Meets S (.success value rest) (.success value c)
  | failure (fault : Fault τ π) : Meets S .failure (.failure fault)
  | abort (fault : Fault τ π) : Meets S .abort (.abort fault)

/-- At every cursor that faces the list, the job leaves the store as it is and replies what the verdict says. -/
def Gives (S : Setting σ τ π ρ) (job : Cursor τ π → Job τ π ρ α) (ts : List τ) (v : Verdict τ α) : Prop :=
  ∀ c, S.Faces c ts → ∃ reply, Evaluates .lasting [] S.store (job c) S.store (.ok reply) ∧ S.Meets v reply

def Yields (S : Setting σ τ π ρ) (p : Parser τ π ρ α) (ts : List τ) (v : Verdict τ α) : Prop := S.Gives (.run p) ts v

/-- An unbounded loop that has come to the list with `acc` takes it to the verdict. -/
def Loops (S : Setting σ τ π ρ) (item : Parser τ π ρ α) (step : β → α → β) (acc : β) (ts : List τ)
    (v : Verdict τ β) : Prop :=
  ∀ seed count, S.Gives (.rounds ⟨seed, item, step, .atLeast 0⟩ acc count) ts v

theorem Meets.passes {v : Verdict τ α} {w : Verdict τ β} {reply : Reply τ π α} (h : S.Meets v reply)
    (hp : v.Passes w) :
    ∃ reply', Passes (.ok reply) (.ok reply') ∧ S.Meets w reply' := by
  cases hp with
  | failure =>
    cases h with
    | failure fault => exact ⟨_, .failure fault, .failure fault⟩
  | abort =>
    cases h with
    | abort fault => exact ⟨_, .abort fault, .abort fault⟩

theorem Meets.firm {v : Verdict τ α} {reply : Reply τ π α} (h : S.Meets v reply) (hv : v ≠ .failure) :
    Firm (.ok reply) := by
  rintro fault ⟨⟩
  cases h
  exact hv rfl

theorem Meets.map {v : Verdict τ α} {reply : Reply τ π α} (h : S.Meets v reply) (f : α → β) :
    S.Meets (v.map f) (reply.map f) := by
  cases h with
  | success hf => exact .success hf
  | failure fault => exact .failure fault
  | abort fault => exact .abort fault

section Parsers

variable {p : Parser τ π ρ α} {q : Parser τ π ρ β} {v : Verdict τ α} {w : Verdict τ β} {a : α}

theorem yields_pure (a : α) (ts : List τ) : S.Yields (.pure a) ts (.success a ts) :=
  fun _ hc => ⟨_, .pure, .success hc⟩

theorem yields_satisfy {test : τ → Bool} (h : test t = true) :
    S.Yields (.satisfy test) (t :: ts) (.success t ts) := by
  intro c hc
  obtain ⟨d, ha, hd⟩ := hc.advance 0
  have hcur : c.current.filter test = some t := by simp [hc.current, h]
  have haccess : S.store.access (·.advance 0 c) = some (S.store, .ok d) := by simp [Store.access, ha]
  exact ⟨_, .taken hcur haccess, .success hd⟩

theorem yields_satisfy_failure {test : τ → Bool} (h : ts.head?.filter test = none) :
    S.Yields (.satisfy test) ts .failure := by
  intro c hc
  rw [← hc.current] at h
  exact ⟨_, .refused h, .failure _⟩

theorem yields_endOfInput : S.Yields .endOfInput [] (.success () []) := by
  intro c hc
  refine ⟨_, .endOfInput, ?_⟩
  simp only [Cursor.hasToken, hc.current]
  exact .success hc

theorem yields_endOfInput_failure : S.Yields .endOfInput (t :: ts) .failure := by
  intro c hc
  refine ⟨_, .endOfInput, ?_⟩
  simp only [Cursor.hasToken, hc.current]
  exact .failure _

theorem yields_map (h : S.Yields p ts v) (f : α → β) : S.Yields (p.map f) ts (v.map f) := by
  intro c hc
  obtain ⟨reply, hp, hv⟩ := h c hc
  refine ⟨_, .tryMap hp, ?_⟩
  cases hv with
  | success hf => exact .success hf
  | failure fault => exact .failure fault
  | abort fault => exact .abort fault

theorem yields_zipWith {f : α → β → γ} (hp : S.Yields p ts (.success a rest)) (hq : S.Yields q rest w) :
    S.Yields (.zipWith f p q) ts (w.map (f a)) := by
  intro c hc
  obtain ⟨_, hp, ⟨hd⟩⟩ := hp c hc
  obtain ⟨reply, hq, hw⟩ := hq _ hd
  exact ⟨_, .zip_next (hp.of_lasting _) hq, hw.map (f a)⟩

theorem yields_zipWith_passes {f : α → β → γ} {w : Verdict τ γ} (hp : S.Yields p ts v) (hv : v.Passes w) :
    S.Yields (.zipWith f p q) ts w := by
  intro c hc
  obtain ⟨_, hp, hm⟩ := hp c hc
  obtain ⟨reply, hpass, hw⟩ := hm.passes hv
  exact ⟨reply, .zip_stopped (hp.of_lasting _) hpass, hw⟩

theorem yields_orElse_first {q : Parser τ π ρ α} (hp : S.Yields p ts v) (hv : v ≠ .failure) :
    S.Yields (.orElse p q) ts v := by
  intro c hc
  obtain ⟨reply, hp, hm⟩ := hp c hc
  exact ⟨reply, .else_first (hp.of_lasting _) (hm.firm hv), hm⟩

theorem yields_orElse_second {q : Parser τ π ρ α} (hp : S.Yields p ts .failure) (hq : S.Yields q ts v) :
    S.Yields (.orElse p q) ts v := by
  intro c hc
  obtain ⟨_, hp, ⟨⟩⟩ := hp c hc
  obtain ⟨reply, hq, hm⟩ := hq c hc
  exact ⟨reply, .else_second (hp.of_lasting _) hq, hm⟩

theorem yields_label (h : S.Yields p ts v) (message : String) : S.Yields (p.label message) ts v := by
  intro c hc
  obtain ⟨reply, hp, hm⟩ := h c hc
  refine ⟨_, .reshape hp, ?_⟩
  cases hm with
  | success hf => exact .success hf
  | failure fault => exact .failure _
  | abort fault => exact .abort fault

theorem yields_required (h : S.Yields p ts v) : S.Yields p.required ts v.required := by
  intro c hc
  obtain ⟨reply, hp, hm⟩ := h c hc
  refine ⟨_, .reshape hp, ?_⟩
  cases hm with
  | success hf => exact .success hf
  | failure fault => exact .abort fault
  | abort fault => exact .abort fault

section Rules

variable {number : Nat} {body : Parser τ π ρ ρ} {v : Verdict τ ρ}

theorem yields_rule (hf : S.store.rules.force number = some (body, S.store.rules)) (h : S.Yields body ts v) :
    S.Yields (.rule number) ts v := by
  intro c hc
  obtain ⟨reply, hp, hm⟩ := h c hc
  exact ⟨reply, .rule hf hp, hm⟩

/-- While definitions last, a handle does what its rule does. -/
theorem yields_handle (hf : S.store.rules.force number ≠ none) (h : S.Yields (.rule number) ts v) :
    S.Yields (.handle number) ts v := by
  intro c hc
  obtain ⟨reply, hp, hm⟩ := h c hc
  cases hp with
  | rule hf' hp => exact ⟨reply, .handle rfl hf' hp, hm⟩
  | unbound hf' => exact absurd hf' hf

end Rules

end Parsers

section Loops

variable {item : Parser τ π ρ α} {seed : Parser τ π ρ β} {step : β → α → β} {acc : β} {a : α} {v : Verdict τ β}

theorem loops_next (hitem : S.Yields item ts (.success a rest)) (hlt : rest.length < ts.length)
    (h : S.Loops item step (step acc a) rest v) : S.Loops item step acc ts v := by
  intro seed count c hc
  obtain ⟨_, hitem, ⟨hd⟩⟩ := hitem c hc
  obtain ⟨reply, hnext, hm⟩ := h seed (count + 1) _ hd
  refine ⟨reply, .rounds_next rfl (hitem.of_lasting _) ?_ hnext, hm⟩
  rw [hc.same_eq_false hd hlt, Bool.false_and]

theorem loops_failure (hitem : S.Yields item ts .failure) : S.Loops item step acc ts (.success acc ts) := by
  intro seed count c hc
  obtain ⟨_, hitem, ⟨⟩⟩ := hitem c hc
  exact ⟨_, .rounds_failed rfl (hitem.of_lasting _), .success hc⟩

theorem loops_abort (hitem : S.Yields item ts .abort) : S.Loops item step acc ts .abort := by
  intro seed count c hc
  obtain ⟨reply, hitem, hm⟩ := hitem c hc
  obtain ⟨reply', hpass, hm'⟩ := hm.passes (w := .abort) .abort
  exact ⟨reply', .rounds_stopped rfl (hitem.of_lasting _) (hm.firm nofun) hpass, hm'⟩

theorem yields_loop (hseed : S.Yields seed ts (.success acc rest)) (h : S.Loops item step acc rest v) :
    S.Yields (.loop seed item step (.atLeast 0)) ts v := by
  intro c hc
  obtain ⟨_, hseed, ⟨hd⟩⟩ := hseed c hc
  obtain ⟨reply, hrounds, hm⟩ := h seed 0 _ hd
  exact ⟨reply, .loop_seeded (hseed.of_lasting _) hrounds, hm⟩

theorem yields_loop_passes {w : Verdict τ β} (hseed : S.Yields seed ts v) (hv : v.Passes w) :
    S.Yields (.loop seed item step (.atLeast 0)) ts w := by
  intro c hc
  obtain ⟨_, hseed, hm⟩ := hseed c hc
  obtain ⟨reply, hpass, hw⟩ := hm.passes hv
  exact ⟨reply, .loop_stopped (hseed.of_lasting _) hpass, hw⟩

end Loops

/-- Every run of the parser ends, always with the same reply. -/
theorem Yields.run {p : Parser τ π ρ α} {v : Verdict τ α} (h : S.Yields p ts v)
    (hrules : S.store.rules.Kept) (hp : p.Steady) (hc : S.Faces c ts) :
    ∃ reply, S.Meets v reply ∧ (∃ fuel, p.run fuel S.store c = some ⟨S.store, .ok reply⟩) ∧
      ∀ fuel finish, p.run fuel S.store c = some finish → finish = ⟨S.store, .ok reply⟩ := by
  obtain ⟨reply, heval, hm⟩ := h c hc
  have halive : Machine.StaysAlive .counted S.store (.eval p c .nil) := Machine.staysAlive_of_kept hrules ⟨hp, trivial⟩
  obtain ⟨fuel, hrun⟩ := Machine.run_iff_leaves.mpr ((Machine.finishes_iff_lasting halive).mpr heval)
  exact ⟨reply, hm, ⟨fuel, hrun⟩, fun _ _ hrun' => Machine.run_unique hrun' hrun⟩

end Setting

end StreamParsing
