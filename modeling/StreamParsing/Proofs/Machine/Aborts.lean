import StreamParsing.Proofs.Machine.Path

/-!
Aborts. Pending work hands an abort on as it is, unless a hook answers it with something else; of the hooks of this
library only `recover` does. Until then nothing is evaluated or read and no callback has a say, so an abort that meets
no such hook is what the run ends with.
-/

namespace StreamParsing

set_option autoImplicit false

universe u

variable {σ : Type u} {τ π ρ α β γ ω : Type}

/-- The hooks of this library that leave aborts alone. -/
inductive Hook.Sparing : {α β : Type} → Hook τ π α β → Prop where
  | lookAhead {α : Type} : Sparing (lookAhead : Hook τ π α α)
  | not {α : Type} : Sparing (not : Hook τ π α Unit)
  | guarded {α : Type} (test : α → Bool) : Sparing (guarded test : Hook τ π α α)
  | label {α : Type} (message : String) : Sparing (label message : Hook τ π α α)
  | required {α : Type} : Sparing (required : Hook τ π α α)
  | commit {α : Type} : Sparing (commit : Hook τ π α α)
  | consuming {α : Type} : Sparing (consuming : Hook τ π α α)

theorem Hook.Sparing.abort {hook : Hook τ π α β} (h : hook.Sparing) (start : Cursor τ π) (fault : Fault τ π) :
    hook start (.abort fault) = .abort fault := by
  cases h <;> rfl

namespace Frame

/-- A piece of work that is no reshaping, or reshaping by a hook that leaves aborts alone. -/
def Sparing : Frame τ π ρ α β → Prop
  | reshape hook _ => hook.Sparing
  | _ => True

/-- The piece of work answers this abort with itself. -/
def Keeps (fault : Fault τ π) : Frame τ π ρ α β → Prop
  | reshape hook start => hook start (.abort fault) = .abort fault
  | _ => True

theorem Sparing.keeps {frame : Frame τ π ρ α β} (h : frame.Sparing) (fault : Fault τ π) : frame.Keeps fault := by
  cases frame with
  | reshape hook start => exact Hook.Sparing.abort h start fault
  | _ => trivial

/-- The two pieces of work differ at most in the callbacks they hold. -/
inductive Recast : {α β : Type} → Frame τ π ρ α β → Frame τ π ρ α β → Prop where
  | tryMap {α β : Type} (f f' : α → Except Cause β) (start : Cursor τ π) :
      Recast (.tryMap f start : Frame τ π ρ α β) (.tryMap f' start)
  | tryBind {α β β' γ : Type} (check : α → Except Cause β) (check' : α → Except Cause β')
      (next : β → Parser τ π ρ γ) (next' : β' → Parser τ π ρ γ) (start : Cursor τ π) :
      Recast (.tryBind check next start) (.tryBind check' next' start)
  | zipLeft {α β γ : Type} (f f' : α → β → γ) (q : Parser τ π ρ β) : Recast (.zipLeft f q) (.zipLeft f' q)
  | zipRight {α β γ : Type} (f f' : α → β → γ) (first : α) :
      Recast (.zipRight f first : Frame τ π ρ β γ) (.zipRight f' first)
  | orElse {α : Type} (q : Parser τ π ρ α) (start : Cursor τ π) : Recast (.orElse q start) (.orElse q start)
  | reshape {α β : Type} (hook : Hook τ π α β) (start : Cursor τ π) :
      Recast (.reshape hook start : Frame τ π ρ α β) (.reshape hook start)
  | guarded {α : Type} (test test' : α → Bool) (start : Cursor τ π) :
      Recast (.reshape (Hook.guarded test) start : Frame τ π ρ α α) (.reshape (Hook.guarded test') start)
  | seed {α β : Type} (loop : Loop τ π ρ α β) (step : β → α → β) :
      Recast (.seed loop) (.seed { loop with step })
  | item {α β : Type} (loop : Loop τ π ρ α β) (step : β → α → β) (round : Round τ π β) :
      Recast (.item loop round) (.item { loop with step } round)
  | seedTill {α β γ : Type} (loop : LoopTill τ π ρ α β γ) (step : β → α → β) :
      Recast (.seedTill loop) (.seedTill { loop with step })
  | stopTill {α β γ : Type} (loop : LoopTill τ π ρ α β γ) (step : β → α → β) (round : Round τ π β) :
      Recast (.stopTill loop round) (.stopTill { loop with step } round)
  | itemTill {α β γ : Type} (loop : LoopTill τ π ρ α β γ) (step : β → α → β) (round : Round τ π β) :
      Recast (.itemTill loop round) (.itemTill { loop with step } round)

theorem Recast.sparing {frame frame' : Frame τ π ρ α β} (h : frame.Recast frame') (hs : frame.Sparing) :
    frame'.Sparing := by
  cases h with
  | reshape => exact hs
  | guarded test test' => exact .guarded test'
  | _ => trivial

end Frame

namespace Stack

def Sparing {α ω : Type} : Stack τ π ρ α ω → Prop
  | nil => True
  | cons frame rest => frame.Sparing ∧ rest.Sparing

def Keeps {α ω : Type} (fault : Fault τ π) : Stack τ π ρ α ω → Prop
  | nil => True
  | cons frame rest => frame.Keeps fault ∧ rest.Keeps fault

/-- The two stacks differ at most in the callbacks they hold. -/
inductive Recast : {α ω : Type} → Stack τ π ρ α ω → Stack τ π ρ α ω → Prop where
  | nil {ω : Type} : Recast (.nil : Stack τ π ρ ω ω) .nil
  | cons {α β ω : Type} {frame frame' : Frame τ π ρ α β} {rest rest' : Stack τ π ρ β ω} :
      frame.Recast frame' → rest.Recast rest' → Recast (.cons frame rest) (.cons frame' rest')

theorem Sparing.keeps {k : Stack τ π ρ α ω} (h : k.Sparing) (fault : Fault τ π) : k.Keeps fault := by
  induction k with
  | nil => trivial
  | cons frame rest ih => exact ⟨h.1.keeps fault, ih h.2⟩

theorem Recast.sparing {k k' : Stack τ π ρ α ω} (h : k.Recast k') (hs : k.Sparing) : k'.Sparing := by
  induction h with
  | nil => trivial
  | cons hframe _ ih => exact ⟨hframe.sparing hs.1, ih hs.2⟩

theorem Recast.depth_eq {k k' : Stack τ π ρ α ω} (h : k.Recast k') : k'.depth = k.depth := by
  induction h with
  | nil => rfl
  | cons _ _ ih => exact congrArg (· + 1) ih

/-- Pending work that does not keep the abort has a first hook that answers it with something else. -/
theorem keeps_or_exists_hook (fault : Fault τ π) (k : Stack τ π ρ α ω) :
    k.Keeps fault ∨ ∃ (β γ : Type) (above : Stack τ π ρ α β) (hook : Hook τ π β γ) (start : Cursor τ π)
      (rest : Stack τ π ρ γ ω), k = above.append (.cons (.reshape hook start) rest) ∧ above.Keeps fault ∧
        hook start (.abort fault) ≠ .abort fault := by
  induction k with
  | nil => exact .inl trivial
  | cons frame rest ih =>
    by_cases hframe : frame.Keeps fault
    · rcases ih with hrest | ⟨_, _, above, hook, start, below, rfl, habove, hhook⟩
      · exact .inl ⟨hframe, hrest⟩
      · exact .inr ⟨_, _, .cons frame above, hook, start, below, rfl, ⟨hframe, habove⟩, hhook⟩
    · right
      cases frame with
      | reshape hook start => exact ⟨_, _, .nil, hook, start, rest, rfl, trivial, hframe⟩
      | _ => exact absurd trivial hframe

end Stack

namespace Machine

variable [Position π τ]

theorem resume_abort {frame : Frame τ π ρ α β} {fault : Fault τ π} (h : frame.Keeps fault) (store : Store σ τ π ρ)
    (k : Stack τ π ρ β ω) : resume store frame (.abort fault) k = .next store (.back (.abort fault) k) := by
  cases frame with
  | reshape hook start =>
    have hhook : hook start (.abort fault) = .abort fault := h
    simp only [resume, hhook]
  | _ => rfl

variable [Source σ τ] {upkeep : Upkeep τ π ρ ω} {k : Stack τ π ρ α ω} {fault : Fault τ π}

/-- After `n` steps the abort has passed the first `n` pieces of pending work. -/
theorem after_abort (h : k.Keeps fault) (fuel : Nat) (store : Store σ τ π ρ) {n : Nat} (hn : n ≤ k.depth) :
    ∃ (β : Type) (rest : Stack τ π ρ β ω), rest.depth + n = k.depth ∧
      after upkeep fuel store (.back (.abort fault) k) n = some (store, .back (.abort fault) rest) := by
  induction n generalizing α with
  | zero => exact ⟨α, k, rfl, rfl⟩
  | succ n ih =>
    cases k with
    | nil => cases hn
    | cons frame k =>
      obtain ⟨_, rest, hdepth, hafter⟩ := ih h.2 (Nat.le_of_succ_le_succ hn)
      refine ⟨_, rest, congrArg (· + 1) hdepth, ?_⟩
      rw [after, step, resume_abort h.1]
      exact hafter

theorem run_abort (h : k.Keeps fault) (fuel : Nat) (store : Store σ τ π ρ) :
    run upkeep fuel store (.back (.abort fault) k) =
      if k.depth < fuel then some ⟨store, .ok (.abort fault)⟩ else none := by
  induction fuel generalizing α with
  | zero => rfl
  | succ fuel ih =>
    cases k with
    | nil => rfl
    | cons frame k =>
      rw [run, step, resume_abort h.1]
      simp only [ih h.2, Stack.depth, Nat.add_lt_add_iff_right]

theorem path_abort {β : Type} (above : Stack τ π ρ α β) (k : Stack τ π ρ β ω) (h : above.Keeps fault)
    (store : Store σ τ π ρ) :
    Path upkeep store (.back (.abort fault) (above.append k)) store (.back (.abort fault) k) := by
  induction above with
  | nil => exact .refl _ _
  | cons frame above ih =>
    refine .cons ⟨0, ?_⟩ (ih k h.2)
    exact resume_abort h.1 store _

/-- An abort passes all pending work but hooks that answer it with something else, and ends the run. -/
theorem abort_reaches_end (store : Store σ τ π ρ) (fault : Fault τ π) (k : Stack τ π ρ α ω) :
    (k.Sparing →
      (∀ fuel, run upkeep fuel store (.back (.abort fault) k) =
        if k.depth < fuel then some ⟨store, .ok (.abort fault)⟩ else none) ∧
      (∀ fuel n, n ≤ k.depth → ∃ (β : Type) (rest : Stack τ π ρ β ω), rest.depth + n = k.depth ∧
        after upkeep fuel store (.back (.abort fault) k) n = some (store, .back (.abort fault) rest)) ∧
      ∀ k', k.Recast k' → ∀ fuel,
        run upkeep fuel store (.back (.abort fault) k') = run upkeep fuel store (.back (.abort fault) k)) ∧
    ((∃ fuel, run upkeep fuel store (.back (.abort fault) k) = some ⟨store, .ok (.abort fault)⟩) ∨
      ∃ (β γ : Type) (above : Stack τ π ρ α β) (hook : Hook τ π β γ) (start : Cursor τ π) (rest : Stack τ π ρ γ ω),
        k = above.append (.cons (.reshape hook start) rest) ∧
        Path upkeep store (.back (.abort fault) k) store (.back (.abort fault) (.cons (.reshape hook start) rest)) ∧
        hook start (.abort fault) ≠ .abort fault ∧ ¬ hook.Sparing) := by
  constructor
  · intro hk
    refine ⟨fun fuel => run_abort (hk.keeps fault) fuel store,
      fun fuel n hn => after_abort (hk.keeps fault) fuel store hn, ?_⟩
    intro k' hrecast fuel
    rw [run_abort ((hrecast.sparing hk).keeps fault), run_abort (hk.keeps fault), hrecast.depth_eq]
  · rcases k.keeps_or_exists_hook fault with hk | ⟨_, _, above, hook, start, rest, rfl, habove, hhook⟩
    · refine .inl ⟨k.depth + 1, ?_⟩
      rw [run_abort hk, if_pos (Nat.lt_succ_self _)]
    · refine .inr ⟨_, _, above, hook, start, rest, rfl, path_abort above _ habove store, hhook, ?_⟩
      exact fun hsparing => hhook (hsparing.abort start fault)

/-- A loop inside an alternative that commits, inside the end of another loop, under a negation. -/
theorem abort_reaches_end_nested :
    let store : Store (NoSource Char) Char LinearPosition Empty := .ofStream (.ofText "ab") .empty
    let c : Cursor Char LinearPosition := store.stream.start
    let fault : Fault Char LinearPosition := .ofMessage "no item" c
    let items : Loop Char LinearPosition Empty Char (Array Char) :=
      ⟨.pure #[], .satisfy (· == 'a'), Array.push, .atLeast 0⟩
    let total : LoopTill Char LinearPosition Empty Nat Nat (Array Char) :=
      ⟨⟨.pure 0, .pure 1, (· + ·), .atLeast 0⟩, items.seed⟩
    let k : Stack Char LinearPosition Empty Char Unit :=
      .cons (.item items ⟨#['a'], 1, c⟩) (.cons (.orElse items.seed c) (.cons (.reshape Hook.commit c)
        (.cons (.stopTill total ⟨0, 0, c⟩) (.cons (.reshape Hook.not c) .nil))))
    k.Sparing ∧ run .counted 6 store (.back (.abort fault) k) = some ⟨store, .ok (.abort fault)⟩ := by
  intro store c fault items total k
  have hk : k.Sparing := ⟨trivial, trivial, .commit, trivial, .not, trivial⟩
  obtain ⟨hrun, -⟩ := (abort_reaches_end store fault k).1 hk
  exact ⟨hk, hrun 6⟩

end Machine

end StreamParsing
