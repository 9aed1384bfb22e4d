import StreamParsing.Run

/-!
The direct reading of parsers, without a stack: a parser is evaluated by evaluating its parts, a handle by
evaluating the definition it stands for, a loop round by round. An evaluation ends in a reply or in the error
of a read, or it does not end.

When a handle still stands for its definition is a parameter, as it is for the machine. `Liveness.lasting` is the
reading in which definitions never go away.
-/

namespace StreamParsing

set_option autoImplicit false

universe u

variable {σ : Type u} {τ π ρ : Type}

/-- Says whether a handle still stands for its definition, given the rules held by what is pending. -/
abbrev Liveness (τ π ρ : Type) := Rules τ π ρ → List Nat → Nat → Bool

namespace Liveness

/-- A definition lives while its caller retains it or something pending holds it. -/
def counted : Liveness τ π ρ := fun rules held number => rules.isRetained number || rules.isHeld held number

/-- A definition lives for ever. -/
def lasting : Liveness τ π ρ := fun _ _ _ => true

end Liveness

/-- The fault of a parser that always fails. -/
def Fault.given (message : Option String) (c : Cursor τ π) : Fault τ π :=
  match message with
  | some message => .ofMessage message c
  | none => .unexpected c

/-- Converts the value of a success; an error of the conversion is a failure at `start`. -/
def Reply.convert {α β : Type} (f : α → Except Cause β) (start : Cursor τ π) : Reply τ π α → Reply τ π β
  | .success value c =>
    match f value with
    | .ok value => .success value c
    | .error cause => .failure (.ofCause cause start)
  | .failure fault => .failure fault
  | .abort fault => .abort fault

abbrev Outcome (τ π α : Type) := Except ReadError (Reply τ π α)

/-- An outcome without a value, which is also the outcome of what waits for the value. -/
inductive Passes {α β : Type} : Outcome τ π α → Outcome τ π β → Prop where
  | failure (fault : Fault τ π) : Passes (.ok (.failure fault)) (.ok (.failure fault))
  | abort (fault : Fault τ π) : Passes (.ok (.abort fault)) (.ok (.abort fault))
  | error (e : ReadError) : Passes (.error e) (.error e)

/-- An outcome that is no failure. -/
def Firm {α : Type} (result : Outcome τ π α) : Prop := ∀ fault, result ≠ .ok (.failure fault)

/-- What can be evaluated: a parser at a place, or what is left of a loop. -/
inductive Job (τ π ρ : Type) : Type → Type 1 where
  | run {α : Type} (p : Parser τ π ρ α) (c : Cursor τ π) : Job τ π ρ α
  | rounds {α β : Type} (loop : Loop τ π ρ α β) (acc : β) (count : Nat) (c : Cursor τ π) : Job τ π ρ β
  | roundsTill {α β γ : Type} (loop : LoopTill τ π ρ α β γ) (acc : β) (count : Nat) (c : Cursor τ π) :
      Job τ π ρ β

/-- `Evaluates alive held store job store' result`: the job, surrounded by parsers that hold the rules `held`,
takes the store to `store'` and ends in `result`. -/
inductive Evaluates [Source σ τ] [Position π τ] (alive : Liveness τ π ρ) :
    {α : Type} → List Nat → Store σ τ π ρ → Job τ π ρ α → Store σ τ π ρ → Outcome τ π α → Prop where
  | pure {α : Type} {held : List Nat} {store : Store σ τ π ρ} {value : α} {c : Cursor τ π} :
      Evaluates alive held store (.run (.pure value) c) store (.ok (.success value c))
  | peek {α : Type} {held : List Nat} {store : Store σ τ π ρ} {read : Cursor τ π → α} {c : Cursor τ π} :
      Evaluates alive held store (.run (.peek read) c) store (.ok (.success (read c) c))
  | refused {held : List Nat} {store : Store σ τ π ρ} {test : τ → Bool} {c : Cursor τ π} :
      c.current.filter test = none →
        Evaluates alive held store (.run (.satisfy test) c) store (.ok (.failure (.unexpected c)))
  | taken {held : List Nat} {store store' : Store σ τ π ρ} {test : τ → Bool} {c next : Cursor τ π} {t : τ}
      {fuel : Nat} :
      c.current.filter test = some t → store.access (·.advance fuel c) = some (store', .ok next) →
        Evaluates alive held store (.run (.satisfy test) c) store' (.ok (.success t next))
  | unread {held : List Nat} {store store' : Store σ τ π ρ} {test : τ → Bool} {c : Cursor τ π} {t : τ}
      {e : ReadError} {fuel : Nat} :
      c.current.filter test = some t → store.access (·.advance fuel c) = some (store', .error e) →
        Evaluates alive held store (.run (.satisfy test) c) store' (.error e)
  | endOfInput {held : List Nat} {store : Store σ τ π ρ} {c : Cursor τ π} :
      Evaluates alive held store (.run .endOfInput c) store
        (.ok (if c.hasToken then .failure (.unexpected c) else .success () c))
  | fail {α : Type} {held : List Nat} {store : Store σ τ π ρ} {message : Option String} {c : Cursor τ π} :
      Evaluates alive held store (.run (.fail message : Parser τ π ρ α) c) store
        (.ok (.failure (.given message c)))
  | abort {α : Type} {held : List Nat} {store : Store σ τ π ρ} {message : String} {c : Cursor τ π} :
      Evaluates alive held store (.run (.abort message : Parser τ π ρ α) c) store
        (.ok (.abort (.ofMessage message c)))
  | tryMap {α β : Type} {held : List Nat} {store store' : Store σ τ π ρ} {p : Parser τ π ρ α}
      {f : α → Except Cause β} {c : Cursor τ π} {result : Outcome τ π α} :
      Evaluates alive held store (.run p c) store' result →
        Evaluates alive held store (.run (.tryMap p f) c) store' (result.map (Reply.convert f c))
  | bind_next {α β γ : Type} {held : List Nat} {store mid store' : Store σ τ π ρ} {p : Parser τ π ρ α}
      {check : α → Except Cause β} {next : β → Parser τ π ρ γ} {c c' : Cursor τ π} {value : α} {checked : β}
      {result : Outcome τ π γ} :
      Evaluates alive held store (.run p c) mid (.ok (.success value c')) → check value = .ok checked →
        Evaluates alive held mid (.run (next checked) c') store' result →
          Evaluates alive held store (.run (.tryBind p check next) c) store' result
  | bind_refused {α β γ : Type} {held : List Nat} {store store' : Store σ τ π ρ} {p : Parser τ π ρ α}
      {check : α → Except Cause β} {next : β → Parser τ π ρ γ} {c c' : Cursor τ π} {value : α} {cause : Cause} :
      Evaluates alive held store (.run p c) store' (.ok (.success value c')) → check value = .error cause →
        Evaluates alive held store (.run (.tryBind p check next) c) store' (.ok (.failure (.ofCause cause c)))
  | bind_stopped {α β γ : Type} {held : List Nat} {store store' : Store σ τ π ρ} {p : Parser τ π ρ α}
      {check : α → Except Cause β} {next : β → Parser τ π ρ γ} {c : Cursor τ π} {first : Outcome τ π α}
      {result : Outcome τ π γ} :
      Evaluates alive held store (.run p c) store' first → Passes first result →
        Evaluates alive held store (.run (.tryBind p check next) c) store' result
  | zip_next {α β γ : Type} {held : List Nat} {store mid store' : Store σ τ π ρ} {f : α → β → γ}
      {p : Parser τ π ρ α} {q : Parser τ π ρ β} {c c' : Cursor τ π} {value : α} {second : Outcome τ π β} :
      Evaluates alive (q.holds ++ held) store (.run p c) mid (.ok (.success value c')) →
        Evaluates alive held mid (.run q c') store' second →
          Evaluates alive held store (.run (.zipWith f p q) c) store' (second.map (Reply.map (f value)))
  | zip_stopped {α β γ : Type} {held : List Nat} {store store' : Store σ τ π ρ} {f : α → β → γ}
      {p : Parser τ π ρ α} {q : Parser τ π ρ β} {c : Cursor τ π} {first : Outcome τ π α}
      {result : Outcome τ π γ} :
      Evaluates alive (q.holds ++ held) store (.run p c) store' first → Passes first result →
        Evaluates alive held store (.run (.zipWith f p q) c) store' result
  | else_first {α : Type} {held : List Nat} {store store' : Store σ τ π ρ} {p q : Parser τ π ρ α}
      {c : Cursor τ π} {result : Outcome τ π α} :
      Evaluates alive (q.holds ++ held) store (.run p c) store' result → Firm result →
        Evaluates alive held store (.run (.orElse p q) c) store' result
  | else_second {α : Type} {held : List Nat} {store mid store' : Store σ τ π ρ} {p q : Parser τ π ρ α}
      {c : Cursor τ π} {fault : Fault τ π} {result : Outcome τ π α} :
      Evaluates alive (q.holds ++ held) store (.run p c) mid (.ok (.failure fault)) →
        Evaluates alive held mid (.run q c) store' result →
          Evaluates alive held store (.run (.orElse p q) c) store' result
  | reshape {α β : Type} {held : List Nat} {store store' : Store σ τ π ρ} {p : Parser τ π ρ α}
      {hook : Hook τ π α β} {c : Cursor τ π} {result : Outcome τ π α} :
      Evaluates alive held store (.run p c) store' result →
        Evaluates alive held store (.run (.reshape p hook) c) store' (result.map (hook c))
  | loop_seeded {α β : Type} {held : List Nat} {store mid store' : Store σ τ π ρ} {seed : Parser τ π ρ β}
      {item : Parser τ π ρ α} {step : β → α → β} {bounds : Bounds} {c c' : Cursor τ π} {acc : β}
      {result : Outcome τ π β} :
      Evaluates alive (Loop.holds ⟨seed, item, step, bounds⟩ ++ held) store (.run seed c) mid
          (.ok (.success acc c')) →
        Evaluates alive held mid (.rounds ⟨seed, item, step, bounds⟩ acc 0 c') store' result →
          Evaluates alive held store (.run (.loop seed item step bounds) c) store' result
  | loop_stopped {α β : Type} {held : List Nat} {store store' : Store σ τ π ρ} {seed : Parser τ π ρ β}
      {item : Parser τ π ρ α} {step : β → α → β} {bounds : Bounds} {c : Cursor τ π}
      {first result : Outcome τ π β} :
      Evaluates alive (Loop.holds ⟨seed, item, step, bounds⟩ ++ held) store (.run seed c) store' first →
        Passes first result → Evaluates alive held store (.run (.loop seed item step bounds) c) store' result
  | till_seeded {α β γ : Type} {held : List Nat} {store mid store' : Store σ τ π ρ} {seed : Parser τ π ρ β}
      {item : Parser τ π ρ α} {stop : Parser τ π ρ γ} {step : β → α → β} {bounds : Bounds} {c c' : Cursor τ π}
      {acc : β} {result : Outcome τ π β} :
      Evaluates alive (LoopTill.holds ⟨⟨seed, item, step, bounds⟩, stop⟩ ++ held) store (.run seed c) mid
          (.ok (.success acc c')) →
        Evaluates alive held mid (.roundsTill ⟨⟨seed, item, step, bounds⟩, stop⟩ acc 0 c') store' result →
          Evaluates alive held store (.run (.loopTill seed item stop step bounds) c) store' result
  | till_stopped {α β γ : Type} {held : List Nat} {store store' : Store σ τ π ρ} {seed : Parser τ π ρ β}
      {item : Parser τ π ρ α} {stop : Parser τ π ρ γ} {step : β → α → β} {bounds : Bounds} {c : Cursor τ π}
      {first result : Outcome τ π β} :
      Evaluates alive (LoopTill.holds ⟨⟨seed, item, step, bounds⟩, stop⟩ ++ held) store (.run seed c) store'
          first →
        Passes first result →
          Evaluates alive held store (.run (.loopTill seed item stop step bounds) c) store' result
  | rule {held : List Nat} {store store' : Store σ τ π ρ} {number : Nat} {p : Parser τ π ρ ρ}
      {rules : Rules τ π ρ} {c : Cursor τ π} {result : Outcome τ π ρ} :
      store.rules.force number = some (p, rules) →
        Evaluates alive held { store with rules } (.run p c) store' result →
          Evaluates alive held store (.run (.rule number) c) store' result
  | unbound {held : List Nat} {store : Store σ τ π ρ} {number : Nat} {c : Cursor τ π} :
      store.rules.force number = none →
        Evaluates alive held store (.run (.rule number) c) store
          (.ok (.abort (.ofMessage Machine.unboundMessage c)))
  | handle {held : List Nat} {store store' : Store σ τ π ρ} {number : Nat} {p : Parser τ π ρ ρ}
      {rules : Rules τ π ρ} {c : Cursor τ π} {result : Outcome τ π ρ} :
      alive store.rules held number = true → store.rules.force number = some (p, rules) →
        Evaluates alive held { store with rules } (.run p c) store' result →
          Evaluates alive held store (.run (.handle number) c) store' result
  | dangling {held : List Nat} {store : Store σ τ π ρ} {number : Nat} {c : Cursor τ π} :
      alive store.rules held number = false ∨ store.rules.force number = none →
        Evaluates alive held store (.run (.handle number) c)
          { store with log := store.log.push (.dangling (Position.place τ c.position)) }
          (.ok (.abort (.ofMessage danglingMessage c)))
  | draft {α : Type} {held : List Nat} {store store' : Store σ τ π ρ} {parser : Nat → Parser τ π ρ α}
      {new : Nat → List (Rule τ π ρ)} {c : Cursor τ π} {result : Outcome τ π α} :
      Evaluates alive held { store with rules := store.rules.append (new store.rules.entries.size) false }
          (.run (parser store.rules.entries.size) c) store' result →
        Evaluates alive held store (.run (.draft parser new) c) store' result
  | rounds_reached {α β : Type} {held : List Nat} {store : Store σ τ π ρ} {loop : Loop τ π ρ α β} {acc : β}
      {count : Nat} {c : Cursor τ π} :
      loop.bounds.reached count = true →
        Evaluates alive held store (.rounds loop acc count c) store (.ok (.success acc c))
  | rounds_stalled {α β : Type} {held : List Nat} {store store' : Store σ τ π ρ} {loop : Loop τ π ρ α β}
      {acc : β} {count : Nat} {c c' : Cursor τ π} {value : α} :
      loop.bounds.reached count = false →
        Evaluates alive (loop.holds ++ held) store (.run loop.item c) store' (.ok (.success value c')) →
          (c'.same c && loop.bounds.stallsAt (count + 1)) = true →
            Evaluates alive held store (.rounds loop acc count c)
              { store' with log := store'.log.push (.stalled (Position.place τ c'.position)) }
              (.ok (.success (loop.step acc value) c'))
  | rounds_next {α β : Type} {held : List Nat} {store mid store' : Store σ τ π ρ} {loop : Loop τ π ρ α β}
      {acc : β} {count : Nat} {c c' : Cursor τ π} {value : α} {result : Outcome τ π β} :
      loop.bounds.reached count = false →
        Evaluates alive (loop.holds ++ held) store (.run loop.item c) mid (.ok (.success value c')) →
          (c'.same c && loop.bounds.stallsAt (count + 1)) = false →
            Evaluates alive held mid (.rounds loop (loop.step acc value) (count + 1) c') store' result →
              Evaluates alive held store (.rounds loop acc count c) store' result
  | rounds_failed {α β : Type} {held : List Nat} {store store' : Store σ τ π ρ} {loop : Loop τ π ρ α β}
      {acc : β} {count : Nat} {c : Cursor τ π} {fault : Fault τ π} :
      loop.bounds.reached count = false →
        Evaluates alive (loop.holds ++ held) store (.run loop.item c) store' (.ok (.failure fault)) →
          Evaluates alive held store (.rounds loop acc count c) store'
            (.ok (if count < loop.bounds.min then .failure fault else .success acc c))
  | rounds_stopped {α β : Type} {held : List Nat} {store store' : Store σ τ π ρ} {loop : Loop τ π ρ α β}
      {acc : β} {count : Nat} {c : Cursor τ π} {first : Outcome τ π α} {result : Outcome τ π β} :
      loop.bounds.reached count = false →
        Evaluates alive (loop.holds ++ held) store (.run loop.item c) store' first → Firm first →
          Passes first result → Evaluates alive held store (.rounds loop acc count c) store' result
  | till_reached {α β γ : Type} {held : List Nat} {store : Store σ τ π ρ} {loop : LoopTill τ π ρ α β γ}
      {acc : β} {count : Nat} {c : Cursor τ π} :
      loop.bounds.reached count = true →
        Evaluates alive held store (.roundsTill loop acc count c) store (.ok (.success acc c))
  | till_ended {α β γ : Type} {held : List Nat} {store store' : Store σ τ π ρ} {loop : LoopTill τ π ρ α β γ}
      {acc : β} {count : Nat} {c c' : Cursor τ π} {value : γ} :
      loop.bounds.reached count = false →
        Evaluates alive (loop.holds ++ held) store (.run loop.stop c) store' (.ok (.success value c')) →
          Evaluates alive held store (.roundsTill loop acc count c) store' (.ok (.success acc c'))
  | till_barred {α β γ : Type} {held : List Nat} {store store' : Store σ τ π ρ}
      {loop : LoopTill τ π ρ α β γ} {acc : β} {count : Nat} {c : Cursor τ π} {first : Outcome τ π γ}
      {result : Outcome τ π β} :
      loop.bounds.reached count = false →
        Evaluates alive (loop.holds ++ held) store (.run loop.stop c) store' first → Firm first →
          Passes first result → Evaluates alive held store (.roundsTill loop acc count c) store' result
  | till_stalled {α β γ : Type} {held : List Nat} {store mid store' : Store σ τ π ρ}
      {loop : LoopTill τ π ρ α β γ} {acc : β} {count : Nat} {c c' : Cursor τ π} {fault : Fault τ π}
      {value : α} :
      loop.bounds.reached count = false →
        Evaluates alive (loop.holds ++ held) store (.run loop.stop c) mid (.ok (.failure fault)) →
          Evaluates alive (loop.holds ++ held) mid (.run loop.item c) store' (.ok (.success value c')) →
            (c'.same c && loop.bounds.stallsAt (count + 1)) = true →
              Evaluates alive held store (.roundsTill loop acc count c) store'
                (.ok (.failure (.ofMessage Machine.stalledMessage c')))
  | till_next {α β γ : Type} {held : List Nat} {store mid mid' store' : Store σ τ π ρ}
      {loop : LoopTill τ π ρ α β γ} {acc : β} {count : Nat} {c c' : Cursor τ π} {fault : Fault τ π}
      {value : α} {result : Outcome τ π β} :
      loop.bounds.reached count = false →
        Evaluates alive (loop.holds ++ held) store (.run loop.stop c) mid (.ok (.failure fault)) →
          Evaluates alive (loop.holds ++ held) mid (.run loop.item c) mid' (.ok (.success value c')) →
            (c'.same c && loop.bounds.stallsAt (count + 1)) = false →
              Evaluates alive held mid' (.roundsTill loop (loop.step acc value) (count + 1) c') store' result →
                Evaluates alive held store (.roundsTill loop acc count c) store' result
  | till_lacking {α β γ : Type} {held : List Nat} {store mid store' : Store σ τ π ρ}
      {loop : LoopTill τ π ρ α β γ} {acc : β} {count : Nat} {c : Cursor τ π} {fault : Fault τ π}
      {first : Outcome τ π α} {result : Outcome τ π β} :
      loop.bounds.reached count = false →
        Evaluates alive (loop.holds ++ held) store (.run loop.stop c) mid (.ok (.failure fault)) →
          Evaluates alive (loop.holds ++ held) mid (.run loop.item c) store' first → Passes first result →
            Evaluates alive held store (.roundsTill loop acc count c) store' result

theorem Store.rules_of_access {α : Type} {store store' : Store σ τ π ρ} {f : TokenStream σ τ → Option (Access σ τ α)}
    {result : Except ReadError α} (h : store.access f = some (store', result)) : store'.rules = store.rules := by
  simp only [access, Option.map_eq_some_iff] at h
  obtain ⟨access, -, h⟩ := h
  cases h
  rfl

/-- What is true of a table remains true when a rule is built, and when rules are added for a run. -/
structure Rules.Lasts (good : Rules τ π ρ → Prop) : Prop where
  force : ∀ {rules rules' : Rules τ π ρ} {number : Nat} {p : Parser τ π ρ ρ}, good rules →
    rules.force number = some (p, rules') → good rules'
  append : ∀ {rules : Rules τ π ρ} (new : List (Rule τ π ρ)), good rules → good (rules.append new false)

theorem Evaluates.lasts [Source σ τ] [Position π τ] {alive : Liveness τ π ρ} {α : Type} {held : List Nat}
    {store store' : Store σ τ π ρ} {job : Job τ π ρ α} {result : Outcome τ π α}
    (h : Evaluates alive held store job store' result) {good : Rules τ π ρ → Prop} (hgood : Rules.Lasts good) :
    good store.rules → good store'.rules := by
  induction h with
  | pure | peek | refused | endOfInput | fail | abort | unbound | dangling | rounds_reached | till_reached => exact id
  | taken _ ha | unread _ ha =>
    rw [Store.rules_of_access ha]
    exact id
  | tryMap _ ih | reshape _ ih => exact ih
  | bind_refused _ _ ih | bind_stopped _ _ ih | zip_stopped _ _ ih | else_first _ _ ih => exact ih
  | bind_next _ _ _ ihp ihq => exact ihq ∘ ihp
  | zip_next _ _ ihp ihq | else_second _ _ ihp ihq => exact ihq ∘ ihp
  | loop_seeded _ _ ihs ihr | till_seeded _ _ ihs ihr => exact ihr ∘ ihs
  | loop_stopped _ _ ih | till_stopped _ _ ih => exact ih
  | rule hf _ ih | handle _ hf _ ih => exact fun h => ih (hgood.force h hf)
  | draft _ ih => exact fun h => ih (hgood.append _ h)
  | rounds_stalled _ _ _ ih | rounds_stopped _ _ _ _ ih => exact ih
  | rounds_failed _ _ ih | till_ended _ _ ih => exact ih
  | rounds_next _ _ _ _ ihp ihr => exact ihr ∘ ihp
  | till_barred _ _ _ _ ih => exact ih
  | till_stalled _ _ _ _ ihs ihp | till_lacking _ _ _ _ ihs ihp => exact ihp ∘ ihs
  | till_next _ _ _ _ _ ihs ihp ihr => exact ihr ∘ ihp ∘ ihs

/-- Only what is said of the pending work by the liveness matters to an evaluation. -/
theorem Evaluates.of_held [Source σ τ] [Position π τ] {alive alive' : Liveness τ π ρ}
    {R : Rules τ π ρ → List Nat → List Nat → Prop}
    (hlasts : ∀ held held', Rules.Lasts fun rules => R rules held held')
    (hown : ∀ {rules held held'} (own : List Nat), R rules held held' → R rules (own ++ held) (own ++ held'))
    (halive : ∀ {rules held held'}, R rules held held' → ∀ number,
      alive rules held number = alive' rules held' number)
    {α : Type} {held held' : List Nat} {store store' : Store σ τ π ρ} {job : Job τ π ρ α} {result : Outcome τ π α}
    (h : Evaluates alive held store job store' result) (hheld : R store.rules held held') :
    Evaluates alive' held' store job store' result := by
  induction h generalizing held' with
  | pure => exact .pure
  | peek => exact .peek
  | refused hc => exact .refused hc
  | taken hc ha => exact .taken hc ha
  | unread hc ha => exact .unread hc ha
  | endOfInput => exact .endOfInput
  | fail => exact .fail
  | abort => exact .abort
  | tryMap _ ih => exact .tryMap (ih hheld)
  | bind_next hp hc _ ihp ihq => exact .bind_next (ihp hheld) hc (ihq (hp.lasts (hlasts _ _) hheld))
  | bind_refused _ hc ih => exact .bind_refused (ih hheld) hc
  | bind_stopped _ pass ih => exact .bind_stopped (ih hheld) pass
  | zip_next hp _ ihp ihq => exact .zip_next (ihp (hown _ hheld)) (ihq (hp.lasts (hlasts _ _) hheld))
  | zip_stopped _ pass ih => exact .zip_stopped (ih (hown _ hheld)) pass
  | else_first _ firm ih => exact .else_first (ih (hown _ hheld)) firm
  | else_second hp _ ihp ihq => exact .else_second (ihp (hown _ hheld)) (ihq (hp.lasts (hlasts _ _) hheld))
  | reshape _ ih => exact .reshape (ih hheld)
  | loop_seeded hs _ ihs ihr => exact .loop_seeded (ihs (hown _ hheld)) (ihr (hs.lasts (hlasts _ _) hheld))
  | loop_stopped _ pass ih => exact .loop_stopped (ih (hown _ hheld)) pass
  | till_seeded hs _ ihs ihr => exact .till_seeded (ihs (hown _ hheld)) (ihr (hs.lasts (hlasts _ _) hheld))
  | till_stopped _ pass ih => exact .till_stopped (ih (hown _ hheld)) pass
  | rule hf _ ih => exact .rule hf (ih ((hlasts _ _).force hheld hf))
  | unbound hf => exact .unbound hf
  | handle hl hf _ ih => exact .handle (halive hheld _ ▸ hl) hf (ih ((hlasts _ _).force hheld hf))
  | dangling h => exact .dangling (halive hheld _ ▸ h)
  | draft _ ih => exact .draft (ih ((hlasts _ _).append _ hheld))
  | rounds_reached hr => exact .rounds_reached hr
  | rounds_stalled hr _ hs ih => exact .rounds_stalled hr (ih (hown _ hheld)) hs
  | rounds_next hr hp hs _ ihp ihr =>
    exact .rounds_next hr (ihp (hown _ hheld)) hs (ihr (hp.lasts (hlasts _ _) hheld))
  | rounds_failed hr _ ih => exact .rounds_failed hr (ih (hown _ hheld))
  | rounds_stopped hr _ firm pass ih => exact .rounds_stopped hr (ih (hown _ hheld)) firm pass
  | till_reached hr => exact .till_reached hr
  | till_ended hr _ ih => exact .till_ended hr (ih (hown _ hheld))
  | till_barred hr _ firm pass ih => exact .till_barred hr (ih (hown _ hheld)) firm pass
  | till_stalled hr ht _ hs ihs ihp =>
    have hmid := ht.lasts (hlasts _ _) hheld
    exact .till_stalled hr (ihs (hown _ hheld)) (ihp (hown _ hmid)) hs
  | till_next hr ht hp hs _ ihs ihp ihr =>
    have hmid := ht.lasts (hlasts _ _) hheld
    exact .till_next hr (ihs (hown _ hheld)) (ihp (hown _ hmid)) hs (ihr (hp.lasts (hlasts _ _) hmid))
  | till_lacking hr ht _ pass ihs ihp =>
    have hmid := ht.lasts (hlasts _ _) hheld
    exact .till_lacking hr (ihs (hown _ hheld)) (ihp (hown _ hmid)) pass

/-- Where definitions last, it does not matter what holds them. -/
theorem Evaluates.of_lasting [Source σ τ] [Position π τ] {α : Type} {held : List Nat}
    {store store' : Store σ τ π ρ} {job : Job τ π ρ α} {result : Outcome τ π α}
    (h : Evaluates .lasting held store job store' result) (held' : List Nat) :
    Evaluates .lasting held' store job store' result :=
  h.of_held (R := fun _ _ _ => True) (fun _ _ => ⟨fun _ _ => trivial, fun _ _ => trivial⟩) (fun _ _ => trivial)
    (fun _ _ => rfl) trivial

end StreamParsing
