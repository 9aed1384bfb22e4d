import Mathlib.Order.Defs.PartialOrder
import StreamParsing.Machine.Basic

/-!
Parsers that cannot tell cursors apart by more than their position, their token and whether two of them are at one
place. A matching pairs the cursors of one stream with those of another; two parsers are alike if they do the same
with matched cursors, however many more become matched while they run. A parser that is alike to itself when nothing
is matched yet carries cursors around without looking into them.
-/

namespace StreamParsing

set_option autoImplicit false

universe u

variable {τ π ρ α β γ ω : Type}

structure Matching (τ π : Type) where
  rel : Cursor τ π → Cursor τ π → Prop
  position : ∀ {c c' : Cursor τ π}, rel c c' → c.position = c'.position
  current : ∀ {c c' : Cursor τ π}, rel c c' → c.current = c'.current
  same : ∀ {c c' d d' : Cursor τ π}, rel c c' → rel d d' → c.same d = c'.same d'

namespace Matching

def none : Matching τ π := ⟨fun _ _ => False, nofun, nofun, nofun⟩

instance : Preorder (Matching τ π) where
  le V W := ∀ c c' : Cursor τ π, V.rel c c' → W.rel c c'
  le_refl _ _ _ h := h
  le_trans _ _ _ h h' _ _ hc := h' _ _ (h _ _ hc)

theorem none_le (V : Matching τ π) : none ≤ V := fun _ _ h => h.elim

end Matching

/-- When two values of a type are alike, given which cursors are matched. -/
structure Likeness (τ π α : Type) where
  rel : Matching τ π → α → α → Prop
  mono : ∀ {V W : Matching τ π} {a a' : α}, V ≤ W → rel V a a' → rel W a a'

namespace Likeness

/-- The likeness of values without cursors in them. -/
def equal (α : Type) : Likeness τ π α := ⟨fun _ a a' => a = a', fun _ h => h⟩

def cursor : Likeness τ π (Cursor τ π) := ⟨Matching.rel, fun h hc => h _ _ hc⟩

def pair (Q : Likeness τ π α) (R : Likeness τ π β) : Likeness τ π (α × β) :=
  ⟨fun V x x' => Q.rel V x.1 x'.1 ∧ R.rel V x.2 x'.2, fun h hx => ⟨Q.mono h hx.1, R.mono h hx.2⟩⟩

end Likeness

/-- Both callbacks accept, with alike values, or both give the same cause. -/
inductive Answers (R : α → α → Prop) : Except Cause α → Except Cause α → Prop where
  | ok {a a' : α} : R a a' → Answers R (.ok a) (.ok a')
  | error (cause : Cause) : Answers R (.error cause) (.error cause)

theorem Answers.cases {R : α → α → Prop} {x x' : Except Cause α} (h : Answers R x x') :
    (∃ a a', x = .ok a ∧ x' = .ok a' ∧ R a a') ∨ ∃ cause, x = .error cause ∧ x' = .error cause := by
  cases h with
  | ok ha => exact .inl ⟨_, _, rfl, rfl, ha⟩
  | error cause => exact .inr ⟨cause, rfl, rfl⟩

structure Fault.Like (V : Matching τ π) (f f' : Fault τ π) : Prop where
  custom : f.custom = f'.custom
  cause : f.cause = f'.cause
  cursor : V.rel f.cursor f'.cursor

inductive Reply.Like (V : Matching τ π) (R : Likeness τ π α) : Reply τ π α → Reply τ π α → Prop where
  | success {a a' : α} {c c' : Cursor τ π} : R.rel V a a' → V.rel c c' →
      Reply.Like V R (.success a c) (.success a' c')
  | failure {f f' : Fault τ π} : f.Like V f' → Reply.Like V R (.failure f) (.failure f')
  | abort {f f' : Fault τ π} : f.Like V f' → Reply.Like V R (.abort f) (.abort f')

section

variable (V : Matching τ π) (Q : Likeness τ π α) (R : Likeness τ π β) (S : Likeness τ π γ)

def AlikeReads (read read' : Cursor τ π → β) : Prop :=
  ∀ W, V ≤ W → ∀ c c', W.rel c c' → R.rel W (read c) (read' c')

def AlikeChecks (f f' : α → Except Cause β) : Prop :=
  ∀ W, V ≤ W → ∀ a a', Q.rel W a a' → Answers (R.rel W) (f a) (f' a')

def AlikeJoins (f f' : α → β → γ) : Prop :=
  ∀ W, V ≤ W → ∀ a a' b b', Q.rel W a a' → R.rel W b b' → S.rel W (f a b) (f' a' b')

def Hook.Like (hook hook' : Hook τ π α β) : Prop :=
  ∀ W, V ≤ W → ∀ c c' r r', W.rel c c' → Reply.Like W Q r r' → Reply.Like W R (hook c r) (hook' c' r')

end

mutual

inductive Parser.Like (P : Likeness τ π ρ) :
    Matching τ π → {α : Type} → Likeness τ π α → Parser τ π ρ α → Parser τ π ρ α → Prop where
  | pure {V : Matching τ π} {α : Type} {R : Likeness τ π α} {a a' : α} : R.rel V a a' →
      Parser.Like P V R (.pure a) (.pure a')
  | peek {V : Matching τ π} {α : Type} {R : Likeness τ π α} {read read' : Cursor τ π → α} :
      AlikeReads V R read read' → Parser.Like P V R (.peek read) (.peek read')
  | satisfy {V : Matching τ π} {R : Likeness τ π τ} (test : τ → Bool) : (∀ t, R.rel V t t) →
      Parser.Like P V R (.satisfy test) (.satisfy test)
  | endOfInput {V : Matching τ π} {R : Likeness τ π Unit} : R.rel V () () →
      Parser.Like P V R .endOfInput .endOfInput
  | fail {V : Matching τ π} {α : Type} {R : Likeness τ π α} (message : Option String) :
      Parser.Like P V R (.fail message) (.fail message)
  | abort {V : Matching τ π} {α : Type} {R : Likeness τ π α} (message : String) :
      Parser.Like P V R (.abort message) (.abort message)
  | tryMap {V : Matching τ π} {α β : Type} {Q : Likeness τ π α} {R : Likeness τ π β} {p p' : Parser τ π ρ α}
      {f f' : α → Except Cause β} : Parser.Like P V Q p p' → AlikeChecks V Q R f f' →
      Parser.Like P V R (.tryMap p f) (.tryMap p' f')
  | tryBind {V : Matching τ π} {α β γ : Type} {Q : Likeness τ π α} {S : Likeness τ π β} {R : Likeness τ π γ}
      {p p' : Parser τ π ρ α} {check check' : α → Except Cause β} {next next' : β → Parser τ π ρ γ} :
      Parser.Like P V Q p p' → AlikeChecks V Q S check check' →
      (∀ W, V ≤ W → ∀ b b', S.rel W b b' → Parser.Like P W R (next b) (next' b')) →
      Parser.Like P V R (.tryBind p check next) (.tryBind p' check' next')
  | zipWith {V : Matching τ π} {α β γ : Type} {Q : Likeness τ π α} {S : Likeness τ π β} {R : Likeness τ π γ}
      {p p' : Parser τ π ρ α} {q q' : Parser τ π ρ β} {f f' : α → β → γ} :
      Parser.Like P V Q p p' → Parser.Like P V S q q' → AlikeJoins V Q S R f f' →
      Parser.Like P V R (.zipWith f p q) (.zipWith f' p' q')
  | orElse {V : Matching τ π} {α : Type} {R : Likeness τ π α} {p p' q q' : Parser τ π ρ α} :
      Parser.Like P V R p p' → Parser.Like P V R q q' → Parser.Like P V R (.orElse p q) (.orElse p' q')
  | reshape {V : Matching τ π} {α β : Type} {Q : Likeness τ π α} {R : Likeness τ π β} {p p' : Parser τ π ρ α}
      {hook hook' : Hook τ π α β} : Parser.Like P V Q p p' → Hook.Like V Q R hook hook' →
      Parser.Like P V R (.reshape p hook) (.reshape p' hook')
  | loop {V : Matching τ π} {α β : Type} {Q : Likeness τ π α} {R : Likeness τ π β} {seed seed' : Parser τ π ρ β}
      {item item' : Parser τ π ρ α} {step step' : β → α → β} (bounds : Bounds) :
      Parser.Like P V R seed seed' → Parser.Like P V Q item item' → AlikeJoins V R Q R step step' →
      Parser.Like P V R (.loop seed item step bounds) (.loop seed' item' step' bounds)
  | loopTill {V : Matching τ π} {α β γ : Type} {Q : Likeness τ π α} {R : Likeness τ π β} {S : Likeness τ π γ}
      {seed seed' : Parser τ π ρ β} {item item' : Parser τ π ρ α} {stop stop' : Parser τ π ρ γ}
      {step step' : β → α → β} (bounds : Bounds) :
      Parser.Like P V R seed seed' → Parser.Like P V Q item item' → Parser.Like P V S stop stop' →
      AlikeJoins V R Q R step step' →
      Parser.Like P V R (.loopTill seed item stop step bounds) (.loopTill seed' item' stop' step' bounds)
  | rule {V : Matching τ π} (number : Nat) : Parser.Like P V P (.rule number) (.rule number)
  | handle {V : Matching τ π} (number : Nat) : Parser.Like P V P (.handle number) (.handle number)
  | draft {V : Matching τ π} {α : Type} {R : Likeness τ π α} {parser parser' : Nat → Parser τ π ρ α}
      {rules rules' : Nat → List (Rule τ π ρ)} :
      (∀ n, Parser.Like P V R (parser n) (parser' n)) →
      (∀ n, (rules n).length = (rules' n).length) →
      (∀ W, V ≤ W → ∀ (n i : Nat) r r', (rules n)[i]? = some r → (rules' n)[i]? = some r' → Rule.Like P W r r') →
      Parser.Like P V R (.draft parser rules) (.draft parser' rules')

inductive Rule.Like (P : Likeness τ π ρ) : Matching τ π → Rule τ π ρ → Rule τ π ρ → Prop where
  | defined {V : Matching τ π} {p p' : Parser τ π ρ ρ} : Parser.Like P V P p p' →
      Rule.Like P V (.defined p) (.defined p')
  | delayed {V : Matching τ π} {parser parser' : Nat → Parser τ π ρ ρ} {rules rules' : Nat → List (Rule τ π ρ)} :
      (∀ n, Parser.Like P V P (parser n) (parser' n)) →
      (∀ n, (rules n).length = (rules' n).length) →
      (∀ W, V ≤ W → ∀ (n i : Nat) r r', (rules n)[i]? = some r → (rules' n)[i]? = some r' → Rule.Like P W r r') →
      Rule.Like P V (.delayed parser rules) (.delayed parser' rules')
  | dropped {V : Matching τ π} : Rule.Like P V .dropped .dropped

end

section

variable {V W : Matching τ π} {P : Likeness τ π ρ} {Q : Likeness τ π α} {R : Likeness τ π β} {S : Likeness τ π γ}

theorem AlikeReads.mono {read read' : Cursor τ π → β} (h : AlikeReads V R read read') (hVW : V ≤ W) :
    AlikeReads W R read read' := fun X hX => h X (le_trans hVW hX)

theorem AlikeChecks.mono {f f' : α → Except Cause β} (h : AlikeChecks V Q R f f') (hVW : V ≤ W) :
    AlikeChecks W Q R f f' := fun X hX => h X (le_trans hVW hX)

theorem AlikeJoins.mono {f f' : α → β → γ} (h : AlikeJoins V Q R S f f') (hVW : V ≤ W) :
    AlikeJoins W Q R S f f' := fun X hX => h X (le_trans hVW hX)

theorem Hook.Like.mono {hook hook' : Hook τ π α β} (h : Hook.Like V Q R hook hook') (hVW : V ≤ W) :
    Hook.Like W Q R hook hook' := fun X hX => h X (le_trans hVW hX)

/-- Whether something was consumed is the same for matched cursors. -/
theorem Hook.like_commit : Hook.Like V Q Q Hook.commit Hook.commit := by
  intro W hVW c c' r r' hc hr
  cases hr with
  | success ha hd => exact .success ha hd
  | abort hf => exact .abort hf
  | failure hf =>
    simp only [commit, W.same hf.cursor hc]
    split
    · exact .failure hf
    · exact .abort hf

theorem Hook.like_consuming : Hook.Like V Q Q Hook.consuming Hook.consuming := by
  intro W hVW c c' r r' hc hr
  cases hr with
  | failure hf => exact .failure hf
  | abort hf => exact .abort hf
  | success ha hd =>
    simp only [consuming, W.same hd hc]
    split
    · exact .failure ⟨rfl, rfl, hd⟩
    · exact .success ha hd

/-- Parsers that are alike stay alike when more is matched. -/
theorem Parser.Like.mono {α : Type} {R : Likeness τ π α} : (p : Parser τ π ρ α) → {p' : Parser τ π ρ α} →
    Parser.Like P V R p p' → V ≤ W → Parser.Like P W R p p'
  | .pure _, _, .pure ha, hVW => .pure (R.mono hVW ha)
  | .peek _, _, .peek hr, hVW => .peek (hr.mono hVW)
  | .satisfy _, _, .satisfy test ht, hVW => .satisfy test fun t => R.mono hVW (ht t)
  | .endOfInput, _, .endOfInput hu, hVW => .endOfInput (R.mono hVW hu)
  | .fail _, _, .fail message, _ => .fail message
  | .abort _, _, .abort message, _ => .abort message
  | .tryMap p _, _, .tryMap hp hf, hVW => .tryMap (Like.mono p hp hVW) (hf.mono hVW)
  | .tryBind p _ _, _, .tryBind hp hc hn, hVW =>
    .tryBind (Like.mono p hp hVW) (hc.mono hVW) fun X hX => hn X (le_trans hVW hX)
  | .zipWith _ p q, _, .zipWith hp hq hf, hVW =>
    .zipWith (Like.mono p hp hVW) (Like.mono q hq hVW) (hf.mono hVW)
  | .orElse p q, _, .orElse hp hq, hVW => .orElse (Like.mono p hp hVW) (Like.mono q hq hVW)
  | .reshape p _, _, .reshape hp hh, hVW => .reshape (Like.mono p hp hVW) (hh.mono hVW)
  | .loop seed item _ _, _, .loop bounds hs hi hf, hVW =>
    .loop bounds (Like.mono seed hs hVW) (Like.mono item hi hVW) (hf.mono hVW)
  | .loopTill seed item stop _ _, _, .loopTill bounds hs hi ht hf, hVW =>
    .loopTill bounds (Like.mono seed hs hVW) (Like.mono item hi hVW) (Like.mono stop ht hVW) (hf.mono hVW)
  | .rule _, _, .rule number, _ => .rule number
  | .handle _, _, .handle number, _ => .handle number
  | .draft parser _, _, .draft hp hl hr, hVW =>
    .draft (fun n => Like.mono (parser n) (hp n) hVW) hl fun X hX => hr X (le_trans hVW hX)

/-- Parsers that are alike hold the same rules. -/
theorem Parser.Like.holds_eq {α : Type} {R : Likeness τ π α} : (p : Parser τ π ρ α) → {p' : Parser τ π ρ α} →
    Parser.Like P V R p p' → p.holds = p'.holds
  | .pure _, _, .pure _ => rfl
  | .peek _, _, .peek _ => rfl
  | .satisfy _, _, .satisfy _ _ => rfl
  | .endOfInput, _, .endOfInput _ => rfl
  | .fail _, _, .fail _ => rfl
  | .abort _, _, .abort _ => rfl
  | .tryMap p _, _, .tryMap hp _ => Like.holds_eq p hp
  | .tryBind p _ _, _, .tryBind hp _ _ => Like.holds_eq p hp
  | .zipWith _ p q, _, .zipWith hp hq _ => by
    simp only [holds, Like.holds_eq p hp, Like.holds_eq q hq]
  | .orElse p q, _, .orElse hp hq => by
    simp only [holds, Like.holds_eq p hp, Like.holds_eq q hq]
  | .reshape p _, _, .reshape hp _ => Like.holds_eq p hp
  | .loop seed item _ _, _, .loop _ hs hi _ => by
    simp only [holds, Like.holds_eq seed hs, Like.holds_eq item hi]
  | .loopTill seed item stop _ _, _, .loopTill _ hs hi ht _ => by
    simp only [holds, Like.holds_eq seed hs, Like.holds_eq item hi, Like.holds_eq stop ht]
  | .rule _, _, .rule _ => rfl
  | .handle _, _, .handle _ => rfl
  | .draft _ _, _, .draft _ _ _ => rfl

theorem Rule.Like.mono {r r' : Rule τ π ρ} (h : Rule.Like P V r r') (hVW : V ≤ W) : Rule.Like P W r r' := by
  cases h with
  | defined hp => exact .defined (Parser.Like.mono _ hp hVW)
  | delayed hp hl hr => exact .delayed (fun n => Parser.Like.mono _ (hp n) hVW) hl fun X hX => hr X (le_trans hVW hX)
  | dropped => exact .dropped

end

end StreamParsing
