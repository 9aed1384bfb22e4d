import StreamParsing.Parser.Text
import StreamParsing.Proofs.Renaming.Repeating
import StreamParsing.Proofs.Repetition.Outcomes
import StreamParsing.Proofs.Stream.History

/-!
Items up to an end. The end is tried at every place before an item is, so the loop finds the first end; an item that
consumes nothing would be matched there for ever, without the end, so nothing is lost where the loop fails instead.
-/

namespace StreamParsing

set_option autoImplicit false

universe u

variable {σ : Type u} {τ π ρ α β γ ω : Type}

/-- The values of the first items from `c` on, where the end does not match before any of them; then the store and the
place behind the last. Where `moving` is true each item consumes something. -/
inductive Turns (item : Runs σ τ π ρ α) (stop : Runs σ τ π ρ β) (moving : Bool) (store : Store σ τ π ρ)
    (c : Cursor τ π) : List α → Store σ τ π ρ → Cursor τ π → Prop where
  | none : Turns item stop moving store c [] store c
  | more {values : List α} {value : α} {mid mid' store' : Store σ τ π ρ} {d d' : Cursor τ π} {fault : Fault τ π} :
      Turns item stop moving store c values mid d → stop mid d mid' (.ok (.failure fault)) →
        item mid' d store' (.ok (.success value d')) → (moving = true → d'.same d = false) →
          Turns item stop moving store c (values ++ [value]) store' d'

/-- How a loop ends that looks for the end before each item, with the values gathered. -/
inductive Terminated (item : Runs σ τ π ρ α) (stop : Runs σ τ π ρ β) (gather : List α → γ) (store : Store σ τ π ρ)
    (c : Cursor τ π) : Store σ τ π ρ → Outcome τ π γ → Prop where
  | ended {values : List α} {mid store' : Store σ τ π ρ} {d u : Cursor τ π} {ending : β} :
      Turns item stop true store c values mid d → stop mid d store' (.ok (.success ending u)) →
        Terminated item stop gather store c store' (.ok (.success (gather values) u))
  | barred {values : List α} {mid store' : Store σ τ π ρ} {d : Cursor τ π} {first : Outcome τ π β}
      {result : Outcome τ π γ} :
      Turns item stop true store c values mid d → stop mid d store' first → Firm first → Passes first result →
        Terminated item stop gather store c store' result
  | lacking {values : List α} {mid mid' store' : Store σ τ π ρ} {d : Cursor τ π} {fault : Fault τ π}
      {first : Outcome τ π α} {result : Outcome τ π γ} :
      Turns item stop true store c values mid d → stop mid d mid' (.ok (.failure fault)) →
        item mid' d store' first → Passes first result → Terminated item stop gather store c store' result
  | stalled {values : List α} {value : α} {mid mid' store' : Store σ τ π ρ} {d d' : Cursor τ π} {fault : Fault τ π} :
      Turns item stop true store c values mid d → stop mid d mid' (.ok (.failure fault)) →
        item mid' d store' (.ok (.success value d')) → d'.same d = true →
          Terminated item stop gather store c store' (.ok (.failure (.ofMessage Machine.stalledMessage d')))

section Refine

variable {item item' : Runs σ τ π ρ α} {stop stop' : Runs σ τ π ρ β} {store store' mid : Store σ τ π ρ} {c d : Cursor τ π}
variable {values : List α} {moving : Bool} {good : Store σ τ π ρ → Prop} {gather : List α → γ} {result : Outcome τ π γ}

theorem Turns.relax (h : Turns item stop moving store c values mid d) : Turns item stop false store c values mid d := by
  induction h with
  | none => exact .none
  | more _ hstop hitem _ ih => exact .more ih hstop hitem nofun

theorem Turns.refine (hi : Runs.Refines good item item') (hs : Runs.Refines good stop stop') (hgood : good store)
    (h : Turns item stop moving store c values mid d) : Turns item' stop' moving store c values mid d ∧ good mid := by
  induction h with
  | none => exact ⟨.none, hgood⟩
  | more _ hstop hitem hmoving ih =>
    obtain ⟨hturns, hmid⟩ := ih
    have hmid' := hs.keep hmid hstop
    exact ⟨.more hturns (hs.imp hmid hstop) (hi.imp hmid' hitem) hmoving, hi.keep hmid' hitem⟩

theorem Terminated.refine (hi : Runs.Refines good item item') (hs : Runs.Refines good stop stop') (hgood : good store)
    (h : Terminated item stop gather store c store' result) : Terminated item' stop' gather store c store' result := by
  cases h with
  | ended hturns hstop =>
    obtain ⟨hturns, hmid⟩ := hturns.refine hi hs hgood
    exact .ended hturns (hs.imp hmid hstop)
  | barred hturns hstop firm pass =>
    obtain ⟨hturns, hmid⟩ := hturns.refine hi hs hgood
    exact .barred hturns (hs.imp hmid hstop) firm pass
  | lacking hturns hstop hitem pass =>
    obtain ⟨hturns, hmid⟩ := hturns.refine hi hs hgood
    exact .lacking hturns (hs.imp hmid hstop) (hi.imp (hs.keep hmid hstop) hitem) pass
  | stalled hturns hstop hitem hsame =>
    obtain ⟨hturns, hmid⟩ := hturns.refine hi hs hgood
    exact .stalled hturns (hs.imp hmid hstop) (hi.imp (hs.keep hmid hstop) hitem) hsame

end Refine

section Rounds

variable [Source σ τ] [Position π τ] {alive : Liveness τ π ρ} {held : List Nat} {loop : LoopTill τ π ρ α γ β} {acc : γ}
variable {store store' mid : Store σ τ π ρ} {c d : Cursor τ π} {values : List α} {result : Outcome τ π γ}

/-- A part of a loop, evaluated while the loop is pending. -/
def LoopTill.runs (loop : LoopTill τ π ρ α γ β) (alive : Liveness τ π ρ) (held : List Nat) {δ : Type}
    (part : Parser τ π ρ δ) : Runs σ τ π ρ δ :=
  fun store c store' result => Evaluates alive (loop.holds ++ held) store (.run part c) store' result

/-- The loop goes on until its end matches. -/
structure LoopTill.Unbounded (loop : LoopTill τ π ρ α γ β) : Prop where
  reached : ∀ count, loop.bounds.reached count = false
  stallsAt : ∀ count, loop.bounds.stallsAt count = true

/-- A loop that goes on after some turns is a loop that begins before them. -/
theorem Turns.evaluates_roundsTill (hu : loop.Unbounded)
    (h : Turns (loop.runs alive held loop.item) (loop.runs alive held loop.stop) true store c values mid d)
    (hrest : Evaluates alive held mid (.roundsTill loop (values.foldl loop.step acc) values.length d) store' result) :
    Evaluates alive held store (.roundsTill loop acc 0 c) store' result := by
  induction h generalizing store' result with
  | none => exact hrest
  | @more values value _ _ _ _ _ _ _ hstop hitem hmoving ih =>
    rw [List.foldl_append, List.length_append] at hrest
    refine ih (.till_next (hu.reached _) hstop hitem ?_ hrest)
    rw [hmoving rfl, Bool.false_and]

/-- A loop that has come so far ends as the reference says of the whole. -/
theorem Turns.terminated (hu : loop.Unbounded)
    (h : Turns (loop.runs alive held loop.item) (loop.runs alive held loop.stop) true store c values mid d)
    (hrest : Evaluates alive held mid (.roundsTill loop (values.foldl loop.step acc) values.length d) store' result) :
    Terminated (loop.runs alive held loop.item) (loop.runs alive held loop.stop) (·.foldl loop.step acc) store c store'
      result := by
  generalize hjob : Job.roundsTill loop (values.foldl loop.step acc) values.length d = job at hrest
  induction hrest generalizing values d with
  | till_reached hreached =>
    cases hjob
    rw [hu.reached] at hreached
    cases hreached
  | till_ended _ hstop =>
    cases hjob
    exact .ended h hstop
  | till_barred _ hstop firm pass =>
    cases hjob
    exact .barred h hstop firm pass
  | till_stalled _ hstop hitem hstalled =>
    cases hjob
    rw [Bool.and_eq_true] at hstalled
    exact .stalled h hstop hitem hstalled.1
  | till_next _ hstop hitem hmoving _ _ _ ih =>
    cases hjob
    rw [hu.stallsAt, Bool.and_true] at hmoving
    refine ih hu (h.more hstop hitem fun _ => hmoving) ?_
    rw [List.foldl_append, List.length_append]
    rfl
  | till_lacking _ hstop hitem pass =>
    cases hjob
    exact .lacking h hstop hitem pass
  | _ => cases hjob

theorem evaluates_roundsTill_iff (hu : loop.Unbounded) :
    Evaluates alive held store (.roundsTill loop acc 0 c) store' result ↔
      Terminated (loop.runs alive held loop.item) (loop.runs alive held loop.stop) (·.foldl loop.step acc) store c store'
        result := by
  constructor
  · exact Turns.terminated hu .none
  · intro h
    cases h with
    | ended hturns hstop => exact hturns.evaluates_roundsTill hu (.till_ended (hu.reached _) hstop)
    | barred hturns hstop firm pass => exact hturns.evaluates_roundsTill hu (.till_barred (hu.reached _) hstop firm pass)
    | lacking hturns hstop hitem pass =>
      exact hturns.evaluates_roundsTill hu (.till_lacking (hu.reached _) hstop hitem pass)
    | stalled hturns hstop hitem hsame =>
      refine hturns.evaluates_roundsTill hu (.till_stalled (hu.reached _) hstop hitem ?_)
      rw [hsame, hu.stallsAt, Bool.and_true]

theorem evaluates_loopTill_pure_iff {item : Parser τ π ρ α} {stop : Parser τ π ρ β} {step : γ → α → γ} {b : Bounds} :
    Evaluates alive held store (.run (.loopTill (.pure acc) item stop step b) c) store' result ↔
      Evaluates alive held store (.roundsTill ⟨⟨.pure acc, item, step, b⟩, stop⟩ acc 0 c) store' result := by
  constructor
  · intro h
    cases h with
    | till_seeded hseed hrounds =>
      cases hseed
      exact hrounds
    | till_stopped hseed pass =>
      cases hseed
      cases pass
  · exact .till_seeded .pure

end Rounds

namespace Parser

section Reference

variable [Source σ τ] [Position π τ] {alive : Liveness τ π ρ} {held : List Nat} {p : Parser τ π ρ α} {t : Parser τ π ρ β}
variable {store store' : Store σ τ π ρ} {c : Cursor τ π} {result : Outcome τ π (Array α)}

theorem evaluates_manyTill_iff : Evaluates alive held store (.run (p.manyTill t) c) store' result ↔
    Terminated (p.outcomes alive ((p.holds ++ t.holds) ++ held)) (t.outcomes alive ((p.holds ++ t.holds) ++ held))
      List.toArray store c store' result := by
  have hgather : (fun values : List α => values.foldl Array.push #[]) = List.toArray := by
    funext values
    simp
  have hunbounded : LoopTill.Unbounded ⟨⟨.pure #[], p, Array.push, .atLeast 0⟩, t⟩ :=
    ⟨fun _ => rfl, fun _ => by simp [Bounds.stallsAt, Bounds.atLeast]⟩
  rw [manyTill, evaluates_loopTill_pure_iff, evaluates_roundsTill_iff hunbounded]
  simp only [hgather]
  rfl

end Reference

section Regular

variable [Source σ τ] [LawfulSource σ τ] [Position π τ] {first : TokenStream σ τ} {p : Parser τ π ρ α}
variable {t : Parser τ π ρ β} {store store' mid : Store σ τ π ρ} {c d : Cursor τ π} {values : List α} {moving : Bool}

/-- The retained rules that are held besides do not matter to regular parsers. -/
theorem refines_of_retained {held : List Nat} {r : Rules τ π ρ} (hheld : ∀ n ∈ held, r.isRetained n = true) :
    Runs.Refines (σ := σ) (fun store => store.rules.Uniform ∧ r.Grows store.rules) (p.outcomes .counted held) p.ends ∧
      Runs.Refines (σ := σ) (fun store => store.rules.Uniform ∧ r.Grows store.rules) p.ends (p.outcomes .counted held) := by
  have hiff {store store' : Store σ τ π ρ} {c : Cursor τ π} {result : Outcome τ π α}
      (hgood : store.rules.Uniform ∧ r.Grows store.rules) :
      p.ends store c store' result ↔ Evaluates .counted held store (.run p c) store' result :=
    ends_iff_held hgood.1 fun n hn => Rules.isRetained_grows (hheld n hn) hgood.2
  have hkeep {store store' : Store σ τ π ρ} {c : Cursor τ π} {result : Outcome τ π α}
      (hgood : store.rules.Uniform ∧ r.Grows store.rules)
      (h : Evaluates .counted held store (.run p c) store' result) : store'.rules.Uniform ∧ r.Grows store'.rules :=
    ⟨hgood.1.grows h.grows, hgood.2.trans h.grows⟩
  exact ⟨⟨fun hgood h => (hiff hgood).mpr h, hkeep⟩, ⟨fun hgood h => (hiff hgood).mp h, fun hgood h => hkeep hgood ((hiff hgood).mp h)⟩⟩

/-- Run by itself, the loop meets the reference with plain runs of its parts. -/
theorem ends_manyTill_iff (hp : p.Regular first store.rules) (ht : t.Regular first store.rules)
    (hr : store.rules.Uniform) {result : Outcome τ π (Array α)} : (p.manyTill t).ends store c store' result ↔
      Terminated p.ends t.ends List.toArray store c store' result := by
  have hheld : ∀ n ∈ (p.holds ++ t.holds) ++ [], store.rules.isRetained n = true := by
    intro n hn
    rw [List.append_nil] at hn
    exact (List.mem_append.mp hn).elim hp.isRetained ht.isRetained
  rw [ends_iff_counted, evaluates_manyTill_iff]
  exact ⟨Terminated.refine (refines_of_retained hheld).1 (refines_of_retained hheld).1 ⟨hr, .refl⟩,
    Terminated.refine (refines_of_retained hheld).2 (refines_of_retained hheld).2 ⟨hr, .refl⟩⟩

/-- The loop from `c` on stood still at `d`, where an item consumed nothing, before the store became `later`. -/
inductive Stuck (first : TokenStream σ τ) (p : Parser τ π ρ α) (t : Parser τ π ρ β) (store : Store σ τ π ρ)
    (c : Cursor τ π) (later : Store σ τ π ρ) (d : Cursor τ π) : Prop where
  | intro {values : List α} {value : α} {fault : Fault τ π} {before mid after : Store σ τ π ρ} :
      Turns p.ends t.ends true store c values before d → before.Regular first d → store.rules.Grows before.rules →
        t.ends before d mid (.ok (.failure fault)) → p.ends mid d after (.ok (.success value d)) →
          after.stream.Later later.stream → after.rules.Grows later.rules → Stuck first p t store c later d

variable {later later' : Store σ τ π ρ}

omit [LawfulSource σ τ] in
theorem Stuck.onward (h : Stuck first p t store c later d) (hstream : later.stream.Later later'.stream)
    (hrules : later.rules.Grows later'.rules) : Stuck first p t store c later' d := by
  obtain ⟨hturns, hbefore, hgrows, hstop, hitem, hs, hr⟩ := h
  exact .intro hturns hbefore hgrows hstop hitem (hs.trans hstream) (hr.trans hrules)

/-- The end does not match there any more, and the item matches again and again. -/
theorem Stuck.replies (h : Stuck first p t store c later d) (hp : p.Regular first store.rules)
    (ht : t.Regular first store.rules) :
    (∀ later' result, t.ends later d later' result → ∃ fault, result = .ok (.failure fault)) ∧
      ∀ later' result, p.ends later d later' result → ∃ value, result = .ok (.success value d) := by
  obtain ⟨-, hbefore, hgrows, hstop, hitem, hstream, hrules⟩ := h
  obtain ⟨hmid, -, -, hgrows'⟩ := regular_of_ends hstop hbefore (ht.grows hgrows)
  have hp' := hp.grows (hgrows.trans hgrows')
  obtain ⟨-, -, hlater, hgrows''⟩ := regular_of_ends hitem hmid hp'
  have hrules' := hgrows''.trans hrules
  constructor
  · intro later' result hend
    exact ⟨_, reply_of_ends hstop hbefore (ht.grows hgrows) (hlater.trans hstream) (hgrows'.trans hrules') hend⟩
  · intro later' result hend
    exact ⟨_, reply_of_ends hitem hmid hp' hstream hrules' hend⟩

theorem Stuck.fails (h : Stuck first p t store c later d) (hp : p.Regular first store.rules)
    (ht : t.Regular first store.rules) (hr : store.rules.Uniform) :
    ∃ after, (p.manyTill t).ends store c after (.ok (.failure (.ofMessage Machine.stalledMessage d))) := by
  obtain ⟨hturns, -, -, hstop, hitem, -, -⟩ := h
  exact ⟨_, (ends_manyTill_iff hp ht hr).mpr (.stalled hturns hstop hitem (by simp [Cursor.same]))⟩

/-- Turns in which any item may consume nothing: if one does, the loop stands still there. -/
theorem moving_or_stuck (htidy : first.Tidy) (hs : store.Regular first c) (hp : p.Regular first store.rules)
    (ht : t.Regular first store.rules) (h : Turns p.ends t.ends false store c values mid d) :
    mid.Regular first d ∧ store.rules.Grows mid.rules ∧
      (Turns p.ends t.ends true store c values mid d ∨ Stuck first p t store c mid d) := by
  induction h with
  | none => exact ⟨hs, .refl, .inl .none⟩
  | @more values value before between after d d' fault _ hstop hitem _ ih =>
    obtain ⟨hbefore, hgrows, hcases⟩ := ih
    obtain ⟨hbetween, -, hlater, hgrows'⟩ := regular_of_ends hstop hbefore (ht.grows hgrows)
    have hp' : p.Regular first between.rules := hp.grows (hgrows.trans hgrows')
    obtain ⟨hstill, hafter, hlater', hgrows''⟩ := regular_of_ends hitem hbetween hp'
    refine ⟨hafter, (hgrows.trans hgrows').trans hgrows'', ?_⟩
    rcases hcases with hturns | hstuck
    · cases hsame : d'.same d with
      | false => exact .inl (hturns.more hstop hitem fun _ => hsame)
      | true =>
        -- The same token at the same place in one stream: it is the same cursor.
        obtain rfl : d' = d := hafter.ready.placed.eq_of_same (hafter.ready.becomes.tidy htidy) hstill.ready.placed hsame
        exact .inr (.intro hturns hbefore hgrows hstop hitem (.refl _) .refl)
    · -- It stood still before, so this turn gave the reply it gave then, at the same place.
      obtain ⟨value', heq⟩ := ((hstuck.onward hlater hgrows').replies hp ht).2 _ _ hitem
      cases heq
      exact .inr (hstuck.onward (hlater.trans hlater') (hgrows'.trans hgrows''))

/-- The loop `q` finds the first place, item by item, where the end matches; the other replies tell why there is none. -/
structure Finds (q : Parser τ π ρ (Array α)) (p : Parser τ π ρ α) (t : Parser τ π ρ β) (store : Store σ τ π ρ)
    (c : Cursor τ π) : Prop where
  found : ∀ (store' : Store σ τ π ρ) (values : Array α) (u : Cursor τ π),
    (∃ fuel, q.run fuel store c = some ⟨store', .ok (.success values u)⟩) ↔
      ∃ mid d ending, Turns p.ends t.ends false store c values.toList mid d ∧
        t.ends mid d store' (.ok (.success ending u))
  barred : ∀ {values : List α} {mid store' : Store σ τ π ρ} {d : Cursor τ π} {first : Outcome τ π β}
    {result : Outcome τ π (Array α)}, Turns p.ends t.ends false store c values mid d → t.ends mid d store' first →
      Firm first → Passes first result → q.ends store c store' result
  lacking : ∀ {values : List α} {mid mid' store' : Store σ τ π ρ} {d : Cursor τ π} {fault : Fault τ π}
    {first : Outcome τ π α} {result : Outcome τ π (Array α)}, Turns p.ends t.ends false store c values mid d →
      t.ends mid d mid' (.ok (.failure fault)) → p.ends mid' d store' first → Passes first result →
        q.ends store c store' result
  stalled : ∀ {values : List α} {mid mid' store' : Store σ τ π ρ} {d d' : Cursor τ π} {fault : Fault τ π} {value : α},
    Turns p.ends t.ends false store c values mid d → t.ends mid d mid' (.ok (.failure fault)) →
      p.ends mid' d store' (.ok (.success value d')) → d'.same d = true →
        (∃ after, q.ends store c after (.ok (.failure (.ofMessage Machine.stalledMessage d)))) ∧
          ¬ ∃ values mid d ending after u, Turns p.ends t.ends false store c values mid d ∧
            t.ends mid d after (.ok (.success ending u))

section Found

variable (htidy : first.Tidy) (hs : store.Regular first c) (hp : p.Regular first store.rules)
variable (ht : t.Regular first store.rules)
include htidy hs hp ht

theorem manyTill_found {u : Cursor τ π} {ending : β} (h : Turns p.ends t.ends false store c values mid d)
    (hend : t.ends mid d store' (.ok (.success ending u))) :
    (p.manyTill t).ends store c store' (.ok (.success values.toArray u)) := by
  obtain ⟨-, -, hturns | hstuck⟩ := moving_or_stuck htidy hs hp ht h
  · exact (ends_manyTill_iff hp ht hs.uniform).mpr (.ended hturns hend)
  · -- Where the loop stands still, the end does not match.
    obtain ⟨_, heq⟩ := (hstuck.replies hp ht).1 _ _ hend
    cases heq

theorem manyTill_stalled {mid' : Store σ τ π ρ} {d' : Cursor τ π} {fault : Fault τ π} {value : α}
    (h : Turns p.ends t.ends false store c values mid d) (hstop : t.ends mid d mid' (.ok (.failure fault)))
    (hitem : p.ends mid' d store' (.ok (.success value d'))) (hsame : d'.same d = true) :
    ∃ after, (p.manyTill t).ends store c after (.ok (.failure (.ofMessage Machine.stalledMessage d))) := by
  obtain ⟨hmid, hgrows, hturns | hstuck⟩ := moving_or_stuck htidy hs hp ht h
  · obtain ⟨hmid', -, -, hgrows'⟩ := regular_of_ends hstop hmid (ht.grows hgrows)
    obtain ⟨hstill, hafter, -, -⟩ := regular_of_ends hitem hmid' (hp.grows (hgrows.trans hgrows'))
    obtain rfl : d' = d := hafter.ready.placed.eq_of_same (hafter.ready.becomes.tidy htidy) hstill.ready.placed hsame
    exact ⟨_, (ends_manyTill_iff hp ht hs.uniform).mpr (.stalled hturns hstop hitem hsame)⟩
  · exact hstuck.fails hp ht hs.uniform

theorem finds_manyTill : (p.manyTill t).Finds p t store c where
  found store' values u := by
    constructor
    · intro h
      have hend := (ends_manyTill_iff hp ht hs.uniform).mp h
      generalize hr : (Except.ok (.success values u) : Outcome τ π (Array α)) = result at hend
      cases hend with
      | ended hturns hstop =>
        cases hr
        exact ⟨_, _, _, hturns.relax, hstop⟩
      | barred _ _ _ pass | lacking _ _ _ pass =>
        subst hr
        cases pass
      | stalled => cases hr
    · rintro ⟨mid, d, ending, hturns, hstop⟩
      exact manyTill_found htidy hs hp ht hturns hstop
  barred h hend firm pass := by
    obtain ⟨-, -, hturns | hstuck⟩ := moving_or_stuck htidy hs hp ht h
    · exact (ends_manyTill_iff hp ht hs.uniform).mpr (.barred hturns hend firm pass)
    · obtain ⟨fault, heq⟩ := (hstuck.replies hp ht).1 _ _ hend
      exact absurd heq (firm fault)
  lacking h hstop hend pass := by
    obtain ⟨hmid, hgrows, hturns | hstuck⟩ := moving_or_stuck htidy hs hp ht h
    · exact (ends_manyTill_iff hp ht hs.uniform).mpr (.lacking hturns hstop hend pass)
    · obtain ⟨-, -, hlater, hgrows'⟩ := regular_of_ends hstop hmid (ht.grows hgrows)
      obtain ⟨_, rfl⟩ := ((hstuck.onward hlater hgrows').replies hp ht).2 _ _ hend
      cases pass
  stalled h hstop hitem hsame := by
    obtain ⟨after, hfails⟩ := manyTill_stalled htidy hs hp ht h hstop hitem hsame
    refine ⟨⟨after, hfails⟩, ?_⟩
    rintro ⟨_, _, _, _, _, _, hturns, hend⟩
    cases (ends_unique hfails (manyTill_found htidy hs hp ht hturns hend)).2

end Found

/-- Over any pending work the loop ends as the reference says of its parts; run by itself, it finds the first place where
the end matches, whatever its items consume. -/
theorem manyTill_finds (p : Parser τ π ρ α) (t : Parser τ π ρ β) :
    (∀ {ω : Type} (k : Stack τ π ρ (Array α) ω) (store store' : Store σ τ π ρ) (c : Cursor τ π)
      (result : Outcome τ π (Array α)), Machine.Finishes .counted k store (.eval (p.manyTill t) c k) store' result ↔
        Terminated (p.outcomes .counted ((p.holds ++ t.holds) ++ k.holds))
          (t.outcomes .counted ((p.holds ++ t.holds) ++ k.holds)) List.toArray store c store' result) ∧
    ∀ (store : Store σ τ π ρ) (c : Cursor τ π), store.stream.Tidy → store.Regular store.stream c →
      p.Regular store.stream store.rules → t.Regular store.stream store.rules → (p.manyTill t).Finds p t store c := by
  constructor
  · intro ω k store store' c result
    exact (Machine.finishes_iff_counted (.run (p.manyTill t) c)).trans evaluates_manyTill_iff
  · exact fun store c htidy hs hp ht => finds_manyTill htidy hs hp ht

/-- Two digits up to a point. -/
theorem manyTill_finds_point :
    let p : Parser Char TextPosition Empty Char := digit
    let t : Parser Char TextPosition Empty Char := character '.'
    let store : Store (NoSource Char) Char TextPosition Empty := .ofStream (.ofText "42.") .empty
    let c : Cursor Char TextPosition := store.stream.start
    store.stream.Tidy ∧ store.Regular store.stream c ∧ p.Regular store.stream store.rules ∧
      t.Regular store.stream store.rules ∧
      ∃ mid d ending, Turns p.ends t.ends false store c ['4', '2'] mid d ∧
        t.ends mid d store (.ok (.success ending ⟨1, 0, ⟨1, 4, 3⟩, none⟩)) := by
  intro p t store c
  have hinitial : store.stream.Initial := .whole rfl rfl
  obtain ⟨htidy, hsize⟩ := hinitial.tidy
  have hrules : store.rules.Hooked (Hook.Forward store.stream) := by
    intro entry hmem
    cases Array.not_mem_empty entry hmem
  have hs : store.Regular store.stream c := ⟨⟨.refl, hrules, TokenStream.placed_start hsize⟩, Rules.uniform_empty⟩
  have hp : p.Regular store.stream store.rules := ⟨.leaf trivial, .leaf trivial⟩
  have ht : t.Regular store.stream store.rules := ⟨.leaf trivial, .leaf trivial⟩
  have hfinds := (manyTill_finds (σ := NoSource Char) p t).2 store c htidy hs hp ht
  exact ⟨htidy, hs, hp, ht, (hfinds.found store #['4', '2'] ⟨1, 0, ⟨1, 4, 3⟩, none⟩).mp ⟨40, rfl⟩⟩

end Regular

end Parser

end StreamParsing
