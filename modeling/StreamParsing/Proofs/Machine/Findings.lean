import StreamParsing.Parser.Repetition
import StreamParsing.Parser.Shaping
import StreamParsing.Proofs.Machine.Refinement
import StreamParsing.Proofs.Stream.Collecting
import StreamParsing.Proofs.Stream.Order

/-!
What parsers make of the tokens ahead, over any source and in any chunks: a value, or a failure with its cause, and the
tokens left over where the reply points. The source may fail on the way, and then the run ends with the error of the
read. What a combinator makes of the tokens follows from what its parts make of them.
-/

namespace StreamParsing

set_option autoImplicit false

universe u

variable {σ : Type u} {τ π ρ α β γ : Type}

theorem head?_dropWhile_filter (test : α → Bool) (l : List α) :
    (l.dropWhile test).head?.filter test = none := by
  have hhead := List.head?_dropWhile_not test l
  cases h : (l.dropWhile test).head? with
  | none => rfl
  | some a =>
    rw [h] at hhead
    simp [hhead]

/-- A list of which a run is cut off that ends where the test does. -/
theorem takeWhile_run {test : α → Bool} {run rest : List α} (hrun : ∀ a ∈ run, test a = true)
    (hrest : rest.head?.filter test = none) :
    (run ++ rest).takeWhile test = run ∧ (run ++ rest).dropWhile test = rest := by
  have hstop : rest.takeWhile test = [] ∧ rest.dropWhile test = rest := by
    cases rest with
    | nil => exact ⟨rfl, rfl⟩
    | cons a rest =>
      have ha : ¬ test a = true := by simpa using hrest
      rw [List.takeWhile_cons_of_neg ha, List.dropWhile_cons_of_neg ha]
      exact ⟨rfl, rfl⟩
  rw [List.takeWhile_append_of_pos hrun, List.dropWhile_append_of_pos hrun, hstop.1, hstop.2, List.append_nil]
  exact ⟨rfl, rfl⟩

namespace TokenStream

variable [Source σ τ] [Position π τ]

/-- Of the tokens that the stream carries, `rest` are those from the cursor on. -/
structure Faces (s : TokenStream σ τ) (tokens : List τ) (ending : Option ReadError) (c : Cursor τ π)
    (rest : List τ) : Prop where
  carries : s.Carries tokens ending
  placed : s.Placed c
  remaining : tokens.drop (s.indexOf c) = rest

variable {s s' : TokenStream σ τ} {tokens ts rest : List τ} {ending : Option ReadError} {c d : Cursor τ π} {t : τ}

theorem Carries.faces_start (h : s.Carries tokens ending) (hc : s.Placed (s.start : Cursor τ π)) :
    s.Faces tokens ending (s.start : Cursor τ π) tokens := by
  refine ⟨h, hc, ?_⟩
  have hindex : s.indexOf (s.start : Cursor τ π) = 0 := rfl
  rw [hindex, List.drop_zero]

theorem faces_ofList (tokens : List τ) : (ofList tokens).Faces tokens none ((ofList tokens).start : Cursor τ π) tokens := by
  refine (carries_ofList tokens).faces_start (placed_start ?_)
  unfold ofList ofArray
  split <;> simp

namespace Faces

theorem current (h : s.Faces tokens ending c ts) : c.current = ts.head? := by
  rw [h.placed.current_of_carries h.carries, ← h.remaining, List.head?_drop]

theorem later (h : s.Faces tokens ending c ts) (hl : s.Later s') (hs : s'.Carries tokens ending) :
    s'.Faces tokens ending c ts := by
  refine ⟨hs, h.placed.extend hl.grows, ?_⟩
  rw [h.placed.indexOf_extend hl.grows, h.remaining]

theorem same_eq_false (h : s.Faces tokens ending c ts) (h' : s.Faces tokens ending d rest)
    (hlt : rest.length < ts.length) : d.same c = false := by
  rw [h'.placed.same_eq h.carries.tidy h.placed, decide_eq_false_iff_not]
  intro hindex
  rw [← h.remaining, ← h'.remaining, hindex] at hlt
  exact Nat.lt_irrefl _ hlt

theorem advancing [LawfulSource σ τ] {events : Array Event} (h : s.Faces tokens ending c (t :: ts))
    (ha : Advancing s c ⟨s', .ok d, events⟩) : s'.Faces tokens ending d ts := by
  refine ⟨h.carries.advancing ha, ha.placed h.placed, ?_⟩
  rw [ha.indexOf_eq h.placed h.current, ← List.tail_drop, h.remaining]
  rfl

end Faces

end TokenStream

def Fault.raised (cause : Option Cause) (c : Cursor τ π) : Fault τ π :=
  match cause with
  | none => .unexpected c
  | some cause => .ofCause cause c

/-- What there is to find: a value and the tokens behind it, or a failure and the tokens at its place. -/
inductive Finding (τ α : Type) where
  | success (value : α) (rest : List τ)
  | failure (cause : Option Cause) (rest : List τ)

namespace Finding

def map (f : α → β) : Finding τ α → Finding τ β
  | success value rest => success (f value) rest
  | failure cause rest => failure cause rest

/-- Converts the value; an error of the conversion is a failure at the tokens it began with. -/
def convert (f : α → Except Cause β) (ts : List τ) : Finding τ α → Finding τ β
  | success value rest =>
    match f value with
    | .ok value => success value rest
    | .error cause => failure (some cause) ts
  | failure cause rest => failure cause rest

def lookAhead (ts : List τ) : Finding τ α → Finding τ α
  | success value _ => success value ts
  | failure cause rest => failure cause rest

end Finding

section Meets

variable [Source σ τ] [Position π τ]

/-- A run over these tokens ended as the finding says, or because the source failed. -/
inductive Meets (s : TokenStream σ τ) (tokens : List τ) (ending : Option ReadError) :
    Finding τ α → Outcome τ π α → Prop where
  | success {value : α} {rest : List τ} {c : Cursor τ π} : s.Faces tokens ending c rest →
      Meets s tokens ending (.success value rest) (.ok (.success value c))
  | failure {cause : Option Cause} {rest : List τ} {c : Cursor τ π} : s.Faces tokens ending c rest →
      Meets s tokens ending (.failure cause rest) (.ok (.failure (.raised cause c)))
  | unread {f : Finding τ α} {e : ReadError} : ending ≠ none → Meets s tokens ending f (.error e)

variable {s : TokenStream σ τ} {tokens rest ts : List τ} {ending : Option ReadError} {cause : Option Cause}
variable {f : Finding τ α} {result : Outcome τ π α}

theorem Meets.map (h : Meets s tokens ending f result) (g : α → β) :
    Meets s tokens ending (f.map g) (result.map (Reply.map g)) := by
  cases h with
  | success hd => exact .success hd
  | failure hd => exact .failure hd
  | unread he => exact .unread he

theorem Meets.convert {c : Cursor τ π} (h : Meets s tokens ending f result) (hc : s.Faces tokens ending c ts)
    (g : α → Except Cause β) : Meets s tokens ending (f.convert g ts) (result.map (Reply.convert g c)) := by
  cases h with
  | @success value _ d hd =>
    have hreply : (Except.ok (.success value d) : Outcome τ π α).map (Reply.convert g c) =
        .ok (Reply.convert g c (.success value d)) := rfl
    rw [hreply, Finding.convert, Reply.convert]
    cases g value with
    | ok value => exact .success hd
    | error cause => exact .failure hc
  | failure hd => exact .failure hd
  | unread he => exact .unread he

/-- A failure is also the outcome of what waits for a value. -/
theorem Meets.passes (h : Meets s tokens ending (.failure cause rest) result) :
    ∃ result' : Outcome τ π β, Passes result result' ∧ Meets s tokens ending (.failure cause rest) result' := by
  cases h with
  | failure hd => exact ⟨_, .failure _, .failure hd⟩
  | unread he => exact ⟨_, .error _, .unread he⟩

theorem Meets.firm {value : α} (h : Meets s tokens ending (.success value rest) result) : Firm result := by
  rintro fault rfl
  cases h

end Meets

section Makes

variable (σ) [Source σ τ] [Position π τ]

/-- Wherever the job begins with these tokens ahead, it ends as the finding says. -/
def Job.Makes (job : Cursor τ π → Job τ π ρ α) (ts : List τ) (f : Finding τ α) : Prop :=
  ∀ (alive : Liveness τ π ρ) (held : List Nat) (store : Store σ τ π ρ) (tokens : List τ) (ending : Option ReadError)
    (c : Cursor τ π), store.stream.Faces tokens ending c ts →
    ∃ store' result, Evaluates alive held store (job c) store' result ∧ store.stream.Later store'.stream ∧
      Meets store'.stream tokens ending f result

def Parser.Makes (p : Parser τ π ρ α) (ts : List τ) (f : Finding τ α) : Prop := Job.Makes σ (.run p) ts f

end Makes

namespace Parser

variable [Source σ τ] [Position π τ] {p : Parser τ π ρ α} {q : Parser τ π ρ β} {f : Finding τ α} {g : Finding τ β}
variable {ts rest behind : List τ} {t : τ} {a : α} {cause : Option Cause}

theorem makes_pure (a : α) (ts : List τ) : (pure a : Parser τ π ρ α).Makes σ ts (.success a ts) :=
  fun _ _ store _ _ _ hc => ⟨store, _, .pure, .refl _, .success hc⟩

theorem makes_satisfy_failure {test : τ → Bool} (h : ts.head?.filter test = none) :
    (satisfy test : Parser τ π ρ τ).Makes σ ts (.failure none ts) := by
  intro alive held store tokens ending c hc
  rw [← hc.current] at h
  exact ⟨store, _, .refused h, .refl _, .failure hc⟩

/-- Over a source that fails the token may be the last one that can be read. -/
theorem makes_satisfy [LawfulSource σ τ] {test : τ → Bool} (h : test t = true) :
    (satisfy test : Parser τ π ρ τ).Makes σ (t :: ts) (.success t ts) := by
  intro alive held store tokens ending c hc
  have hcurrent : c.current.filter test = some t := by simp [hc.current, h]
  obtain ⟨fuel, read, hread⟩ := TokenStream.exists_readChunk_of_fill (s := store.stream) fun hl =>
    TokenStream.exists_fill_of_delivers (hc.carries.delivers hl).choose_spec
  obtain ⟨⟨s', result, events⟩, ha⟩ := TokenStream.exists_advance_of_readChunk hread c
  have hadv := TokenStream.advancing_of_advance ha
  have haccess : store.access (·.advance fuel c) = some (⟨s', store.rules, store.log ++ events⟩, result) := by
    simp [Store.access, ha]
  cases result with
  | ok d => exact ⟨_, _, .taken hcurrent haccess, hadv.later, .success (hc.advancing hadv)⟩
  | error e =>
    refine ⟨_, _, .unread hcurrent haccess, hadv.later, .unread ?_⟩
    rintro rfl
    obtain ⟨d, hd⟩ := hc.carries.advance_ok hc.placed hadv
    cases hd

theorem Makes.tryMap (h : p.Makes σ ts f) (g : α → Except Cause β) : (p.tryMap g).Makes σ ts (f.convert g ts) := by
  intro alive held store tokens ending c hc
  obtain ⟨store', result, hp, hlater, hm⟩ := h alive held store tokens ending c hc
  cases hm with
  | unread he => exact ⟨store', _, .tryMap hp, hlater, .unread he⟩
  | success hd => exact ⟨store', _, .tryMap hp, hlater, (Meets.success hd).convert (hc.later hlater hd.carries) g⟩
  | failure hd => exact ⟨store', _, .tryMap hp, hlater, .failure hd⟩

theorem Makes.map (h : p.Makes σ ts f) (g : α → β) : (p.map g).Makes σ ts (f.map g) := by
  have hconvert : f.convert (fun a => .ok (g a)) ts = f.map g := by cases f <;> rfl
  rw [← hconvert]
  exact h.tryMap fun a => .ok (g a)

theorem Makes.lookAhead (h : p.Makes σ ts f) : p.lookAhead.Makes σ ts (f.lookAhead ts) := by
  intro alive held store tokens ending c hc
  obtain ⟨store', result, hp, hlater, hm⟩ := h alive held store tokens ending c hc
  cases hm with
  | unread he => exact ⟨store', _, .reshape hp, hlater, .unread he⟩
  | success hd => exact ⟨store', _, .reshape hp, hlater, .success (hc.later hlater hd.carries)⟩
  | failure hd => exact ⟨store', _, .reshape hp, hlater, .failure hd⟩

theorem Makes.zipWith (hp : p.Makes σ ts (.success a rest)) (hq : q.Makes σ rest g) (join : α → β → γ) :
    (zipWith join p q).Makes σ ts (g.map (join a)) := by
  intro alive held store tokens ending c hc
  obtain ⟨mid, first, hp, hlater, hm⟩ := hp alive (q.holds ++ held) store tokens ending c hc
  cases hm with
  | unread he => exact ⟨mid, _, .zip_stopped hp (.error _), hlater, .unread he⟩
  | success hd =>
    obtain ⟨store', second, hq, hlater', hm'⟩ := hq alive held mid tokens ending _ hd
    exact ⟨store', _, .zip_next hp hq, hlater.trans hlater', hm'.map (join a)⟩

theorem Makes.zipWith_failure (hp : p.Makes σ ts (.failure cause rest)) (q : Parser τ π ρ β) (join : α → β → γ) :
    (Parser.zipWith join p q).Makes σ ts (.failure cause rest) := by
  intro alive held store tokens ending c hc
  obtain ⟨store', first, hp, hlater, hm⟩ := hp alive (q.holds ++ held) store tokens ending c hc
  obtain ⟨result, hpass, hm'⟩ := hm.passes (β := γ)
  exact ⟨store', result, .zip_stopped hp hpass, hlater, hm'⟩

theorem Makes.orElse (hp : p.Makes σ ts (.success a rest)) (q : Parser τ π ρ α) :
    (p.orElse q).Makes σ ts (.success a rest) := by
  intro alive held store tokens ending c hc
  obtain ⟨store', result, hp, hlater, hm⟩ := hp alive (q.holds ++ held) store tokens ending c hc
  exact ⟨store', result, .else_first hp hm.firm, hlater, hm⟩

/-- The second branch begins where the first did, however far that one came. -/
theorem Makes.orElse_second {q : Parser τ π ρ α} (hp : p.Makes σ ts (.failure cause rest)) (hq : q.Makes σ ts f) :
    (p.orElse q).Makes σ ts f := by
  intro alive held store tokens ending c hc
  obtain ⟨mid, first, hp, hlater, hm⟩ := hp alive (q.holds ++ held) store tokens ending c hc
  cases hm with
  | unread he => exact ⟨mid, _, .else_first hp nofun, hlater, .unread he⟩
  | failure hd =>
    obtain ⟨store', second, hq, hlater', hm'⟩ := hq alive held mid tokens ending c (hc.later hlater hd.carries)
    exact ⟨store', second, .else_second hp hq, hlater.trans hlater', hm'⟩

theorem Makes.withDefault (hp : p.Makes σ ts (.failure cause rest)) (value : α) :
    (p.withDefault value).Makes σ ts (.success value ts) := hp.orElse_second (makes_pure value ts)

theorem Makes.loop {item : Parser τ π ρ α} {step : β → α → β} {bounds : Bounds} {acc : β}
    (h : Job.Makes σ (.rounds ⟨pure acc, item, step, bounds⟩ acc 0) ts g) :
    (Parser.loop (pure acc) item step bounds).Makes σ ts g := by
  intro alive held store tokens ending c hc
  obtain ⟨store', result, hrounds, hlater, hm⟩ := h alive held store tokens ending c hc
  exact ⟨store', result, .loop_seeded .pure hrounds, hlater, hm⟩

theorem makes_many1_satisfy_failure {test : τ → Bool} (h : ts.head?.filter test = none) :
    (satisfy test : Parser τ π ρ τ).many1.Makes σ ts (.failure none ts) := by
  refine .loop ?_
  intro alive held store tokens ending c hc
  obtain ⟨store', result, hitem, hlater, hm⟩ := makes_satisfy_failure h alive _ store tokens ending c hc
  cases hm with
  | unread he => exact ⟨store', _, .rounds_stopped rfl hitem nofun (.error _), hlater, .unread he⟩
  | failure hd => exact ⟨store', _, .rounds_failed rfl hitem, hlater, .failure hd⟩

section Runs

variable [LawfulSource σ τ] {test : τ → Bool}

theorem makes_rounds_next {seed : Parser τ π ρ β} {step : β → τ → β} {least count : Nat} {acc : β} {ts : List τ}
    (ht : test t = true)
    (h : Job.Makes σ (.rounds ⟨seed, .satisfy test, step, .atLeast least⟩ (step acc t) (count + 1)) ts g) :
    Job.Makes σ (.rounds ⟨seed, .satisfy test, step, .atLeast least⟩ acc count) (t :: ts) g := by
  intro alive held store tokens ending c hc
  let loop : Loop τ π ρ τ β := ⟨seed, .satisfy test, step, .atLeast least⟩
  obtain ⟨mid, first, hitem, hlater, hm⟩ := makes_satisfy ht alive (loop.holds ++ held) store tokens ending c hc
  cases hm with
  | unread he => exact ⟨mid, _, .rounds_stopped rfl hitem nofun (.error _), hlater, .unread he⟩
  | success hd =>
    obtain ⟨store', result, hrest, hlater', hm'⟩ := h alive held mid tokens ending _ hd
    refine ⟨store', result, .rounds_next rfl hitem ?_ hrest, hlater.trans hlater', hm'⟩
    rw [(hc.later hlater hd.carries).same_eq_false hd (Nat.lt_succ_self _), Bool.false_and]

/-- A loop that has enough tokens takes all further ones that pass the test. By induction on the tokens ahead. -/
theorem makes_rounds_satisfy (seed : Parser τ π ρ β) (step : β → τ → β) {least count : Nat} (henough : least ≤ count)
    (acc : β) (ts : List τ) :
    Job.Makes σ (.rounds ⟨seed, .satisfy test, step, .atLeast least⟩ acc count) ts
      (.success ((ts.takeWhile test).foldl step acc) (ts.dropWhile test)) := by
  have missed {ts : List τ} {acc : β} {count : Nat} (henough : least ≤ count) (h : ts.head?.filter test = none) :
      Job.Makes σ (.rounds ⟨seed, .satisfy test, step, .atLeast least⟩ acc count) ts (.success acc ts) := by
    intro alive held store tokens ending c hc
    let loop : Loop τ π ρ τ β := ⟨seed, .satisfy test, step, .atLeast least⟩
    obtain ⟨store', result, hitem, hlater, hm⟩ := makes_satisfy_failure h alive (loop.holds ++ held) store tokens ending c hc
    cases hm with
    | unread he => exact ⟨store', _, .rounds_stopped rfl hitem nofun (.error _), hlater, .unread he⟩
    | failure hd =>
      have hround : Evaluates alive held store (.rounds loop acc count c) store'
          (.ok (if count < least then .failure _ else .success acc c)) := .rounds_failed rfl hitem
      rw [if_neg (Nat.not_lt.mpr henough)] at hround
      exact ⟨store', _, hround, hlater, .success (hc.later hlater hd.carries)⟩
  induction ts generalizing acc count with
  | nil => exact missed henough rfl
  | cons t ts ih =>
    by_cases ht : test t = true
    · rw [List.takeWhile_cons_of_pos ht, List.dropWhile_cons_of_pos ht]
      exact makes_rounds_next ht (ih (Nat.le_succ_of_le henough) (step acc t))
    · rw [List.takeWhile_cons_of_neg ht, List.dropWhile_cons_of_neg ht]
      exact missed henough (by simp [ht])

theorem makes_skipMany_satisfy (test : τ → Bool) (ts : List τ) :
    (satisfy test : Parser τ π ρ τ).skipMany.Makes σ ts (.success () (ts.dropWhile test)) :=
  .loop (makes_rounds_satisfy _ _ (Nat.le_refl 0) () ts)

theorem makes_many1_run {run : List τ} (hne : run ≠ []) (hrun : ∀ t ∈ run, test t = true)
    (hrest : rest.head?.filter test = none) :
    (satisfy test : Parser τ π ρ τ).many1.Makes σ (run ++ rest) (.success run.toArray rest) := by
  obtain ⟨t, run, rfl⟩ := List.exists_cons_of_ne_nil hne
  obtain ⟨ht, hrun⟩ := List.forall_mem_cons.mp hrun
  obtain ⟨htake, hdrop⟩ := takeWhile_run hrun hrest
  have hrounds : Job.Makes σ (.rounds ⟨(pure #[] : Parser τ π ρ (Array τ)), .satisfy test, Array.push, .atLeast 1⟩ #[t] 1)
      (run ++ rest) _ := makes_rounds_satisfy _ _ (Nat.le_refl 1) #[t] (run ++ rest)
  rw [htake, hdrop, List.foldl_push_eq_append'] at hrounds
  refine .loop (makes_rounds_next ht ?_)
  simpa using hrounds

end Runs

variable [LawfulSource σ τ] {store : Store σ τ π ρ} {c : Cursor τ π} {tokens : List τ} {ending : Option ReadError}

/-- Run by itself the parser comes to an end, and to none that the finding does not say. -/
structure Reports (p : Parser τ π ρ α) (store : Store σ τ π ρ) (c : Cursor τ π) (tokens : List τ)
    (ending : Option ReadError) (f : Finding τ α) : Prop where
  ends : ∃ fuel finish, p.run fuel store c = some finish
  meets : ∀ fuel finish, p.run fuel store c = some finish → Meets finish.store.stream tokens ending f finish.result

theorem Makes.exists_run (h : p.Makes σ ts f) (hc : store.stream.Faces tokens ending c ts) :
    ∃ fuel store' result, p.run fuel store c = some ⟨store', result⟩ ∧ store.stream.Later store'.stream ∧
      Meets store'.stream tokens ending f result := by
  obtain ⟨store', result, heval, hlater, hm⟩ := h .counted [] store tokens ending c hc
  have hfinishes : Machine.Finishes .counted .nil store (.eval p c .nil) store' result :=
    (Machine.finishes_iff_counted (k := .nil) (.run p c)).mpr heval
  obtain ⟨fuel, hrun⟩ := Machine.run_iff_leaves.mpr hfinishes
  exact ⟨fuel, store', result, hrun, hlater, hm⟩

theorem Makes.reports (h : p.Makes σ ts f) (hc : store.stream.Faces tokens ending c ts) : p.Reports store c tokens ending f := by
  obtain ⟨fuel, store', result, hrun, -, hm⟩ := h.exists_run hc
  refine ⟨⟨fuel, _, hrun⟩, fun fuel' finish hrun' => ?_⟩
  obtain rfl := Machine.run_unique hrun' hrun
  exact hm

end Parser

end StreamParsing
