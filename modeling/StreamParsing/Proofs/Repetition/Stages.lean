import StreamParsing.Proofs.Machine.Ahead
import StreamParsing.Proofs.Renaming.Builders
import StreamParsing.Proofs.Renaming.Repeating
import StreamParsing.Proofs.Repetition.Sequences

/-!
Parsing in stages. Parsers that are run one at a time, each from where the one before left off, end as their sequence
does in one run. A stage that does not match gives back the place where it began, and what it read on the way is not
seen by anything that is run there afterwards.
-/

namespace StreamParsing

set_option autoImplicit false

universe u

variable {σ : Type u} {τ π ρ α β : Type} [Source σ τ] [Position π τ]

namespace Parser

/-- Runs the parsers as stages, each from where the one before left off, up to the first that does not match. -/
def parseStages (fuel : Nat) : List (Parser τ π ρ α) → Array α → Store σ τ π ρ → Cursor τ π →
    Option (Stage σ τ π ρ (Array α))
  | [], values, store, c => some ⟨store, .ok (.success values c, c)⟩
  | p :: ps, values, store, c =>
    match p.parseStage fuel store c with
    | none => none
    | some ⟨store, .error e⟩ => some ⟨store, .error e⟩
    | some ⟨store, .ok (.success value _, next)⟩ => parseStages fuel ps (values.push value) store next
    | some ⟨store, .ok (.failure fault, next)⟩ => some ⟨store, .ok (.failure fault, next)⟩
    | some ⟨store, .ok (.abort fault, next)⟩ => some ⟨store, .ok (.abort fault, next)⟩

/-- How stages end, after the given values of those before them. -/
inductive Staged : List (Parser τ π ρ α) → List α → Store σ τ π ρ → Cursor τ π → Store σ τ π ρ →
    Except ReadError (Reply τ π (Array α) × Cursor τ π) → Prop where
  | finished {values : List α} {store : Store σ τ π ρ} {c : Cursor τ π} :
      Staged [] values store c store (.ok (.success values.toArray c, c))
  | next {p : Parser τ π ρ α} {ps : List (Parser τ π ρ α)} {values : List α} {store mid store' : Store σ τ π ρ}
      {c d : Cursor τ π} {value : α} {stage : Except ReadError (Reply τ π (Array α) × Cursor τ π)} :
      p.ends store c mid (.ok (.success value d)) → Staged ps (values ++ [value]) mid d store' stage →
        Staged (p :: ps) values store c store' stage
  | stopped {p : Parser τ π ρ α} {ps : List (Parser τ π ρ α)} {values : List α} {store store' : Store σ τ π ρ}
      {c : Cursor τ π} {outcome : Outcome τ π α} {result : Outcome τ π (Array α)} : p.ends store c store' outcome →
        Passes outcome result → Staged (p :: ps) values store c store' (result.map fun reply => (reply, c))

variable {ps before after : List (Parser τ π ρ α)} {p : Parser τ π ρ α} {values more : List α}
variable {store mid store' : Store σ τ π ρ} {c d : Cursor τ π}
variable {stage : Except ReadError (Reply τ π (Array α) × Cursor τ π)}

theorem staged_of_parseStages {fuel : Nat} (h : parseStages fuel ps values.toArray store c = some ⟨store', stage⟩) :
    Staged ps values store c store' stage := by
  induction ps generalizing values store c with
  | nil =>
    cases h
    exact .finished
  | cons p ps ih =>
    rw [parseStages, parseStage] at h
    rcases hp : p.run fuel store c with _ | ⟨mid, e | (⟨value, d⟩ | fault | fault)⟩
    · simp [hp] at h
    · simp only [hp, Option.map_some, Except.map] at h
      cases h
      exact .stopped ⟨fuel, hp⟩ (.error e)
    · simp only [hp, Option.map_some, Except.map, List.push_toArray] at h
      exact .next ⟨fuel, hp⟩ (ih h)
    · simp only [hp, Option.map_some, Except.map] at h
      cases h
      exact .stopped ⟨fuel, hp⟩ (.failure fault)
    · simp only [hp, Option.map_some, Except.map] at h
      cases h
      exact .stopped ⟨fuel, hp⟩ (.abort fault)

theorem parseStages_of_le [LawfulSource σ τ] {fuel fuel' : Nat} {values : Array α} {last : Stage σ τ π ρ (Array α)}
    (hle : fuel ≤ fuel') (h : parseStages fuel ps values store c = some last) :
    parseStages fuel' ps values store c = some last := by
  induction ps generalizing values store c with
  | nil => exact h
  | cons p ps ih =>
    rw [parseStages, parseStage] at h ⊢
    rcases hp : p.run fuel store c with _ | ⟨mid, e | (⟨value, d⟩ | fault | fault)⟩
    · simp [hp] at h
    all_goals
      have hp' : p.run fuel' store c = _ := Machine.run_of_le hle hp
      simp only [hp, hp'] at h ⊢
    · exact h
    · exact ih h
    · exact h
    · exact h

theorem staged_iff [LawfulSource σ τ] : Staged ps values store c store' stage ↔
    ∃ fuel, parseStages fuel ps values.toArray store c = some ⟨store', stage⟩ := by
  constructor
  · intro h
    induction h with
    | finished => exact ⟨0, rfl⟩
    | @next p ps values store mid store' c d value stage hp _ ih =>
      obtain ⟨fuel, hp⟩ := hp
      obtain ⟨fuel', hps⟩ := ih
      refine ⟨max fuel fuel', ?_⟩
      have hp' : p.run (max fuel fuel') store c = _ := Machine.run_of_le (Nat.le_max_left _ _) hp
      rw [← List.push_toArray] at hps
      rw [parseStages, parseStage, hp']
      exact parseStages_of_le (Nat.le_max_right _ _) hps
    | stopped hp pass =>
      obtain ⟨fuel, hp⟩ := hp
      refine ⟨fuel, ?_⟩
      rw [parseStages, parseStage, hp]
      cases pass <;> rfl
  · rintro ⟨fuel, h⟩
    exact staged_of_parseStages h

section Walks

/-- All stages match, or those before one that does not. -/
inductive Reached (ps : List (Parser τ π ρ α)) (values : List α) (store : Store σ τ π ρ) (c : Cursor τ π)
    (store' : Store σ τ π ρ) : Except ReadError (Reply τ π (Array α) × Cursor τ π) → Prop where
  | finished {more : List α} {d : Cursor τ π} : Walks (ps.map ends) store c more store' d →
      Reached ps values store c store' (.ok (.success (values ++ more).toArray d, d))
  | stopped {before after : List (Parser τ π ρ α)} {p : Parser τ π ρ α} {more : List α} {mid : Store σ τ π ρ}
      {d : Cursor τ π} {outcome : Outcome τ π α} {result : Outcome τ π (Array α)} : ps = before ++ p :: after →
        Walks (before.map ends) store c more mid d → p.ends mid d store' outcome → Passes outcome result →
          Reached ps values store c store' (result.map fun reply => (reply, d))

theorem Staged.reached (h : Staged ps values store c store' stage) : Reached ps values store c store' stage := by
  induction h with
  | @finished values store c =>
    have hall : Reached [] values store c store (.ok (.success (values ++ []).toArray c, c)) := .finished .nil
    rwa [List.append_nil] at hall
  | stopped hp pass => exact .stopped (List.nil_append _).symm .nil hp pass
  | @next _ _ values _ _ _ _ _ value _ hp _ ih =>
    cases ih with
    | @finished more _ hwalk =>
      rw [List.append_assoc]
      exact .finished (.cons hp hwalk)
    | stopped heq hwalk hq pass =>
      subst heq
      exact .stopped (List.cons_append).symm (.cons hp hwalk) hq pass

theorem staged_of_walks (hwalk : Walks (before.map ends) store c more mid d)
    (h : Staged after (values ++ more) mid d store' stage) : Staged (before ++ after) values store c store' stage := by
  induction before generalizing store c values more with
  | nil =>
    cases hwalk
    rwa [List.append_nil] at h
  | cons p before ih =>
    cases hwalk with
    | cons hp hwalk =>
      refine .next hp (ih hwalk ?_)
      rwa [← List.append_cons]

theorem staged_iff_sequenced {result : Outcome τ π (Array α)} : Sequenced (ps.map ends) store c store' result ↔
    ∃ stage, Staged ps [] store c store' stage ∧ stage.map Prod.fst = result := by
  constructor
  · intro h
    cases h with
    | @success _ more d hwalk =>
      refine ⟨.ok (.success more.toArray d, d), ?_, rfl⟩
      rw [← List.append_nil ps]
      exact staged_of_walks hwalk .finished
    | stopped heq hwalk hhere pass =>
      obtain ⟨before, rest, rfl, rfl, hrest⟩ := List.map_eq_append_iff.mp heq
      obtain ⟨p, after, rfl, rfl, rfl⟩ := List.map_eq_cons_iff.mp hrest
      refine ⟨_, staged_of_walks hwalk (.stopped hhere pass), ?_⟩
      cases result <;> rfl
  · rintro ⟨stage, h, rfl⟩
    cases h.reached with
    | finished hwalk => exact .success hwalk
    | @stopped before after p more mid d outcome result heq hwalk hp pass =>
      have hfst : (result.map fun reply => (reply, d)).map Prod.fst = result := by cases result <;> rfl
      rw [hfst, heq]
      exact .stopped List.map_append hwalk hp pass

end Walks

section Sequence

variable [LawfulSource σ τ] {r : Rules τ π ρ}

/-- Where all that the parsers hold is retained, each of them ends in its turn as it does by itself. -/
theorem inOrder_refines_of_twin (hr : r.Uniform) (hps : ∀ p ∈ ps, Twin r.pairing true p p) :
    List.Forall₂ (Runs.Refines (σ := σ) fun store => r.Grows store.rules) (inOrder .counted [] ps) (ps.map ends) ∧
      List.Forall₂ (Runs.Refines (σ := σ) fun store => r.Grows store.rules) (ps.map ends) (inOrder .counted [] ps) := by
  induction ps with
  | nil => exact ⟨.nil, .nil⟩
  | cons p ps ih =>
    obtain ⟨-, hps⟩ := List.forall_mem_cons.mp hps
    obtain ⟨hto, hfrom⟩ := ih hps
    have hends {store store' : Store σ τ π ρ} {c : Cursor τ π} {result : Outcome τ π α} (hg : r.Grows store.rules) :
        p.ends store c store' result ↔ p.outcomes .counted (ps.flatMap holds ++ []) store c store' result := by
      refine ends_iff_held (hr.grows hg) fun n hn => ?_
      rw [List.append_nil, List.mem_flatMap] at hn
      obtain ⟨q, hq, hn⟩ := hn
      exact Rules.isRetained_grows ((hps q hq).isRetained hn) hg
    refine ⟨.cons ⟨fun hg h => (hends hg).mpr h, fun hg h => hg.trans h.grows⟩ hto,
      .cons ⟨fun hg h => (hends hg).mp h, fun hg h => ?_⟩ hfrom⟩
    exact hg.trans (ends_iff_counted.mp h).grows

theorem sequence_ends_iff (hr : store.rules.Uniform) (hps : ∀ p ∈ ps, Twin store.rules.pairing true p p)
    {result : Outcome τ π (Array α)} : (sequence ps).ends store c store' result ↔
      ∃ stage, Staged ps [] store c store' stage ∧ stage.map Prod.fst = result := by
  obtain ⟨hto, hfrom⟩ := inOrder_refines_of_twin (σ := σ) hr hps
  have hall : (sequence ps).ends store c store' result ↔ Sequenced (inOrder .counted [] ps) store c store' result := by
    rw [← outcomes_sequence]
    exact ends_iff_counted
  rw [hall, ← staged_iff_sequenced]
  exact ⟨Sequenced.refine hto .refl, Sequenced.refine hfrom .refl⟩

end Sequence

end Parser

variable {first : TokenStream σ τ} {r : Rules τ π ρ} {store store' store₁ store₂ : Store σ τ π ρ} {c d : Cursor τ π}

/-- The hooks of the parser answer in places of the stream; it names retained rules only and does not depend on their
numbers. -/
structure Parser.Orderly (first : TokenStream σ τ) (r : Rules τ π ρ) (p : Parser τ π ρ α) : Prop where
  hooked : p.Hooked (Hook.Settled first)
  twin : Parser.Twin r.pairing true p p

/-- A store in which orderly parsers may be run at the cursor: what became of the stream `first` and of the table `r`. -/
structure Store.Orderly (first : TokenStream σ τ) (r : Rules τ π ρ) (store : Store σ τ π ρ) (c : Cursor τ π) : Prop where
  becomes : first.Becomes store.stream
  rules : store.rules.Hooked (Hook.Settled first)
  grows : r.Grows store.rules
  placed : store.stream.Placed c

namespace Parser

variable [LawfulSource σ τ] {p : Parser τ π ρ α} {ps : List (Parser τ π ρ α)} {values : List α}

/-- Behind a reply something else can be run at its place, and where the parser began. -/
theorem orderly_of_ends {reply : Reply τ π α} (h : p.ends store c store' (.ok reply)) (hs : store.Orderly first r c)
    (hp : p.Orderly first r) : store'.Orderly first r reply.cursor ∧ store'.Orderly first r c := by
  have heval := ends_iff_counted.mp h
  obtain ⟨t, -, -, hstays⟩ := heval.akin (.refl hs.becomes hs.placed) hs.rules hp.hooked #[]
  have hgrows := hs.grows.trans heval.grows
  have hend := hstays.answer reply rfl
  have hstart := hstays.again c (.refl hs.becomes hs.placed)
  exact ⟨⟨hend.left, hstays.rules, hgrows, hend.placed⟩, ⟨hstart.left, hstays.rules, hgrows, hstart.placed⟩⟩

theorem orderly_of_walks {mid : Store σ τ π ρ} (h : Walks (ps.map ends) store c values mid d)
    (hs : store.Orderly first r c) (hps : ∀ p ∈ ps, p.Orderly first r) : mid.Orderly first r d := by
  induction ps generalizing store c values with
  | nil =>
    cases h
    exact hs
  | cons p ps ih =>
    obtain ⟨hp, hps⟩ := List.forall_mem_cons.mp hps
    cases h with
    | cons hfirst hothers => exact ih hothers (orderly_of_ends hfirst hs hp).1 hps

omit [LawfulSource σ τ] in
theorem toward_of_ends {reply : Reply τ π α} (h : p.ends store c store' (.ok reply)) :
    store.stream.Toward store'.stream := by
  obtain ⟨fuel, h⟩ := h
  obtain ⟨n, hleaves⟩ := Machine.leaves_of_run h
  exact Machine.toward_of_path hleaves.path

/-- At a place of both, a parser ends alike over two streams of which one has been read ahead. -/
theorem exists_run_ahead {q : Parser τ π ρ β} {result : Outcome τ π β} (hr : r.Uniform) (hq : q.Orderly first r)
    (h₁ : store₁.Orderly first r c) (h₂ : store₂.Orderly first r c)
    (htoward : store₁.stream.Toward store₂.stream ∨ store₂.stream.Toward store₁.stream)
    (h : ∃ fuel last, q.run fuel store₁ c = some ⟨last, result⟩) :
    ∃ fuel last, q.run fuel store₂ c = some ⟨last, result⟩ := by
  obtain ⟨fuel, last, h⟩ := h
  have hakin : TokenStream.Akin first store₁.stream store₂.stream c :=
    ⟨h₁.becomes, h₂.becomes, htoward, h₁.placed, h₂.placed⟩
  -- First over the other stream with the same table, then with the other table.
  obtain ⟨t, log, heval, -⟩ := (evaluates_of_run h).akin hakin h₁.rules hq.hooked store₂.log
  obtain ⟨-, rules, -, -, heval⟩ := heval.follows (.run c hq.twin) .nil (hr.between_grows h₁.grows h₂.grows)
  obtain ⟨fuel', h'⟩ := ends_iff_counted.mpr heval
  exact ⟨fuel', _, h'⟩

/-- The stages of a list of parsers end as its sequence. Where one of them does not match, the place to go on from is the
one where it began, and every parser ends there as it would have if that stage had not been run. -/
theorem stages_end_as_sequence (ps : List (Parser τ π ρ α)) (store : Store σ τ π ρ) (c : Cursor τ π)
    (hr : store.rules.Uniform) (hps : ∀ p ∈ ps, Twin store.rules.pairing true p p) :
    (∀ store' result, (∃ fuel, (sequence ps).run fuel store c = some ⟨store', result⟩) ↔
      ∃ fuel stage, parseStages fuel ps #[] store c = some ⟨store', stage⟩ ∧ stage.map Prod.fst = result) ∧
    (∀ fuel store' values d rest,
      parseStages fuel ps #[] store c = some ⟨store', .ok (.success values d, rest)⟩ → rest = d) ∧
    (store.stream.Placed c → store.rules.Hooked (Hook.Settled store.stream) →
      (∀ p ∈ ps, p.Hooked (Hook.Settled store.stream)) →
      ∀ fuel store' reply rest, parseStages fuel ps #[] store c = some ⟨store', .ok (reply, rest)⟩ →
        (∀ values d, reply ≠ .success values d) → ∃ before p after values mid outcome, ps = before ++ p :: after ∧
          (∃ fuel, parseStages fuel before #[] store c = some ⟨mid, .ok (.success values rest, rest)⟩) ∧
          (∃ fuel, p.run fuel mid rest = some ⟨store', outcome⟩) ∧ Passes outcome (.ok reply) ∧
          ∀ {β : Type} (q : Parser τ π ρ β), q.Orderly store.stream store.rules → ∀ result,
            (∃ fuel last, q.run fuel store' rest = some ⟨last, result⟩) ↔
              ∃ fuel last, q.run fuel mid rest = some ⟨last, result⟩) := by
  refine ⟨?_, ?_, ?_⟩
  · intro store' result
    refine (sequence_ends_iff hr hps).trans ?_
    constructor
    · rintro ⟨stage, h, rfl⟩
      obtain ⟨fuel, h⟩ := staged_iff.mp h
      exact ⟨fuel, stage, h, rfl⟩
    · rintro ⟨fuel, stage, h, rfl⟩
      exact ⟨stage, staged_iff.mpr ⟨fuel, h⟩, rfl⟩
  · intro fuel store' values d rest h
    generalize hstage : (Except.ok (.success values d, rest) : Except ReadError (Reply τ π (Array α) × _)) = stage at h
    cases (staged_of_parseStages h).reached with
    | finished =>
      cases hstage
      rfl
    | stopped _ _ _ pass => cases pass <;> cases hstage
  · intro hc hrules hhooked fuel store' reply rest h hreply
    have horderly : store.Orderly store.stream store.rules c := ⟨.refl, hrules, .refl, hc⟩
    have hall : ∀ p ∈ ps, p.Orderly store.stream store.rules := fun p hp => ⟨hhooked p hp, hps p hp⟩
    generalize hstage : (Except.ok (reply, rest) : Except ReadError (Reply τ π (Array α) × _)) = stage at h
    cases (staged_of_parseStages h).reached with
    | finished =>
      cases hstage
      exact absurd rfl (hreply _ _)
    | @stopped before after p values mid d outcome result heq hwalk hp pass =>
      subst heq
      have hmid := orderly_of_walks hwalk horderly fun q hq => hall q (List.mem_append_left _ hq)
      have hself : p.Orderly store.stream store.rules := hall p (List.mem_append_right _ List.mem_cons_self)
      have hbefore : Staged (before ++ []) [] store c mid (.ok (.success values.toArray d, d)) :=
        staged_of_walks hwalk .finished
      rw [List.append_nil] at hbefore
      -- A stage that was broken off by a read gives no place to go on from.
      obtain ⟨failed, rfl⟩ : ∃ failed, outcome = .ok failed := by
        cases pass with
        | failure | abort => exact ⟨_, rfl⟩
        | error => cases hstage
      obtain ⟨rfl, rfl⟩ : result = .ok reply ∧ rest = d := by
        cases pass <;> cases hstage <;> exact ⟨rfl, rfl⟩
      refine ⟨before, p, after, values.toArray, mid, .ok failed, rfl, staged_iff.mp hbefore, hp, pass, fun q hq result => ?_⟩
      have hlast := (orderly_of_ends hp hmid hself).2
      have htoward := toward_of_ends hp
      exact ⟨exists_run_ahead hr hq hlast hmid (.inr htoward), exists_run_ahead hr hq hmid hlast (.inl htoward)⟩

/-- The second stage has read a chunk when it is aborted; the rule ends in its place as if that had not been read. -/
theorem stages_end_as_sequence_aborted :
    let pair : Parser Char LinearPosition Char Char := ((Builder.fix fun _ => .pure ((token 'b').keepRight any)).run .empty).1
    let table : Rules Char LinearPosition Char := ((Builder.fix fun _ => .pure ((token 'b').keepRight any)).run .empty).2
    let stream : TokenStream (Items Char) Char := ⟨#[#['a']], ⟨[some 'b', some 'c'], 1⟩, true, 1, 1⟩
    let store : Store (Items Char) Char LinearPosition Char := .ofStream stream table
    let stages : List (Parser Char LinearPosition Char Char) := [token 'a', ((token 'b').keepRight (token 'x')).commit, pair]
    let rest : Cursor Char LinearPosition := ⟨1, 0, ⟨1⟩, some 'b'⟩
    let fault : Fault Char LinearPosition := .unexpected ⟨2, 0, ⟨2⟩, some 'c'⟩
    LawfulSource (Items Char) Char ∧ table.Uniform ∧ (∀ p ∈ stages, Twin table.pairing true p p) ∧
      store.stream.Placed (store.stream.start : Cursor Char LinearPosition) ∧ table.Hooked (Hook.Settled stream) ∧
      (∀ p ∈ stages, p.Hooked (Hook.Settled stream)) ∧ pair.Orderly stream table ∧
      (∃ fuel store', (sequence stages).run fuel store store.stream.start = some ⟨store', .ok (.abort fault)⟩) ∧
      ∃ (before : List (Parser Char LinearPosition Char Char)) (mid : Store (Items Char) Char LinearPosition Char),
        (∃ fuel values, parseStages fuel before #[] store store.stream.start =
          some ⟨mid, .ok (.success values rest, rest)⟩) ∧
        ∃ fuel last, pair.run fuel mid rest = some ⟨last, .ok (.success 'c' ⟨3, 0, ⟨3⟩, none⟩)⟩ := by
  intro pair table stream store stages rest fault
  have hbody {w : Pairing Char LinearPosition Char} : Twin w true ((token 'b').keepRight any) ((token 'b').keepRight any) :=
    .zipWith _ (.leaf trivial) (.leaf trivial)
  have hbuilder : Builder.Parses Rules.empty.pairing _ _ := .fix fun _ _ _ _ => .pure fun _ => hbody
  obtain ⟨huniform, htwin⟩ : table.Uniform ∧ Twin table.pairing true pair pair := Builder.Twin.run Rules.uniform_empty hbuilder
  have htable : table = Rules.empty.append [.defined ((token 'b').keepRight any)] true := rfl
  have hleaf (t : Char) : (token t : Parser Char LinearPosition Char Char).Hooked (Hook.Settled stream) := .leaf trivial
  have hrules : table.Hooked (Hook.Settled stream) := by
    have hnone : (Rules.empty : Rules Char LinearPosition Char).Hooked (Hook.Settled stream) := by
      intro entry hmem
      simp [Rules.empty] at hmem
    rw [htable]
    refine hnone.append (fun rule hrule => ?_) true
    rw [List.mem_singleton.mp hrule]
    exact .defined (.zipWith (hleaf 'b') (.leaf trivial))
  have hcommit : (Hook.commit : Hook Char LinearPosition Char Char).Settled stream :=
    Hook.settled_of_cursor Hook.cursor_commit
  have htwins : ∀ p ∈ stages, Twin table.pairing true p p := by
    simp only [stages, List.forall_mem_cons]
    exact ⟨.leaf trivial, .reshape _ (.zipWith _ (.leaf trivial) (.leaf trivial)), htwin, List.forall_mem_nil _⟩
  have hhooked : ∀ p ∈ stages, p.Hooked (Hook.Settled stream) := by
    simp only [stages, List.forall_mem_cons]
    exact ⟨hleaf 'a', .reshape (.zipWith (hleaf 'b') (hleaf 'x')) hcommit, .rule 0, List.forall_mem_nil _⟩
  have hplaced : store.stream.Placed (store.stream.start : Cursor Char LinearPosition) :=
    TokenStream.placed_start Nat.one_pos
  have horderly : pair.Orderly stream table := ⟨.rule 0, htwin⟩
  obtain ⟨hone, -, hstages⟩ := stages_end_as_sequence stages store store.stream.start huniform htwins
  refine ⟨inferInstance, huniform, htwins, hplaced, hrules, hhooked, horderly, ?_, ?_⟩
  · obtain ⟨fuel, h⟩ := (hone _ _).mpr ⟨30, _, rfl, rfl⟩
    exact ⟨fuel, _, h⟩
  · obtain ⟨before, -, -, values, mid, -, -, ⟨fuel, hbefore⟩, -, -, hsame⟩ :=
      hstages hplaced hrules hhooked 30 _ (.abort fault) rest rfl fun _ _ heq => by cases heq
    exact ⟨before, mid, ⟨fuel, values, hbefore⟩, (hsame pair horderly _).mp ⟨30, _, rfl⟩⟩

end Parser

end StreamParsing
