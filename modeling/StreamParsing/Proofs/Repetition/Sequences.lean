import StreamParsing.Proofs.Repetition.Outcomes

/-!
Lists of parsers, run one behind the other or one instead of the other. A sequence nests its parsers to the left and a
choice to the right, so each of them runs while those behind it are held; which ones are run, and from where, does not
depend on the nesting.
-/

namespace StreamParsing

set_option autoImplicit false

universe u

variable {σ : Type u} {τ π ρ α β ω : Type}

/-- One run behind the other, all of them successful, with their values. -/
inductive Walks : List (Runs σ τ π ρ α) → Store σ τ π ρ → Cursor τ π → List α → Store σ τ π ρ → Cursor τ π → Prop where
  | nil {store : Store σ τ π ρ} {c : Cursor τ π} : Walks [] store c [] store c
  | cons {first : Runs σ τ π ρ α} {others : List (Runs σ τ π ρ α)} {store mid store' : Store σ τ π ρ}
      {c d e : Cursor τ π} {value : α} {values : List α} : first store c mid (.ok (.success value d)) →
      Walks others mid d values store' e → Walks (first :: others) store c (value :: values) store' e

/-- All of the runs succeed in turn, or the first that does not gives its outcome. -/
inductive Sequenced (all : List (Runs σ τ π ρ α)) (store : Store σ τ π ρ) (c : Cursor τ π) :
    Store σ τ π ρ → Outcome τ π (Array α) → Prop where
  | success {store' : Store σ τ π ρ} {values : List α} {d : Cursor τ π} : Walks all store c values store' d →
      Sequenced all store c store' (.ok (.success values.toArray d))
  | stopped {before after : List (Runs σ τ π ρ α)} {here : Runs σ τ π ρ α} {mid store' : Store σ τ π ρ}
      {values : List α} {d : Cursor τ π} {outcome : Outcome τ π α} {result : Outcome τ π (Array α)} :
      all = before ++ here :: after → Walks before store c values mid d → here mid d store' outcome →
      Passes outcome result → Sequenced all store c store' result

/-- Runs from one place, all of which fail; they may still read the tokens that later ones will see. -/
inductive Misses (c : Cursor τ π) : List (Runs σ τ π ρ α) → Store σ τ π ρ → Store σ τ π ρ → Prop where
  | nil {store : Store σ τ π ρ} : Misses c [] store store
  | cons {first : Runs σ τ π ρ α} {others : List (Runs σ τ π ρ α)} {store mid store' : Store σ τ π ρ}
      {fault : Fault τ π} : first store c mid (.ok (.failure fault)) → Misses c others mid store' →
      Misses c (first :: others) store store'

/-- The first of the runs that does not fail gives its outcome; if there is none, the last one does. -/
inductive Chosen (all : List (Runs σ τ π ρ α)) (store : Store σ τ π ρ) (c : Cursor τ π) :
    Store σ τ π ρ → Outcome τ π α → Prop where
  | found {before after : List (Runs σ τ π ρ α)} {here : Runs σ τ π ρ α} {mid store' : Store σ τ π ρ}
      {result : Outcome τ π α} : all = before ++ here :: after → Misses c before store mid →
      here mid c store' result → Firm result → Chosen all store c store' result
  | last {before : List (Runs σ τ π ρ α)} {here : Runs σ τ π ρ α} {mid store' : Store σ τ π ρ}
      {fault : Fault τ π} : all = before ++ [here] → Misses c before store mid →
      here mid c store' (.ok (.failure fault)) → Chosen all store c store' (.ok (.failure fault))
  | none : all = [] → Chosen all store c store (.ok (.failure (.unexpected c)))

section Runs

variable {all others : List (Runs σ τ π ρ α)} {first last : Runs σ τ π ρ α} {store mid store' : Store σ τ π ρ}
variable {c d e : Cursor τ π} {values : List α} {value : α}

theorem Walks.snoc (h : Walks all store c values mid d) (hlast : last mid d store' (.ok (.success value e))) :
    Walks (all ++ [last]) store c (values ++ [value]) store' e := by
  induction h with
  | nil => exact .cons hlast .nil
  | cons hfirst _ ih => exact .cons hfirst (ih hlast)

theorem Walks.exists_last (h : Walks (all ++ [last]) store c values store' e) :
    ∃ init value mid d, values = init ++ [value] ∧ Walks all store c init mid d ∧
      last mid d store' (.ok (.success value e)) := by
  induction all generalizing store c values with
  | nil =>
    cases h with
    | cons hlast hnil =>
      cases hnil
      exact ⟨[], _, store, c, rfl, .nil, hlast⟩
  | cons first others ih =>
    cases h with
    | cons hfirst hothers =>
      obtain ⟨init, value, mid, d, rfl, hwalk, hlast⟩ := ih hothers
      exact ⟨_ :: init, value, mid, d, rfl, .cons hfirst hwalk, hlast⟩

theorem passes_trans {first : Outcome τ π α} {second : Outcome τ π β} {third : Outcome τ π ω}
    (h : Passes first second) (h' : Passes second third) : Passes first third := by
  cases h with
  | failure fault => cases h'; exact .failure fault
  | abort fault => cases h'; exact .abort fault
  | error e => cases h'; exact .error e

theorem map_eq_of_passes {outcome : Outcome τ π α} {result : Outcome τ π β} (h : Passes outcome result) (f : α → β) :
    result = outcome.map (Reply.map f) := by
  cases h <;> rfl

/-- A sequence with one more run at its end. -/
theorem sequenced_append :
    Sequenced (all ++ [last]) = Runs.Then (Sequenced all) fun values => Runs.Mapped values.push last := by
  refine Runs.ext fun store c store' result => ?_
  constructor
  · intro h
    cases h with
    | success hwalk =>
      obtain ⟨init, value, mid, d, rfl, hinit, hlast⟩ := hwalk.exists_last
      rw [← List.push_toArray]
      exact .next (.success hinit) ⟨_, hlast, rfl⟩
    | @stopped before after here mid _ values d outcome _ heq hwalk hhere pass =>
      rcases List.eq_nil_or_concat after with rfl | ⟨after, r, rfl⟩
      · obtain ⟨rfl, hlast⟩ := List.append_inj' heq rfl
        obtain rfl := (List.cons.inj hlast).1
        exact .next (.success hwalk) ⟨outcome, hhere, map_eq_of_passes pass _⟩
      · rw [List.concat_eq_append, ← List.cons_append, ← List.append_assoc] at heq
        obtain ⟨rfl, -⟩ := List.append_inj' heq rfl
        have hself : Passes result result := by cases pass <;> constructor
        exact .stopped (.stopped rfl hwalk hhere pass) hself
  · intro h
    cases h with
    | @next mid _ array d _ hall hlast =>
      obtain ⟨outcome, hlast, rfl⟩ := hlast
      generalize hr : (Except.ok (.success array d) : Outcome τ π (Array α)) = reached at hall
      cases hall with
      | success hwalk =>
        cases hr
        rcases outcome with e | (⟨value, e⟩ | fault | fault)
        · exact .stopped rfl hwalk hlast (.error e)
        · have hsuccess := Sequenced.success (hwalk.snoc hlast)
          rw [← List.push_toArray] at hsuccess
          exact hsuccess
        · exact .stopped rfl hwalk hlast (.failure fault)
        · exact .stopped rfl hwalk hlast (.abort fault)
      | stopped _ _ _ pass =>
        subst hr
        cases pass
    | stopped hall pass =>
      cases hall with
      | success => cases pass
      | stopped heq hwalk hhere pass' =>
        have hmore : all ++ [last] = _ := congrArg (· ++ [last]) heq
        rw [List.append_assoc] at hmore
        exact .stopped hmore hwalk hhere (passes_trans pass' pass)

theorem chosen_singleton : Chosen [first] = first := by
  refine Runs.ext fun store c store' result => ?_
  constructor
  · intro h
    cases h with
    | found heq hmiss hhere =>
      obtain ⟨rfl, heq⟩ | ⟨rfl, heq⟩ := List.append_eq_singleton_iff.mp heq.symm
      · cases hmiss
        cases heq
        exact hhere
      · cases heq
    | last heq hmiss hhere =>
      obtain ⟨rfl, hlast⟩ | ⟨rfl, hlast⟩ := List.append_eq_singleton_iff.mp heq.symm
      · cases hmiss
        cases hlast
        exact hhere
      · cases hlast
    | none heq => cases heq
  · intro h
    have honly : [first] = [] ++ [first] := rfl
    by_cases firm : Firm result
    · exact .found honly .nil h firm
    · obtain ⟨fault, rfl⟩ := not_forall_not.mp firm
      exact .last honly .nil h

/-- A choice with one more run before the others. -/
theorem chosen_cons (hne : others ≠ []) : Chosen (first :: others) = Runs.Else first (Chosen others) := by
  refine Runs.ext fun store c store' result => ?_
  constructor
  · intro h
    cases h with
    | found heq hmiss hhere firm =>
      cases hmiss with
      | nil =>
        cases heq
        exact .first hhere firm
      | cons hfirst hmiss =>
        cases heq
        exact .second hfirst (.found rfl hmiss hhere firm)
    | last heq hmiss hhere =>
      cases hmiss with
      | nil =>
        cases heq
        exact absurd rfl hne
      | cons hfirst hmiss =>
        cases heq
        exact .second hfirst (.last rfl hmiss hhere)
    | none heq => cases heq
  · intro h
    cases h with
    | first hfirst firm => exact .found (List.nil_append _).symm .nil hfirst firm
    | second hfirst hothers =>
      cases hothers with
      | found heq hmiss hhere firm => exact .found (congrArg _ heq) (.cons hfirst hmiss) hhere firm
      | last heq hmiss hhere => exact .last (congrArg _ heq) (.cons hfirst hmiss) hhere
      | none heq => exact absurd heq hne

section Refinement

variable {good : Store σ τ π ρ → Prop} {refined : List (Runs σ τ π ρ α)} {result : Outcome τ π β}

theorem Walks.refine (h : List.Forall₂ (Runs.Refines good) all refined) (hgood : good store)
    (hwalk : Walks all store c values store' d) : Walks refined store c values store' d ∧ good store' := by
  induction h generalizing store c values with
  | nil =>
    cases hwalk
    exact ⟨.nil, hgood⟩
  | cons hrun _ ih =>
    cases hwalk with
    | cons hfirst hothers =>
      obtain ⟨hothers, hlast⟩ := ih (hrun.keep hgood hfirst) hothers
      exact ⟨.cons (hrun.imp hgood hfirst) hothers, hlast⟩

theorem Misses.refine (h : List.Forall₂ (Runs.Refines good) all refined) (hgood : good store)
    (hmiss : Misses c all store store') : Misses c refined store store' ∧ good store' := by
  induction h generalizing store with
  | nil =>
    cases hmiss
    exact ⟨.nil, hgood⟩
  | cons hrun _ ih =>
    cases hmiss with
    | cons hfirst hothers =>
      obtain ⟨hothers, hlast⟩ := ih (hrun.keep hgood hfirst) hothers
      exact ⟨.cons (hrun.imp hgood hfirst) hothers, hlast⟩

/-- The runs before one of the list, that one, and those behind it are refined each for itself. -/
theorem exists_cut {before after : List (Runs σ τ π ρ α)} {here : Runs σ τ π ρ α}
    (h : List.Forall₂ (Runs.Refines good) (before ++ here :: after) refined) :
    ∃ before' here' after', refined = before' ++ here' :: after' ∧ List.Forall₂ (Runs.Refines good) before before' ∧
      Runs.Refines good here here' ∧ List.Forall₂ (Runs.Refines good) after after' := by
  induction before generalizing refined with
  | nil =>
    cases h with
    | cons hhere hafter => exact ⟨[], _, _, rfl, .nil, hhere, hafter⟩
  | cons first before ih =>
    cases h with
    | cons hfirst hothers =>
      obtain ⟨before', here', after', rfl, hbefore, hhere, hafter⟩ := ih hothers
      exact ⟨_ :: before', here', after', rfl, .cons hfirst hbefore, hhere, hafter⟩

theorem Sequenced.refine {result : Outcome τ π (Array α)} (h : List.Forall₂ (Runs.Refines good) all refined)
    (hgood : good store) (hsequenced : Sequenced all store c store' result) : Sequenced refined store c store' result := by
  cases hsequenced with
  | success hwalk => exact .success (hwalk.refine h hgood).1
  | stopped heq hwalk hhere pass =>
    subst heq
    obtain ⟨before', here', after', rfl, hbefore, hrun, -⟩ := exists_cut h
    obtain ⟨hwalk, hmid⟩ := hwalk.refine hbefore hgood
    exact .stopped rfl hwalk (hrun.imp hmid hhere) pass

theorem Chosen.refine {result : Outcome τ π α} (h : List.Forall₂ (Runs.Refines good) all refined) (hgood : good store)
    (hchosen : Chosen all store c store' result) : Chosen refined store c store' result := by
  cases hchosen with
  | found heq hmiss hhere firm =>
    subst heq
    obtain ⟨before', here', after', rfl, hbefore, hrun, -⟩ := exists_cut h
    obtain ⟨hmiss, hmid⟩ := hmiss.refine hbefore hgood
    exact .found rfl hmiss (hrun.imp hmid hhere) firm
  | last heq hmiss hhere =>
    subst heq
    obtain ⟨before', here', after', rfl, hbefore, hrun, hafter⟩ := exists_cut h
    obtain ⟨hmiss, hmid⟩ := hmiss.refine hbefore hgood
    cases hafter
    exact .last rfl hmiss (hrun.imp hmid hhere)
  | none heq =>
    subst heq
    cases h
    exact .none rfl

end Refinement

end Runs

namespace Parser

variable [Source σ τ] [Position π τ]

/-- How the parsers end where each one runs while those behind it are still held. -/
def inOrder (alive : Liveness τ π ρ) (held : List Nat) : List (Parser τ π ρ α) → List (Runs σ τ π ρ α)
  | [] => []
  | p :: ps => p.outcomes alive (ps.flatMap holds ++ held) :: inOrder alive held ps

variable {alive : Liveness τ π ρ} {held : List Nat} {p : Parser τ π ρ α} {ps : List (Parser τ π ρ α)}

theorem inOrder_append : (inOrder alive held (ps ++ [p]) : List (Runs σ τ π ρ α)) =
    inOrder alive (p.holds ++ held) ps ++ [p.outcomes alive held] := by
  induction ps with
  | nil => rfl
  | cons q ps ih => simp [inOrder, ih]

omit [Position π τ] in
theorem holds_choice (ps : List (Parser τ π ρ α)) : (choice ps).holds = ps.flatMap holds := by
  induction ps with
  | nil => rfl
  | cons p ps ih =>
    cases ps with
    | nil => simp [choice]
    | cons q ps =>
      have hholds : (choice (p :: q :: ps)).holds = p.holds ++ (choice (q :: ps)).holds := rfl
      rw [hholds, ih]
      rfl

/-- From the last parser to the first: each one more is zipped onto the sequence of those before it. -/
theorem outcomes_sequence (ps : List (Parser τ π ρ α)) :
    ((sequence ps).outcomes alive held : Runs σ τ π ρ (Array α)) = Sequenced (inOrder alive held ps) := by
  induction ps using List.reverseRecOn generalizing held with
  | nil =>
    refine Runs.ext fun store c store' result => outcomes_pure_iff.trans ?_
    constructor
    · rintro ⟨rfl, rfl⟩
      exact .success .nil
    · intro h
      cases h with
      | success hwalk =>
        cases hwalk
        exact ⟨rfl, rfl⟩
      | stopped heq => cases List.append_ne_nil_of_right_ne_nil _ (List.cons_ne_nil _ _) heq.symm
  | append_singleton ps p ih =>
    have hsequence : sequence (ps ++ [p]) = zipWith Array.push (sequence ps) p := by
      rw [sequence, List.foldl_append]
      rfl
    rw [hsequence, outcomes_zipWith, inOrder_append, sequenced_append, ih]

theorem outcomes_choice (ps : List (Parser τ π ρ α)) :
    ((choice ps).outcomes alive held : Runs σ τ π ρ α) = Chosen (inOrder alive held ps) := by
  induction ps with
  | nil =>
    refine Runs.ext fun store c store' result => ?_
    constructor
    · intro h
      cases h
      exact .none rfl
    · intro h
      cases h with
      | found heq => cases List.append_ne_nil_of_right_ne_nil _ (List.cons_ne_nil _ _) heq.symm
      | last heq => cases List.append_ne_nil_of_right_ne_nil _ (List.cons_ne_nil _ _) heq.symm
      | none => exact .fail
  | cons p ps ih =>
    cases ps with
    | nil => exact chosen_singleton.symm
    | cons q ps =>
      have hchoice : choice (p :: q :: ps) = p.orElse (choice (q :: ps)) := rfl
      rw [hchoice, outcomes_orElse, ih, holds_choice]
      exact (chosen_cons (List.cons_ne_nil _ _)).symm

omit [Position π τ] in
/-- Work that holds what the parsers hold: they are still to be run. -/
theorem exists_stack (hsteady : ∀ p ∈ ps, p.Steady) : ∃ k : Stack τ π ρ α α, k.Steady ∧ k.holds = ps.flatMap holds := by
  induction ps with
  | nil => exact ⟨.nil, trivial, rfl⟩
  | cons p ps ih =>
    obtain ⟨hp, hsteady⟩ := List.forall_mem_cons.mp hsteady
    obtain ⟨k, hk, hholds⟩ := ih hsteady
    refine ⟨.cons (.zipLeft (fun a _ => a) p) k, ⟨hp, hk⟩, ?_⟩
    rw [Stack.holds, hholds, List.flatMap_cons]
    rfl

variable [LawfulSource σ τ]

/-- Where the caller holds all rules, each parser ends in its turn as it does by itself. -/
theorem inOrder_refines_ends (hsteady : ∀ p ∈ ps, p.Steady) :
    List.Forall₂ (Runs.Refines (σ := σ) (·.rules.Kept)) (inOrder .counted [] ps) (ps.map ends) ∧
      List.Forall₂ (Runs.Refines (σ := σ) (·.rules.Kept)) (ps.map ends) (inOrder .counted [] ps) := by
  induction ps with
  | nil => exact ⟨.nil, .nil⟩
  | cons p ps ih =>
    obtain ⟨hp, hsteady⟩ := List.forall_mem_cons.mp hsteady
    obtain ⟨k, hk, hholds⟩ := exists_stack hsteady
    obtain ⟨hto, hfrom⟩ := ih hsteady
    rw [inOrder, List.append_nil, ← hholds]
    exact ⟨.cons (outcomes_refines_ends hp hk) hto, .cons (ends_refines_outcomes hp hk) hfrom⟩

/-- The parser `q` ends as `spec` says of the parsers in the list: over any pending work, where each of them runs in its
turn; and by itself, with plain runs of them, where the caller holds all rules. -/
structure Composes (σ : Type u) [Source σ τ] (q : Parser τ π ρ β) (ps : List (Parser τ π ρ α))
    (spec : List (Runs σ τ π ρ α) → Runs σ τ π ρ β) : Prop where
  pending : ∀ {ω : Type} (k : Stack τ π ρ β ω) (store store' : Store σ τ π ρ) (c : Cursor τ π) (result : Outcome τ π β),
    Machine.Finishes .counted k store (.eval q c k) store' result ↔
      spec (inOrder .counted k.holds ps) store c store' result
  alone : (∀ p ∈ ps, p.Steady) → ∀ (store store' : Store σ τ π ρ) (c : Cursor τ π) (result : Outcome τ π β),
    store.rules.Kept → (q.ends store c store' result ↔ spec (ps.map ends) store c store' result)

theorem composes {q : Parser τ π ρ β} {spec : List (Runs σ τ π ρ α) → Runs σ τ π ρ β}
    (hspec : ∀ held, q.outcomes .counted held = spec (inOrder .counted held ps))
    (hrefine : ∀ {all refined : List (Runs σ τ π ρ α)} {store store' : Store σ τ π ρ} {c : Cursor τ π}
      {result : Outcome τ π β}, List.Forall₂ (Runs.Refines (·.rules.Kept)) all refined → store.rules.Kept →
      spec all store c store' result → spec refined store c store' result) : q.Composes σ ps spec where
  pending k store store' c result := by
    rw [← hspec]
    exact Machine.finishes_iff_counted (.run q c)
  alone hsteady store store' c result hrules := by
    obtain ⟨hto, hfrom⟩ := inOrder_refines_ends (σ := σ) hsteady
    have hself : q.ends store c store' result ↔ spec (inOrder .counted [] ps) store c store' result := by
      rw [← hspec]
      exact ends_iff_counted
    rw [hself]
    exact ⟨hrefine hto hrules, hrefine hfrom hrules⟩

theorem composes_sequence (ps : List (Parser τ π ρ α)) : (sequence ps).Composes σ ps Sequenced :=
  composes (fun _ => outcomes_sequence ps) fun hrefine hrules h => h.refine hrefine hrules

theorem composes_choice (ps : List (Parser τ π ρ α)) : (choice ps).Composes σ ps Chosen :=
  composes (fun _ => outcomes_choice ps) fun hrefine hrules h => h.refine hrefine hrules

end Parser

end StreamParsing
