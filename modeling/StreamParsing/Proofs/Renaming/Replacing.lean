import StreamParsing.Proofs.Renaming.Regrouping
import StreamParsing.Proofs.Renaming.Visits

/-!
Delayed rules are transparent. A rule that is built ahead of all runs, and replaced by what was built wherever it is
named, changes no reply; nor does it matter how many rules are replaced so, and in which of them others come to stand.
-/

namespace StreamParsing

set_option autoImplicit false

universe u

variable {σ : Type u} {τ π ρ α : Type}

namespace Parser

/-- Puts parsers in the places where rules are named, if there is one for the rule. A number that comes up only when
the parser runs still names its rule. -/
def replace {α : Type} (p : Parser τ π ρ α) (put : Nat → Option (Parser τ π ρ ρ)) : Parser τ π ρ α :=
  match p with
  | tryMap p f => .tryMap (p.replace put) f
  | tryBind p check next => .tryBind (p.replace put) check fun b => (next b).replace put
  | zipWith f p q => .zipWith f (p.replace put) (q.replace put)
  | orElse p q => .orElse (p.replace put) (q.replace put)
  | reshape p hook => .reshape (p.replace put) hook
  | loop seed item step bounds => .loop (seed.replace put) (item.replace put) step bounds
  | loopTill seed item stop step bounds => .loopTill (seed.replace put) (item.replace put) (stop.replace put) step bounds
  | rule number => (put number).getD (.rule number)
  | handle number => (put number).getD (.handle number)
  | p => p

theorem replace_none {α : Type} (p : Parser τ π ρ α) : p.replace (fun _ => none) = p := by
  match p with
  | tryMap p f => rw [replace, p.replace_none]
  | tryBind p check next => rw [replace, p.replace_none, funext fun b => (next b).replace_none]
  | zipWith f p q => rw [replace, p.replace_none, q.replace_none]
  | orElse p q => rw [replace, p.replace_none, q.replace_none]
  | reshape p hook => rw [replace, p.replace_none]
  | loop seed item step bounds => rw [replace, seed.replace_none, item.replace_none]
  | loopTill seed item stop step bounds => rw [replace, seed.replace_none, item.replace_none, stop.replace_none]
  | pure _ | peek _ | satisfy _ | endOfInput | fail _ | abort _ | rule _ | handle _ | draft _ _ => rfl

def only (number : Nat) (p : Parser τ π ρ ρ) : Nat → Option (Parser τ π ρ ρ) :=
  fun m => if m = number then some p else none

/-- Where parsers are put for paired rules, they are twins in another pairing; so are the rules for which none is. -/
structure Fills (v w : Pairing τ π ρ) (put put' : Nat → Option (Parser τ π ρ ρ)) : Prop where
  le : v ≤ w
  opens : ∀ {a : Nat} {p : Parser τ π ρ ρ}, ¬ v.opens a p
  opens' : ∀ {b : Nat} {q : Parser τ π ρ ρ}, ¬ v.opens' b q
  rule : ∀ {a b : Nat}, v.Pairs a b → Parser.Twin w true ((put a).getD (.rule a)) ((put' b).getD (.rule b))
  handle : ∀ {a b : Nat}, v.Pairs a b → Parser.Twin w true ((put a).getD (.handle a)) ((put' b).getD (.handle b))

theorem Twin.replace {v w : Pairing τ π ρ} {put put' : Nat → Option (Parser τ π ρ ρ)} {opened : Bool}
    {p p' : Parser τ π ρ α} (h : Parser.Twin v opened p p') (hput : Fills v w put put') :
    Parser.Twin w true (p.replace put) (p'.replace put') := by
  induction h with
  | @leaf _ _ _ p hp =>
    cases p with
    | pure | peek | satisfy | endOfInput | fail | abort => exact .leaf trivial
    | _ => exact hp.elim
  | tryMap f _ ih => exact .tryMap f (ih hput)
  | tryBind check _ _ ihp ihn => exact .tryBind check (ihp hput) fun b => ihn b hput
  | zipWith f _ _ ihp ihq => exact .zipWith f (ihp hput) (ihq hput)
  | orElse _ _ ihp ihq => exact .orElse (ihp hput) (ihq hput)
  | reshape hook _ ih => exact .reshape hook (ih hput)
  | loop step bounds _ _ ihs ihi => exact .loop step bounds (ihs hput) (ihi hput)
  | loopTill step bounds _ _ _ ihs ihi iht => exact .loopTill step bounds (ihs hput) (ihi hput) (iht hput)
  | rule hab => exact hput.rule hab
  | handle hab => exact hput.handle hab
  | draft size hp hk hr =>
    have h : Parser.Twin _ true (.draft _ _) (.draft _ _) := .draft size hp hk hr
    exact h.mono hput.le
  | openLeft _ ho => exact (hput.opens ho).elim
  | openRight _ ho => exact (hput.opens' ho).elim

end Parser

namespace Rule

/-- The same in the definition of a rule. -/
def replace (put : Nat → Option (Parser τ π ρ ρ)) : Rule τ π ρ → Rule τ π ρ
  | defined p => .defined (p.replace put)
  | rule => rule

theorem replace_none (rule : Rule τ π ρ) : rule.replace (fun _ => none) = rule := by
  cases rule with
  | defined p => rw [replace, p.replace_none]
  | delayed | dropped => rfl

theorem Twin.replace {v w : Pairing τ π ρ} {put put' : Nat → Option (Parser τ π ρ ρ)} {rule rule' : Rule τ π ρ}
    (h : Rule.Twin v rule rule') (hput : Parser.Fills v w put put') :
    Rule.Twin w (rule.replace put) (rule'.replace put') := by
  cases h.cases with
  | defined hp => exact .defined (hp.replace hput)
  | delayed | dropped => exact h.mono hput.le

end Rule

namespace Rules

variable {r : Rules τ π ρ} {n m : Nat} {rule : Rule τ π ρ} {retained : Bool} {q : Parser τ π ρ ρ}
variable {put : Nat → Option (Parser τ π ρ ρ)}

/-- The same in all definitions of a table. -/
def replace (r : Rules τ π ρ) (put : Nat → Option (Parser τ π ρ ρ)) : Rules τ π ρ :=
  { r with entries := r.entries.map fun entry => { entry with rule := entry.rule.replace put } }

theorem getElem?_replace (h : r.entries[n]? = some ⟨rule, retained⟩) :
    (r.replace put).entries[n]? = some ⟨rule.replace put, retained⟩ := by
  simp [replace, h]

theorem exists_of_replace (h : (r.replace put).entries[n]? = some ⟨rule, retained⟩) :
    ∃ old, r.entries[n]? = some ⟨old, retained⟩ ∧ rule = old.replace put := by
  simp only [replace, Array.getElem?_map, Option.map_eq_some_iff] at h
  obtain ⟨⟨old, kept⟩, he, h⟩ := h
  cases h
  exact ⟨old, he, rfl⟩

theorem isRetained_replace (h : r.isRetained n = true) : (r.replace put).isRetained n = true := by
  obtain ⟨rule, he⟩ := exists_of_isRetained h
  exact isRetained_of_getElem? (getElem?_replace he)

/-- Each retained rule paired with itself in the table in which one of them is replaced by its definition. -/
def replacing (r : Rules τ π ρ) (n : Nat) (q : Parser τ π ρ ρ) (hn : r.isRetained n = true) : Pairing τ π ρ :=
  { r.opening n q hn with opens' := fun _ _ => False, kept_of_opens' := False.elim }

theorem fills_only {w : Pairing τ π ρ} (hle : r.pairing ≤ w) (hnone : ∀ m, m ≠ n → put m = none)
    (hrule : Parser.Twin w true ((put n).getD (.rule n)) q) (hhandle : Parser.Twin w true ((put n).getD (.handle n)) q) :
    Parser.Fills r.pairing w put (Parser.only n q) := by
  refine ⟨hle, id, id, fun {a b} hab => ?_, fun {a b} hab => ?_⟩
  all_goals
    obtain ⟨rfl, -⟩ := hab.resolve_right id
    by_cases han : a = n
    · subst han
      simpa only [Parser.only, if_true, Option.getD_some]
    · simp only [Parser.only, if_neg han, hnone a han, Option.getD_none]
      first | exact .rule (hab.mono hle) | exact .handle (hab.mono hle)

section Replaced

variable (hr : r.Uniform) (he : r.entries[n]? = some ⟨.defined q, true⟩)
include hr he

theorem fills_both :
    Parser.Fills r.pairing (r.replace (Parser.only n q)).pairing (Parser.only n q) (Parser.only n q) := by
  have hle : r.pairing ≤ (r.replace (Parser.only n q)).pairing := pairing_le fun _ hm => isRetained_replace hm
  have hq : Parser.Twin (r.replace (Parser.only n q)).pairing true q q := (hr _ _ he).entry.mono hle
  have hself : Parser.only n q n = some q := if_pos rfl
  refine fills_only hle (fun m hm => if_neg hm) ?_ ?_
  · rwa [hself]
  · rwa [hself]

/-- What is put on the second side only is what the rule of the first may be opened to. -/
theorem fills_right : Parser.Fills r.pairing (r.replacing n q (isRetained_of_getElem? he)) (fun _ => none)
    (Parser.only n q) := by
  have hle : r.pairing ≤ (r.replacing n q (isRetained_of_getElem? he)).settled := ⟨id, id, False.elim, False.elim⟩
  have hq : Parser.Twin (r.replacing n q (isRetained_of_getElem? he)).settled true q q := (hr _ _ he).entry.mono hle
  refine fills_only (le_trans hle Pairing.settled_le) (fun _ _ => rfl) ?_ ?_
  · exact .openLeft (.rule n) ⟨rfl, rfl⟩ hq
  · exact .openLeft (.handle n) ⟨rfl, rfl⟩ hq

theorem uniform_replace : (r.replace (Parser.only n q)).Uniform := by
  intro m rule hm
  obtain ⟨old, hold, rfl⟩ := exists_of_replace hm
  exact (hr _ _ hold).replace (fills_both hr he)

theorem replacing_between : (r.replacing n q (isRetained_of_getElem? he)).Between r (r.replace (Parser.only n q)) where
  uniform := hr
  uniform' := uniform_replace hr he
  kept {a b} hk := by
    obtain ⟨rfl, ha⟩ := hk
    obtain ⟨rule, hrule⟩ := exists_of_isRetained ha
    have ht : Rule.Twin (r.replacing n q (isRetained_of_getElem? he)) (rule.replace fun _ => none) (rule.replace _) :=
      (hr _ _ hrule).replace (fills_right hr he)
    rw [Rule.replace_none] at ht
    exact ⟨rule, _, .fresh hrule, .fresh (getElem?_replace hrule), ht.mono (Pairing.le_settled fun _ _ => id)⟩
  loose := False.elim
  loose_right := False.elim
  loose_left := False.elim
  opens ho := by rw [ho.1, ho.2, he]
  opens' := False.elim

end Replaced

end Rules

namespace Parser

variable [Source σ τ] [LawfulSource σ τ] [Position π τ] {r : Rules τ π ρ} {n : Nat} {q : Parser τ π ρ ρ}

/-- Replaced by its definition, a rule is not missed. -/
theorem Twin.sameRuns_replace (hr : r.Uniform) (he : r.entries[n]? = some ⟨.defined q, true⟩) {p : Parser τ π ρ α}
    (hp : Parser.Twin r.pairing true p p) : SameRuns σ r (r.replace (only n q)) p (p.replace (only n q)) := by
  have ht := hp.replace (Rules.fills_right hr he)
  rw [replace_none] at ht
  exact ht.sameRuns (Rules.replacing_between hr he)

/-- Delayed rules are built, one after the other, and what was built is put in their places; a rule that was delayed in
the definition of another may be the next. -/
inductive Expands (r : Rules τ π ρ) (p : Parser τ π ρ α) : Rules τ π ρ → Parser τ π ρ α → Prop where
  | refl : Expands r p r p
  | delay {r' : Rules τ π ρ} {p' : Parser τ π ρ α} {n : Nat} {parser : Nat → Parser τ π ρ ρ}
      {new : Nat → List (Rule τ π ρ)} : Expands r p r' p' → r'.entries[n]? = some ⟨.delayed parser new, true⟩ →
        Expands r p ((r'.build n parser new true).replace (only n (parser r'.entries.size)))
          (p'.replace (only n (parser r'.entries.size)))

theorem Expands.sameRuns {r' : Rules τ π ρ} {p p' : Parser τ π ρ α} (h : Expands r p r' p') (hr : r.Uniform)
    (hp : Parser.Twin r.pairing true p p) :
    r'.Uniform ∧ Parser.Twin r'.pairing true p' p' ∧ SameRuns σ r r' p p' := by
  induction h with
  | refl => exact ⟨hr, hp, hp.sameRuns_grows hr .refl .refl⟩
  | @delay r' p' n parser new _ he ih =>
    obtain ⟨hr', hp', hruns⟩ := ih
    have hf := Rules.force_of_delayed he
    have hbuilt : (r'.build n parser new true).Uniform := hr'.force hf
    have hself := Rules.getElem?_build_self he
    have hkept : Parser.Twin (r'.build n parser new true).pairing true p' p' :=
      hp'.mono (Rules.pairing_le fun _ hm => Rules.isRetained_force hm hf)
    refine ⟨Rules.uniform_replace hbuilt hself, hkept.replace (Rules.fills_both hbuilt hself), ?_⟩
    exact (hruns.trans (hp'.sameRuns_grows hr' .refl (.built .refl hf))).trans (hkept.sameRuns_replace hbuilt hself)

end Parser

/-- A rule that is delayed at any time in a sequence of runs is built once in all of it if it is entered, and else not
at all; all visits run what was built then. Built before the runs instead, and put in the places of the rule, that gives
the same replies, and so it is for any number of rules. -/
theorem Rules.delayed_once_and_transparent (σ : Type u) [Source σ τ] [LawfulSource σ τ] [Position π τ]
    (r : Rules τ π ρ) :
    (∀ (before after : List (Visit τ π ρ)) (mid later : Rules τ π ρ) (n : Nat) (parser : Nat → Parser τ π ρ ρ)
      (new : Nat → List (Rule τ π ρ)) (retained : Bool), Works.{u} r before mid →
        mid.entries[n]? = some ⟨.delayed parser new, retained⟩ → Works.{u} mid after later →
          (before ++ after).countP (·.builds n) ≤ 1 ∧
          ((before ++ after).countP (·.builds n) = 1 ↔ ∃ v ∈ before ++ after, v.number = n) ∧
          ∃ first, ∀ v ∈ before ++ after, v.number = n → v.parser = parser first) ∧
    (∀ (visits : List (Visit τ π ρ)) (later : Rules τ π ρ), Works.{u} r visits later →
      later.builds = r.builds + visits.countP (·.made)) ∧
    (r.Uniform → ∀ (α : Type) (p : Parser τ π ρ α), Parser.Twin r.pairing true p p →
      ∀ (r' : Rules τ π ρ) (p' : Parser τ π ρ α), p.Expands r r' p' →
        r'.Uniform ∧ Parser.Twin r'.pairing true p' p' ∧
        ∀ (visits visits' : List (Visit τ π ρ)) (early early' : Rules τ π ρ), Works.{u} r visits early →
          Works.{u} r' visits' early' → Parser.SameRuns σ early early' p p') := by
  refine ⟨?_, fun visits later h => h.builds_eq, ?_⟩
  · intro before after mid later n parser new retained h he h'
    exact (h.stands he h').built_once (h.trans h').defined
  · intro hr α p hp r' p' hexpands
    obtain ⟨hr', hp', hruns⟩ := hexpands.sameRuns (σ := σ) hr hp
    refine ⟨hr', hp', fun visits visits' early early' h h' => ?_⟩
    have hfrom := hp.sameRuns_grows (σ := σ) hr h.grows .refl
    exact (hfrom.trans hruns).trans (hp'.sameRuns_grows hr' .refl h'.grows)

namespace Builder

/-- Brackets, counted. What stands inside them is delayed, and what is built for that is delayed once more. -/
def deferred (self : Parser Char LinearPosition Nat Nat) :
    Builder Char LinearPosition Nat (Parser Char LinearPosition Nat Nat) :=
  (delay (delay (.pure (.loop (.pure 0) self (· + ·) (.atLeast 0))))).bind fun inner =>
    .pure ((Parser.token '(').keepRight ((inner.keepLeft (.token ')')).map (· + 1)))

theorem deferred_uniform (r : Rules Char LinearPosition Nat) : Uniform r deferred := by
  intro w _ p q hpq
  refine Twin.bind (Parses.delay (Parses.delay ?_)) ?_
  · refine Twin.pure fun hw' => ?_
    exact .loop _ _ (.leaf trivial) (hpq.mono hw')
  · intro v _ p' q' hp'
    refine Twin.pure fun {w'} hw' => ?_
    exact .zipWith _ (.leaf trivial) (.tryMap _ (.zipWith _ (Parser.Twin.mono hp' hw') (.leaf trivial)))

end Builder

theorem Rules.delayed_once_and_transparent_brackets :
    let own : Parser Char LinearPosition Nat Nat := ((Builder.fix Builder.deferred).run .empty).1
    let table : Rules Char LinearPosition Nat := ((Builder.fix Builder.deferred).run .empty).2
    let stream : TokenStream (NoSource Char) Char := .ofText "(()())"
    let c : Cursor Char LinearPosition := stream.start
    let visits := Machine.visited 100 ⟨stream, table, #[]⟩ (.eval own c .nil)
    LawfulSource (NoSource Char) Char ∧ table.Uniform ∧ Parser.Twin table.pairing true own own ∧
      (∃ parser new later, table.entries[1]? = some ⟨.delayed parser new, true⟩ ∧ Works.{0} table visits later) ∧
      visits.countP (·.builds 1) = 1 ∧ visits.countP (·.made) = 2 ∧
      ∃ table' own', own.Expands table table' own' ∧ table'.builds = 2 ∧
        ∃ fuel later, own'.run fuel ⟨stream, table', #[]⟩ c =
          some ⟨⟨stream, later, #[]⟩, .ok (.success 3 ⟨1, 0, ⟨6⟩, none⟩)⟩ := by
  intro own table stream c visits
  have hbody : Builder.Uniform .empty Builder.deferred := Builder.deferred_uniform .empty
  obtain ⟨huniform, hself⟩ := Builder.Twin.run uniform_empty hbody.fix
  obtain ⟨honce, hcount, htransparent⟩ := delayed_once_and_transparent (NoSource Char) table
  obtain ⟨later, hrun, hbuilds⟩ : ∃ later, own.run 100 ⟨stream, table, #[]⟩ c =
      some ⟨⟨stream, later, #[]⟩, .ok (.success 3 ⟨1, 0, ⟨6⟩, none⟩)⟩ ∧ later.builds = 2 := ⟨_, rfl, rfl⟩
  have hworks : Works.{0} table visits later := Works.idle.run hrun
  -- The inner rule comes to stand in the table when the outer one is built.
  obtain ⟨parser, new, houter, parser', new', hinner⟩ : ∃ parser new,
      table.entries[1]? = some ⟨.delayed parser new, true⟩ ∧
        ∃ parser' new', (table.build 1 parser new true).entries[2]? = some ⟨.delayed parser' new', true⟩ :=
    ⟨_, _, rfl, _, _, rfl⟩
  obtain ⟨-, hiff, -⟩ := honce [] visits table later 1 parser new true .idle houter hworks
  refine ⟨inferInstance, huniform, hself, ⟨parser, new, later, houter, hworks⟩, ?_, ?_, ?_⟩
  · exact hiff.mpr ⟨_, List.mem_of_getElem? (i := 1) rfl, rfl⟩
  · have hmade := hcount visits later hworks
    rw [hbuilds] at hmade
    exact (Nat.zero_add _).symm.trans hmade.symm
  · have hexpands : own.Expands table _ _ := .delay (.delay .refl houter) (getElem?_replace hinner)
    obtain ⟨-, -, hruns⟩ := htransparent huniform Nat own hself _ _ hexpands
    exact ⟨_, _, hexpands, rfl, (hruns [] [] _ _ .idle .idle stream stream #[] #[] c _).mp ⟨100, later, hrun⟩⟩

end StreamParsing
