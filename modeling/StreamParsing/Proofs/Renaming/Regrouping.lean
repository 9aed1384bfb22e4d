import StreamParsing.Proofs.Renaming.FixedPoint
import StreamParsing.Proofs.Repetition.Agreement

/-!
Regrouped parsers. Choices, continuations and sequences are associative, a parser that always fails is neutral in a
choice and one that consumes nothing in a continuation; so however often a parser is put inside wrappings that add
nothing to it, it ends as it does without them.
-/

namespace StreamParsing

set_option autoImplicit false

universe u

variable {σ : Type u} {τ π ρ α β γ : Type}

namespace Runs

variable {first second third : Runs σ τ π ρ α}

theorem then_then {next : α → Runs σ τ π ρ β} {last : β → Runs σ τ π ρ γ} :
    Then (Then first next) last = Then first fun a => Then (next a) last := by
  refine Runs.ext fun store c store' result => ?_
  constructor
  · intro h
    cases h with
    | next hboth hlast =>
      obtain ⟨a, mid, d, hfirst, hnext⟩ := success_of_then hboth
      exact .next hfirst (.next hnext hlast)
    | stopped hboth pass =>
      cases hboth with
      | next hfirst hnext => exact .next hfirst (.stopped hnext pass)
      | stopped hfirst pass' =>
        -- What ends the first run passes through both continuations.
        refine .stopped hfirst ?_
        cases pass' <;> cases pass <;> constructor
  · intro h
    cases h with
    | next hfirst hrest =>
      cases hrest with
      | next hnext hlast => exact .next (.next hfirst hnext) hlast
      | stopped hnext pass => exact .stopped (.next hfirst hnext) pass
    | stopped hfirst pass =>
      cases pass with
      | failure fault => exact .stopped (.stopped hfirst (.failure fault)) (.failure fault)
      | abort fault => exact .stopped (.stopped hfirst (.abort fault)) (.abort fault)
      | error e => exact .stopped (.stopped hfirst (.error e)) (.error e)

theorem else_else : Else (Else first second) third = Else first (Else second third) := by
  refine Runs.ext fun store c store' result => ?_
  constructor
  · intro h
    cases h with
    | first hboth firm =>
      cases hboth with
      | first hfirst _ => exact .first hfirst firm
      | second hfirst hsecond => exact .second hfirst (.first hsecond firm)
    | second hboth hthird =>
      cases hboth with
      | first _ firm => exact absurd rfl (firm _)
      | second hfirst hsecond => exact .second hfirst (.second hsecond hthird)
  · intro h
    cases h with
    | first hfirst firm => exact .first (.first hfirst firm) firm
    | second hfirst hrest =>
      cases hrest with
      | first hsecond firm => exact .first (.second hfirst hsecond) firm
      | second hsecond hthird => exact .second (.second hfirst hsecond) hthird

end Runs

namespace Parser

section Outcomes

variable [Source σ τ] [Position π τ] {alive : Liveness τ π ρ} {held : List Nat} {p q r : Parser τ π ρ α}

theorem outcomes_andThen (next : α → Parser τ π ρ β) : ((p.andThen next).outcomes alive held : Runs σ τ π ρ β) =
    Runs.Then (p.outcomes alive held) fun a => (next a).outcomes alive held := by
  refine Runs.ext fun store c store' result => ?_
  constructor
  · intro h
    cases h with
    | bind_next hp hcheck hnext =>
      cases hcheck
      exact .next hp hnext
    | bind_refused _ hcheck => cases hcheck
    | bind_stopped hp pass => exact .stopped hp pass
  · intro h
    cases h with
    | next hp hnext => exact .bind_next hp rfl hnext
    | stopped hp pass => exact .bind_stopped hp pass

theorem outcomes_andThen_pure : ((p.andThen .pure).outcomes alive held : Runs σ τ π ρ α) = p.outcomes alive held := by
  rw [outcomes_andThen]
  refine Runs.ext fun store c store' result => ?_
  constructor
  · intro h
    cases h with
    | next hp hpure =>
      obtain ⟨rfl, rfl⟩ := outcomes_pure_iff.mp hpure
      exact hp
    | stopped hp pass => cases pass <;> exact hp
  · intro h
    rcases result with e | (⟨value, d⟩ | fault | fault)
    · exact .stopped h (.error e)
    · exact .next h .pure
    · exact .stopped h (.failure fault)
    · exact .stopped h (.abort fault)

theorem outcomes_never_orElse : ((never.orElse p).outcomes alive held : Runs σ τ π ρ α) = p.outcomes alive held := by
  rw [outcomes_orElse]
  refine Runs.ext fun store c store' result => ?_
  constructor
  · intro h
    cases h with
    | first hnever firm =>
      cases hnever
      exact absurd rfl (firm _)
    | second hnever hp =>
      cases hnever
      exact hp
  · exact fun h => .second .fail h

theorem outcomes_orElse_assoc : (((p.orElse q).orElse r).outcomes alive held : Runs σ τ π ρ α) =
    (p.orElse (q.orElse r)).outcomes alive held := by
  rw [outcomes_orElse, outcomes_orElse, outcomes_orElse, outcomes_orElse, Runs.else_else, holds, List.append_assoc]

theorem outcomes_andThen_assoc (f : α → Parser τ π ρ β) (g : β → Parser τ π ρ γ) :
    (((p.andThen f).andThen g).outcomes alive held : Runs σ τ π ρ γ) =
      (p.andThen fun a => (f a).andThen g).outcomes alive held := by
  simp only [outcomes_andThen, Runs.then_then]

theorem outcomes_keepRight_assoc (q : Parser τ π ρ β) (r : Parser τ π ρ γ) :
    (((p.keepRight q).keepRight r).outcomes alive held : Runs σ τ π ρ γ) =
      (p.keepRight (q.keepRight r)).outcomes alive held := by
  have hholds : (q.keepRight r).holds ++ held = q.holds ++ (r.holds ++ held) := List.append_assoc _ _ _
  rw [outcomes_keepRight, outcomes_keepRight, outcomes_keepRight, outcomes_keepRight, Runs.then_then, hholds]

end Outcomes

/-- A parser around another that adds nothing to it. -/
inductive Wrapping where
  | mapped
  | continued
  | guarded
  deriving DecidableEq, Repr

def Wrapping.around : Wrapping → Parser τ π ρ α → Parser τ π ρ α
  | mapped, p => p.map id
  | continued, p => p.andThen .pure
  | guarded, p => never.orElse p

/-- The parser in its wrappings, of which the first is the outermost. -/
def wrapped (ws : List Wrapping) (p : Parser τ π ρ α) : Parser τ π ρ α := ws.foldr Wrapping.around p

section Wrapped

variable [Source σ τ] [Position π τ] {alive : Liveness τ π ρ} {held : List Nat}

theorem outcomes_around (w : Wrapping) (p : Parser τ π ρ α) :
    ((w.around p).outcomes alive held : Runs σ τ π ρ α) = p.outcomes alive held := by
  cases w with
  | mapped => exact outcomes_map id |>.trans Runs.mapped_id
  | continued => exact outcomes_andThen_pure
  | guarded => exact outcomes_never_orElse

theorem outcomes_wrapped (ws : List Wrapping) (p : Parser τ π ρ α) :
    ((p.wrapped ws).outcomes alive held : Runs σ τ π ρ α) = p.outcomes alive held := by
  induction ws with
  | nil => rfl
  | cons w ws ih => exact (outcomes_around w _).trans ih

end Wrapped

section SameRuns

variable [Source σ τ] [Position π τ] {r r' r'' : Rules τ π ρ} {p p' p'' : Parser τ π ρ α}

theorem SameRuns.trans (h : SameRuns σ r r' p p') (h' : SameRuns σ r' r'' p' p'') : SameRuns σ r r'' p p'' :=
  fun stream stream' log log' c result => (h stream stream' log log' c result).trans (h' stream stream' log log' c result)

theorem Interchangeable.sameRuns (h : p.Interchangeable σ p') (r : Rules τ π ρ) : SameRuns σ r r p p' := by
  intro stream stream' log log' c result
  rw [exists_comm, exists_comm (p := fun fuel later => p'.run fuel _ c = _)]
  exact exists_congr fun later => h.alone ⟨stream, r, log⟩ ⟨stream', later, log'⟩ c result

/-- A rule that stands for a parser runs as that parser does. -/
theorem sameRuns_rule {n : Nat} {retained : Bool} {p : Parser τ π ρ ρ}
    (he : r.entries[n]? = some ⟨.defined p, retained⟩) : SameRuns σ r r p (.rule n) := by
  have hstep (fuel : Nat) (stream : TokenStream σ τ) (log : Array Event) (c : Cursor τ π) :
      (Parser.rule n).run (fuel + 1) ⟨stream, r, log⟩ c = p.run fuel ⟨stream, r, log⟩ c := by
    simp only [run, Machine.run, Machine.step, Machine.evaluate, Rules.force_of_defined he]
  intro stream stream' log log' c result
  constructor
  · rintro ⟨fuel, later, h⟩
    exact ⟨fuel + 1, later, (hstep fuel stream log c).trans h⟩
  · rintro ⟨fuel, later, h⟩
    cases fuel with
    | zero => cases h
    | succ fuel => exact ⟨fuel, later, (hstep fuel stream log c).symm.trans h⟩

variable [LawfulSource σ τ]

/-- What is retained in a table runs alike in every table that grew from it. -/
theorem Twin.sameRuns_grows (hr : r.Uniform) (hp : Parser.Twin r.pairing true p p) (hg : r.Grows r')
    (hg' : r.Grows r'') : SameRuns σ r' r'' p p :=
  hp.sameRuns (hr.between_grows hg hg')

/-- Rules that a caller adds change nothing for those made before. -/
theorem Twin.sameRuns_append (hr : r.Uniform) (hp : Parser.Twin r.pairing true p p) {new : List (Rule τ π ρ)}
    (hnew : (r.append new true).Uniform) : SameRuns σ r (r.append new true) p p :=
  hp.sameRuns (hr.between.replace (fun _ _ => id) hr hnew id fun hs => hs.extend fun he => Rules.getElem?_append he _)

end SameRuns

end Parser

namespace Builder

/-- A wrapping, or a recursive rule that makes no use of its handle. -/
inductive Layer where
  | plain (w : Parser.Wrapping)
  | fixed
  deriving DecidableEq, Repr

def Layer.around : Layer → Parser τ π ρ ρ → Builder τ π ρ (Parser τ π ρ ρ)
  | plain w, p => .pure (w.around p)
  | fixed, p => fix fun _ => .pure p

/-- Builds the parser in its layers, of which the first is the outermost. -/
def enclosed : List Layer → Parser τ π ρ ρ → Builder τ π ρ (Parser τ π ρ ρ)
  | [], p => .pure p
  | l :: ls, p => (enclosed ls p).bind l.around

section Enclosed

variable {r : Rules τ π ρ} {w : Pairing τ π ρ} {p q : Parser τ π ρ ρ}

theorem around_twin {α : Type} {p q : Parser τ π ρ α} (wr : Parser.Wrapping) (h : Parser.Twin w true p q) :
    Parser.Twin w true (wr.around p) (wr.around q) := by
  cases wr with
  | mapped => exact .tryMap _ h
  | continued => exact .tryBind _ h fun _ => .leaf trivial
  | guarded => exact .orElse (.leaf trivial) h

theorem around_parses (l : Layer) (h : Parser.Twin w true p q) : Parses w (l.around p) (l.around q) := by
  cases l with
  | plain wr => exact .pure fun hw => (around_twin wr h).mono hw
  | fixed => exact .fix fun hw _ _ _ => .pure fun hw' => h.mono (le_trans hw hw')

theorem enclosed_parses (ls : List Layer) (h : Parser.Twin w true p p) : Parses w (enclosed ls p) (enclosed ls p) := by
  induction ls with
  | nil => exact .pure fun hw => h.mono hw
  | cons l ls ih => exact .bind ih fun _ _ _ hq => around_parses l hq

/-- The rule of a further layer comes to stand behind those that the inner layers made. -/
theorem run_cons_fixed (ls : List Layer) (p : Parser τ π ρ ρ) (r : Rules τ π ρ) :
    (enclosed (.fixed :: ls) p).run r = (.rule ((enclosed ls p).run r).2.entries.size,
      ((enclosed ls p).run r).2.append [.defined ((enclosed ls p).run r).1] true) := by
  have hmade : (enclosed (.fixed :: ls) p r.entries.size #[]).2 =
      (enclosed ls p r.entries.size #[]).2 ++ (#[.defined ((enclosed ls p).run r).1] ++ #[]) :=
    @fix_rules _ _ _ (fun _ => .pure ((enclosed ls p).run r).1) _ _ #[] Array.append_empty.symm
  refine Prod.ext ?_ ?_
  · rw [run_size]
    rfl
  · rw [run_rules, run_rules, Rules.append_append, hmade]
    simp

/-- One layer more runs as what it is around. -/
theorem sameRuns_cons (σ : Type u) [Source σ τ] [LawfulSource σ τ] [Position π τ] (l : Layer) (ls : List Layer)
    (hr : r.Uniform) (hp : Parser.Twin r.pairing true p p) :
    Parser.SameRuns σ ((enclosed ls p).run r).2 ((enclosed (l :: ls) p).run r).2 ((enclosed ls p).run r).1
      ((enclosed (l :: ls) p).run r).1 := by
  cases l with
  | plain wr =>
    have houtcomes (held : List Nat) : (((enclosed ls p).run r).1.outcomes .counted held : Runs σ τ π ρ ρ) =
        (wr.around ((enclosed ls p).run r).1).outcomes .counted held := (Parser.outcomes_around wr _).symm
    exact (Parser.interchangeable_of_outcomes houtcomes).sameRuns _
  | fixed =>
    obtain ⟨hinner, hself⟩ := Twin.run hr (enclosed_parses ls hp)
    have houter : ((enclosed (.fixed :: ls) p).run r).2.Uniform := (Twin.run hr (enclosed_parses _ hp)).1
    rw [run_cons_fixed] at houter ⊢
    have hentry := Rules.getElem?_append_new (r := ((enclosed ls p).run r).2) [.defined ((enclosed ls p).run r).1] true 0
    exact (Parser.Twin.sameRuns_append hinner hself houter).trans (Parser.sameRuns_rule hentry)

/-- A parser in any number of layers runs as it does by itself, from every state that runs of either may have left. -/
theorem enclosed_sameRuns (σ : Type u) [Source σ τ] [LawfulSource σ τ] [Position π τ] (ls : List Layer)
    (hr : r.Uniform) (hp : Parser.Twin r.pairing true p p) {early early' : Rules τ π ρ} (hg : r.Grows early)
    (hg' : ((enclosed ls p).run r).2.Grows early') :
    Parser.SameRuns σ early early' p ((enclosed ls p).run r).1 := by
  have hall (ls : List Layer) : Parser.SameRuns σ r ((enclosed ls p).run r).2 p ((enclosed ls p).run r).1 := by
    induction ls with
    | nil =>
      have hnone : (r.append [] true).Uniform := (Twin.run hr (enclosed_parses [] hp)).1
      exact Parser.Twin.sameRuns_append hr hp hnone
    | cons l ls ih => exact ih.trans (sameRuns_cons σ l ls hr hp)
  obtain ⟨huniform, hself⟩ := Twin.run hr (enclosed_parses ls hp)
  have hfrom := Parser.Twin.sameRuns_grows (σ := σ) hr hp hg .refl
  have hto := Parser.Twin.sameRuns_grows (σ := σ) huniform hself .refl hg'
  exact (hfrom.trans (hall ls)).trans hto

end Enclosed

end Builder

namespace Parser

variable [Source σ τ] [LawfulSource σ τ] [Position π τ]

/-- Regrouped, and put inside layers that add nothing, parsers end as before. A list of layers may hold recursive rules
besides, if what is inside is a parser of rules. -/
theorem regrouped_ends_alike (p q r : Parser τ π ρ α) (s : Parser τ π ρ β) (t : Parser τ π ρ γ)
    (f : α → Parser τ π ρ β) (g : β → Parser τ π ρ γ) :
    ((p.orElse q).orElse r).Interchangeable σ (p.orElse (q.orElse r)) ∧
    (never.orElse p).Interchangeable σ p ∧
    ((p.andThen f).andThen g).Interchangeable σ (p.andThen fun a => (f a).andThen g) ∧
    (p.andThen .pure).Interchangeable σ p ∧
    ((p.keepRight s).keepRight t).Interchangeable σ (p.keepRight (s.keepRight t)) ∧
    (∀ ws : List Wrapping, (p.wrapped ws).Interchangeable σ p) ∧
    ∀ (own : Parser τ π ρ ρ) (table early early' : Rules τ π ρ) (ls : List Builder.Layer), table.Uniform →
      Twin table.pairing true own own → table.Grows early → ((Builder.enclosed ls own).run table).2.Grows early' →
        SameRuns σ early early' own ((Builder.enclosed ls own).run table).1 := by
  refine ⟨?_, ?_, ?_, ?_, ?_, ?_, ?_⟩
  · exact interchangeable_of_outcomes fun _ => outcomes_orElse_assoc
  · exact interchangeable_of_outcomes fun _ => outcomes_never_orElse
  · exact interchangeable_of_outcomes fun _ => outcomes_andThen_assoc f g
  · exact interchangeable_of_outcomes fun _ => outcomes_andThen_pure
  · exact interchangeable_of_outcomes fun _ => outcomes_keepRight_assoc s t
  · exact fun ws => interchangeable_of_outcomes fun _ => outcomes_wrapped ws p
  · exact fun own table early early' ls hr hp hg hg' => Builder.enclosed_sameRuns σ ls hr hp hg hg'

/-- Nested brackets inside two more rules, and a choice that the last parser aborts. -/
theorem regrouped_ends_alike_brackets :
    let own : Parser Char LinearPosition Nat Nat := ((Builder.fix Builder.brackets).run .empty).1
    let table : Rules Char LinearPosition Nat := ((Builder.fix Builder.brackets).run .empty).2
    let layers : List Builder.Layer := [.fixed, .plain .guarded, .fixed, .plain .mapped, .plain .continued]
    let stream : TokenStream (NoSource Char) Char := .ofText "(()())"
    let c : Cursor Char LinearPosition := stream.start
    let missed : Parser Char LinearPosition Nat Char := (token '(').keepRight (token 'x')
    let aborted : Parser Char LinearPosition Nat Char := (token '(').keepRight (.abort "stop")
    LawfulSource (NoSource Char) Char ∧ table.Uniform ∧ Twin table.pairing true own own ∧ table.Grows table ∧
      (∃ fuel later, ((Builder.enclosed layers own).run table).1.run fuel
        ⟨stream, ((Builder.enclosed layers own).run table).2, #[]⟩ c =
          some ⟨⟨stream, later, #[]⟩, .ok (.success 3 ⟨1, 0, ⟨6⟩, none⟩)⟩) ∧
      ∃ fuel, (missed.orElse (never.orElse aborted)).run fuel ⟨stream, table, #[]⟩ c =
        some ⟨⟨stream, table, #[]⟩, .ok (.abort (.ofMessage "stop" ⟨0, 1, ⟨1⟩, some '('⟩))⟩ := by
  intro own table layers stream c missed aborted
  have hbody : Builder.Uniform .empty Builder.brackets := Builder.brackets_uniform .empty
  obtain ⟨huniform, hself⟩ := Builder.Twin.run Rules.uniform_empty hbody.fix
  have h := regrouped_ends_alike (σ := NoSource Char) missed never aborted missed missed (fun _ => missed) fun _ => missed
  obtain ⟨horElse, -, -, -, -, -, hlayers⟩ := h
  refine ⟨inferInstance, huniform, hself, .refl, ?_, ?_⟩
  · exact (hlayers own table table _ layers huniform hself .refl .refl stream stream #[] #[] c _).mp ⟨100, _, rfl⟩
  · exact (horElse.alone ⟨stream, table, #[]⟩ _ c _).mp ⟨30, rfl⟩

end Parser

end StreamParsing
