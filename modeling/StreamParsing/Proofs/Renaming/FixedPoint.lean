import StreamParsing.Proofs.Renaming.Builders
import StreamParsing.Proofs.Renaming.Simulation

/-!
A recursive rule is a fixed point of its body. The body is unfolded by giving it, in place of a handle, a parser that
was built before; each such copy is paired with the one definition, which its own handle stands for.
-/

namespace StreamParsing

set_option autoImplicit false

universe u

variable {τ π ρ : Type}

namespace Builder

variable {body : Parser τ π ρ ρ → Builder τ π ρ (Parser τ π ρ ρ)} {r : Rules τ π ρ}

/-- The body is given a recursive rule of itself, and then so often what it made of that. -/
def unfolded (body : Parser τ π ρ ρ → Builder τ π ρ (Parser τ π ρ ρ)) : Nat → Builder τ π ρ (Parser τ π ρ ρ)
  | 0 => fix body
  | k + 1 => (unfolded body k).bind body

/-- The body does nothing with the parser that it gets but pass it on, and names of other rules only those that are
retained in the table. -/
def Uniform (r : Rules τ π ρ) (body : Parser τ π ρ ρ → Builder τ π ρ (Parser τ π ρ ρ)) : Prop :=
  ∀ {w : Pairing τ π ρ}, r.pairing ≤ w → ∀ {p q : Parser τ π ρ ρ}, Parser.Twin w true p q → Parses w (body p) (body q)

theorem Uniform.fix (h : Uniform r body) : Parses r.pairing (fix body) (fix body) := .fix h

theorem Uniform.unfolded (h : Uniform r body) (k : Nat) : Parses r.pairing (unfolded body k) (unfolded body k) := by
  induction k with
  | zero => exact h.fix
  | succ k ih => exact .bind ih h

end Builder

namespace Rules

variable {r : Rules τ π ρ} {n : Nat} {p : Parser τ π ρ ρ}

/-- Each retained rule paired with itself; one of them may be replaced by its definition. -/
def opening (r : Rules τ π ρ) (n : Nat) (p : Parser τ π ρ ρ) (hn : r.isRetained n = true) : Pairing τ π ρ where
  kept a b := a = b ∧ r.isRetained a = true
  loose _ _ := False
  opens a q := a = n ∧ q = p
  opens' b q := b = n ∧ q = p
  kept_of_opens ho := ⟨n, ho.1, ho.1 ▸ hn⟩
  kept_of_opens' ho := ⟨n, ho.1.symm, hn⟩

theorem opening_between (hr : r.Uniform) (he : r.entries[n]? = some ⟨.defined p, true⟩) :
    (r.opening n p (isRetained_of_getElem? he)).Between r r where
  uniform := hr
  uniform' := hr
  kept hk := by
    obtain ⟨rule, rule', hs, hs', ht⟩ := hr.between.kept hk
    exact ⟨rule, rule', hs, hs', ht.mono ⟨id, id, False.elim, False.elim⟩⟩
  loose := False.elim
  loose_right := False.elim
  loose_left := False.elim
  opens ho := by rw [ho.1, ho.2, he]
  opens' ho := by rw [ho.1, ho.2, he]

end Rules

theorem Rules.append_append (r : Rules τ π ρ) (rules new : List (Rule τ π ρ)) (retained : Bool) :
    (r.append rules retained).append new retained = r.append (rules ++ new) retained := by
  simp [Rules.append]

namespace Builder

variable {body : Parser τ π ρ ρ → Builder τ π ρ (Parser τ π ρ ρ)} {r : Rules τ π ρ} {k : Nat} {w : Pairing τ π ρ}

def definition (body : Parser τ π ρ ρ → Builder τ π ρ (Parser τ π ρ ρ)) (r : Rules τ π ρ) : Parser τ π ρ ρ :=
  (body (.handle r.entries.size) r.entries.size #[.dropped]).1

/-- The definition and what the body was unfolded to are twins, if each copy of the rules that come with the
definition is paired with these. -/
structure Unfolds (body : Parser τ π ρ ρ → Builder τ π ρ (Parser τ π ρ ρ)) (r : Rules τ π ρ) (k : Nat)
    (w : Pairing τ π ρ) : Prop where
  le : r.pairing ≤ w
  loose : ∀ a b, ¬ w.loose a b
  opens : w.opens r.entries.size (definition body r)
  between : w.Between ((fix body).run r).2 ((unfolded body k).run r).2
  twin : Parser.Twin w true (definition body r) ((unfolded body k).run r).1

/-- The rule may be entered by its name or by its handle. -/
theorem Unfolds.named (h : Unfolds body r k w) {entry : Parser τ π ρ ρ} (he : entry.Names r.entries.size) :
    Parser.Twin w true entry ((unfolded body k).run r).1 :=
  .openLeft he h.opens (h.twin.mono (Pairing.le_settled h.loose))

/-- The definition comes first among the new rules, and those that its body makes behind it. -/
theorem run_fix {block : Array (Rule τ π ρ)}
    (hb : (body (.handle r.entries.size) r.entries.size #[.dropped]).2 = #[.dropped] ++ block) :
    ((fix body).run r).2 = r.append (.defined (definition body r) :: block.toList) true := by
  have hfix : (fix body r.entries.size #[]).2 = _ := fix_rules hb
  simp only [run, hfix]
  simp [definition]

theorem Uniform.exists_block (h : Uniform r body) (n first : Nat) (made : Array (Rule τ π ρ)) :
    ∃ block, (body (.handle n) first made).2 = made ++ block := by
  have hn : (r.pairing.withKept 1 n n).Pairs n n := .inl (.inr ⟨0, Nat.one_pos, rfl, rfl⟩)
  obtain ⟨block, -, hb, -⟩ := h Pairing.le_withKept (.handle hn) first first made made
  exact ⟨block, hb⟩

theorem unfolds_zero (hr : r.Uniform) (hbody : Uniform r body) : ∃ w, Unfolds body r 0 w := by
  obtain ⟨block, hb⟩ := hbody.exists_block r.entries.size r.entries.size #[.dropped]
  have huniform : ((fix body).run r).2.Uniform := (hbody.fix.run hr).1
  have he : ((fix body).run r).2.entries[r.entries.size]? = some ⟨.defined (definition body r), true⟩ := by
    rw [run_fix hb]
    exact Rules.getElem?_append_new _ true 0
  refine ⟨((fix body).run r).2.opening _ _ (Rules.isRetained_of_getElem? he), ?_, ?_, ⟨rfl, rfl⟩,
    Rules.opening_between huniform he, ?_⟩
  · have hle : r.pairing ≤ ((fix body).run r).2.pairing := Rules.pairing_le_append _ _
    exact ⟨hle.kept, id, False.elim, False.elim⟩
  · exact fun _ _ => id
  · have ht := (huniform _ _ he).entry
    exact .openRight (.rule _) ⟨rfl, rfl⟩ (ht.mono ⟨id, id, False.elim, False.elim⟩)

theorem Unfolds.succ (hr : r.Uniform) (hbody : Uniform r body) (h : Unfolds body r k w) :
    ∃ w', Unfolds body r (k + 1) w' := by
  let out := unfolded body k r.entries.size #[]
  -- The body of the definition was given the handle, that of the next unfolding is given the copy made so far; these
  -- are twins, so the rules that the two make can be paired besides.
  obtain ⟨block, block', hb, hb', hmade⟩ :=
    hbody h.le (h.named (.handle _)) r.entries.size r.entries.size #[.dropped] out.2
  let w' := w.withKept block.size (r.entries.size + 1) (r.entries.size + out.2.size)
  have hleft : ((fix body).run r).2 = r.append (.defined (definition body r) :: block.toList) true := run_fix hb
  have hlater : ((unfolded body (k + 1)).run r).2 = ((unfolded body k).run r).2.append block'.toList true := by
    have hout : (unfolded body (k + 1) r.entries.size #[]).2 = out.2 ++ block' := hb'
    rw [run_rules, run_rules, hout, Array.toList_append, Rules.append_append]
  have hextends : w.Between ((fix body).run r).2 ((unfolded body (k + 1)).run r).2 := by
    refine h.between.replace h.loose h.between.uniform ((hbody.unfolded (k + 1)).run hr).1 id fun hs => ?_
    rw [hlater]
    exact hs.extend fun he => Rules.getElem?_append he _
  have hle : w ≤ w'.settled := le_trans (Pairing.le_settled h.loose) (Pairing.settled_mono Pairing.le_withKept)
  have hblocks : w'.settled.Blocks block.size (r.entries.size + 1) (r.entries.size + out.2.size) :=
    Pairing.blocks_withKept
  refine ⟨w', le_trans h.le Pairing.le_withKept, h.loose, h.opens, hextends.withKept fun i hi => ?_, ?_⟩
  · have hi' : i < block'.size := hmade.size ▸ hi
    refine ⟨block[i], block'[i], .fresh ?_, .fresh ?_, ?_⟩
    · have hnew := Rules.getElem?_append_new (r := r) (.defined (definition body r) :: block.toList) true (i + 1)
      rw [hleft, Nat.add_assoc, Nat.add_comm 1 i, hnew, List.getElem?_cons_succ, Array.getElem?_toList,
        Array.getElem?_eq_getElem hi]
      rfl
    · have hnew := Rules.getElem?_append_new (r := ((unfolded body k).run r).2) block'.toList true i
      rw [run_size] at hnew
      rw [hlater, hnew, Array.getElem?_toList, Array.getElem?_eq_getElem hi']
      rfl
    · exact hmade.rules hle hblocks (Array.getElem?_eq_getElem hi) (Array.getElem?_eq_getElem hi')
  · exact hmade.value Pairing.le_withKept (hblocks.mono Pairing.settled_le)

theorem exists_unfolds (hr : r.Uniform) (hbody : Uniform r body) (k : Nat) : ∃ w, Unfolds body r k w := by
  induction k with
  | zero => exact unfolds_zero hr hbody
  | succ k ih => exact ih.elim fun _ h => h.succ hr hbody

/-- A recursive rule, and the handle to it, end as any unfolding of its body does, from every state that runs of either
may have left. -/
theorem fix_unfolds (σ : Type u) [Source σ τ] [LawfulSource σ τ] [Position π τ] (hr : r.Uniform)
    (hbody : Uniform r body) (k : Nat) {early early' : Rules τ π ρ} (hg : ((fix body).run r).2.Grows early)
    (hg' : ((unfolded body k).run r).2.Grows early') :
    Parser.SameRuns σ early early' ((fix body).run r).1 ((unfolded body k).run r).1 ∧
      Parser.SameRuns σ early early' (.handle r.entries.size) ((unfolded body k).run r).1 := by
  obtain ⟨w, h⟩ := exists_unfolds hr hbody k
  have hbetween : w.Between early early' :=
    h.between.replace h.loose (h.between.uniform.grows hg) (h.between.uniform'.grows hg') (·.grows hg) (·.grows hg')
  exact ⟨(h.named (.rule _)).sameRuns hbetween, (h.named (.handle _)).sameRuns hbetween⟩

/-- Brackets, counted. The handle stands in the definition of another rule, whose own stands in a continuation. -/
def brackets (self : Parser Char LinearPosition Nat Nat) :
    Builder Char LinearPosition Nat (Parser Char LinearPosition Nat Nat) :=
  (fix fun inner => .pure ((Parser.zipWith (· + ·) self inner).withDefault 0)).bind fun inner =>
    .pure ((Parser.token '(').andThen fun _ => (inner.keepLeft (.token ')')).map (· + 1))

theorem brackets_uniform (r : Rules Char LinearPosition Nat) : Uniform r brackets := by
  intro w _ p q hpq
  refine Twin.bind (Parses.fix ?_) ?_
  · intro v hv p' q' hp'
    refine Twin.pure fun {w'} hw' => ?_
    exact .orElse (.zipWith _ ((hpq.mono hv).mono hw') (hp'.mono hw')) (.leaf trivial)
  · intro v _ p' q' hp'
    refine Twin.pure fun {w'} hw' => ?_
    exact .tryBind _ (.leaf trivial) fun _ => .tryMap _ (.zipWith _ (Parser.Twin.mono hp' hw') (.leaf trivial))

theorem fix_unfolds_brackets :
    let store : Store (NoSource Char) Char LinearPosition Nat := .ofStream (.ofText "(()())") .empty
    let c : Cursor Char LinearPosition := store.stream.start
    LawfulSource (NoSource Char) Char ∧ (Rules.empty : Rules Char LinearPosition Nat).Uniform ∧
      Uniform .empty brackets ∧
      ∃ fuel later, ((unfolded brackets 2).run .empty).1.run fuel
        ⟨store.stream, ((unfolded brackets 2).run .empty).2, #[]⟩ c =
          some ⟨⟨store.stream, later, #[]⟩, .ok (.success 3 ⟨1, 0, ⟨6⟩, none⟩)⟩ := by
  intro store c
  have h := fix_unfolds (NoSource Char) Rules.uniform_empty (brackets_uniform .empty) 2 .refl .refl
  exact ⟨inferInstance, Rules.uniform_empty, brackets_uniform _, (h.1 _ _ _ _ c _).mp ⟨100, _, rfl⟩⟩

end Builder

end StreamParsing
