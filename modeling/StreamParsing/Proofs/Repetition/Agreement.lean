import StreamParsing.Proofs.Repetition.Outcomes

/-!
The specialised loops against the collecting one. Loops that drop or fold their items, that begin with a first item or
that apply operators end as the collecting loop does, with its items folded afterwards: the same outcome in the same
store, over any pending work.
-/

namespace StreamParsing

set_option autoImplicit false

universe u

variable {σ : Type u} {τ π ρ α β : Type}

namespace Parser

/-- The operators applied from the left: `fn(..f2(f1(x0, x1), x2).., xn)`. -/
def groupedLeft (first : α) : List ((α → α → α) × α) → α
  | [] => first
  | (op, operand) :: rest => groupedLeft (op first operand) rest

/-- The operators applied from the right: `f1(x0, f2(x1, ..fn(x(n-1), xn)..))`. -/
def groupedRight (first : α) : List ((α → α → α) × α) → α
  | [] => first
  | (op, operand) :: rest => op first (groupedRight operand rest)

theorem foldl_eq_groupedLeft (first : α) (rest : List ((α → α → α) × α)) :
    rest.foldl (fun left pair => pair.1 left pair.2) first = groupedLeft first rest := by
  induction rest generalizing first with
  | nil => rfl
  | cons pair rest ih => exact ih _

/-- The operators that were put aside wait for what those behind them give. -/
theorem foldl_leftOperands_eq (first : α) (pending rest : List ((α → α → α) × α)) :
    (leftOperands first pending rest).2.foldl (fun acc (op, left) => op left acc) (leftOperands first pending rest).1 =
      pending.foldl (fun acc (op, left) => op left acc) (groupedRight first rest) := by
  induction rest generalizing first pending with
  | nil => rfl
  | cons pair rest ih => exact ih _ _

section Outcomes

variable [Source σ τ] [Position π τ] {held : List Nat} {p : Parser τ π ρ α} {b : Bounds}

theorem outcomes_loop_pure (seed : β) (op : β → α → β) :
    ((loop (.pure seed) p op b).outcomes .counted held : Runs σ τ π ρ β) =
      ((p.collect b).map fun items => items.toList.foldl op seed).outcomes .counted held := by
  rw [outcomes_loop_eq (List.nil_subset _), outcomes_zipWith, then_pure, outcomes_map]

theorem outcomes_skipLoop : (p.skipLoop b).outcomes .counted held =
    (((p.collect b).map fun _ => ()).outcomes .counted held : Runs σ τ π ρ Unit) :=
  outcomes_loop_pure () fun _ _ => ()

theorem outcomes_sepBy1 (separator : Parser τ π ρ β) :
    ((p.sepBy1 separator).outcomes .counted held : Runs σ τ π ρ (Array α)) =
      (zipWith (fun first rest => #[first] ++ rest) p (separator.keepRight p).many).outcomes .counted held := by
  have hheld : (p.map fun a => #[a]).holds ⊆ (separator.keepRight p).holds := List.subset_append_right _ _
  have hfold (a : α) (items : Array α) : items.toList.foldl Array.push #[a] = #[a] ++ items := by
    rw [List.foldl_push_eq_append']
  rw [sepBy1, outcomes_loop_eq hheld, outcomes_zipWith, outcomes_zipWith, outcomes_map, Runs.then_mapped]
  simp only [hfold]
  rfl

variable {operand : Parser τ π ρ α} {op : Parser τ π ρ (α → α → α)}

theorem outcomes_map_both (f : α × β → α) (q : Parser τ π ρ β) :
    (((operand.both q).map f).outcomes .counted held : Runs σ τ π ρ α) =
      (zipWith (fun a b => f (a, b)) operand q).outcomes .counted held := by
  rw [both, outcomes_map, outcomes_zipWith, outcomes_zipWith, Runs.mapped_then]
  simp only [Runs.mapped_mapped]
  rfl

theorem outcomes_chainLeft1 : ((chainLeft1 operand op).outcomes .counted held : Runs σ τ π ρ α) =
    ((operand.both (op.both operand).many).map fun (first, rest) => groupedLeft first rest.toList).outcomes .counted
      held := by
  have hheld : operand.holds ⊆ (op.both operand).holds := List.subset_append_right _ _
  rw [chainLeft1, outcomes_loop_eq hheld, outcomes_map_both]
  simp only [foldl_eq_groupedLeft]
  rfl

end Outcomes

variable [Source σ τ] [LawfulSource σ τ] [Position π τ]

/-- Either parser ends as the other does: over any pending work, and by itself. -/
structure Interchangeable (σ : Type u) [Source σ τ] (p q : Parser τ π ρ α) : Prop where
  pending : ∀ {ω : Type} (k : Stack τ π ρ α ω) (store store' : Store σ τ π ρ) (c : Cursor τ π) (result : Outcome τ π α),
    Machine.Finishes .counted k store (.eval p c k) store' result ↔
      Machine.Finishes .counted k store (.eval q c k) store' result
  alone : ∀ (store store' : Store σ τ π ρ) (c : Cursor τ π) (result : Outcome τ π α),
    (∃ fuel, p.run fuel store c = some ⟨store', result⟩) ↔ ∃ fuel, q.run fuel store c = some ⟨store', result⟩

theorem interchangeable_of_outcomes {p q : Parser τ π ρ α}
    (h : ∀ held, (p.outcomes .counted held : Runs σ τ π ρ α) = q.outcomes .counted held) : p.Interchangeable σ q := by
  have houtcomes {held : List Nat} {store store' : Store σ τ π ρ} {c : Cursor τ π} {result : Outcome τ π α} :
      p.outcomes .counted held store c store' result ↔ q.outcomes .counted held store c store' result := by
    rw [h]
  constructor
  · intro ω k store store' c result
    exact (Machine.finishes_iff_counted (.run p c)).trans
      (houtcomes.trans (Machine.finishes_iff_counted (.run q c)).symm)
  · intro store store' c result
    exact ends_iff_counted.trans (houtcomes.trans ends_iff_counted.symm)

/-- The specialised loops are the collecting one with its items dropped or folded behind it. -/
theorem loops_fold_many (p : Parser τ π ρ α) (separator : Parser τ π ρ β) (op : Parser τ π ρ (α → α → α)) :
    p.skipMany.Interchangeable σ (p.many.map fun _ => ()) ∧
    p.skipMany1.Interchangeable σ (p.many1.map fun _ => ()) ∧
    (∀ {γ : Type} (seed : γ) (f : γ → α → γ),
      (p.foldLeft seed f).Interchangeable σ (p.many.map fun items => items.toList.foldl f seed)) ∧
    (∀ {γ : Type} (seed : γ) (f : α → γ → γ),
      (p.foldRight seed f).Interchangeable σ (p.many.map fun items => items.toList.foldr f seed)) ∧
    (p.sepBy1 separator).Interchangeable σ
      (zipWith (fun first rest => #[first] ++ rest) p (separator.keepRight p).many) ∧
    (chainLeft1 p op).Interchangeable σ
      ((p.both (op.both p).many).map fun (first, rest) => groupedLeft first rest.toList) ∧
    (chainRight1 p op).Interchangeable σ
      ((p.both (op.both p).many).map fun (first, rest) => groupedRight first rest.toList) := by
  refine ⟨?_, ?_, ?_, ?_, ?_, ?_, ?_⟩
  · exact interchangeable_of_outcomes fun _ => outcomes_skipLoop
  · exact interchangeable_of_outcomes fun _ => outcomes_skipLoop
  · exact fun seed f => interchangeable_of_outcomes fun _ => outcomes_loop_pure seed f
  · intro γ seed f
    refine interchangeable_of_outcomes fun held => ?_
    simp only [foldRight, Array.foldr_toList]
  · exact interchangeable_of_outcomes fun _ => outcomes_sepBy1 separator
  · exact interchangeable_of_outcomes fun _ => outcomes_chainLeft1
  · have hgroup (first : α) (rest : List ((α → α → α) × α)) : (leftOperands first [] rest).2.foldl
        (fun acc (op, left) => op left acc) (leftOperands first [] rest).1 = groupedRight first rest :=
      foldl_leftOperands_eq first [] rest
    refine interchangeable_of_outcomes fun held => ?_
    simp only [chainRight1, hgroup]

/-- A chain with an operator left over at its end. -/
theorem loops_fold_many_minus :
    let digit : Parser Char LinearPosition Empty Int := (satisfy Char.isDigit).map fun d => d.toNat - 48
    let minus : Parser Char LinearPosition Empty (Int → Int → Int) := (token '-').as (· - ·)
    let store : Store (NoSource Char) Char LinearPosition Empty := .ofStream (.ofText "7-2-1-") .empty
    let c : Cursor Char LinearPosition := store.stream.start
    let chain := digit.both (minus.both digit).many
    LawfulSource (NoSource Char) Char ∧
      (∃ fuel, (chain.map fun (first, rest) => groupedLeft first rest.toList).run fuel store c =
        some ⟨store, .ok (.success 4 ⟨0, 5, ⟨5⟩, some '-'⟩)⟩) ∧
      ∃ fuel, (chain.map fun (first, rest) => groupedRight first rest.toList).run fuel store c =
        some ⟨store, .ok (.success 6 ⟨0, 5, ⟨5⟩, some '-'⟩)⟩ := by
  intro digit minus store c chain
  obtain ⟨-, -, -, -, -, left, right⟩ := loops_fold_many (σ := NoSource Char) digit minus minus
  exact ⟨inferInstance, (left.alone store store c _).mp ⟨60, rfl⟩, (right.alone store store c _).mp ⟨60, rfl⟩⟩

end Parser

end StreamParsing
