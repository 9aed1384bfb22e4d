import StreamParsing.Proofs.Calculator.Syntax
import StreamParsing.Proofs.Machine.Verdicts

/-!
The calculator's grammar parses its language. Every derivation is read, to its tree, wherever what follows cannot go on
with it; this is by induction on the derivation. Whatever is read was derived; this is by induction on the number of
tokens, since an operand inside an atom has fewer of them.
-/

namespace StreamParsing.Calculator

set_option autoImplicit false

universe u

open StreamParsing.Parser

variable {σ : Type u} [Source σ Lexeme] [LawfulSource σ Lexeme] {S : Setting σ Lexeme LinearPosition Expr}
variable {ts mid rest : List Lexeme} {tier : Tier} {rank : Rank}

section Tokens

variable {t : Lexeme}

/-- Tokens other than numbers are alike only if they are the same. -/
theorem Lexeme.beq_iff (ht : t.number? = none) (u : Lexeme) : (u == t) = true ↔ u = t := by
  constructor
  · intro h
    cases t with
    | number => cases ht
    | _ => cases u with | _ => first | rfl | cases h
  · rintro rfl
    cases u with
    | number => cases ht
    | _ => rfl

theorem yields_token (ht : t.number? = none) : S.Yields (token t) (t :: ts) (.success t ts) :=
  Setting.yields_satisfy ((Lexeme.beq_iff ht t).mpr rfl)

theorem yields_token_failure (ht : t.number? = none) (h : ts.head? ≠ some t) : S.Yields (token t) ts .failure := by
  apply Setting.yields_satisfy_failure
  rw [Option.filter_eq_none_iff]
  intro u hu hbeq
  exact h (hu.trans (congrArg some ((Lexeme.beq_iff ht u).mp hbeq)))

end Tokens

section Operators

theorem Operation.number?_lexeme (op : Operation) : op.lexeme.number? = none := by cases op <;> rfl

def Tier.operator : Tier → Phrase (Expr → Expr → Expr)
  | power => Calculator.operator .caret .power
  | product => (Calculator.operator .times .multiply).orElse (Calculator.operator .slash .divide)
  | sum => (Calculator.operator .plus .add).orElse (Calculator.operator .minus .subtract)

theorem yields_lexeme (op : Operation) :
    S.Yields (operator op.lexeme op) (op.lexeme :: ts) (.success (Expr.binary op) ts) :=
  Setting.yields_map (yields_token op.number?_lexeme) _

theorem yields_lexeme_failure (op : Operation) (h : ts.head? ≠ some op.lexeme) :
    S.Yields (operator op.lexeme op) ts .failure :=
  Setting.yields_map (yields_token_failure op.number?_lexeme h) _

theorem yields_operator (op : Operation) :
    S.Yields op.tier.operator (op.lexeme :: ts) (.success (Expr.binary op) ts) := by
  cases op with
  | power => exact yields_lexeme .power
  | multiply => exact Setting.yields_orElse_first (yields_lexeme .multiply) nofun
  | add => exact Setting.yields_orElse_first (yields_lexeme .add) nofun
  | divide => exact Setting.yields_orElse_second (yields_lexeme_failure .multiply nofun) (yields_lexeme .divide)
  | subtract => exact Setting.yields_orElse_second (yields_lexeme_failure .add nofun) (yields_lexeme .subtract)

theorem yields_operator_failure (h : ∀ op : Operation, op.tier = tier → ts.head? ≠ some op.lexeme) :
    S.Yields tier.operator ts .failure := by
  cases tier with
  | power => exact yields_lexeme_failure .power (h .power rfl)
  | product =>
    apply Setting.yields_orElse_second
    · exact yields_lexeme_failure .multiply (h .multiply rfl)
    · exact yields_lexeme_failure .divide (h .divide rfl)
  | sum =>
    apply Setting.yields_orElse_second
    · exact yields_lexeme_failure .add (h .add rfl)
    · exact yields_lexeme_failure .subtract (h .subtract rfl)

end Operators

section Chains

def Tier.parser (tier : Tier) (operand : Phrase Expr) : Phrase Expr :=
  match tier with
  | power => chainRight1 operand tier.operator
  | product | sum => chainLeft1 operand tier.operator

def pairs (trees : List (Operation × Expr)) : List ((Expr → Expr → Expr) × Expr) :=
  trees.map fun (op, right) => (Expr.binary op, right)

/-- The rest of a chain is read to these trees, whatever the loop does with them. -/
def Follows (S : Setting σ Lexeme LinearPosition Expr) (tier : Tier) (operand : Phrase Expr) (ts : List Lexeme)
    (v : Verdict Lexeme (List (Operation × Expr))) : Prop :=
  ∀ (β : Type) (step : β → (Expr → Expr → Expr) × Expr → β) (acc : β),
    S.Loops (tier.operator.both operand) step acc ts (v.map fun trees => (pairs trees).foldl step acc)

theorem foldl_leftOperands (first : Expr) (pending : List ((Expr → Expr → Expr) × Expr))
    (trees : List (Operation × Expr)) :
    (leftOperands first pending (pairs trees)).2.foldl (fun acc (op, left) => op left acc)
        (leftOperands first pending (pairs trees)).1 =
      pending.foldl (fun acc (op, left) => op left acc) (first.rightward trees) := by
  induction trees generalizing first pending with
  | nil => rfl
  | cons tree trees ih =>
    obtain ⟨op, right⟩ := tree
    exact ih right ((Expr.binary op, first) :: pending)

theorem foldl_pairs (first : Expr) (trees : List (Operation × Expr)) :
    (pairs trees).foldl (fun left pair => pair.1 left pair.2) first = first.leftward trees := by
  rw [pairs, List.foldl_map]
  rfl

variable {operand : Phrase Expr} {first : Expr} {v : Verdict Lexeme (List (Operation × Expr))}

/-- A chain is its first operand and the trees that follow, grouped as the tier groups them. -/
theorem yields_chain (hfirst : S.Yields operand ts (.success first mid)) (h : Follows S tier operand mid v) :
    S.Yields (tier.parser operand) ts (v.map (tier.group first)) := by
  have hleft : S.Yields (chainLeft1 operand tier.operator) ts (v.map first.leftward) := by
    have hloop := Setting.yields_loop hfirst (h Expr (fun left pair => pair.1 left pair.2) first)
    simp only [foldl_pairs] at hloop
    exact hloop
  cases tier with
  | product | sum => exact hleft
  | power =>
    -- The links are collected first and grouped from the last one on.
    have hmany := Setting.yields_loop (Setting.yields_pure #[] mid) (h _ Array.push #[])
    have hboth := Setting.yields_zipWith (f := Prod.mk) hfirst hmany
    cases v with
    | failure | abort => exact Setting.yields_map hboth _
    | success trees rest =>
      have hgroup : (Prod.mk first ((pairs trees).foldl Array.push #[])) = (first, (pairs trees).toArray) := by simp
      have hall := Setting.yields_map hboth fun (all : Expr × Array ((Expr → Expr → Expr) × Expr)) =>
        (leftOperands all.1 [] all.2.toList).2.foldl (fun acc (op, left) => op left acc)
          (leftOperands all.1 [] all.2.toList).1
      simp only [Verdict.map, hgroup, foldl_leftOperands] at hall
      exact hall

theorem yields_chain_passes {v : Verdict Lexeme Expr} (hfirst : S.Yields operand ts v) (hv : v.Passes v) :
    S.Yields (tier.parser operand) ts v := by
  have hleft : S.Yields (chainLeft1 operand tier.operator) ts v := Setting.yields_loop_passes hfirst hv
  cases tier with
  | product | sum => exact hleft
  | power =>
    cases hv with
    | failure => exact Setting.yields_map (Setting.yields_zipWith_passes hfirst .failure) _
    | abort => exact Setting.yields_map (Setting.yields_zipWith_passes hfirst .abort) _

end Chains

/-- The rules of the grammar: an expression is rule 0, an atom rule 1. -/
def grammarRules : Rules Lexeme LinearPosition Expr := (grammar.run .empty).2

theorem force_expr : grammarRules.force 0 = some (exprBody (.rule 1), grammarRules) := rfl

theorem force_atom : grammarRules.force 1 = some (atomBody (.handle 0) (.handle 1), grammarRules) := rfl

section Atoms

variable {value : Float} {e : Expr} {v : Verdict Lexeme Expr}

theorem yields_numeral : S.Yields numeral (.number value :: ts) (.success (.number value) ts) :=
  Setting.yields_map (Setting.yields_satisfy rfl) _

theorem yields_numeral_failure (h : ∀ value, ts.head? ≠ some (.number value)) : S.Yields numeral ts .failure := by
  refine Setting.yields_map (Setting.yields_satisfy_failure ?_) _
  rw [Option.filter_eq_none_iff]
  intro t ht
  cases t with
  | number value => exact absurd ht (h value)
  | _ => exact nofun

theorem yields_group_failure (h : ts.head? ≠ some .opening) (expr : Phrase Expr) :
    S.Yields (group expr) ts .failure :=
  Setting.yields_zipWith_passes (Setting.yields_zipWith_passes (yields_token_failure rfl h) .failure) .failure

theorem yields_negated_failure (h : ts.head? ≠ some .minus) (atom : Phrase Expr) :
    S.Yields (((token .minus).keepRight atom).map Expr.negate) ts .failure :=
  Setting.yields_map (Setting.yields_zipWith_passes (yields_token_failure rfl h) .failure) _

variable (hS : S.store.rules = grammarRules)
include hS

theorem yields_expr (h : S.Yields (exprBody (.rule 1)) ts v) : S.Yields (.rule 0) ts v := by
  apply Setting.yields_rule _ h
  rw [hS, force_expr]

theorem yields_atom (h : S.Yields (atomBody (.handle 0) (.handle 1)) ts v) : S.Yields (.rule 1) ts v := by
  apply Setting.yields_rule _ h
  rw [hS, force_atom]

theorem yields_number : S.Yields (.rule 1) (.number value :: ts) (.success (.number value) ts) := by
  apply yields_atom hS
  apply Setting.yields_label
  exact Setting.yields_orElse_first (Setting.yields_orElse_first yields_numeral nofun) nofun

/-- Behind an opening parenthesis there is nothing but a group. -/
theorem yields_opening (h : S.Yields (group (.handle 0)) (.opening :: ts) v) :
    S.Yields (.rule 1) (.opening :: ts) v := by
  have hchoice : S.Yields (numeral.orElse (group (.handle 0))) (.opening :: ts) v :=
    Setting.yields_orElse_second (yields_numeral_failure (by simp)) h
  apply yields_atom hS
  apply Setting.yields_label
  cases v with
  | failure => exact Setting.yields_orElse_second hchoice (yields_negated_failure (by simp) _)
  | success | abort => exact Setting.yields_orElse_first hchoice nofun

theorem yields_inside (h : S.Yields (.rule 0) ts v) :
    S.Yields ((token .opening).keepRight (.handle 0)) (.opening :: ts) v := by
  have hexpr : S.Yields (.handle 0) ts v := by
    apply Setting.yields_handle _ h
    simp [hS, force_expr]
  have hboth := Setting.yields_zipWith (f := fun _ e => e) (yields_token (t := .opening) rfl) hexpr
  cases v with
  | _ => exact hboth

theorem yields_group (h : S.Yields (.rule 0) ts (.success e (.closing :: rest))) :
    S.Yields (.rule 1) (.opening :: ts) (.success e rest) := by
  apply yields_opening hS
  apply Setting.yields_zipWith (yields_inside hS h) (w := .success .closing rest)
  exact Setting.yields_required (Setting.yields_label (yields_token rfl) _)

theorem yields_group_unclosed (h : S.Yields (.rule 0) ts (.success e rest)) (hrest : rest.head? ≠ some .closing) :
    S.Yields (.rule 1) (.opening :: ts) .abort := by
  apply yields_opening hS
  apply Setting.yields_zipWith (yields_inside hS h) (w := .abort)
  exact Setting.yields_required (Setting.yields_label (yields_token_failure rfl hrest) _)

theorem yields_group_passes (h : S.Yields (.rule 0) ts v) (hv : v.Passes v) :
    S.Yields (.rule 1) (.opening :: ts) v := by
  apply yields_opening hS
  exact Setting.yields_zipWith_passes (yields_inside hS h) hv

theorem yields_negate (h : S.Yields (.rule 1) ts v) : S.Yields (.rule 1) (.minus :: ts) (v.map .negate) := by
  have hatom : S.Yields (.handle 1) ts v := by
    apply Setting.yields_handle _ h
    simp [hS, force_atom]
  have hboth := Setting.yields_zipWith (f := fun _ e => e) (yields_token (t := .minus) rfl) hatom
  apply yields_atom hS
  apply Setting.yields_label
  apply Setting.yields_orElse_second
  · exact Setting.yields_orElse_second (yields_numeral_failure (by simp)) (yields_group_failure (by simp) _)
  · cases v with
    | _ => exact Setting.yields_map hboth _

theorem yields_atom_failure (hnumber : ∀ value, ts.head? ≠ some (.number value)) (hopening : ts.head? ≠ some .opening)
    (hminus : ts.head? ≠ some .minus) : S.Yields (.rule 1) ts .failure := by
  apply yields_atom hS
  refine Setting.yields_label (v := .failure) (Setting.yields_orElse_second ?_ ?_) _
  · exact Setting.yields_orElse_second (yields_numeral_failure hnumber) (yields_group_failure hopening _)
  · exact yields_negated_failure hminus _

end Atoms

def Rank.parser : Rank → Phrase Expr
  | atom => .rule 1
  | chain .power => Tier.power.parser (.rule 1)
  | chain .product => Tier.product.parser (Tier.power.parser (.rule 1))
  | chain .sum => exprBody (.rule 1)

theorem Rank.parser_chain (tier : Tier) : (Rank.chain tier).parser = tier.parser tier.operand.parser := by
  cases tier <;> rfl

section Chains

variable {operand : Phrase Expr} {e : Expr} {op : Operation} {v : Verdict Lexeme (List (Operation × Expr))}

theorem follows_end (h : ∀ op : Operation, op.tier = tier → ts.head? ≠ some op.lexeme) :
    Follows S tier operand ts (.success [] ts) := by
  intro β step acc
  exact Setting.loops_failure (Setting.yields_zipWith_passes (yields_operator_failure h) .failure)

theorem follows_link (hop : op.tier = tier) (h : S.Yields operand ts (.success e rest))
    (hle : rest.length ≤ ts.length) (hrest : Follows S tier operand rest v) :
    Follows S tier operand (op.lexeme :: ts) (v.map ((op, e) :: ·)) := by
  subst hop
  intro β step acc
  have hitem := Setting.yields_zipWith (f := Prod.mk) (yields_operator op) h
  have hlt : rest.length < (op.lexeme :: ts).length := Nat.lt_succ_of_le hle
  have hloop := Setting.loops_next hitem hlt (hrest β step (step acc (Expr.binary op, e)))
  cases v with
  | _ => exact hloop

theorem follows_unmatched (hop : op.tier = tier) (h : S.Yields operand ts .failure) :
    Follows S tier operand (op.lexeme :: ts) (.success [] (op.lexeme :: ts)) := by
  subst hop
  intro β step acc
  exact Setting.loops_failure (Setting.yields_zipWith (yields_operator op) h)

theorem follows_abort (hop : op.tier = tier) (h : S.Yields operand ts .abort) :
    Follows S tier operand (op.lexeme :: ts) .abort := by
  subst hop
  intro β step acc
  exact Setting.loops_abort (Setting.yields_zipWith (yields_operator op) h)

end Chains

section Complete

mutual

theorem Derivation.yields (hS : S.store.rules = grammarRules) {rank : Rank} (d : Derivation rank)
    {rest : List Lexeme} (hrest : rank.Ends rest) :
    S.Yields rank.parser (d.tokens ++ rest) (.success d.tree rest) := by
  match rank, d with
  | _, .number value => exact yields_number hS
  | _, .group inner =>
    have hinner := inner.yields hS (Rank.ends_closing (.chain .sum) rest)
    simp only [Derivation.tokens, List.cons_append, List.append_assoc]
    exact yields_group hS (yields_expr hS hinner)
  | _, .negate inner => exact yields_negate hS (inner.yields hS (Rank.ends_atom rest))
  | _, @Derivation.chain tier first links =>
    have hfirst := first.yields hS (links.ends_operand hrest)
    rw [Rank.parser_chain, Derivation.tokens, List.append_assoc]
    exact yields_chain hfirst (links.follows hS hrest)

theorem Links.follows (hS : S.store.rules = grammarRules) {tier : Tier} (links : Links tier) {rest : List Lexeme}
    (hrest : (Rank.chain tier).Ends rest) :
    Follows S tier tier.operand.parser (links.tokens ++ rest) (.success links.trees rest) := by
  match links with
  | .nil => exact follows_end fun op hop => Links.head_ne hrest hop
  | .cons op hop operand links =>
    have hoperand := operand.yields hS (links.ends_operand hrest)
    simp only [Links.tokens, List.cons_append, List.append_assoc]
    exact follows_link hop hoperand (by simp) (links.follows hS hrest)

end

end Complete

section Sound

/-- A value in the verdict belongs to something derived, with which the list begins. -/
inductive Derived {δ ε : Type} (tokens : δ → List Lexeme) (value : δ → ε) (ts : List Lexeme) :
    Verdict Lexeme ε → Prop where
  | success {x : ε} {rest : List Lexeme} (d : δ) : ts = tokens d ++ rest → value d = x →
      Derived tokens value ts (.success x rest)
  | failure : Derived tokens value ts .failure
  | abort : Derived tokens value ts .abort

theorem Derived.map {δ δ' ε ε' : Type} {tokens : δ → List Lexeme} {value : δ → ε} {tokens' : δ' → List Lexeme}
    {value' : δ' → ε'} {ts ts' : List Lexeme} {v : Verdict Lexeme ε} (h : Derived tokens value ts v) (g : δ → δ')
    (f : ε → ε') (htokens : ∀ d rest, ts = tokens d ++ rest → ts' = tokens' (g d) ++ rest)
    (hvalue : ∀ d, value' (g d) = f (value d)) : Derived tokens' value' ts' (v.map f) := by
  cases h with
  | success d hd hx => exact .success (g d) (htokens d _ hd) (hx ▸ hvalue d)
  | failure => exact .failure
  | abort => exact .abort

/-- The parser for the rank has a verdict on the list, and reads only what can be derived. -/
def Rank.Settles (S : Setting σ Lexeme LinearPosition Expr) (rank : Rank) (ts : List Lexeme) : Prop :=
  ∃ v, S.Yields rank.parser ts v ∧ Derived (@Derivation.tokens rank) Derivation.tree ts v

variable {n : Nat}

theorem settles_atom (hS : S.store.rules = grammarRules) (hatom : ∀ ts, ts.length < n → Rank.atom.Settles S ts)
    (hsum : ∀ ts, ts.length < n → (Rank.chain .sum).Settles S ts) (ts : List Lexeme) (h : ts.length < n + 1) :
    Rank.atom.Settles S ts := by
  match ts with
  | [] | .plus :: _ | .times :: _ | .slash :: _ | .caret :: _ | .closing :: _ =>
    exact ⟨.failure, yields_atom_failure hS (by simp) (by simp) (by simp), .failure⟩
  | .number value :: ts => exact ⟨_, yields_number hS, .success (.number value) rfl rfl⟩
  | .minus :: ts =>
    obtain ⟨v, hv, hd⟩ := hatom ts (Nat.lt_of_succ_lt_succ h)
    refine ⟨_, yields_negate hS hv, hd.map Derivation.negate Expr.negate ?_ fun _ => rfl⟩
    intro d rest htokens
    rw [Derivation.tokens, List.cons_append, htokens]
  | .opening :: ts =>
    obtain ⟨v, hv, hd⟩ := hsum ts (Nat.lt_of_succ_lt_succ h)
    have hexpr := yields_expr hS hv
    cases hd with
    | failure => exact ⟨_, yields_group_passes hS hexpr .failure, .failure⟩
    | abort => exact ⟨_, yields_group_passes hS hexpr .abort, .abort⟩
    | @success _ rest d htokens htree =>
      by_cases hclosing : rest.head? = some .closing
      · obtain ⟨rest, rfl⟩ := List.head?_eq_some_iff.mp hclosing
        exact ⟨_, yields_group hS hexpr, .success (.group d) (by simp [Derivation.tokens, htokens]) htree⟩
      · exact ⟨_, yields_group_unclosed hS hexpr hclosing, .abort⟩

theorem exists_follows (hoperand : ∀ ts, ts.length < n → tier.operand.Settles S ts) (ts : List Lexeme)
    (h : ts.length ≤ n) :
    ∃ v, Follows S tier tier.operand.parser ts v ∧ Derived (@Links.tokens tier) Links.trees ts v := by
  induction hm : ts.length using Nat.strong_induction_on generalizing ts with
  | _ m ih =>
  subst hm
  by_cases hhead : ∃ op : Operation, op.tier = tier ∧ ts.head? = some op.lexeme
  · obtain ⟨op, hop, hhead⟩ := hhead
    obtain ⟨ts, rfl⟩ := List.head?_eq_some_iff.mp hhead
    obtain ⟨v, hv, hd⟩ := hoperand ts h
    cases hd with
    | failure => exact ⟨_, follows_unmatched hop hv, .success .nil rfl rfl⟩
    | abort => exact ⟨_, follows_abort hop hv, .abort⟩
    | @success _ rest d htokens htree =>
      -- The operator was consumed, so fewer tokens are left for the links that follow.
      have hle : rest.length ≤ ts.length := by simp [htokens]
      obtain ⟨v, hfollows, hrest⟩ :=
        ih rest.length (Nat.lt_succ_of_le hle) rest (Nat.le_trans hle (Nat.le_of_succ_le h)) rfl
      refine ⟨_, follows_link hop hv hle hfollows, hrest.map (.cons op hop d) _ ?_ ?_⟩
      · intro links rest' hlinks
        rw [Links.tokens, List.cons_append, List.append_assoc, ← hlinks, ← htokens]
      · intro links
        rw [Links.trees, htree]
  · exact ⟨_, follows_end fun op hop hop' => hhead ⟨op, hop, hop'⟩, .success .nil rfl rfl⟩

theorem settles_chain (hoperand : ∀ ts, ts.length < n → tier.operand.Settles S ts) (ts : List Lexeme)
    (h : ts.length < n) : (Rank.chain tier).Settles S ts := by
  obtain ⟨v, hv, hd⟩ := hoperand ts h
  unfold Rank.Settles
  rw [Rank.parser_chain]
  cases hd with
  | failure => exact ⟨_, yields_chain_passes hv .failure, .failure⟩
  | abort => exact ⟨_, yields_chain_passes hv .abort, .abort⟩
  | @success _ rest d htokens htree =>
    have hle : rest.length ≤ ts.length := by simp [htokens]
    obtain ⟨v, hfollows, hrest⟩ := exists_follows hoperand rest (Nat.le_trans hle (Nat.le_of_lt h))
    refine ⟨_, yields_chain hv hfollows, hrest.map (.chain d) _ ?_ ?_⟩
    · intro links rest' hlinks
      rw [Derivation.tokens, List.append_assoc, ← hlinks, ← htokens]
    · intro links
      rw [Derivation.tree, htree]

theorem settles (hS : S.store.rules = grammarRules) (n : Nat) :
    (∀ ts, ts.length < n → Rank.atom.Settles S ts) ∧ ∀ ts, ts.length < n → (Rank.chain .sum).Settles S ts := by
  -- An atom contains sums, and sums contain atoms: the tokens inside an atom are fewer by one at least.
  induction n with
  | zero => exact ⟨nofun, nofun⟩
  | succ n ih =>
    have hatom := settles_atom hS ih.1 ih.2
    have hpower : ∀ ts, ts.length < n + 1 → (Rank.chain .power).Settles S ts := settles_chain hatom
    have hproduct : ∀ ts, ts.length < n + 1 → (Rank.chain .product).Settles S ts := settles_chain hpower
    exact ⟨hatom, settles_chain hproduct⟩

end Sound

theorem yields_expression (hS : S.store.rules = grammarRules) (d : Derivation (.chain .sum)) :
    S.Yields ((Parser.rule 0).keepLeft endOfInput) d.tokens (.success d.tree []) := by
  have hexpr := d.yields hS (Rank.ends_nil (.chain .sum))
  rw [List.append_nil] at hexpr
  exact Setting.yields_zipWith (yields_expr hS hexpr) Setting.yields_endOfInput

/-- Where the list is no expression, an expression with which it begins is followed by a token. -/
theorem exists_refusal (hS : S.store.rules = grammarRules) (hd : ¬ ∃ d : Derivation (.chain .sum), d.tokens = ts) :
    ∃ v : Verdict Lexeme Expr, S.Yields ((Parser.rule 0).keepLeft endOfInput) ts v ∧ v.Passes v := by
  obtain ⟨v, hv, hderived⟩ := (settles hS (ts.length + 1)).2 ts (Nat.lt_succ_self _)
  have hexpr := yields_expr hS hv
  cases hderived with
  | failure => exact ⟨_, Setting.yields_zipWith_passes hexpr .failure, .failure⟩
  | abort => exact ⟨_, Setting.yields_zipWith_passes hexpr .abort, .abort⟩
  | @success _ rest d htokens _ =>
    cases rest with
    | nil => exact absurd ⟨d, by rw [htokens, List.append_nil]⟩ hd
    | cons t rest => exact ⟨_, Setting.yields_zipWith hexpr Setting.yields_endOfInput_failure, .failure⟩

theorem yields_grammar (hS : S.store.rules = grammarRules) (ts : List Lexeme) :
    ∃ v, S.Yields ((Parser.rule 0).keepLeft endOfInput) ts v ∧
      ∀ e, (∃ rest, v = .success e rest) ↔ ∃ d : Derivation (.chain .sum), d.tokens = ts ∧ d.tree = e := by
  by_cases hd : ∃ d : Derivation (.chain .sum), d.tokens = ts
  · obtain ⟨d, rfl⟩ := hd
    refine ⟨_, yields_expression hS d, fun e => ?_⟩
    constructor
    · rintro ⟨rest, h⟩
      cases h
      exact ⟨d, rfl, rfl⟩
    · rintro ⟨d', htokens, rfl⟩
      rw [Derivation.eq_of_tokens htokens]
      exact ⟨[], rfl⟩
  · obtain ⟨v, hv, hpass⟩ := exists_refusal hS hd
    refine ⟨v, hv, fun e => ?_⟩
    constructor
    · rintro ⟨rest, rfl⟩
      cases hpass
    · rintro ⟨d, htokens, -⟩
      exact absurd ⟨d, htokens⟩ hd

theorem steady_operator (tier : Tier) : tier.operator.Steady := by
  cases tier with
  | power => exact .tryMap _ (.satisfy _)
  | product | sum => exact .orElse (.tryMap _ (.satisfy _)) (.tryMap _ (.satisfy _))

theorem steady_chain (tier : Tier) {operand : Phrase Expr} (h : operand.Steady) : (tier.parser operand).Steady := by
  have hitem : (tier.operator.both operand).Steady := .zipWith _ (steady_operator tier) h
  cases tier with
  | power => exact .tryMap _ (.zipWith _ h (.loop _ _ (.pure _) hitem))
  | product | sum => exact .loop _ _ h hitem

theorem steady_atomBody : (atomBody (.handle 0) (.handle 1)).Steady := by
  have hgroup : (group (.handle 0)).Steady :=
    .zipWith _ (.zipWith _ (.satisfy _) (.handle 0)) (.reshape _ (.reshape _ (.satisfy _)))
  have hnegated : (((token Lexeme.minus).keepRight (.handle 1)).map Expr.negate : Phrase Expr).Steady :=
    .tryMap _ (.zipWith _ (.satisfy _) (.handle 1))
  exact .reshape _ (.orElse (.orElse (.tryMap _ (.satisfy _)) hgroup) hnegated)

theorem kept_grammarRules : grammarRules.Kept := by
  have hexpr : (exprBody (.rule 1)).Steady := steady_chain .sum (steady_chain .product (steady_chain .power (.rule 1)))
  have hentries : grammarRules.entries.toList =
      [⟨.defined (exprBody (.rule 1)), true⟩, ⟨.defined (atomBody (.handle 0) (.handle 1)), true⟩] := rfl
  intro entry hmem
  rw [← Array.mem_toList_iff, hentries] at hmem
  rcases List.mem_pair.mp hmem with rfl | rfl
  · exact ⟨rfl, .defined hexpr⟩
  · exact ⟨rfl, .defined steady_atomBody⟩

/-- The grammar halts on every list of tokens. It succeeds exactly on the expressions, with the tree of the only
derivation there is. -/
theorem grammar_parses (ts : List Lexeme) :
    let built := grammar.run .empty
    (∃ fuel finish, built.1.parseList fuel built.2 ts = some finish) ∧
    (∀ fuel finish, built.1.parseList fuel built.2 ts = some finish → ∃ reply, finish.result = .ok reply ∧
      ∀ e, (∃ c, reply = .success e c) ↔ ∃ d : Derivation (.chain .sum), d.tokens = ts ∧ d.tree = e) ∧
    ∀ d d' : Derivation (.chain .sum), d.tokens = ts → d'.tokens = ts → d = d' := by
  intro built
  obtain ⟨v, hv, hvalue⟩ := yields_grammar (S := .ofList ts grammarRules) rfl ts
  have hsteady : ((Parser.rule 0).keepLeft endOfInput : Phrase Expr).Steady := .zipWith _ (.rule 0) .endOfInput
  obtain ⟨reply, hmeets, ⟨fuel, hrun⟩, hunique⟩ := hv.run kept_grammarRules hsteady (Setting.faces_start ts grammarRules)
  refine ⟨⟨fuel, _, congrArg (Option.map _) hrun⟩, ?_, ?_⟩
  · intro fuel' finish hfinish
    obtain ⟨last, hlast, rfl⟩ := Option.map_eq_some_iff.mp hfinish
    obtain rfl := hunique fuel' last hlast
    refine ⟨reply, rfl, fun e => ?_⟩
    rw [← hvalue e]
    constructor
    · rintro ⟨c, rfl⟩
      cases hmeets
      exact ⟨_, rfl⟩
    · rintro ⟨rest, rfl⟩
      cases hmeets
      exact ⟨_, rfl⟩
  · intro d d' h h'
    exact Derivation.eq_of_tokens (h.trans h'.symm)

end StreamParsing.Calculator
