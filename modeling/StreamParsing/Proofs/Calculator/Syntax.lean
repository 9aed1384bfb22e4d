import StreamParsing.Calculator.Grammar

/-!
The language of expressions, by its derivations:

    sum := product (('+' | '-') product)*        product := power (('*' | '/') power)*
    power := atom ('^' atom)*                    atom := number | '(' sum ')' | '-' atom

Sums, products and powers are chains of operands with operators of their tier between them. A derivation has the tokens
it derives and the tree it stands for. No list of tokens has two derivations.
-/

namespace StreamParsing.Calculator

set_option autoImplicit false

inductive Tier where
  | power
  | product
  | sum
  deriving DecidableEq

inductive Rank where
  | atom
  | chain (tier : Tier)
  deriving DecidableEq

def Tier.operand : Tier → Rank
  | power => .atom
  | product => .chain .power
  | sum => .chain .product

def Operation.tier : Operation → Tier
  | add | subtract => .sum
  | multiply | divide => .product
  | power => .power

def Operation.lexeme : Operation → Lexeme
  | add => .plus
  | subtract => .minus
  | multiply => .times
  | divide => .slash
  | power => .caret

mutual

inductive Derivation : Rank → Type where
  | number (value : Float) : Derivation .atom
  | group (inner : Derivation (.chain .sum)) : Derivation .atom
  | negate (inner : Derivation .atom) : Derivation .atom
  | chain {tier : Tier} (first : Derivation tier.operand) (rest : Links tier) : Derivation (.chain tier)

/-- The operators of a chain, each with the operand after it. -/
inductive Links : Tier → Type where
  | nil {tier : Tier} : Links tier
  | cons {tier : Tier} (op : Operation) (h : op.tier = tier) (operand : Derivation tier.operand)
      (rest : Links tier) : Links tier

end

mutual

def Derivation.tokens {rank : Rank} : Derivation rank → List Lexeme
  | .number value => [.number value]
  | .group inner => .opening :: (inner.tokens ++ [.closing])
  | .negate inner => .minus :: inner.tokens
  | .chain first rest => first.tokens ++ rest.tokens

def Links.tokens {tier : Tier} : Links tier → List Lexeme
  | .nil => []
  | .cons op _ operand rest => op.lexeme :: (operand.tokens ++ rest.tokens)

end

namespace Expr

def leftward (first : Expr) (rest : List (Operation × Expr)) : Expr :=
  rest.foldl (fun left (op, right) => .binary op left right) first

def rightward (first : Expr) : List (Operation × Expr) → Expr
  | [] => first
  | (op, right) :: rest => .binary op first (rightward right rest)

end Expr

/-- Powers are grouped to the right, products and sums to the left. -/
def Tier.group : Tier → Expr → List (Operation × Expr) → Expr
  | power => Expr.rightward
  | product | sum => Expr.leftward

mutual

def Derivation.tree {rank : Rank} : Derivation rank → Expr
  | .number value => .number value
  | .group inner => inner.tree
  | .negate inner => .negate inner.tree
  | @Derivation.chain tier first rest => tier.group first.tree rest.trees

def Links.trees {tier : Tier} : Links tier → List (Operation × Expr)
  | .nil => []
  | .cons op _ operand rest => (op, operand.tree) :: rest.trees

end

/-- In `-x ^ y ^ z` the sign belongs to the first operand. -/
example (x y z : Float) :
    let d : Derivation (.chain .power) :=
      .chain (.negate (.number x)) (.cons .power rfl (.number y) (.cons .power rfl (.number z) .nil))
    d.tokens = [.minus, .number x, .caret, .number y, .caret, .number z] ∧
      d.tree = .binary .power (.negate (.number x)) (.binary .power (.number y) (.number z)) := ⟨rfl, rfl⟩

/-- How loosely a tier binds. -/
def Tier.height : Tier → Nat
  | power => 1
  | product => 2
  | sum => 3

def Rank.height : Rank → Nat
  | atom => 0
  | chain tier => tier.height

/-- The list does not begin with an operator that could go on a derivation of this rank. -/
def Rank.Ends (rank : Rank) (rest : List Lexeme) : Prop :=
  ∀ op : Operation, rest.head? = some op.lexeme → rank.height < op.tier.height

theorem Operation.lexeme_injective {op op' : Operation} (h : op.lexeme = op'.lexeme) : op = op' := by
  cases op <;> cases op' <;> first | rfl | cases h

theorem Operation.lexeme_ne_closing (op : Operation) : op.lexeme ≠ .closing := by
  cases op <;> exact nofun

theorem Tier.height_operand (tier : Tier) : tier.operand.height < tier.height := by
  cases tier <;> decide

namespace Rank

theorem ends_nil (rank : Rank) : rank.Ends [] := nofun

theorem ends_closing (rank : Rank) (rest : List Lexeme) : rank.Ends (.closing :: rest) := by
  intro op h
  exact absurd (Option.some.inj h).symm op.lexeme_ne_closing

theorem ends_atom (rest : List Lexeme) : atom.Ends rest := by
  intro op _
  cases op <;> decide

end Rank

variable {tier : Tier} {rank : Rank} {rest rest' : List Lexeme}

theorem Tier.ends_operand (h : (Rank.chain tier).Ends rest) : tier.operand.Ends rest :=
  fun op hop => Nat.lt_trans tier.height_operand (h op hop)

/-- An operand ends before the operators of its chain. -/
theorem Links.ends_operand (links : Links tier) (h : (Rank.chain tier).Ends rest) :
    tier.operand.Ends (links.tokens ++ rest) := by
  cases links with
  | nil => exact Tier.ends_operand h
  | cons op hop operand links =>
    intro op' hop'
    obtain rfl := Operation.lexeme_injective (Option.some.inj hop')
    exact hop ▸ tier.height_operand

/-- The operators of a chain are not among those after it. -/
theorem Links.head_ne {op : Operation} (h : (Rank.chain tier).Ends rest) (hop : op.tier = tier) :
    rest.head? ≠ some op.lexeme := by
  intro hhead
  exact Nat.lt_irrefl _ (hop ▸ h op hhead)

mutual

theorem Derivation.eq_of_append {rank : Rank} (d d' : Derivation rank) {rest rest' : List Lexeme}
    (h : d.tokens ++ rest = d'.tokens ++ rest') (hrest : rank.Ends rest) (hrest' : rank.Ends rest') :
    d = d' ∧ rest = rest' := by
  match rank, d, d' with
  | _, .number value, .number value' =>
    simp only [Derivation.tokens, List.singleton_append, List.cons.injEq, Lexeme.number.injEq] at h
    exact ⟨h.1 ▸ rfl, h.2⟩
  | _, .group inner, .group inner' =>
    simp only [Derivation.tokens, List.cons_append, List.append_assoc, List.cons.injEq, true_and] at h
    obtain ⟨rfl, hclosing⟩ := inner.eq_of_append inner' h (Rank.ends_closing _ _) (Rank.ends_closing _ _)
    exact ⟨rfl, List.tail_eq_of_cons_eq hclosing⟩
  | _, .negate inner, .negate inner' =>
    simp only [Derivation.tokens, List.cons_append, List.cons.injEq, true_and] at h
    obtain ⟨rfl, heq⟩ := inner.eq_of_append inner' h (Rank.ends_atom _) (Rank.ends_atom _)
    exact ⟨rfl, heq⟩
  | _, .chain first links, .chain first' links' =>
    simp only [Derivation.tokens, List.append_assoc] at h
    obtain ⟨rfl, hlinks⟩ := first.eq_of_append first' h (links.ends_operand hrest) (links'.ends_operand hrest')
    obtain ⟨rfl, heq⟩ := links.eq_of_append links' hlinks hrest hrest'
    exact ⟨rfl, heq⟩
  | _, .number _, .group _ | _, .number _, .negate _ | _, .group _, .number _ | _, .group _, .negate _
  | _, .negate _, .number _ | _, .negate _, .group _ => simp [Derivation.tokens] at h

theorem Links.eq_of_append {tier : Tier} (links links' : Links tier) {rest rest' : List Lexeme}
    (h : links.tokens ++ rest = links'.tokens ++ rest') (hrest : (Rank.chain tier).Ends rest)
    (hrest' : (Rank.chain tier).Ends rest') : links = links' ∧ rest = rest' := by
  match links, links' with
  | .nil, .nil => exact ⟨rfl, h⟩
  | .nil, .cons op hop operand links' =>
    simp only [Links.tokens, List.nil_append, List.cons_append] at h
    exact absurd (h ▸ rfl) (Links.head_ne hrest hop)
  | .cons op hop operand links, .nil =>
    simp only [Links.tokens, List.nil_append, List.cons_append] at h
    exact absurd (h ▸ rfl) (Links.head_ne hrest' hop)
  | .cons op hop operand links, .cons op' hop' operand' links' =>
    simp only [Links.tokens, List.cons_append, List.append_assoc, List.cons.injEq] at h
    obtain rfl := Operation.lexeme_injective h.1
    obtain ⟨rfl, hlinks⟩ :=
      operand.eq_of_append operand' h.2 (links.ends_operand hrest) (links'.ends_operand hrest')
    obtain ⟨rfl, heq⟩ := links.eq_of_append links' hlinks hrest hrest'
    exact ⟨rfl, heq⟩

end

theorem Derivation.eq_of_tokens {d d' : Derivation rank} (h : d.tokens = d'.tokens) : d = d' :=
  (d.eq_of_append d' (congrArg (· ++ []) h) rank.ends_nil rank.ends_nil).1

end StreamParsing.Calculator
