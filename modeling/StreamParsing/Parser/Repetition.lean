import StreamParsing.Parser.Combinators

/-!
Loops: repeated items, folds, separated lists and chains of operators. An item that matches without consuming
anything ends an unbounded loop.
-/

namespace StreamParsing.Parser

set_option autoImplicit false

variable {τ π ρ α β γ : Type}

def collect (p : Parser τ π ρ α) (bounds : Bounds) : Parser τ π ρ (Array α) :=
  loop (pure #[]) p Array.push bounds

def many (p : Parser τ π ρ α) : Parser τ π ρ (Array α) := p.collect (.atLeast 0)

def many1 (p : Parser τ π ρ α) : Parser τ π ρ (Array α) := p.collect (.atLeast 1)

def times (p : Parser τ π ρ α) (n : Nat) : Parser τ π ρ (Array α) := p.collect (.exactly n)

def atLeast (p : Parser τ π ρ α) (n : Nat) : Parser τ π ρ (Array α) := p.collect (.atLeast n)

/-- Between `low` and `high` items; a smaller `high` counts as `low`. -/
def repeatBetween (p : Parser τ π ρ α) (low high : Nat) : Parser τ π ρ (Array α) :=
  p.collect ⟨low, some (max high low)⟩

def take (n : Nat) : Parser τ π ρ (Array τ) := any.times n

def skipLoop (p : Parser τ π ρ α) (bounds : Bounds) : Parser τ π ρ Unit :=
  loop (pure ()) p (fun _ _ => ()) bounds

def skipMany (p : Parser τ π ρ α) : Parser τ π ρ Unit := p.skipLoop (.atLeast 0)

def skipMany1 (p : Parser τ π ρ α) : Parser τ π ρ Unit := p.skipLoop (.atLeast 1)

/-- Items up to the first match of `stop`, which is consumed. -/
def manyTill (p : Parser τ π ρ α) (stop : Parser τ π ρ β) : Parser τ π ρ (Array α) :=
  loopTill (pure #[]) p stop Array.push (.atLeast 0)

/-- Folds items from the left while they are read. -/
def foldLeft (p : Parser τ π ρ α) (seed : β) (op : β → α → β) : Parser τ π ρ β :=
  loop (pure seed) p op (.atLeast 0)

/-- Folds items from the right after they are read. -/
def foldRight (p : Parser τ π ρ α) (seed : β) (op : α → β → β) : Parser τ π ρ β :=
  p.many.map fun items => items.foldr op seed

def sepBy1 (p : Parser τ π ρ α) (separator : Parser τ π ρ β) : Parser τ π ρ (Array α) :=
  loop (p.map fun a => #[a]) (separator.keepRight p) Array.push (.atLeast 0)

def sepBy (p : Parser τ π ρ α) (separator : Parser τ π ρ β) : Parser τ π ρ (Array α) :=
  (p.sepBy1 separator).orElse (pure #[])

/-- Items, each with a separator behind it. -/
def endBy (p : Parser τ π ρ α) (separator : Parser τ π ρ β) : Parser τ π ρ (Array α) :=
  (p.keepLeft separator).many

/-- Items with separators between them and possibly one at the end. -/
def sepEndBy (p : Parser τ π ρ α) (separator : Parser τ π ρ β) : Parser τ π ρ (Array α) :=
  (p.sepBy separator).keepLeft separator.optional

def chainLeft1 (operand : Parser τ π ρ α) (op : Parser τ π ρ (α → α → α)) : Parser τ π ρ α :=
  loop operand (op.both operand) (fun left pair => pair.1 left pair.2) (.atLeast 0)

/-- Pairs each operator with its left operand, the last one first, and gives the last operand. -/
def leftOperands (first : α) (pending : List ((α → α → α) × α)) :
    List ((α → α → α) × α) → α × List ((α → α → α) × α)
  | [] => (first, pending)
  | (op, operand) :: rest => leftOperands operand ((op, first) :: pending) rest

def chainRight1 (operand : Parser τ π ρ α) (op : Parser τ π ρ (α → α → α)) : Parser τ π ρ α :=
  (operand.both (op.both operand).many).map fun (first, rest) =>
    let (last, pending) := leftOperands first [] rest.toList
    pending.foldl (fun acc (op, left) => op left acc) last

/-- Like `chainLeft1`, with `value` where no operand matches. -/
def chainLeft (operand : Parser τ π ρ α) (op : Parser τ π ρ (α → α → α)) (value : α) :
    Parser τ π ρ α :=
  (chainLeft1 operand op).withDefault value

def chainRight (operand : Parser τ π ρ α) (op : Parser τ π ρ (α → α → α)) (value : α) :
    Parser τ π ρ α :=
  (chainRight1 operand op).withDefault value

end StreamParsing.Parser
