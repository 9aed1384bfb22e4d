/-!
Sets of code points, stored as the ascending list of places where membership changes.
The tables themselves stand in the modules named for their property.
-/

namespace StreamParsing.Text

set_option autoImplicit false

/-- A set of code points: the first entry is the least member, the second the least non-member above
it, and so on in turn. -/
structure CodeSet where
  changes : Array Nat

namespace CodeSet

def firstAbove (s : CodeSet) (n lo hi : Nat) : Nat :=
  if lo < hi then
    let mid := (lo + hi) / 2
    if s.changes.getD mid 0 ≤ n then s.firstAbove n (mid + 1) hi else s.firstAbove n lo mid
  else lo
termination_by hi - lo

/-- A code point is a member when an odd number of changes lies at or below it. -/
def contains (s : CodeSet) (c : Char) : Bool :=
  s.firstAbove c.toNat 0 s.changes.size % 2 == 1

end CodeSet

end StreamParsing.Text
