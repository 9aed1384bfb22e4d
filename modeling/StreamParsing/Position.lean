import StreamParsing.Described

/-!
Places in a stream: line, column and byte offset for text, an index for anything else. All counts are 64-bit
words and start again at zero when they overflow.
-/

namespace StreamParsing

set_option autoImplicit false

structure LinearPosition where
  index : UInt64
  deriving DecidableEq, Repr, Ord

instance : Described LinearPosition where
  describe p := "Index: " ++ toString p.index.toNat
  inspect p := "LinearPosition(" ++ toString p.index.toNat ++ ")"

/-- A place in a text. Lines and columns count from one, the offset counts bytes of UTF-8 from zero.
Positions are ordered by line, then column, then offset. -/
structure TextPosition where
  line : UInt64
  column : UInt64
  offset : UInt64
  deriving DecidableEq, Repr, Ord

instance : Described TextPosition where
  describe p := "Line: " ++ toString p.line.toNat ++ ", Column: " ++ toString p.column.toNat
  inspect p :=
    "TextPosition \x7b line: " ++ toString p.line.toNat ++ ", column: " ++ toString p.column.toNat ++
      ", offset: " ++ toString p.offset.toNat ++ " \x7d"

namespace TextPosition

def start : TextPosition := ⟨1, 1, 0⟩

/-- Moves over a token of `width` bytes; a line end starts the next line. -/
def step (p : TextPosition) (lineEnd : Bool) (width : UInt64) : TextPosition :=
  if lineEnd then ⟨p.line + 1, 1, p.offset + width⟩ else ⟨p.line, p.column + 1, p.offset + width⟩

end TextPosition

/-- A position of either kind, for reports that do not depend on the stream. -/
inductive Place where
  | text (position : TextPosition)
  | linear (position : LinearPosition)
  deriving DecidableEq, Repr

namespace Place

/-- The counts that make up a place, the weightiest first. -/
def counts : Place → List UInt64
  | text p => [p.line, p.column, p.offset]
  | linear p => [p.index]

end Place

instance : Described Place where
  describe
    | .text p => describe p
    | .linear p => describe p
  inspect
    | .text p => inspect p
    | .linear p => inspect p

/-- Positions that can be carried over tokens of type `τ`. -/
class Position (π : Type) (τ : Type) where
  start : π
  advance : π → τ → π
  place : π → Place

instance {τ : Type} : Position LinearPosition τ where
  start := ⟨0⟩
  advance p _ := ⟨p.index + 1⟩
  place := .linear

instance : Position TextPosition Char where
  start := TextPosition.start
  advance p c := p.step (c == '\n') (.ofNat c.utf8Size)
  place := .text

instance : Position TextPosition UInt8 where
  start := TextPosition.start
  advance p b := p.step (b == 10) 1
  place := .text

end StreamParsing
