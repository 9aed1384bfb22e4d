import StreamParsing.Position
import StreamParsing.Stream.Source

/-!
Streams: a source together with the chunks read from it so far. A cursor is a place among those tokens;
moving a cursor past the last one reads the next chunk, once.
-/

namespace StreamParsing

set_option autoImplicit false

universe u

/-- The chunks read so far, the last of them empty if the end was reached. The source is kept after it was let
go, when `live` is false, so that its use can still be told. -/
structure TokenStream (σ : Type u) (τ : Type) where
  chunks : Array (Array τ)
  source : σ
  live : Bool
  chunkSize : Nat
  chunksRead : Nat

/-- A place in a stream, with the token there; `current` is `none` at the end. -/
structure Cursor (τ π : Type) where
  chunk : Nat
  index : Nat
  position : π
  current : Option τ

namespace Cursor

variable {τ π : Type}

/-- Two cursors of one stream are at the same place. -/
def same (a b : Cursor τ π) : Bool := a.chunk == b.chunk && a.index == b.index

def sharesChunk (a b : Cursor τ π) : Bool := a.chunk == b.chunk

def hasToken (c : Cursor τ π) : Bool := c.current.isSome

def inspect [Described τ] [Described π] (c : Cursor τ π) : String :=
  let current := match c.current with
    | some t => "Some(" ++ StreamParsing.inspect t ++ ")"
    | none => "None"
  "Stream \x7b position: " ++ StreamParsing.inspect c.position ++ ", current: " ++ current ++ " \x7d"

end Cursor

structure Access (σ : Type u) (τ α : Type) where
  stream : TokenStream σ τ
  result : Except ReadError α
  events : Array Event

namespace TokenStream

variable {σ : Type u} {τ π : Type}

def ofArray (tokens : Array τ) : TokenStream (NoSource τ) τ :=
  ⟨if tokens.isEmpty then #[#[]] else #[tokens, #[]], ⟨⟩, false, 1, 0⟩

def ofList (tokens : List τ) : TokenStream (NoSource τ) τ := ofArray tokens.toArray

def ofText (text : String) : TokenStream (NoSource Char) Char := ofList text.toList

def unread (source : σ) (chunkSize : Nat) : TokenStream σ τ :=
  ⟨#[], source, true, max chunkSize 1, 0⟩

def token? (s : TokenStream σ τ) (chunk index : Nat) : Option τ :=
  (s.chunks.getD chunk #[])[index]?

def start [Position π τ] (s : TokenStream σ τ) : Cursor τ π :=
  ⟨0, 0, Position.start τ, s.token? 0 0⟩

section

variable [Source σ τ]

/-- Reads one more chunk. An empty chunk is the end, and an error loses the tokens read on the way to it; both
let the source go. -/
def readChunk (fuel : Nat) (s : TokenStream σ τ) : Option (Access σ τ Unit) :=
  let ⟨chunks, source, live, chunkSize, chunksRead⟩ := s
  if live then
    match Source.fill fuel source #[] chunkSize with
    | none => none
    | some ⟨source, buffer, .ok _, events⟩ =>
      if buffer.isEmpty then
        let (source, closing) := Source.close source
        some ⟨⟨chunks.push buffer, source, false, chunkSize, chunksRead + 1⟩, .ok (),
          (events ++ closing).push (.exhausted chunksRead)⟩
      else
        let size := buffer.size
        some ⟨⟨chunks.push buffer, source, true, chunkSize, chunksRead + 1⟩, .ok (),
          events.push (.chunkRead chunksRead size)⟩
    | some ⟨source, _, .error e, events⟩ =>
      let (source, closing) := Source.close source
      some ⟨⟨chunks, source, false, chunkSize, chunksRead⟩, .error e,
        (events ++ closing).push (.readFailed e)⟩
  else some ⟨⟨chunks, source, live, chunkSize, chunksRead⟩, .error .released, #[]⟩

/-- A stream over `source`, whose first chunk is read at once. -/
def openSource (fuel : Nat) (source : σ) (chunkSize : Nat) : Option (Access σ τ Unit) :=
  (unread source chunkSize).readChunk fuel

/-- Moves a cursor over its token; at the end it stays where it is. -/
def advance [Position π τ] (fuel : Nat) (s : TokenStream σ τ) (c : Cursor τ π) :
    Option (Access σ τ (Cursor τ π)) :=
  match c.current with
  | none => some ⟨s, .ok c, #[]⟩
  | some t =>
    let position := Position.advance c.position t
    match s.token? c.chunk (c.index + 1) with
    | some next => some ⟨s, .ok ⟨c.chunk, c.index + 1, position, some next⟩, #[]⟩
    | none =>
      if c.chunk + 1 < s.chunks.size then
        let current := s.token? (c.chunk + 1) 0
        some ⟨s, .ok ⟨c.chunk + 1, 0, position, current⟩, #[]⟩
      else
        match s.readChunk fuel with
        | none => none
        | some ⟨s, .ok _, events⟩ =>
          let current := s.token? (c.chunk + 1) 0
          some ⟨s, .ok ⟨c.chunk + 1, 0, position, current⟩, events⟩
        | some ⟨s, .error e, events⟩ => some ⟨s, .error e, events⟩

def advanceByAfter [Position π τ] (fuel : Nat) (s : TokenStream σ τ) (c : Cursor τ π)
    (events : Array Event) : Nat → Option (Access σ τ (Cursor τ π))
  | 0 => some ⟨s, .ok c, events⟩
  | count + 1 =>
    if c.hasToken then
      match s.advance fuel c with
      | none => none
      | some ⟨s, .error e, more⟩ => some ⟨s, .error e, events ++ more⟩
      | some ⟨s, .ok c, more⟩ => s.advanceByAfter fuel c (events ++ more) count
    else some ⟨s, .ok c, events⟩

def advanceBy [Position π τ] (fuel : Nat) (s : TokenStream σ τ) (c : Cursor τ π) (count : Nat) :
    Option (Access σ τ (Cursor τ π)) :=
  s.advanceByAfter fuel c #[] count

/-- All tokens from a cursor on, after those in `found`. -/
def remainingAfter [Position π τ] (fuel : Nat) (s : TokenStream σ τ) (c : Cursor τ π) (found : Array τ)
    (events : Array Event) : Option (Access σ τ (Array τ)) :=
  match fuel with
  | 0 => none
  | fuel + 1 =>
    match c.current with
    | none => some ⟨s, .ok found, events⟩
    | some t =>
      match s.advance fuel c with
      | none => none
      | some ⟨s, .error e, more⟩ => some ⟨s, .error e, events ++ more⟩
      | some ⟨s, .ok c, more⟩ => remainingAfter fuel s c (found.push t) (events ++ more)

def remaining [Position π τ] (fuel : Nat) (s : TokenStream σ τ) (c : Cursor τ π) :
    Option (Access σ τ (Array τ)) :=
  s.remainingAfter fuel c #[] #[]

/-- Lets the source go; tokens already read stay readable. Tells whether there was one to let go. -/
def release (s : TokenStream σ τ) : TokenStream σ τ × Bool × Array Event :=
  if s.live then
    let (source, closing) := Source.close s.source
    ({ s with source, live := false }, true, closing.push (.released s.chunksRead))
  else (s, false, #[])

/-- Whether this stream and the streams below it still have their sources, outermost first. -/
def liveness (s : TokenStream σ τ) : List Bool := s.live :: Source.below s.source

end

end TokenStream

end StreamParsing
