import StreamParsing.Encoding.Basic
import StreamParsing.ReadError

/-!
Incremental decoding. A decoder is fed byte sequences cut anywhere and hands out the characters that are
complete, keeping the bytes of an unfinished one for the next call.
-/

namespace StreamParsing

set_option autoImplicit false

namespace Encoding

structure Scan where
  out : Array Char
  /-- The bytes from the first unread character on. -/
  rest : List UInt8
  /-- The number of bytes read. -/
  used : Nat
  /-- Whether the unread bytes can still become a character. -/
  openEnded : Bool

/-- Reads characters from the front as long as they are complete. -/
def scan (e : Encoding) (bytes : List UInt8) (out : Array Char) (used : Nat) : Scan :=
  match bytes with
  | [] => ⟨out, [], used, true⟩
  | b :: tail =>
    match e.first (b :: tail) with
    | .char c more => e.scan (tail.drop more) (out.push c) (used + more + 1)
    | .incomplete => ⟨out, b :: tail, used, true⟩
    | .invalid => ⟨out, b :: tail, used, false⟩
termination_by bytes.length
decreasing_by
  simp only [List.length_drop, List.length_cons]
  omega

end Encoding

/-- `pending` holds the bytes not yet read, which begin at `offset` of the whole input; `started` says whether
any character was read. -/
structure Decoder where
  encoding : Encoding
  pending : List UInt8
  offset : Nat
  started : Bool
  deriving DecidableEq, Repr

namespace Decoder

def new (encoding : Encoding) : Decoder := ⟨encoding, [], 0, false⟩

structure Step where
  decoder : Decoder
  out : Array Char
  result : Except ReadError Unit

def errorAt (d : Decoder) (used : Nat) : ReadError := .malformed d.encoding.name (d.offset + used)

/-- Drops a byte order mark at index `start`. -/
def dropMark (e : Encoding) (out : Array Char) (start : Nat) : Array Char :=
  if e.hasMark && out[start]? == some '\uFEFF' then out.eraseIdxIfInBounds start else out

/-- Decodes `bytes` after the pending ones and appends the characters to `out`; `last` says that no more will
come. On bytes that are no character the decoder keeps everything pending, and of the characters read before
them only those of the Unicode encodings stay in the output. -/
def decode (d : Decoder) (bytes : List UInt8) (out : Array Char) (last : Bool) : Step :=
  let start := out.size
  let bytes := d.pending ++ bytes
  let scan := d.encoding.scan bytes out 0
  if scan.openEnded then
    let fresh := !d.started && decide (start < scan.out.size)
    let next : Decoder := ⟨d.encoding, scan.rest, d.offset + scan.used, d.started || fresh⟩
    let out := if fresh then dropMark d.encoding scan.out start else scan.out
    ⟨next, out, if last && !scan.rest.isEmpty then .error (next.errorAt 0) else .ok ()⟩
  else
    let out := if d.encoding = .ascii then scan.out.extract 0 start else scan.out
    ⟨{ d with pending := bytes }, out, .error (d.errorAt scan.used)⟩

end Decoder

end StreamParsing
