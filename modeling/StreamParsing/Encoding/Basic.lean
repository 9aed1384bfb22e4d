/-!
Text encodings and the reading of one character from the front of a byte sequence.
-/

namespace StreamParsing

set_option autoImplicit false

inductive Encoding where
  | utf8
  | utf16le
  | utf16be
  | latin1
  | ascii
  deriving DecidableEq, Repr, Inhabited

inductive Sequence where
  /-- A character, encoded in the first byte and `more` bytes after it. -/
  | char (c : Char) (more : Nat)
  /-- The beginning of a character, or nothing at all. -/
  | incomplete
  /-- Bytes that no continuation turns into a character. -/
  | invalid
  deriving DecidableEq, Repr

namespace Sequence

/-- The character with code `n`, if that is a scalar value. -/
def ofCode (n more : Nat) : Sequence :=
  if n.isValidChar then .char (Char.ofNat n) more else .invalid

end Sequence

namespace Utf8

/-- The six bits that a continuation byte carries. -/
def tail? (b : UInt8) : Option Nat :=
  if 0x80 ≤ b ∧ b ≤ 0xBF then some (b.toNat % 64) else none

def one (code more : Nat) : List UInt8 → Sequence
  | [] => .incomplete
  | b :: _ =>
    match tail? b with
    | some bits => .ofCode (code * 64 + bits) more
    | none => .invalid

def two (code more : Nat) : List UInt8 → Sequence
  | [] => .incomplete
  | b :: rest =>
    match tail? b with
    | some bits => one (code * 64 + bits) more rest
    | none => .invalid

/-- Reads the second byte, which must lie between `low` and `high`, and goes on with the rest. -/
def window (low high : UInt8) (code : Nat) (next : Nat → List UInt8 → Sequence) :
    List UInt8 → Sequence
  | [] => .incomplete
  | b :: rest =>
    if low ≤ b ∧ b ≤ high then next (code * 64 + b.toNat % 64) rest else .invalid

/-- The first character. The window of the second byte leaves out overlong forms, surrogates and codes
beyond the last one. -/
def first : List UInt8 → Sequence
  | [] => .incomplete
  | a :: rest =>
    let n := a.toNat
    if n < 0x80 then .ofCode n 0
    else if n < 0xC2 then .invalid
    else if n < 0xE0 then one (n % 32) 1 rest
    else if n = 0xE0 then window 0xA0 0xBF (n % 16) (fun code => one code 2) rest
    else if n = 0xED then window 0x80 0x9F (n % 16) (fun code => one code 2) rest
    else if n < 0xF0 then window 0x80 0xBF (n % 16) (fun code => one code 2) rest
    else if n = 0xF0 then window 0x90 0xBF (n % 8) (fun code => two code 3) rest
    else if n < 0xF4 then window 0x80 0xBF (n % 8) (fun code => two code 3) rest
    else if n = 0xF4 then window 0x80 0x8F (n % 8) (fun code => two code 3) rest
    else .invalid

end Utf8

namespace Utf16

inductive ByteOrder where
  | little
  | big
  deriving DecidableEq, Repr

def ByteOrder.unit (order : ByteOrder) (a b : UInt8) : Nat :=
  match order with
  | .little => b.toNat * 256 + a.toNat
  | .big => a.toNat * 256 + b.toNat

/-- The first character: a unit alone, or a high surrogate with the low one after it. -/
def first (order : ByteOrder) : List UInt8 → Sequence
  | a :: b :: rest =>
    let unit := order.unit a b
    if 0xD800 ≤ unit ∧ unit < 0xDC00 then
      match rest with
      | c :: d :: _ =>
        let low := order.unit c d
        if 0xDC00 ≤ low ∧ low < 0xE000 then
          .ofCode (0x10000 + (unit - 0xD800) * 1024 + (low - 0xDC00)) 3
        else .invalid
      | _ => .incomplete
    else .ofCode unit 1
  | _ => .incomplete

end Utf16

namespace Encoding

def name : Encoding → String
  | utf8 => "UTF-8"
  | utf16le => "UTF-16LE"
  | utf16be => "UTF-16BE"
  | latin1 => "ISO-8859-1"
  | ascii => "US-ASCII"

/-- The encoding that a user's spelling stands for. -/
def ofSpelling? : String → Option Encoding
  | "utf8" | "utf-8" => some utf8
  | "utf16le" | "utf-16le" => some utf16le
  | "utf16be" | "utf-16be" => some utf16be
  | "latin1" | "iso-8859-1" => some latin1
  | "ascii" => some ascii
  | _ => none

/-- Whether a text may begin with a byte order mark that is not part of it. -/
def hasMark : Encoding → Bool
  | utf8 | utf16le | utf16be => true
  | latin1 | ascii => false

def first : Encoding → List UInt8 → Sequence
  | utf8, bytes => Utf8.first bytes
  | utf16le, bytes => Utf16.first .little bytes
  | utf16be, bytes => Utf16.first .big bytes
  | latin1, bytes =>
    match bytes with
    | [] => .incomplete
    | b :: _ => .ofCode b.toNat 0
  | ascii, bytes =>
    match bytes with
    | [] => .incomplete
    | b :: _ => if b < 0x80 then .ofCode b.toNat 0 else .invalid

end Encoding

end StreamParsing
