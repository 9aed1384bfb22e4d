import StreamParsing.Encoding.Decoder
import StreamParsing.Stream.Source

/-!
Byte devices, and the sources of bytes and of characters that read from one.
-/

namespace StreamParsing

set_option autoImplicit false

inductive Delivery where
  | bytes (data : List UInt8)
  /-- The read is cut short and may be tried again. -/
  | interrupted
  | failure (reason : String)
  deriving DecidableEq, Repr

/-- A device that answers reads from `script` and then has nothing left. -/
structure Reader where
  script : List Delivery
  pulled : Nat
  calls : Nat
  deriving DecidableEq, Repr

namespace Reader

def ofScript (script : List Delivery) : Reader := ⟨script, 0, 0⟩

def ofBytes (data : List UInt8) : Reader := .ofScript [.bytes data]

/-- Reads up to `max` bytes, trying again after an interruption. Bytes that do not fit stay for the next read. -/
def readFrom (max pulled calls : Nat) : List Delivery → Reader × Except ReadError (List UInt8)
  | [] => (⟨[], pulled, calls + 1⟩, .ok [])
  | .interrupted :: rest => readFrom max pulled (calls + 1) rest
  | .failure reason :: rest => (⟨rest, pulled, calls + 1⟩, .error (.device reason))
  | .bytes data :: rest =>
    let got := data.take max
    let left := data.drop max
    let script := if left.isEmpty then rest else .bytes left :: rest
    (⟨script, pulled + got.length, calls + 1⟩, .ok got)

def read (r : Reader) (max : Nat) : Reader × Except ReadError (List UInt8) :=
  readFrom max r.pulled r.calls r.script

def size : List Delivery → Nat
  | [] => 0
  | .bytes data :: rest => data.length + size rest
  | _ :: rest => size rest

theorem size_readFrom {max pulled calls : Nat} {script : List Delivery} {r : Reader} {got : List UInt8}
    (h : readFrom max pulled calls script = (r, .ok got)) :
    size r.script + got.length = size script := by
  induction script generalizing calls with
  | nil =>
    simp only [readFrom, Prod.mk.injEq, Except.ok.injEq] at h
    obtain ⟨rfl, rfl⟩ := h
    rfl
  | cons d rest ih =>
    cases d with
    | interrupted => simpa [size] using ih h
    | failure reason => simp [readFrom] at h
    | bytes data =>
      simp only [readFrom, Prod.mk.injEq, Except.ok.injEq] at h
      obtain ⟨rfl, rfl⟩ := h
      by_cases hl : (data.drop max).isEmpty
      · have : data.length ≤ max := by simpa using hl
        simp [size, hl]
        omega
      · simp [size, hl]
        omega

theorem size_read {r s : Reader} {max : Nat} {got : List UInt8} (h : r.read max = (s, .ok got)) :
    size s.script + got.length = size r.script := size_readFrom h

end Reader

structure ByteFeed where
  reader : Reader

namespace ByteFeed

/-- One read for each call. -/
def next (feed : ByteFeed) (buffer : Array UInt8) (max : Nat) : Fill ByteFeed UInt8 :=
  match feed.reader.read max with
  | (reader, .ok got) => ⟨⟨reader⟩, buffer ++ got.toArray, .ok (), #[]⟩
  | (reader, .error e) => ⟨⟨reader⟩, buffer, .error e, #[]⟩

end ByteFeed

instance : Source ByteFeed UInt8 where
  fill _ source buffer max := some (source.next buffer max)
  close source := (source, #[])
  below _ := []
  tally source := ⟨source.reader.pulled, source.reader.calls, 0⟩

/-- Characters decoded from a device; `done` says that it has nothing left. -/
structure TextFeed where
  reader : Reader
  decoder : Decoder
  done : Bool

namespace TextFeed

def new (reader : Reader) (encoding : Encoding) : TextFeed := ⟨reader, .new encoding, false⟩

/-- Reads until a character is complete or nothing is left: a read may end inside a character and yield
none. -/
def next (feed : TextFeed) (buffer : Array Char) (start max : Nat) : Fill TextFeed Char :=
  if buffer.size = start ∧ feed.done = false then
    match h : feed.reader.read max with
    | (reader, .error e) => ⟨{ feed with reader }, buffer, .error e, #[]⟩
    | (reader, .ok []) =>
      let step := feed.decoder.decode [] buffer true
      ⟨⟨reader, step.decoder, true⟩, step.out, step.result, #[]⟩
    | (reader, .ok (b :: rest)) =>
      have shrinks : Reader.size reader.script < Reader.size feed.reader.script := by
        have := Reader.size_read h
        simp only [List.length_cons] at this
        omega
      let step := feed.decoder.decode (b :: rest) buffer false
      match step.result with
      | .error e => ⟨⟨reader, step.decoder, false⟩, step.out, .error e, #[]⟩
      | .ok _ => next ⟨reader, step.decoder, false⟩ step.out start max
  else ⟨feed, buffer, .ok (), #[]⟩
termination_by Reader.size feed.reader.script
decreasing_by exact shrinks

end TextFeed

instance : Source TextFeed Char where
  fill _ source buffer max := some (source.next buffer buffer.size max)
  close source := (source, #[])
  below _ := []
  tally source := ⟨source.reader.pulled, source.reader.calls, 0⟩

end StreamParsing
