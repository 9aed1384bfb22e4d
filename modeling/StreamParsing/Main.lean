import StreamParsing.Calculator.Program
import StreamParsing.CommandLine
import StreamParsing.WordCount

/-!
The program: reads its input, runs the calculator or the word counter, and prints the report.
-/

namespace StreamParsing

set_option autoImplicit false

/-- How the system names the reason of a failed access. -/
def failureReason : IO.Error → String
  | .noFileOrDirectory .. => "No such file or directory (os error 2)"
  | .permissionDenied .. => "Permission denied (os error 13)"
  | error => toString error

/-- Reads until nothing is left or a read fails, at most `fuel` times; the last delivery comes first. -/
def readScript (read : IO ByteArray) (fuel : Nat) (script : List Delivery) : IO (List Delivery) :=
  match fuel with
  | 0 => return script
  | fuel + 1 => do
    match ← EIO.toBaseIO read with
    | .ok data =>
      if data.isEmpty then return script
      else readScript read fuel (.bytes data.toList :: script)
    | .error error => return .failure (failureReason error) :: script

def blockSize : USize := 65536

/-- The device that stands for an open stream of bytes. -/
def readAll (read : IO ByteArray) : IO Reader :=
  return .ofScript (← readScript read ampleFuel []).reverse

def countReport (request : CommandLine.CountRequest) : IO Report := do
  let options := ReadOptions.standard.withEncoding request.encoding
  match request.file with
  | none =>
    let input ← IO.getStdin
    return WordCount.report (← readAll (input.read blockSize)) options
  | some path =>
    match ← EIO.toBaseIO (IO.FS.Handle.mk path .read) with
    | .ok handle => return WordCount.report (← readAll (handle.read blockSize)) options
    | .error error => return WordCount.unopened path (failureReason error)

/-- The report of a command line; one that asks for nothing has exit code 2. -/
def reportOf (args : List String) : IO Report :=
  match CommandLine.parse args with
  | .ok (.calculate exprs) => return Calculator.report exprs
  | .ok (.count request) => countReport request
  | .error error => return ⟨"", "Error: " ++ error.message ++ "\n" ++ CommandLine.usage, 2⟩

end StreamParsing

def main (args : List String) : IO UInt32 := do
  let report ← StreamParsing.reportOf args
  IO.print report.output
  IO.eprint report.errors
  return UInt32.ofNat report.exitCode
