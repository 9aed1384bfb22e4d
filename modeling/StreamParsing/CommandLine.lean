import StreamParsing.Encoding.Basic

/-!
The command line: which of the two programs is asked for, and with what.
-/

namespace StreamParsing.CommandLine

set_option autoImplicit false

/-- The text whose words are counted: a file, or standard input if none is named. -/
structure CountRequest where
  encoding : Encoding
  file : Option String
  deriving DecidableEq, Repr

inductive Command where
  | calculate (exprs : List String)
  | count (request : CountRequest)
  deriving DecidableEq, Repr

inductive UsageError where
  | missingCommand
  | unknownCommand (name : String)
  | unknownOption (name : String)
  | missingValue (option : String)
  | unknownEncoding (spelling : String)
  | extraArgument (argument : String)
  deriving DecidableEq, Repr

def usage : String :=
  "Usage: stream-parsing calc [EXPRESSION]...\n       stream-parsing words [--encoding <ENCODING>] [FILE]\n"

def UsageError.message : UsageError → String
  | missingCommand => "a command is required"
  | unknownCommand name => "unknown command '" ++ name ++ "'"
  | unknownOption name => "unexpected option '" ++ name ++ "'"
  | missingValue option => "a value is required for '" ++ option ++ "'"
  | unknownEncoding spelling => "invalid encoding '" ++ spelling ++ "'"
  | extraArgument argument => "unexpected argument '" ++ argument ++ "'"

def encoding (spelling : String) : Except UsageError Encoding :=
  match Encoding.ofSpelling? spelling with
  | some e => .ok e
  | none => .error (.unknownEncoding spelling)

/-- Takes the file to be read; there is at most one. -/
def CountRequest.withFile (r : CountRequest) (file : String) : Except UsageError CountRequest :=
  match r.file with
  | none => .ok { r with file := some file }
  | some _ => .error (.extraArgument file)

/-- Reads the options and the file of a word count. After two hyphens everything is a file name. -/
def countRequest (r : CountRequest) : List String → Except UsageError CountRequest
  | [] => .ok r
  | "--" :: files => files.foldlM CountRequest.withFile r
  | [option] =>
    if option = "-e" ∨ option = "--encoding" then .error (.missingValue option)
    else if option.startsWith "-" then .error (.unknownOption option)
    else r.withFile option
  | option :: value :: rest =>
    if option = "-e" ∨ option = "--encoding" then
      match encoding value with
      | .ok e => countRequest { r with encoding := e } rest
      | .error e => .error e
    else if option.startsWith "-" then .error (.unknownOption option)
    else
      match r.withFile option with
      | .ok r => countRequest r (value :: rest)
      | .error e => .error e

def parse : List String → Except UsageError Command
  | [] => .error .missingCommand
  | "calc" :: "--" :: exprs => .ok (.calculate exprs)
  | "calc" :: exprs => .ok (.calculate exprs)
  | "words" :: rest => (countRequest ⟨.utf8, none⟩ rest).map .count
  | name :: _ => .error (.unknownCommand name)

end StreamParsing.CommandLine
