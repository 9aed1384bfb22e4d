import Std.Data.TreeMap
import StreamParsing.Parser.Text
import StreamParsing.Report
import StreamParsing.Stream.Options
import StreamParsing.Stream.Reader
import StreamParsing.Text.Lowercase
import StreamParsing.Tokens

/-!
Counting words: maximal runs of letters and number signs, whatever their case.
-/

namespace StreamParsing.WordCount

set_option autoImplicit false

open StreamParsing.Parser

variable {ρ : Type}

/-- A word in small letters, with what separates it from its neighbours. -/
def word : Parser Char TextPosition ρ String :=
  let separator := satisfy fun c => !Text.isAlphanumeric c
  ((separator.skipMany.keepRight alphanumeric.many1.asText).keepLeft separator.skipMany).map
    Text.lowercase

abbrev Counts := Std.TreeMap String Nat

def add (counts : Counts) (w : String) : Counts :=
  counts.alter w fun n => some (n.getD 0 + 1)

/-- Words as they are lexed, counted one after the other. -/
def pipeline : Pipeline Char TextPosition Empty String Empty Counts where
  lexer := word
  lexerRules := .empty
  grammar := any.foldLeft ∅ add
  grammarRules := .empty
  chunkSize := tokenChunkSize

/-- The counts that a run of the pipeline ends with; a reply without a value has none. -/
def counted : Reply String LinearPosition Counts → Counts
  | .success counts _ => counts
  | _ => ∅

/-- Counts the words read from a device, as far as the work on a token takes at most `fuel` steps. -/
def countWithin (fuel : Nat) (reader : Reader) (options : ReadOptions) : Option (Except ReadError Counts) :=
  match TokenStream.openSource fuel (TextFeed.new reader options.encoding) options.chunkSize with
  | none => none
  | some ⟨_, .error e, _⟩ => some (.error e)
  | some ⟨text, .ok _, _⟩ => (pipeline.run fuel text text.start).map fun outcome => outcome.result.map counted

def count (reader : Reader) (options : ReadOptions) : Option (Except ReadError Counts) :=
  countWithin ampleFuel reader options

/-- A number written to the right end of eight columns. -/
def column (n : Nat) : String :=
  let digits := toString n
  String.ofList (List.replicate (8 - digits.length) ' ') ++ digits

def render (counts : Counts) : String :=
  let total := counts.foldl (fun sum _ n => sum + n) 0
  let lines := counts.foldl (fun out w n => out ++ column n ++ " " ++ w ++ "\n") ""
  lines ++ column total ++ " total (" ++ toString counts.size ++ " distinct)\n"

def report (reader : Reader) (options : ReadOptions) : Report :=
  match count reader options with
  | some (.ok counts) => ⟨render counts, "", 0⟩
  | some (.error e) => ⟨"", "Error: " ++ e.message ++ "\n", 1⟩
  | none => ⟨"", "", 1⟩

/-- Reports a file that cannot be opened, for the reason given by the system. -/
def unopened (path reason : String) : Report :=
  ⟨"", "Error: cannot open " ++ path ++ ": " ++ reason ++ "\n", 1⟩

end StreamParsing.WordCount
