import StreamParsing.Calculator.Grammar
import StreamParsing.Report
import StreamParsing.Tokens

/-!
The calculator: parses expressions and reports their trees and values.
-/

namespace StreamParsing.Calculator

set_option autoImplicit false

/-- The expressions worked on when none are given. -/
def samples : List String :=
  ["3 + 4", "2 * 3.14", "(1 + 2) * 3", "2 ^ 3 ^ 2", "10 / 2.5 - -1", "3 + 4 * 5", "(1 + 2"]

def pipeline : Pipeline Char TextPosition Empty Lexeme Expr Expr :=
  let (grammar, rules) := grammar.run .empty
  { lexer := lexer.label "invalid character"
    lexerRules := .empty
    grammar
    grammarRules := rules
    chunkSize := tokenChunkSize }

def parse (text : String) : Option (Except ReadError (Reply Lexeme LinearPosition Expr)) :=
  let stream := TokenStream.ofText text
  (pipeline.run ampleFuel stream stream.start).map (·.result)

/-- Adds the lines for one expression to a report. -/
def reportOne (r : Report) (text : String) : Report :=
  let rule := String.ofList (List.replicate 50 '-') ++ "\n"
  let head := "Expression: " ++ text ++ "\n"
  let listed (lines : String) : String := r.output ++ head ++ lines ++ rule
  match parse text with
  | some (.ok reply) =>
    match reply.toExcept with
    | .ok expr =>
      let lines := (expr.listing #[] 1).push ("  = " ++ describe expr.eval)
      { r with output := listed (lines.foldl (fun out line => out ++ line ++ "\n") "") }
    | .error e => { r with output := listed ("  " ++ e.describe ++ "\n"), exitCode := 1 }
  | some (.error e) =>
    ⟨listed "", r.errors ++ "  Error: " ++ e.message ++ "\n", 1⟩
  | none => { r with output := listed "", exitCode := 1 }

/-- Works on all expressions in turn; the exit code is 1 if one of them failed. -/
def report (exprs : List String) : Report :=
  let exprs := if exprs.isEmpty then samples else exprs
  exprs.foldl reportOne ⟨"", "", 0⟩

end StreamParsing.Calculator
