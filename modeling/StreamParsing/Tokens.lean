import StreamParsing.Run

/-!
Streams of tokens made by a lexer. A tokenizer is a source that runs a lexer over a stream below it, from where
the lexer last stopped; a pipeline runs a grammar over such a stream.
-/

namespace StreamParsing

set_option autoImplicit false

universe u

/-- A lexer at work on the stream below. -/
structure Tokenizer (σ : Type u) (τ π ρ ω : Type) : Type (max u 1) where
  stream : TokenStream σ τ
  rules : Rules τ π ρ
  cursor : Cursor τ π
  lexer : Parser τ π ρ ω

namespace Tokenizer

variable {σ : Type u} {τ π ρ ω : Type}
variable [Source σ τ] [Position π τ] [Described τ] [Described π]

/-- Runs the lexer up to `count` more times. A lexer that does not match, or that matches nothing, is an error;
the end of the stream below is the end of the tokens. -/
def next (fuel : Nat) (t : Tokenizer σ τ π ρ ω) (buffer : Array ω) (events : Array Event) :
    Nat → Option (Fill (Tokenizer σ τ π ρ ω) ω)
  | 0 => some ⟨t, buffer, .ok (), events⟩
  | count + 1 =>
    let ⟨stream, rules, cursor, lexer⟩ := t
    if cursor.hasToken then
      match lexer.run fuel ⟨stream, rules, events⟩ cursor with
      | none => none
      | some ⟨⟨stream, rules, events⟩, .error e⟩ =>
        some ⟨⟨stream, rules, cursor, lexer⟩, buffer, .error e, events⟩
      | some ⟨⟨stream, rules, events⟩, .ok (.success value after)⟩ =>
        if after.same cursor then
          let reason := "lexer consumed no input at " ++ describe after.position
          some ⟨⟨stream, rules, cursor, lexer⟩, buffer, .error (.unlexable reason), events⟩
        else next fuel ⟨stream, rules, after, lexer⟩ (buffer.push value) events count
      | some ⟨⟨stream, rules, events⟩, .ok reply⟩ =>
        let reason := reply.describe fun _ => ""
        some ⟨⟨stream, rules, cursor, lexer⟩, buffer, .error (.unlexable reason), events⟩
    else
      some ⟨⟨stream, rules, cursor, lexer⟩, buffer, .ok (),
        events.push (.lexedAll (Position.place τ cursor.position))⟩

def close (t : Tokenizer σ τ π ρ ω) : Tokenizer σ τ π ρ ω × Array Event :=
  let (stream, _, events) := t.stream.release
  ({ t with stream }, events)

end Tokenizer

/-- The buffer is filled up to `max` tokens, counting those already there. -/
instance {σ : Type u} {τ π ρ ω : Type} [Source σ τ] [Position π τ] [Described τ]
    [Described π] : Source (Tokenizer σ τ π ρ ω) ω where
  fill fuel source buffer max := source.next fuel buffer #[] (max - buffer.size)
  close := Tokenizer.close
  below source := source.stream.liveness
  tally source :=
    let inner := Source.tally source.stream.source
    { inner with builds := inner.builds + source.rules.builds }

/-- The chunk size of token streams for which none is given: the lexer runs once for each token looked at. -/
def tokenChunkSize : Nat := 1

namespace Parser

variable {σ : Type u} {τ π ρ ω : Type}
variable [Source σ τ] [Position π τ] [Described τ] [Described π]

def tokenize (lexer : Parser τ π ρ ω) (fuel : Nat) (stream : TokenStream σ τ) (rules : Rules τ π ρ)
    (c : Cursor τ π) (chunkSize : Nat) :
    Option (Access (Tokenizer σ τ π ρ ω) ω Unit) :=
  TokenStream.openSource fuel ⟨stream, rules, c, lexer⟩ chunkSize

end Parser

structure Pipeline (τ π ρ ω κ α : Type) : Type 1 where
  lexer : Parser τ π ρ ω
  lexerRules : Rules τ π ρ
  grammar : Parser ω LinearPosition κ α
  grammarRules : Rules ω LinearPosition κ
  chunkSize : Nat

namespace Pipeline

variable {σ : Type u} {τ π ρ ω κ α : Type}
variable [Source σ τ] [Position π τ] [Described τ] [Described π]

/-- The end of a pipeline's run; `stream` is the one below the tokens. -/
structure Outcome (σ : Type u) (τ ω α : Type) : Type (max u 1) where
  stream : TokenStream σ τ
  log : Array Event
  result : Except ReadError (Reply ω LinearPosition α)

/-- Runs the grammar over the tokens from `c` on; both streams are let go when it ends. -/
def run (p : Pipeline τ π ρ ω κ α) (fuel : Nat) (stream : TokenStream σ τ) (c : Cursor τ π) :
    Option (Outcome σ τ ω α) :=
  match p.lexer.tokenize fuel stream p.lexerRules c p.chunkSize with
  | none => none
  | some ⟨tokens, .error e, events⟩ => some ⟨tokens.source.stream, events, .error e⟩
  | some ⟨tokens, .ok _, events⟩ =>
    let start := tokens.start
    match p.grammar.parse fuel ⟨tokens, p.grammarRules, events⟩ start with
    | none => none
    | some ⟨store, result⟩ => some ⟨store.stream.source.stream, store.log, result⟩

end Pipeline

end StreamParsing
