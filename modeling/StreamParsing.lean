import StreamParsing.Main
import StreamParsing.Proofs.Fuel
import StreamParsing.Proofs.Evaluation
import StreamParsing.Proofs.Machine.Steps
import StreamParsing.Proofs.Machine.Path
import StreamParsing.Proofs.Machine.Retention
import StreamParsing.Proofs.Machine.Refinement
import StreamParsing.Proofs.Stream.Places
import StreamParsing.Proofs.Stream.Session
import StreamParsing.Proofs.Stream.Delivery
import StreamParsing.Proofs.Stream.ReadOnce
import StreamParsing.Proofs.Opacity.Likeness
import StreamParsing.Proofs.Opacity.Pending
import StreamParsing.Proofs.Opacity.Lockstep
import StreamParsing.Proofs.Opacity.Chunking
import StreamParsing.Proofs.Machine.Depth
import StreamParsing.Proofs.Machine.Forward
import StreamParsing.Proofs.Machine.Finite
import StreamParsing.Proofs.Machine.Halting
import StreamParsing.Proofs.Opacity.Locality
import StreamParsing.Proofs.Encoding.Decoding
import StreamParsing.Proofs.Machine.Reports
import StreamParsing.Proofs.Tokens.Lexing
import StreamParsing.Proofs.Tokens.Tokenizing
import StreamParsing.Proofs.Opacity.Following
import StreamParsing.Proofs.Tokens.Phases
import StreamParsing.Proofs.Stream.History
import StreamParsing.Proofs.Stream.Coordinates
import StreamParsing.Proofs.Stream.Remains
import StreamParsing.Proofs.Opacity.Loss
import StreamParsing.Proofs.Tokens.Notices
import StreamParsing.Proofs.Tokens.Tower
import StreamParsing.Proofs.Machine.Verdicts
import StreamParsing.Proofs.Calculator.Syntax
import StreamParsing.Proofs.Calculator.Parsing
import StreamParsing.Proofs.Machine.Aborts
import StreamParsing.Proofs.Repetition.Counted
import StreamParsing.Proofs.Stream.Collecting
import StreamParsing.Proofs.Stream.TextReading
import StreamParsing.Proofs.WordCount.Words
import StreamParsing.Proofs.WordCount.Counting
import StreamParsing.Proofs.Machine.Holding
import StreamParsing.Proofs.Machine.Growth
import StreamParsing.Proofs.Machine.Again
import StreamParsing.Proofs.Repetition.Outcomes
import StreamParsing.Proofs.Repetition.Agreement
import StreamParsing.Proofs.Repetition.Separated
import StreamParsing.Proofs.Renaming.Twins
import StreamParsing.Proofs.Renaming.Tables
import StreamParsing.Proofs.Renaming.Builders
import StreamParsing.Proofs.Renaming.Simulation
import StreamParsing.Proofs.Renaming.FixedPoint
import StreamParsing.Proofs.Renaming.Repeating
import StreamParsing.Proofs.Renaming.Regrouping
import StreamParsing.Proofs.Renaming.Visits
import StreamParsing.Proofs.Renaming.Replacing
import StreamParsing.Proofs.Repetition.Terminated
import StreamParsing.Proofs.Machine.Findings
import StreamParsing.Proofs.Repetition.Sequences
import StreamParsing.Proofs.Machine.Ahead
import StreamParsing.Proofs.Repetition.Stages
import StreamParsing.Proofs.Literals.Integers
import StreamParsing.Proofs.Literals.Longest
import StreamParsing.Proofs.Literals.Decimals
import StreamParsing.Proofs.Literals.Fixed
import StreamParsing.Proofs.Calculator.Lexing
