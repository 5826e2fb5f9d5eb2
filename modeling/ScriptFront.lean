import ScriptFront.Text.Blank
import ScriptFront.Problem
import ScriptFront.Decimal.Layout
import ScriptFront.Decimal.Reading
import ScriptFront.Token.Lexer
import ScriptFront.Token.Written
import ScriptFront.Grammar.Automaton
import ScriptFront.Program.Outline
import ScriptFront.Program.Source
import ScriptFront.Options
import ScriptFront.Analysis.Basic
import ScriptFront.Compilation
import ScriptFront.Json.Written
import ScriptFront.Report.Layout
import ScriptFront.Report.Document
import ScriptFront.ParserPool
import ScriptFront.Log.Session
import ScriptFront.Proofs.Grammar.Derivation
import ScriptFront.Proofs.Grammar.NearestElse
import ScriptFront.Proofs.Grammar.Certificate
import ScriptFront.Proofs.Grammar.Items
import ScriptFront.Proofs.Grammar.Reading
import ScriptFront.Proofs.Grammar.Viability
import ScriptFront.Proofs.Grammar.Acceptance
import ScriptFront.Proofs.Grammar.Extended
import ScriptFront.Proofs.Program.Canonical
import ScriptFront.Proofs.Program.Expressions
import ScriptFront.Proofs.Program.Outcome
import ScriptFront.Proofs.Program.RoundTrip
import ScriptFront.Proofs.Analysis.Culprits
import ScriptFront.Proofs.Analysis.Steps
import ScriptFront.Proofs.Compilation.Places
import ScriptFront.Proofs.Token.MaximalMunch
import ScriptFront.Proofs.Analysis.Bindings
import ScriptFront.Proofs.Analysis.Meaning
import ScriptFront.Proofs.Analysis.Namespace
import ScriptFront.Proofs.Compilation.Strictness
import ScriptFront.Proofs.Analysis.Rerun
import ScriptFront.Proofs.Token.Joining
import ScriptFront.Proofs.Program.Unpacking
import ScriptFront.Proofs.Program.Moved
import ScriptFront.Proofs.Program.Declarations
import ScriptFront.Proofs.Compilation.Concatenation
import ScriptFront.Proofs.Program.Placeless
import ScriptFront.Proofs.Analysis.Placeless
import ScriptFront.Proofs.Compilation.Layout
import ScriptFront.Proofs.Grammar.Progress
import ScriptFront.Proofs.Compilation.Endings
import ScriptFront.Proofs.Token.Offsets
import ScriptFront.Proofs.Analysis.Untyped
import ScriptFront.Proofs.Compilation.Reports
import ScriptFront.Proofs.Json.Reading
import ScriptFront.Proofs.Report.Documents
import ScriptFront.Proofs.Decimal.Rounding
import ScriptFront.Proofs.Decimal.Written
import ScriptFront.Proofs.Decimal.Doubles
import ScriptFront.Proofs.Decimal.Lexemes
import ScriptFront.Proofs.Outline.Phrases
import ScriptFront.Proofs.Outline.Printed
import ScriptFront.Proofs.Token.Genuine
import ScriptFront.Proofs.Program.Apparent
import ScriptFront.Proofs.Program.Decoding
import ScriptFront.Proofs.Program.Legible
import ScriptFront.Proofs.Report.Carets
import ScriptFront.Proofs.Program.Targets
import ScriptFront.Proofs.Grammar.Continuations
import ScriptFront.Proofs.Program.Expectations
import ScriptFront.Proofs.Token.Rejoining
import ScriptFront.Proofs.Program.Kinds
import ScriptFront.Proofs.Program.Walk
import ScriptFront.Proofs.Analysis.Members
import ScriptFront.Proofs.Token.Agreement
import ScriptFront.Proofs.Program.Revalued
import ScriptFront.Proofs.Program.Agreement
import ScriptFront.Proofs.Analysis.Histories
import ScriptFront.Proofs.Token.Rescanning
import ScriptFront.Proofs.Log.Told
import ScriptFront.Proofs.Log.Delivery
import ScriptFront.Proofs.Report.Summaries
import ScriptFront.Proofs.ParserPool.Identity
import ScriptFront.Proofs.Compilation.Messages
