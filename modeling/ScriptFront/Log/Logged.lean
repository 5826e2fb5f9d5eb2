import ScriptFront.Log.Activity
import ScriptFront.Log.Logger

/-! # Logged programs — the front end with its log

    A logged program delivers records while it works.  What is made of several passes is told in the
    order in which they are done: a problem ends the passes, but not what was told before it. -/

namespace ScriptFront.Log

/-- What all uses of the front end share: its parsers and its log. -/
structure FrontEnd where
  pool : ParserPool := {}
  routing : Routing := {}

/-- A program that delivers records. -/
abbrev Logged (α : Type) := StateM FrontEnd α

/-- A logged program that may end in a problem. -/
abbrev Passes (α : Type) := ExceptT Problem (StateM FrontEnd) α

namespace Logged

/-- Delivers a record. -/
def say (r : Record) : Logged Unit := modify fun e => { e with routing := e.routing.deliver r }

/-- Delivers some records in their order. -/
def sayAll : List Record → Logged Unit
  | [] => return
  | r :: rs => do
    say r
    sayAll rs

/-! ## Single passes -/

/-- Scans the text of a scanner. -/
def scan (s : Scanner) : Logged (Except Problem (List Token) × Scanner) := do
  let (result, last) := s.scan
  match result with
  | .error p => return (.error p, last)
  | .ok tokens =>
    say (ofTokens tokens)
    return (.ok tokens, last)

/-- Scans the text of a scanner a number of times. -/
def scanTimes : Nat → Scanner → Logged (List (Except Problem (List Token)))
  | 0, _ => return []
  | n + 1, s => do
    let (result, last) ← scan s
    return result :: (← scanTimes n last)

/-- Scans a text. -/
def scanText (source : String) : Passes (List Token) := ExceptT.mk do
  let (result, _) ← scan (.ofSource source)
  return result

/-- Tells of a request for a parser. -/
def sayRequest (r : ParserPool.Request) : Logged Unit := do sayAll (ofRequest (← get).pool r)

/-- Takes a parser from the pool. -/
def takeParser (r : ParserPool.Request) : Logged ParserPool.Answer :=
  modifyGet fun e => ((e.pool.perform r).1, { e with pool := (e.pool.perform r).2 })

/-- Asks for a parser. -/
def askPool (r : ParserPool.Request) : Logged ParserPool.Answer := do
  sayRequest r
  takeParser r

/-- Parses some tokens with a parser of the pool. -/
def parse (options : Options) (tokens : List Token) : Passes Program := ExceptT.mk do
  let _ ← askPool (.create options.debugParser)
  sayAll (ofParse tokens)
  return ScriptFront.parse tokens

/-- Analyses some statements. -/
def analyze (strict : Bool) (statements : List Outline) (s : Analysis.State) :
    Logged (Analysis.State × Option Problem) := do
  let result := Analysis.execute strict statements s
  sayAll (ofAnalysis statements s result)
  return result

/-- Analyses some statements a number of times, each time with the state the last time left. -/
def analyzeTimes (strict : Bool) (statements : List Outline) :
    Nat → Analysis.State → Logged (List (Analysis.State × Option Problem))
  | 0, _ => return []
  | n + 1, s => do
    let result ← analyze strict statements s
    return result :: (← analyzeTimes strict statements n result.1)

/-! ## Whole texts -/

/-- Scans and parses a text. -/
def readSource (options : Options) (source : String) : Passes (List Token × Program) := do
  let tokens ← scanText source
  let program ← parse options tokens
  return (tokens, program)

/-- Takes the program of a text through the last pass. -/
def finish (options : Options) (file : String) (tokens : List Token) (program : Program) :
    Passes Compilation := do
  match ← analyze options.strictTypes program.outlines {} with
  | (_, some p) => throw p
  | (analysis, none) =>
    say (.debug .compiler
      ("Compiled " ++ file ++ ": " ++ toString tokens.length ++ " tokens, "
        ++ toString analysis.table.size ++ " symbols"))
    return ⟨tokens, program, analysis⟩

/-- Takes a text through all passes. -/
def compile (options : Options) (file source : String) : Passes Compilation := do
  say (.debug .compiler ("Compiling " ++ file))
  let (tokens, program) ← readSource options source
  finish options file tokens program

/-- Makes a diagnostic of a problem. -/
def convert (p : Problem) (file : String) (length : Int) : Logged Diagnostic := do
  say (ofConversion p.cause)
  return p.toDiagnostic file length

/-- Says what is to be said about a text. -/
def validate (options : Options) (file source : String) : Logged (List Diagnostic) := do
  say (.debug .compiler ("Validating " ++ file))
  match ← (compile options file source).run with
  | .error p =>
    say (.debug .compiler ("Validation of " ++ file ++ " failed: " ++ p.text))
    return [← convert p file p.markedLength]
  | .ok c => return c.analysis.unresolved.map fun u => u.toDiagnostic file

/-- Counts the declarations of a text. -/
def count (source : String) : Logged Counts := do
  match ← (compile .default unnamedFile source).run with
  | .error _ => return {}
  | .ok c => return c.program.counts

/-- Compares two texts: both are scanned before either is parsed. -/
def compare (source other : String) : Passes Comparison := do
  let tokens ← scanText source
  let others ← scanText other
  let program ← parse .default tokens
  let otherProgram ← parse .default others
  return ⟨agreeAll Token.agrees tokens others, program.agrees otherProgram⟩

/-! ## Tables, messages and parsers -/

/-- Performs some operations on a symbol table. -/
def useTable (t : SymbolTable) :
    List SymbolTable.Operation → Logged (List (SymbolTable.Answer × SymbolTable))
  | [] => return []
  | o :: os => do
    let (answer, next) := t.perform o
    sayAll (ofAnswer answer)
    return (answer, next) :: (← useTable next os)

/-- Fills the template of a message. -/
def formatMessage (code : ErrorCode) (args : Text.Template.Arguments) : Logged String := do
  sayAll (ofMessage code args)
  return code.message args

/-- Asks for some parsers. -/
def usePool : List ParserPool.Request → Logged (List ParserPool.Answer)
  | [] => return []
  | r :: rs => do
    let answer ← askPool r
    return answer :: (← usePool rs)

end Logged

open Logged

/-- Does an activity while a log is kept. -/
def Activity.run : (a : Activity) → Logged a.Answer
  | .scan source times => scanTimes times (.ofSource source)
  | .parse options source => (Prod.snd <$> readSource options source : Passes Program).run
  | .parseTokens options tokens => (Logged.parse options tokens).run
  | .analyze options source runs =>
    ExceptT.run do
      let (_, program) ← readSource options source
      analyzeTimes options.strictTypes program.outlines runs {}
  | .analyzeStatements options statements => analyzeTimes options.strictTypes statements 1 {}
  | .compile options file source => (Logged.compile options file source).run
  | .validate options file source => Logged.validate options file source
  | .count source => Logged.count source
  | .check options file source => do
    let diagnostics ← Logged.validate options file source
    return (diagnostics, ← Logged.count source)
  | .compare source other => (Logged.compare source other).run
  | .useTable table operations => Logged.useTable table operations
  | .formatMessage code args => Logged.formatMessage code args
  | .convert problem file length => Logged.convert problem file length
  | .usePool requests => Logged.usePool requests
  | .quiet => return ()

end ScriptFront.Log
