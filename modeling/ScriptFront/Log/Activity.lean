import ScriptFront.Log.Trace

/-! # Log activities — what can be done while a log is kept

    An activity is one use of the front end.  What it answers, what it logs and the parsers it
    leaves depend on nothing but the activity and the parsers that are there. -/

namespace ScriptFront.Log

/-- A use of the front end; `quiet` stands for all that never log. -/
inductive Activity
  | scan (source : String) (times : Nat)
  | parse (options : Options) (source : String)
  | parseTokens (options : Options) (tokens : List Token)
  | analyze (options : Options) (source : String) (runs : Nat)
  | analyzeStatements (options : Options) (statements : List Outline)
  | compile (options : Options) (file source : String)
  | validate (options : Options) (file source : String)
  | count (source : String)
  | check (options : Options) (file source : String)
  | compare (source other : String)
  | useTable (table : SymbolTable) (operations : List SymbolTable.Operation)
  | formatMessage (code : ErrorCode) (args : Text.Template.Arguments)
  | convert (problem : Problem) (file : String) (length : Int)
  | usePool (requests : List ParserPool.Request)
  | quiet

namespace Activity

/-! ## Answers -/

/-- What an activity comes to. -/
def Answer : Activity → Type
  | scan .. => List (Except Problem (List Token))
  | parse .. | parseTokens .. => Except Problem Program
  | analyze .. => Except Problem (List (Analysis.State × Option Problem))
  | analyzeStatements .. => List (Analysis.State × Option Problem)
  | compile .. => Except Problem Compilation
  | validate .. => List Diagnostic
  | count _ => Counts
  | check .. => List Diagnostic × Counts
  | compare .. => Except Problem Comparison
  | useTable .. => List (SymbolTable.Answer × SymbolTable)
  | formatMessage .. => String
  | convert .. => Diagnostic
  | usePool _ => List ParserPool.Answer
  | quiet => Unit

/-- What an activity answers: only requests for parsers are answered from the pool. -/
def answer (pool : ParserPool) : (a : Activity) → a.Answer
  | scan source times => Scanner.scanTimes times (.ofSource source)
  | parse _ source => Program.ofSource source
  | parseTokens _ tokens => ScriptFront.parse tokens
  | analyze options source runs =>
    (Program.ofSource source).map fun p =>
      Analysis.executeTimes options.strictTypes p.outlines runs {}
  | analyzeStatements options statements =>
    Analysis.executeTimes options.strictTypes statements 1 {}
  | compile options _ source => ScriptFront.compile options source
  | validate options file source => ScriptFront.validate options file source
  | count source => sourceCounts source
  | check options file source => (ScriptFront.validate options file source, sourceCounts source)
  | compare source other => Comparison.ofSources source other
  | useTable table operations => table.performAll operations
  | formatMessage code args => code.message args
  | convert problem file length => problem.toDiagnostic file length
  | usePool requests => pool.performAll requests
  | quiet => ()

/-! ## Parsers -/

end Activity

end ScriptFront.Log
