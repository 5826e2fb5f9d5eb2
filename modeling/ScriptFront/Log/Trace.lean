import ScriptFront.Compilation
import ScriptFront.Log.Record
import ScriptFront.ParserPool
import ScriptFront.Program.Source

/-! # Log traces — what each pass logs

    The records of a pass follow from its result: a pass that ends in a problem does not log its
    last record, and no later pass logs anything. -/

namespace ScriptFront.Log

/-! ## Single passes -/

/-- A scan that comes to the end of its text. -/
def ofTokens (tokens : List Token) : Record :=
  .debug .scanner
    ("Scanned " ++ toString tokens.length ++ " tokens over "
      ++ toString (endPosition tokens).line ++ " lines")

/-- A parser that is built. -/
def ofCreation (debug : Bool) : Record :=
  .debug .parser
    ("Creating lalr parser (debug=" ++ (if debug then "True" else "False") ++ ")")

/-- A grammar that is read. -/
def ofGrammar (path : String) : Record := .debug .parser ("Loading grammar from " ++ path)

/-- A request to a parser pool: only a parser that is built is told of, and after it the grammar if
    it is read for that parser. -/
def ofRequest (p : ParserPool) (r : ParserPool.Request) : List Record :=
  match r, (p.perform r).1 with
  | .create debug, .parser _ true readsGrammar =>
    ofCreation debug :: if readsGrammar then [ofGrammar p.grammarPath] else []
  | _, _ => []

/-- The parse of some tokens: an invalid target is found only after all tokens are parsed. -/
def ofParse (tokens : List Token) : List Record :=
  let parsed : Record := .debug .parser ("Parsed " ++ toString tokens.length ++ " tokens")
  match parse tokens with
  | .ok p =>
    [parsed,
     .debug .builder
       ("Built program with " ++ toString p.statements.length ++ " top-level statements")]
  | .error p => if p.cause = .invalidTarget then [parsed] else []

/-- The parse of some tokens with a parser of the pool. -/
def ofParseWith (pool : ParserPool) (options : Options) (tokens : List Token) : List Record :=
  ofRequest pool (.create options.debugParser) ++ ofParse tokens

/-- The definition of a name. -/
def ofDefinition (s : Symbol) : Record :=
  .debug .symbols
    ("Defined " ++ s.kind.word ++ " " ++ s.name ++ " of type " ++ s.type.getD "None")

/-- A step of an analysis. -/
def ofEvent : Analysis.Event → Record
  | .defined s => ofDefinition s
  | .leftUnresolved typeName =>
    .debug .analyzer ("Unknown type " ++ typeName ++ " left unresolved")

/-- An analysis that begins in a state and ends in another one, or in a problem. -/
def ofAnalysis (statements : List Outline) (before : Analysis.State) :
    Analysis.State × Option Problem → List Record
  | (after, problem) =>
    .debug .analyzer ("Analyzing " ++ toString statements.length ++ " statements")
      :: (after.events.drop before.events.length).map ofEvent
      ++ match problem with
         | some _ => []
         | none =>
           [.debug .analyzer ("Analysis complete, " ++ toString after.table.size ++ " symbols")]

/-- The scan and the parse of a text. -/
def ofSource (pool : ParserPool) (options : Options) (source : String) : List Record :=
  match scan source with
  | .error _ => []
  | .ok tokens => ofTokens tokens :: ofParseWith pool options tokens

/-- A problem that becomes a diagnostic. -/
def ofConversion (c : Cause) : Record :=
  .debug .diagnostics ("Converting " ++ c.kind.label ++ " to diagnostic")

/-- A message whose template is filled. -/
def ofMessage (code : ErrorCode) (args : Text.Template.Arguments) : List Record :=
  match code.template.unfilled? args with
  | none => []
  | some name =>
    [⟨.codes, .warning, "Missing parameter for error message: '" ++ name ++ "'"⟩]

/-- An operation on a symbol table. -/
def ofAnswer : SymbolTable.Answer → List Record
  | .symbol s => [ofDefinition s]
  | _ => []

end ScriptFront.Log
