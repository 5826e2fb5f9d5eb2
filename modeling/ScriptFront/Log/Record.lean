import ScriptFront.Token

/-! # Log records — what the parts of the front end say while they work -/

namespace ScriptFront.Log

/-- How much a record matters. -/
inductive Level
  | debug
  | info
  | warning
deriving DecidableEq, Repr

namespace Level

/-- The name of a level. -/
def name : Level → String
  | debug => "DEBUG"
  | info => "INFO"
  | warning => "WARNING"

/-- The rank of a level: what matters more ranks higher. -/
def rank : Level → Nat
  | debug => 0
  | info => 1
  | warning => 2

end Level

/-- The parts of the front end that log; `whole` is the front end itself. -/
inductive Channel
  | whole
  | scanner
  | parser
  | builder
  | analyzer
  | symbols
  | compiler
  | codes
  | diagnostics
deriving DecidableEq, Repr

/-- The name of a channel. -/
def Channel.name : Channel → String
  | whole => "sprig"
  | scanner => "sprig.lexer.scanner"
  | parser => "sprig.grammar.parser"
  | builder => "sprig.ast.transformer"
  | analyzer => "sprig.semantic.analyzer"
  | symbols => "sprig.semantic.symbols"
  | compiler => "sprig.compiler"
  | codes => "sprig.errors.codes"
  | diagnostics => "sprig.errors.diagnostics"

/-- A message of some level in a channel. -/
structure Record where
  channel : Channel
  level : Level
  message : String
deriving DecidableEq, Repr

namespace Record

/-- A record for debugging. -/
def debug (channel : Channel) (message : String) : Record := ⟨channel, .debug, message⟩

/-- A record as it is written. -/
def text (r : Record) : String :=
  r.channel.name ++ " - " ++ r.level.name ++ " - " ++ r.message

end Record

end ScriptFront.Log
