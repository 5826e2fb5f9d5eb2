import ScriptFront.ErrorCode
import ScriptFront.Token

/-! # Problems — what stops the front end, and where

    A problem is a cause with a place.  The cause decides the message, the code and the help text;
    the kinds of causes form a small tree whose root is the general problem. -/

namespace ScriptFront

/-- Why the front end stopped.  The causes `general`, `lexical` and `grammatical` carry a wording
    of the caller's, `named` shows a name only. -/
inductive Cause
  | general (message : String) (help : Option String)
  | lexical (message : String) (help : Option String)
  | unexpectedCharacter (text : String)
  | unterminatedString
  | grammatical (message : String) (help : Option String) (code : ErrorCode)
  | unexpectedToken (lexeme : String) (expected : List TokenKind)
  | unexpectedEnd (expected : List TokenKind)
  | invalidTarget
  | named (name : String)
  | alreadyDeclared (name : String)
  | notDefined (name : String)
  | unknownType (name : String)
deriving DecidableEq

/-- The kinds of problems. -/
inductive Cause.Kind
  | general
  | lexical
  | unexpectedCharacter
  | unterminatedString
  | grammatical
  | semantic
  | alreadyDeclared
  | notDefined
  | unknownType
deriving DecidableEq, Repr

namespace Cause

/-- The next wider kind; the general kind has none. -/
def Kind.wider? : Kind → Option Kind
  | general => none
  | lexical | grammatical | semantic => some general
  | unexpectedCharacter | unterminatedString => some lexical
  | alreadyDeclared | notDefined | unknownType => some semantic

/-- A kind and all wider ones, the narrowest first. -/
def Kind.lineage (k : Kind) : List Kind :=
  match k.wider? with
  | none => [k]
  | some wide =>
    match wide.wider? with
    | none => [k, wide]
    | some widest => [k, wide, widest]

/-- The name under which a kind is reported. -/
def Kind.label : Kind → String
  | general => "SprigError"
  | lexical => "ScanError"
  | unexpectedCharacter => "UnexpectedCharacterError"
  | unterminatedString => "UnterminatedStringError"
  | grammatical => "ParseError"
  | semantic => "SemanticError"
  | alreadyDeclared => "DuplicateDeclarationError"
  | notDefined => "UndefinedVariableError"
  | unknownType => "UnknownTypeError"

/-- The kind of a cause. -/
def kind : Cause → Kind
  | general .. => .general
  | lexical .. => .lexical
  | unexpectedCharacter .. => .unexpectedCharacter
  | unterminatedString => .unterminatedString
  | grammatical .. | unexpectedToken .. | unexpectedEnd .. | invalidTarget => .grammatical
  | named .. => .semantic
  | alreadyDeclared .. => .alreadyDeclared
  | notDefined .. => .notDefined
  | unknownType .. => .unknownType

/-- The code of a cause; causes worded by the caller have none unless they are grammatical. -/
def code : Cause → Option ErrorCode
  | general .. | lexical .. | named .. => none
  | unexpectedCharacter .. => some .unexpectedCharacter
  | unterminatedString => some .unterminatedString
  | grammatical _ _ code => some code
  | unexpectedToken .. | unexpectedEnd .. => some .unexpectedToken
  | invalidTarget => some .invalidTarget
  | alreadyDeclared .. => some .alreadyDeclared
  | notDefined .. => some .notDefined
  | unknownType .. => some .unknownType

/-- The message of a cause. -/
def message : Cause → String
  | general message _ | lexical message _ | grammatical message _ _ => message
  | unexpectedCharacter text => ErrorCode.unexpectedCharacter.message [("char", text)]
  | unterminatedString => ErrorCode.unterminatedString.message []
  | unexpectedToken lexeme _ => ErrorCode.unexpectedToken.message [("token", lexeme)]
  | unexpectedEnd _ => "unexpected end of input"
  | invalidTarget => ErrorCode.invalidTarget.message []
  | named name => name
  | alreadyDeclared name => ErrorCode.alreadyDeclared.message [("name", name)]
  | notDefined name => ErrorCode.notDefined.message [("name", name)]
  | unknownType name => ErrorCode.unknownType.message [("name", name)]

/-- The help that lists terminals; there is none if nothing is expected. -/
def expectation (expected : List TokenKind) : Option String :=
  if expected.isEmpty then none
  else some ("expected one of: " ++ ", ".intercalate (expected.map TokenKind.terminalName))

/-- The help text of a cause. -/
def help : Cause → Option String
  | general _ help | lexical _ help | grammatical _ help _ => help
  | unterminatedString => some "add a closing '\"'"
  | unexpectedToken _ expected | unexpectedEnd expected => expectation expected
  | invalidTarget => some "only variables and properties can be assigned to"
  | unexpectedCharacter .. | named .. | alreadyDeclared .. | notDefined .. | unknownType .. => none

/-- The name a semantic cause is about. -/
def name? : Cause → Option String
  | named name | alreadyDeclared name | notDefined name | unknownType name => some name
  | _ => none

end Cause

/-- A cause with its place.  A problem reported by a caller may have no column. -/
structure Problem where
  cause : Cause
  line : Int
  column : Option Int
deriving DecidableEq

namespace Problem

/-- A cause at a place of the text. -/
def ofCause (cause : Cause) (p : Position) : Problem :=
  ⟨cause, p.line, some p.column⟩

/-- A problem in one line, led by its line number. -/
def text (p : Problem) : String :=
  "line " ++ toString p.line ++ ": " ++ p.cause.message

end Problem

end ScriptFront
