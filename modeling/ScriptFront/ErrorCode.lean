import ScriptFront.Text.Quoted
import ScriptFront.Text.Template

/-! # Error codes — stable names for the kinds of problems

    Every kind of problem that the front end itself finds has a code, a category and a message
    template. -/

namespace ScriptFront

open Text (Template)

/-- The kinds of problems that have a code. -/
inductive ErrorCode
  | unexpectedCharacter
  | unterminatedString
  | unexpectedToken
  | invalidTarget
  | alreadyDeclared
  | notDefined
  | unknownType
  | untypedVariable
deriving DecidableEq, Repr

/-- The pass that finds a problem; a warning stops no pass. -/
inductive ErrorCode.Category
  | lexical
  | syntactic
  | semantic
  | warning
deriving DecidableEq, Repr

namespace ErrorCode

/-- The word for a category. -/
def Category.word : Category → String
  | lexical => "lexical"
  | syntactic => "syntax"
  | semantic => "semantic"
  | warning => "warning"

/-- All codes, in the order of the passes. -/
def all : List ErrorCode :=
  [unexpectedCharacter, unterminatedString, unexpectedToken, invalidTarget, alreadyDeclared,
   notDefined, unknownType, untypedVariable]

/-- The code as shown to the user. -/
def text : ErrorCode → String
  | unexpectedCharacter => "E0001"
  | unterminatedString => "E0002"
  | unexpectedToken => "E0101"
  | invalidTarget => "E0102"
  | alreadyDeclared => "E0201"
  | notDefined => "E0202"
  | unknownType => "E0203"
  | untypedVariable => "W0001"

/-- Reads a code as shown to the user. -/
def ofText? (s : String) : Option ErrorCode :=
  all.find? fun code => code.text == s

/-- The complaint about a text that is no code. -/
def complaint (s : String) : String := Text.Quoted.quoted s ++ " is not a valid ErrorCode"

/-- The pass that finds problems of this code. -/
def category : ErrorCode → Category
  | unexpectedCharacter | unterminatedString => .lexical
  | unexpectedToken | invalidTarget => .syntactic
  | alreadyDeclared | notDefined | unknownType => .semantic
  | untypedVariable => .warning

/-- The wording of problems of this code. -/
def template : ErrorCode → Template
  | unexpectedCharacter => [.text "unexpected character '", .hole "char", .text "'"]
  | unterminatedString => [.text "unterminated string"]
  | unexpectedToken => [.text "unexpected token '", .hole "token", .text "'"]
  | invalidTarget => [.text "invalid assignment target"]
  | alreadyDeclared => [.text "variable '", .hole "name", .text "' is already declared"]
  | notDefined => [.text "variable '", .hole "name", .text "' is not defined"]
  | unknownType => [.text "unknown type '", .hole "name", .text "'"]
  | untypedVariable =>
      [.text "unknown type '", .hole "name", .text "', variable '", .hole "variable",
       .text "' is left untyped"]

/-- The message of a problem of this code. -/
def message (code : ErrorCode) (args : Template.Arguments) : String :=
  code.template.format args

end ErrorCode

end ScriptFront
