import ScriptFront.Problem

/-! # Diagnostics — problems made presentable

    A diagnostic is a message of some severity about a marked stretch of a named text, with an
    optional code and hint and with notes on other places.  A problem becomes an error. -/

namespace ScriptFront

/-- How bad something is.  Only an error stops the front end. -/
inductive Severity
  | error
  | warning
  | note
deriving DecidableEq, Repr

namespace Severity

/-- The word for a severity. -/
def word : Severity → String
  | error => "error"
  | warning => "warning"
  | note => "note"

/-- Reads the word for a severity. -/
def ofWord? (s : String) : Option Severity :=
  [error, warning, note].find? fun severity => severity.word == s

/-- The complaint about a word for no severity. -/
def complaint (s : String) : String := Text.Quoted.quoted s ++ " is not a valid Severity"

end Severity

/-- A stretch of a text: where it begins, both counted from one, and how many characters it has. -/
structure Location where
  file : String
  line : Int
  column : Int
  length : Int := 1
deriving DecidableEq, Repr

/-- A location without its length, as it is shown. -/
def Location.text (l : Location) : String :=
  l.file ++ ":" ++ toString l.line ++ ":" ++ toString l.column

/-- A message about a location, with notes on other places. -/
structure Diagnostic where
  severity : Severity
  message : String
  location : Location
  code : Option ErrorCode := none
  help : Option String := none
  related : List Diagnostic := []

namespace Diagnostic

/-- A bare note on a place. -/
def note (message file : String) (line column : Int) : Diagnostic :=
  { severity := .note, message, location := { file, line, column } }

/-- Whether the front end stops at it. -/
def isError (d : Diagnostic) : Bool := d.severity = .error

/-- Replaces the hint. -/
def withHelp (d : Diagnostic) (help : Option String) : Diagnostic := { d with help }

/-- Adds a note on another place of the same file, behind the notes there are. -/
def withNote (d : Diagnostic) (message : String) (line column : Int) : Diagnostic :=
  { d with related := d.related ++ [.note message d.location.file line column] }

end Diagnostic

/-- The column at which a problem is shown: the first one if it has none. -/
def Problem.shownColumn (p : Problem) : Int :=
  match p.column with
  | none => 1
  | some column => if column = 0 then 1 else column

/-- A problem as an error that marks some characters of a file. -/
def Problem.toDiagnostic (p : Problem) (file : String) (length : Int) : Diagnostic where
  severity := .error
  message := p.cause.message
  location := { file, line := p.line, column := p.shownColumn, length }
  code := p.cause.code
  help := p.cause.help

/-- How many characters of the text a problem is about: a name is marked as a whole. -/
def Problem.markedLength (p : Problem) : Nat :=
  match p.cause.name? with
  | none => 1
  | some name => name.length

end ScriptFront
