import ScriptFront.Compilation
import ScriptFront.Json.Basic

/-! # Diagnostic documents — diagnostics as JSON

    A document lists the errors and the warnings of a file, each with all its fields.  Notes appear
    only where they are related to another diagnostic. -/

namespace ScriptFront

/-- A location as JSON. -/
def Location.toJson (l : Location) : Json :=
  .object
    [("file", .string l.file), ("line", .number l.line), ("column", .number l.column),
     ("length", .number l.length)]

/-- A member that is left out if there is no text. -/
def Json.optionalMember (key : String) : Option String → List (String × Json)
  | none => []
  | some s => [(key, .string s)]

/-- A member that is left out if the list is empty. -/
def Json.listMember (key : String) (items : List Json) : List (String × Json) :=
  if items.isEmpty then [] else [(key, .array items)]

mutual

/-- A diagnostic as JSON. -/
def Diagnostic.toJson : Diagnostic → Json
  | ⟨severity, message, location, code, help, related⟩ =>
    .object <|
      [("severity", .string severity.word), ("message", .string message),
       ("location", location.toJson)]
      ++ Json.optionalMember "code" (code.map ErrorCode.text)
      ++ Json.optionalMember "help" help
      ++ Json.listMember "related" (Diagnostic.toJsons related)

/-- Some diagnostics as JSON. -/
def Diagnostic.toJsons : List Diagnostic → List Json
  | [] => []
  | d :: ds => d.toJson :: Diagnostic.toJsons ds

end

namespace Report

/-- A fact about a text: a number or a word. -/
inductive Fact
  | number (n : Int)
  | text (s : String)
deriving DecidableEq, Repr

/-- A fact as JSON. -/
def Fact.toJson : Fact → Json
  | number n => .number n
  | text s => .string s

/-- Facts by name, in the order in which their names first came up. -/
abbrev Facts := List (String × Fact)

/-- Notes a fact: in the place of an earlier one of the same name, else last. -/
def Facts.put (key : String) (fact : Fact) : Facts → Facts
  | [] => [(key, fact)]
  | (k, f) :: fs => if k = key then (k, fact) :: fs else (k, f) :: Facts.put key fact fs

/-- The facts that some pairs leave when they are noted one after the other. -/
def Facts.ofPairs (pairs : List (String × Fact)) : Facts :=
  pairs.foldl (fun fs (key, fact) => Facts.put key fact fs) []

/-- Counts of declarations as facts. -/
def Facts.ofCounts (c : Counts) : Facts :=
  [("functions", .number c.functionCount), ("classes", .number c.classCount),
   ("variables", .number c.variableCount)]

/-- The facts as a member, left out if there are none. -/
def Facts.members (fs : Facts) : List (String × Json) :=
  if fs.isEmpty then []
  else [("stats", .object (fs.map fun (key, fact) => (key, fact.toJson)))]

/-- The diagnostics of one severity. -/
def ofSeverity (severity : Severity) (ds : List Diagnostic) : List Diagnostic :=
  ds.filter fun d => d.severity = severity

/-- The document about a file. -/
def document (ds : List Diagnostic) (file : String) (facts : Facts) : Json :=
  let errors := ofSeverity .error ds
  .object <|
    [("version", .string "1.0"), ("file", .string file), ("valid", .bool errors.isEmpty),
     ("errors", .array (Diagnostic.toJsons errors)),
     ("warnings", .array (Diagnostic.toJsons (ofSeverity .warning ds)))]
    ++ facts.members

end Report

end ScriptFront
