import ScriptFront.Compilation

/-! # Summaries — how many problems there are, or what a sound text declares -/

namespace ScriptFront.Report

/-- A number of things in words. -/
def counted (n : Nat) (one many : String) : String :=
  toString n ++ " " ++ if n = 1 then one else many

/-- How many diagnostics have a severity. -/
def countOf (severity : Severity) (ds : List Diagnostic) : Nat :=
  ds.countP fun d => d.severity = severity

/-- The file that some diagnostics are about, or how many files they are about. -/
def place (ds : List Diagnostic) : String :=
  match (ds.map fun d => d.location.file).eraseDups with
  | [file] => file
  | files => toString files.length ++ " files"

/-- A number of things, unless there are none. -/
def countedIfAny (n : Nat) (one many : String) : List String :=
  if n = 0 then [] else [counted n one many]

/-- The errors and warnings among some diagnostics; empty if there are none. -/
def summary (ds : List Diagnostic) : String :=
  let parts :=
    countedIfAny (countOf .error ds) "error" "errors"
      ++ countedIfAny (countOf .warning ds) "warning" "warnings"
  if parts.isEmpty then ""
  else "Found " ++ " and ".intercalate parts ++ " in " ++ place ds ++ "\n"

/-- The message for a sound text: what it declares. -/
def success (c : Counts) : String :=
  let parts :=
    countedIfAny c.functionCount "function" "functions"
      ++ countedIfAny c.classCount "class" "classes"
      ++ countedIfAny c.variableCount "variable" "variables"
  if parts.isEmpty then "valid" else "valid (" ++ ", ".intercalate parts ++ ")"

end ScriptFront.Report
