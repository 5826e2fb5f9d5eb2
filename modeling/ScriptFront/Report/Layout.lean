import ScriptFront.Report.Excerpt
import ScriptFront.Report.Summary

/-! # Layout of diagnostics — a header, the place, an excerpt, a hint and notes

    Excerpts are taken from the texts that are known by the names of their files. -/

namespace ScriptFront.Report

/-- Texts by the names of their files; the first of a name counts. -/
abbrev Sources := List (String × String)

/-- Makes a text known, in place of an earlier one of the same file. -/
def Sources.add (s : Sources) (file source : String) : Sources := (file, source) :: s

/-- The lines of a file; none if it is not known. -/
def Sources.lines (s : Sources) (file : String) : List (List Char) :=
  match s.lookup file with
  | none => []
  | some source => Text.Lines.split source.toList

/-- The severity, the code if there is one, and the message. -/
def header (d : Diagnostic) : String :=
  match d.code with
  | none => d.severity.word ++ ": " ++ d.message ++ "\n"
  | some code => d.severity.word ++ "[" ++ code.text ++ "]: " ++ d.message ++ "\n"

/-- The row that points at a location. -/
def pointer (l : Location) : String := "  --> " ++ l.text ++ "\n"

/-- The row of a hint; an empty hint has none. -/
def hint (help : Option String) : String :=
  match help with
  | none => ""
  | some text =>
    if text.isEmpty then ""
    else String.ofList blankGutter ++ "= help: " ++ text ++ "\n"

/-- A note below a diagnostic: its message and its place only. -/
def footnote (d : Diagnostic) : String :=
  "\nnote: " ++ d.message ++ "\n" ++ pointer d.location

/-- A diagnostic as text. -/
def layout (sources : Sources) (d : Diagnostic) : String :=
  header d ++ pointer d.location
    ++ String.ofList (excerpt (sources.lines d.location.file) d.location)
    ++ hint d.help ++ String.join (d.related.map footnote)

/-- Some diagnostics as text, with empty lines between them and, if asked for, a summary. -/
def layoutAll (sources : Sources) (withSummary : Bool) (ds : List Diagnostic) : String :=
  if ds.isEmpty then ""
  else
    "\n".intercalate (ds.map (layout sources))
      ++ if withSummary then "\n" ++ summary ds else ""

end ScriptFront.Report
