import ScriptFront.Diagnostic
import ScriptFront.Text.Lines

/-! # Excerpts — the lines a diagnostic is about, with the marked stretch underlined

    An excerpt shows the reported line and at most one line on each side, led by their numbers in a
    gutter.  Below the reported line stand carets under the marked stretch; tabs before it are
    kept, so that both rows are indented alike. -/

namespace ScriptFront.Report

/-- How many columns the gutter has before its bar. -/
def gutterWidth : Nat := 5

/-- A gutter without a number. -/
def blankGutter : List Char := List.replicate gutterWidth ' '

/-- A row with nothing but the bar. -/
def emptyRow : List Char := blankGutter ++ ['|', '\n']

/-- A number pushed to the right end of some columns; a wider one takes what it needs. -/
def rightAligned (width n : Nat) : List Char :=
  let digits := Nat.toDigits 10 n
  List.replicate (width - digits.length) ' ' ++ digits

/-! ## Underlines -/

/-- What stands before the carets: blanks, and the tabs of the text. -/
def indent (text : List Char) (column : Int) : List Char :=
  (text.take (column - 1).toNat).map fun c => if c = '\t' then '\t' else ' '

/-- The carets under a stretch; an empty stretch is marked by one. -/
def carets (length : Int) : List Char := List.replicate (max 1 length).toNat '^'

/-- The row of carets under a line of text. -/
def underline (text : List Char) (column length : Int) : List Char :=
  blankGutter ++ ['|', ' '] ++ indent text column ++ carets length ++ ['\n']

/-! ## Rows -/

/-- A line of text with its number. -/
def numbered (n : Nat) (text : List Char) : List Char :=
  rightAligned (gutterWidth - 1) n ++ [' ', '|', ' '] ++ text ++ ['\n']

/-- The lines around one of them, with their numbers: `index` counts from zero, numbers from
    one. -/
def neighbours (lines : List (List Char)) (index : Nat) : List (List Char × Nat) :=
  ((lines.zipIdx 1).drop (index - 1)).take (index + 2 - (index - 1))

/-- The index of a reported line, if the text has it. -/
def index? (lines : List (List Char)) (line : Int) : Option Nat :=
  if 1 ≤ line ∧ line ≤ lines.length then some (line - 1).toNat else none

/-- A line of text and, if it is the reported one, the carets under it. -/
def row (l : Location) (line : List Char × Nat) : List Char :=
  numbered line.2 line.1
    ++ if (line.2 : Int) = l.line then underline line.1 l.column l.length else []

/-- The excerpt for a location: a mere bar if the text does not have the line. -/
def excerpt (lines : List (List Char)) (l : Location) : List Char :=
  match index? lines l.line with
  | none => emptyRow
  | some index => emptyRow ++ (neighbours lines index).flatMap (row l) ++ emptyRow

end ScriptFront.Report
