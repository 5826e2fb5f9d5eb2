import ScriptFront.Program.Agreement
import ScriptFront.Program.Parsing
import ScriptFront.Token.Lexer

/-! # Programs of texts — a text read and two texts compared

    A problem of the scanner comes before any problem of the grammar: a text is scanned to its end
    before it is parsed, and two texts are both scanned before either is parsed. -/

namespace ScriptFront

/-- The program of a text. -/
def Program.ofSource (source : String) : Except Problem Program :=
  match scan source with
  | .error p => .error p
  | .ok tokens => parse tokens

/-- A text that is a program is scanned and parsed. -/
theorem ofSource_eq_ok_iff {source : String} {p : Program} :
    Program.ofSource source = .ok p
      ↔ ∃ tokens, scan source = .ok tokens ∧ parse tokens = .ok p := by
  rw [Program.ofSource]
  cases scan source with
  | error q => simp
  | ok tokens => simp

/-- Whether two texts have agreeing tokens and agreeing programs. -/
structure Comparison where
  tokensAgree : Bool
  programsAgree : Bool
deriving DecidableEq, Repr

/-- Compares two texts. -/
def Comparison.ofSources (source other : String) : Except Problem Comparison := do
  let tokens ← scan source
  let others ← scan other
  let program ← parse tokens
  let otherProgram ← parse others
  return ⟨agreeAll Token.agrees tokens others, program.agrees otherProgram⟩

end ScriptFront
