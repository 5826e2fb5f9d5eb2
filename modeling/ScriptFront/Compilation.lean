import ScriptFront.Analysis.Basic
import ScriptFront.Diagnostic
import ScriptFront.Options
import ScriptFront.Program.Parsing
import ScriptFront.Token.Lexer

/-! # Compilation — a text taken through all passes

    A text is scanned, parsed and analysed; the first problem ends the compilation.  Validation
    shows that problem as an error, or else a warning for each variable left without a type. -/

namespace ScriptFront

/-- What all passes together make of a text. -/
structure Compilation where
  tokens : List Token
  program : Program
  analysis : Analysis.State

/-- Takes a text through all passes. -/
def compile (options : Options) (source : String) : Except Problem Compilation :=
  match scan source with
  | .error p => .error p
  | .ok tokens =>
    match parse tokens with
    | .error p => .error p
    | .ok program =>
      match Analysis.analyze options.strictTypes program with
      | (analysis, none) => .ok ⟨tokens, program, analysis⟩
      | (_, some p) => .error p

/-! ## Validation -/

/-- The name of a text that has no file. -/
def unnamedFile : String := "<input>"

/-- The hint that names the builtin types. -/
def builtinTypesHelp : String :=
  "builtin types are: " ++ ", ".intercalate builtinTypes

/-- The warning that a variable is left without a type; it marks the name of the type. -/
def Analysis.Unresolved.toDiagnostic (u : Analysis.Unresolved) (file : String) : Diagnostic where
  severity := .warning
  message :=
    ErrorCode.untypedVariable.message
      [("name", u.typeName.lexeme), ("variable", u.name.lexeme)]
  location :=
    { file
      line := u.typeName.position.line
      column := u.typeName.position.column
      length := u.typeName.lexeme.length }
  code := some .untypedVariable
  help := some builtinTypesHelp

/-- What is to be said about a text: the problem that ends its compilation, or the warnings. -/
def validate (options : Options) (file source : String) : List Diagnostic :=
  match compile options source with
  | .error p => [p.toDiagnostic file p.markedLength]
  | .ok c => c.analysis.unresolved.map fun u => u.toDiagnostic file

/-! ## Counts -/

/-- How many things of each kind are declared. -/
structure Counts where
  functionCount : Nat := 0
  classCount : Nat := 0
  variableCount : Nat := 0
deriving DecidableEq, Repr

/-- Counts one more statement. -/
def Counts.add (c : Counts) : Stmt → Counts
  | .function _ => { c with functionCount := c.functionCount + 1 }
  | .classDecl .. => { c with classCount := c.classCount + 1 }
  | .varDecl .. => { c with variableCount := c.variableCount + 1 }
  | _ => c

/-- The declarations at the top level of a program. -/
def Program.counts (p : Program) : Counts :=
  p.statements.foldl Counts.add {}

/-- The declarations at the top level of a text; none if it does not compile with lenient types. -/
def sourceCounts (source : String) : Counts :=
  match compile .default source with
  | .error _ => {}
  | .ok c => c.program.counts

end ScriptFront
