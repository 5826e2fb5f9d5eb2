import ScriptFront.Program.Outline
import ScriptFront.Proofs.Outline.Printed

/-! # Apparent programs — what a printed program looks like

    Two things look alike in print.  A clause of a `for` that is the variable `_` looks like an
    absent one, and an infinite number looks like the variable `inf`.  The apparent program has the
    absent clause and the variable instead, and it is printed as the same text
    (`Program.printed_apparent`). -/

namespace ScriptFront

open Outline

/-- The token of a name. -/
def Token.named (w : String) : Token := { kind := .identifier, lexeme := w }

/-- What a value looks like: infinity is written as a name. -/
def Literal.apparent : Literal → Expr
  | .number x => if x = Decimal.infinity then .var (.named "inf") else .literal (.number x)
  | v => .literal v

/-- A number of 309 digits can be infinite. -/
example : (Literal.number (Decimal.lexemeValue (List.replicate 309 '9'))).apparent
    = .var (.named "inf") := by
  have infinite : Decimal.lexemeValue (List.replicate 309 '9') = Decimal.infinity := by
    decide +kernel
  rw [infinite, Literal.apparent, if_pos rfl]

namespace Expr

mutual

/-- What an expression looks like. -/
def apparent : Expr → Expr
  | assign name value => assign name value.apparent
  | binary left operator right => binary left.apparent operator right.apparent
  | call callee paren arguments => call callee.apparent paren (apparentAll arguments)
  | get object name => get object.apparent name
  | grouping inner => grouping inner.apparent
  | literal value => value.apparent
  | logical left operator right => logical left.apparent operator right.apparent
  | set object name value => set object.apparent name value.apparent
  | super keyword method => super keyword method
  | this keyword => this keyword
  | unary operator right => unary operator right.apparent
  | var name => var name

/-- What some expressions look like. -/
def apparentAll : List Expr → List Expr
  | [] => []
  | e :: es => e.apparent :: apparentAll es

end

/-- Whether an expression is the variable `_`. -/
def isUnderscore : Expr → Bool
  | var name => name.lexeme == "_"
  | _ => false

/-- What a clause of a `for` looks like: the variable `_` is written for an absent one. -/
def apparentClause : Option Expr → Option Expr
  | none => none
  | some e => if e.isUnderscore then none else some e.apparent

end Expr

namespace Stmt

mutual

/-- What a statement looks like. -/
def apparent : Stmt → Stmt
  | expression value => expression value.apparent
  | print keyword value => print keyword value.apparent
  | varDecl name typeName initializer => varDecl name typeName (initializer.map Expr.apparent)
  | block statements => block (apparentAll statements)
  | conditional condition thenBranch elseBranch =>
      conditional condition.apparent thenBranch.apparent (apparentPart elseBranch)
  | whileLoop condition body => whileLoop condition.apparent body.apparent
  | forLoop initializer condition increment body =>
      forLoop (apparentPart initializer) (Expr.apparentClause condition)
        (Expr.apparentClause increment) body.apparent
  | breakLoop keyword => breakLoop keyword
  | continueLoop keyword => continueLoop keyword
  | returnValue keyword value => returnValue keyword (value.map Expr.apparent)
  | function decl => function (apparentFunction decl)
  | classDecl name superclass methods => classDecl name superclass (apparentFunctions methods)
  | program statements => program (apparentAll statements)

/-- What some statements look like. -/
def apparentAll : List Stmt → List Stmt
  | [] => []
  | s :: ss => s.apparent :: apparentAll ss

/-- What an optional statement looks like. -/
def apparentPart : Option Stmt → Option Stmt
  | none => none
  | some s => some s.apparent

/-- What a function looks like. -/
def apparentFunction : FunctionDecl Stmt → FunctionDecl Stmt
  | ⟨name, parameters, body⟩ => ⟨name, parameters, apparentAll body⟩

/-- What some functions look like. -/
def apparentFunctions : List (FunctionDecl Stmt) → List (FunctionDecl Stmt)
  | [] => []
  | f :: fs => apparentFunction f :: apparentFunctions fs

end

end Stmt

/-- What a program looks like. -/
def Program.apparent (p : Program) : Program := ⟨Stmt.apparentAll p.statements⟩

/-! ## Phrases -/

namespace Expr

theorem phrase?_literal (v : Literal) :
    v.apparent.outline.phrase? = (Expr.literal v).outline.phrase? := by
  cases v with
  | null => rfl
  | bool b => rfl
  | number x =>
      show (if x = Decimal.infinity then Expr.var (.named "inf") else _).outline.phrase?
        = some (if x = Decimal.infinity then _ else _)
      split
      · rfl
      · rename_i finite
        exact congrArg some (if_neg finite)
  | text s => rfl

mutual

/-- An expression has the phrase of what it looks like. -/
theorem phrase?_apparent : ∀ e : Expr, e.apparent.outline.phrase? = e.outline.phrase?
  | assign name value | get value name | unary name value => by
      simp [apparent, outline, phrase?, phrases, Head.phrase, phrase?_apparent value]
  | binary left operator right | logical left operator right | set left operator right => by
      simp [apparent, outline, phrase?, phrases, Head.phrase, phrase?_apparent left,
        phrase?_apparent right]
  | call callee paren arguments => by
      simp [apparent, outline, phrase?, phrases, Head.phrase, phrase?_apparent callee,
        phrases_apparentAll arguments]
  | grouping inner => by
      simp [apparent, outline, phrase?, phrases, Head.phrase, phrase?_apparent inner]
  | literal value => phrase?_literal value
  | super _ _ | this _ | var _ => rfl

theorem phrases_apparentAll :
    ∀ es : List Expr, phrases (outlines (apparentAll es)) = phrases (outlines es)
  | [] => rfl
  | e :: es => by
      simp [apparentAll, outlines, phrases, phrase?_apparent e, phrases_apparentAll es]

end

theorem phrase?_apparentPart (e : Option Expr) :
    (outlinePart (e.map apparent)).phrase? = (outlinePart e).phrase? := by
  cases e with
  | none => rfl
  | some e => exact e.phrase?_apparent

/-- A clause is printed like what it looks like. -/
theorem getD_phrase?_apparentClause (e : Option Expr) :
    (outlinePart (apparentClause e)).phrase?.getD (.word "_")
      = (outlinePart e).phrase?.getD (.word "_") := by
  cases e with
  | none => rfl
  | some e =>
      rw [apparentClause]
      split
      · rename_i underscore
        cases e with
        | var name =>
            have same : name.lexeme = "_" := eq_of_beq underscore
            show Phrase.word "_" = .word name.lexeme
            rw [same]
        | _ => cases underscore
      · exact congrArg (Option.getD · _) e.phrase?_apparent

end Expr

namespace Stmt

mutual

/-- A statement has the phrase of what it looks like. -/
theorem phrase?_apparent : ∀ s : Stmt, s.apparent.outline.phrase? = s.outline.phrase?
  | expression value | print _ value => by
      simp [apparent, outline, phrase?, phrases, Head.phrase, value.phrase?_apparent]
  | varDecl name typeName initializer => by
      simp only [apparent, outline, phrase?, phrases, Expr.phrase?_apparentPart initializer]
  | block statements | program statements => by
      simp only [apparent, outline, phrase?, phrases_apparentAll statements]
  | conditional condition thenBranch elseBranch => by
      simp only [apparent, outline, phrase?, phrases, condition.phrase?_apparent,
        phrase?_apparent thenBranch, phrase?_apparentPart elseBranch]
  | whileLoop condition body => by
      simp only [apparent, outline, phrase?, phrases, condition.phrase?_apparent,
        phrase?_apparent body]
  | forLoop initializer condition increment body => by
      simp [apparent, outline, phrase?, phrases, Head.phrase, phrase?_apparentPart initializer,
        Expr.getD_phrase?_apparentClause, phrase?_apparent body]
  | breakLoop _ | continueLoop _ => rfl
  | returnValue _ value => by
      simp only [apparent, outline, phrase?, phrases, Expr.phrase?_apparentPart value]
  | function decl => phrase?_apparentFunction decl
  | classDecl name superclass methods => by
      simp only [apparent, outline, phrase?, phrases, phrases_apparentFunctions methods]

theorem phrases_apparentAll :
    ∀ ss : List Stmt, phrases (outlines (apparentAll ss)) = phrases (outlines ss)
  | [] => rfl
  | s :: ss => by
      rw [apparentAll, outlines, outlines, phrases, phrases, phrase?_apparent s,
        phrases_apparentAll ss]

theorem phrase?_apparentPart :
    ∀ s : Option Stmt, (outlinePart (apparentPart s)).phrase? = (outlinePart s).phrase?
  | none => rfl
  | some s => phrase?_apparent s

theorem phrase?_apparentFunction : ∀ f : FunctionDecl Stmt,
    (outlineFunction (apparentFunction f)).phrase? = (outlineFunction f).phrase?
  | ⟨name, parameters, body⟩ => by
      simp only [apparentFunction, outlineFunction, phrase?, phrases_apparentAll body]

theorem phrases_apparentFunctions : ∀ fs : List (FunctionDecl Stmt),
    phrases (outlineFunctions (apparentFunctions fs)) = phrases (outlineFunctions fs)
  | [] => rfl
  | f :: fs => by
      rw [apparentFunctions, outlineFunctions, outlineFunctions, phrases, phrases,
        phrase?_apparentFunction f, phrases_apparentFunctions fs]

end

end Stmt

namespace Program

/-- The phrase of a program. -/
def phrase (p : Program) : Phrase := Head.program.phrase (phrases p.outlines)

/-- A program is printed as its phrase. -/
theorem printed_eq (p : Program) : p.printed = p.phrase.string := by
  rw [printed, Outline.printed, text?_eq]
  rfl

/-- A program is printed like what it looks like. -/
theorem printed_apparent (p : Program) : p.apparent.printed = p.printed := by
  rw [printed_eq, printed_eq, phrase, outlines, apparent, Stmt.phrases_apparentAll]
  rfl

end Program

end ScriptFront
