import ScriptFront.Analysis.Basic
import ScriptFront.Proofs.Program.Mapped

/-! # Revalued programs — other values in the same trees

    A program with other values of its literals has the outline of the program, with other values
    in its heads (`Program.outline_revalued`).  So the walk meets the same nodes with the same
    tokens, but for the values (`Program.heads_revalued`), and the analysis, which looks at no
    value, does the same (`analyze_revalued`). -/

namespace ScriptFront

open Analysis

/-- A head with another value, if it has one. -/
def Head.revalued (g : Literal → Literal) : Head → Head
  | literal value => literal (g value)
  | head => head

/-- A head without its value. -/
def Head.valueless : Head → Head := revalued fun _ => .null

theorem Head.valueless_revalued (g : Literal → Literal) (head : Head) :
    (head.revalued g).valueless = head.valueless := by
  cases head with
  | _ => rfl

/-! ## Outlines -/

namespace Outline

mutual

/-- An outline with other values. -/
def revalued (g : Literal → Literal) : Outline → Outline
  | absent => absent
  | node head children => node (head.revalued g) (revaluedAll g children)

/-- Some outlines with other values. -/
def revaluedAll (g : Literal → Literal) : List Outline → List Outline
  | [] => []
  | o :: os => o.revalued g :: revaluedAll g os

end

mutual

/-- The heads of an outline with other values are its heads with other values. -/
theorem heads_revalued (g : Literal → Literal) : ∀ o : Outline,
    (o.revalued g).heads = o.heads.map (Head.revalued g)
  | absent => rfl
  | node head children => by
      rw [revalued, heads, heads, headsAll_revalued g children, List.map_cons]

theorem headsAll_revalued (g : Literal → Literal) : ∀ os : List Outline,
    headsAll (revaluedAll g os) = (headsAll os).map (Head.revalued g)
  | [] => rfl
  | o :: os => by
      rw [revaluedAll, headsAll, headsAll, heads_revalued g o, headsAll_revalued g os,
        List.map_append]

end

mutual

/-- The analysis looks at no value. -/
theorem check_revalued (g : Literal → Literal) (strict : Bool) : ∀ o : Outline,
    check strict (o.revalued g) = check strict o
  | absent => rfl
  | node head children => by
      cases head with
      | classDecl name =>
          cases children with
          | nil => rfl
          | cons superclass methods =>
              simp only [revalued, Head.revalued, revaluedAll, check,
                check_revalued g strict superclass, checkMethods_revalued g strict methods]
      | _ => simp only [revalued, Head.revalued, check, checkAll_revalued g strict children]

theorem checkAll_revalued (g : Literal → Literal) (strict : Bool) : ∀ os : List Outline,
    checkAll strict (revaluedAll g os) = checkAll strict os
  | [] => rfl
  | o :: os => by
      rw [revaluedAll, checkAll, checkAll, check_revalued g strict o,
        checkAll_revalued g strict os]

theorem checkMethod_revalued (g : Literal → Literal) (strict : Bool) : ∀ o : Outline,
    checkMethod strict (o.revalued g) = checkMethod strict o
  | absent => rfl
  | node head body => by
      cases head with
      | function name parameters =>
          simp only [revalued, Head.revalued, checkMethod, checkAll_revalued g strict body]
      | _ => rfl

theorem checkMethods_revalued (g : Literal → Literal) (strict : Bool) : ∀ os : List Outline,
    checkMethods strict (revaluedAll g os) = checkMethods strict os
  | [] => rfl
  | m :: ms => by
      rw [revaluedAll, checkMethods, checkMethods, checkMethod_revalued g strict m,
        checkMethods_revalued g strict ms]

end

end Outline

/-! ## Programs -/

namespace Expr

open Outline (revalued revaluedAll)

mutual

/-- The outline of an expression with other values. -/
theorem outline_revalued (g : Literal → Literal) : ∀ e : Expr,
    (e.map id g).outline = e.outline.revalued g
  | assign _ e | get e _ | grouping e | unary _ e => by
      simp only [map, outline, revalued, revaluedAll, Head.revalued, outline_revalued g e, id_eq]
  | binary l _ r | logical l _ r | set l _ r => by
      simp only [map, outline, revalued, revaluedAll, Head.revalued, outline_revalued g l,
        outline_revalued g r, id_eq]
  | call callee _ arguments => by
      simp only [map, outline, revalued, revaluedAll, Head.revalued, outline_revalued g callee,
        outlines_revalued g arguments, id_eq]
  | literal _ | super _ _ | this _ | var _ => rfl

theorem outlines_revalued (g : Literal → Literal) : ∀ es : List Expr,
    outlines (mapAll id g es) = revaluedAll g (outlines es)
  | [] => rfl
  | e :: es => by
      rw [mapAll, outlines, outlines, revaluedAll, outline_revalued g e, outlines_revalued g es]

end

theorem outlinePart_revalued (g : Literal → Literal) (e : Option Expr) :
    outlinePart (e.map (Expr.map id g)) = (outlinePart e).revalued g := by
  cases e with
  | none => rfl
  | some e => exact e.outline_revalued g

end Expr

namespace Stmt

open Outline (revalued revaluedAll)

/-- A superclass has no value. -/
theorem superclass_revalued (g : Literal → Literal) (superclass : Option Token) :
    (Expr.outlinePart (superclass.map .var)).revalued g
      = Expr.outlinePart (superclass.map .var) := by
  cases superclass with
  | _ => rfl

mutual

/-- The outline of a statement with other values. -/
theorem outline_revalued (g : Literal → Literal) : ∀ s : Stmt,
    (s.map id g).outline = s.outline.revalued g
  | expression e | print _ e => by
      simp only [map, outline, revalued, revaluedAll, Head.revalued, e.outline_revalued g, id_eq]
  | varDecl _ _ e => by
      simp only [map, outline, revalued, revaluedAll, Head.revalued,
        Expr.outlinePart_revalued g e, Option.map_id, id_eq]
  | block ss | program ss => by
      simp only [map, outline, revalued, Head.revalued, outlines_revalued g ss]
  | conditional c s s' => by
      simp only [map, outline, revalued, revaluedAll, Head.revalued, c.outline_revalued g,
        outline_revalued g s, outlinePart_revalued g s']
  | whileLoop c s => by
      simp only [map, outline, revalued, revaluedAll, Head.revalued, c.outline_revalued g,
        outline_revalued g s]
  | forLoop i c e s => by
      simp only [map, outline, revalued, revaluedAll, Head.revalued, outlinePart_revalued g i,
        Expr.outlinePart_revalued g c, Expr.outlinePart_revalued g e, outline_revalued g s]
  | breakLoop _ | continueLoop _ => rfl
  | returnValue _ e => by
      simp only [map, outline, revalued, revaluedAll, Head.revalued,
        Expr.outlinePart_revalued g e, id_eq]
  | function decl => by rw [map, outline, outline, outlineFunction_revalued g decl]
  | classDecl _ superclass methods => by
      simp only [map, outline, revalued, revaluedAll, Head.revalued,
        superclass_revalued g superclass, outlineFunctions_revalued g methods, Option.map_id,
        id_eq]

theorem outlines_revalued (g : Literal → Literal) : ∀ ss : List Stmt,
    outlines (mapAll id g ss) = revaluedAll g (outlines ss)
  | [] => rfl
  | s :: ss => by
      rw [mapAll, outlines, outlines, revaluedAll, outline_revalued g s, outlines_revalued g ss]

theorem outlinePart_revalued (g : Literal → Literal) : ∀ s : Option Stmt,
    outlinePart (mapPart id g s) = (outlinePart s).revalued g
  | none => rfl
  | some s => by rw [mapPart, outlinePart, outlinePart, outline_revalued g s]

theorem outlineFunction_revalued (g : Literal → Literal) : ∀ f : FunctionDecl Stmt,
    outlineFunction (mapFunction id g f) = (outlineFunction f).revalued g
  | ⟨_, _, body⟩ => by
      simp only [mapFunction, outlineFunction, revalued, Head.revalued, outlines_revalued g body,
        List.map_id, id_eq]

theorem outlineFunctions_revalued (g : Literal → Literal) : ∀ fs : List (FunctionDecl Stmt),
    outlineFunctions (mapFunctions id g fs) = revaluedAll g (outlineFunctions fs)
  | [] => rfl
  | f :: fs => by
      rw [mapFunctions, outlineFunctions, outlineFunctions, revaluedAll,
        outlineFunction_revalued g f, outlineFunctions_revalued g fs]

end

end Stmt

namespace Program

/-- A program with other values of its literals. -/
def revalued (g : Literal → Literal) (p : Program) : Program := p.map id g

/-- The outline of a program with other values is its outline with other values. -/
theorem outline_revalued (g : Literal → Literal) (p : Program) :
    (p.revalued g).outline = p.outline.revalued g :=
  congrArg (Outline.node .program) (Stmt.outlines_revalued g p.statements)

/-- The walk meets the same nodes with the same tokens, whatever the values are. -/
theorem heads_revalued (g : Literal → Literal) (p : Program) :
    (p.revalued g).heads.map Head.valueless = p.heads.map Head.valueless := by
  rw [heads, heads, outline_revalued, Outline.heads_revalued, List.map_map]
  exact List.map_congr_left fun head _ => head.valueless_revalued g

end Program

/-- The analysis of a program is the same whatever its values are. -/
theorem analyze_revalued (g : Literal → Literal) (strict : Bool) (p : Program) :
    analyze strict (p.revalued g) = analyze strict p :=
  congrFun
    ((congrArg (checkAll strict) (Stmt.outlines_revalued g p.statements)).trans
      (Outline.checkAll_revalued g strict p.outlines)) {}

end ScriptFront
