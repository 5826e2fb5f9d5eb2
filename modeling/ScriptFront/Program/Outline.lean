import ScriptFront.Outline.Printed
import ScriptFront.Program.Basic

/-! # Outlines of programs — every program is a tree of heads

    What is said about trees node by node is said about outlines, and so holds of programs.  A
    superclass is a variable that is used, the first child of its class. -/

namespace ScriptFront

namespace Expr

mutual

/-- The outline of an expression. -/
def outline : Expr → Outline
  | assign name value => .node (.assign name) [value.outline]
  | binary left operator right => .node (.binary operator) [left.outline, right.outline]
  | call callee paren arguments => .node (.call paren) (callee.outline :: outlines arguments)
  | get object name => .node (.get name) [object.outline]
  | grouping inner => .node .grouping [inner.outline]
  | literal value => .node (.literal value) []
  | logical left operator right => .node (.logical operator) [left.outline, right.outline]
  | set object name value => .node (.set name) [object.outline, value.outline]
  | super keyword method => .node (.super keyword method) []
  | this keyword => .node (.this keyword) []
  | unary operator right => .node (.unary operator) [right.outline]
  | var name => .node (.var name) []

/-- The outlines of some expressions. -/
def outlines : List Expr → List Outline
  | [] => []
  | e :: es => e.outline :: outlines es

end

/-- The outline of an optional expression. -/
def outlinePart : Option Expr → Outline
  | none => .absent
  | some e => e.outline

end Expr

namespace Stmt

mutual

/-- The outline of a statement. -/
def outline : Stmt → Outline
  | expression value => .node .expression [value.outline]
  | print keyword value => .node (.print keyword) [value.outline]
  | varDecl name typeName initializer =>
      .node (.varDecl name typeName) [Expr.outlinePart initializer]
  | block statements => .node .block (outlines statements)
  | conditional condition thenBranch elseBranch =>
      .node .conditional [condition.outline, thenBranch.outline, outlinePart elseBranch]
  | whileLoop condition body => .node .whileLoop [condition.outline, body.outline]
  | forLoop initializer condition increment body =>
      .node .forLoop
        [outlinePart initializer, Expr.outlinePart condition, Expr.outlinePart increment,
         body.outline]
  | breakLoop keyword => .node (.breakLoop keyword) []
  | continueLoop keyword => .node (.continueLoop keyword) []
  | returnValue keyword value => .node (.returnValue keyword) [Expr.outlinePart value]
  | function decl => outlineFunction decl
  | classDecl name superclass methods =>
      .node (.classDecl name)
        (Expr.outlinePart (superclass.map .var) :: outlineFunctions methods)
  | program statements => .node .program (outlines statements)

/-- The outlines of some statements. -/
def outlines : List Stmt → List Outline
  | [] => []
  | s :: ss => s.outline :: outlines ss

/-- The outline of an optional statement. -/
def outlinePart : Option Stmt → Outline
  | none => .absent
  | some s => s.outline

/-- The outline of a function. -/
def outlineFunction : FunctionDecl Stmt → Outline
  | ⟨name, parameters, body⟩ => .node (.function name parameters) (outlines body)

/-- The outlines of some functions. -/
def outlineFunctions : List (FunctionDecl Stmt) → List Outline
  | [] => []
  | f :: fs => outlineFunction f :: outlineFunctions fs

end

end Stmt

namespace Program

/-- The outlines of the statements of a program. -/
def outlines (p : Program) : List Outline := Stmt.outlines p.statements

/-- The outline of a program. -/
def outline (p : Program) : Outline := .node .program p.outlines

/-- The text of a program. -/
def printed (p : Program) : String := p.outline.printed

/-- The heads of the nodes of a program, itself the first. -/
def heads (p : Program) : List Head := p.outline.heads

end Program

end ScriptFront
