import ScriptFront.Program.Outline
import ScriptFront.Proofs.Outline.Paths

/-! # Nodes — an outline leaves nothing out

    The nodes of a program are its expressions and statements, with the parts that they hold.  The
    outline of a node has its head, and the outlines of exactly these parts in exactly this order
    (`Node.outline_eq`).  So whatever path leads to a node leads to its head in the outline
    (`Node.headAt?_outline`), and the heads of a program are those of all its nodes, each visited
    once (`Program.nodes_at_paths`). -/

namespace ScriptFront

/-- A node of a program. -/
inductive Node
  | expr (e : Expr)
  | stmt (s : Stmt)

namespace Node

/-- The parts that a node holds and that are nodes themselves, in the order in which it holds them;
    an optional part may be absent. -/
def children : Node → List (Option Node)
  | expr (.assign _ value) => [some (expr value)]
  | expr (.binary left _ right) => [some (expr left), some (expr right)]
  | expr (.call callee _ arguments) =>
      some (expr callee) :: arguments.map fun e => some (expr e)
  | expr (.get object _) => [some (expr object)]
  | expr (.grouping inner) => [some (expr inner)]
  | expr (.literal _) => []
  | expr (.logical left _ right) => [some (expr left), some (expr right)]
  | expr (.set object _ value) => [some (expr object), some (expr value)]
  | expr (.super _ _) => []
  | expr (.this _) => []
  | expr (.unary _ right) => [some (expr right)]
  | expr (.var _) => []
  | stmt (.expression value) => [some (expr value)]
  | stmt (.print _ value) => [some (expr value)]
  | stmt (.varDecl _ _ initializer) => [initializer.map expr]
  | stmt (.block statements) => statements.map fun s => some (stmt s)
  | stmt (.conditional condition thenBranch elseBranch) =>
      [some (expr condition), some (stmt thenBranch), elseBranch.map stmt]
  | stmt (.whileLoop condition body) => [some (expr condition), some (stmt body)]
  | stmt (.forLoop initializer condition increment body) =>
      [initializer.map stmt, condition.map expr, increment.map expr, some (stmt body)]
  | stmt (.breakLoop _) => []
  | stmt (.continueLoop _) => []
  | stmt (.returnValue _ value) => [value.map expr]
  | stmt (.function decl) => decl.body.map fun s => some (stmt s)
  | stmt (.classDecl _ superclass methods) =>
      superclass.map (fun t => expr (.var t)) :: methods.map fun f => some (stmt (.function f))
  | stmt (.program statements) => statements.map fun s => some (stmt s)

/-- What a node holds besides its children. -/
def head : Node → Head
  | expr (.assign name _) => .assign name
  | expr (.binary _ operator _) => .binary operator
  | expr (.call _ paren _) => .call paren
  | expr (.get _ name) => .get name
  | expr (.grouping _) => .grouping
  | expr (.literal value) => .literal value
  | expr (.logical _ operator _) => .logical operator
  | expr (.set _ name _) => .set name
  | expr (.super keyword method) => .super keyword method
  | expr (.this keyword) => .this keyword
  | expr (.unary operator _) => .unary operator
  | expr (.var name) => .var name
  | stmt (.expression _) => .expression
  | stmt (.print keyword _) => .print keyword
  | stmt (.varDecl name typeName _) => .varDecl name typeName
  | stmt (.block _) => .block
  | stmt (.conditional _ _ _) => .conditional
  | stmt (.whileLoop _ _) => .whileLoop
  | stmt (.forLoop _ _ _ _) => .forLoop
  | stmt (.breakLoop keyword) => .breakLoop keyword
  | stmt (.continueLoop keyword) => .continueLoop keyword
  | stmt (.returnValue keyword _) => .returnValue keyword
  | stmt (.function decl) => .function decl.name decl.parameters
  | stmt (.classDecl name _ _) => .classDecl name
  | stmt (.program _) => .program

/-- The outline of a node. -/
def outline : Node → Outline
  | expr e => e.outline
  | stmt s => s.outline

/-- The outline of a part that may be absent. -/
def outlinePart : Option Node → Outline
  | none => .absent
  | some n => n.outline

/-! ## Outlines of the parts -/

theorem outlines_exprs (es : List Expr) :
    Expr.outlines es = (es.map fun e => some (expr e)).map outlinePart := by
  induction es with
  | nil => rfl
  | cons e es ih => exact congrArg (e.outline :: ·) ih

theorem outlines_stmts (ss : List Stmt) :
    Stmt.outlines ss = (ss.map fun s => some (stmt s)).map outlinePart := by
  induction ss with
  | nil => rfl
  | cons s ss ih => exact congrArg (s.outline :: ·) ih

theorem outlines_functions (fs : List (FunctionDecl Stmt)) :
    Stmt.outlineFunctions fs = (fs.map fun f => some (stmt (.function f))).map outlinePart := by
  induction fs with
  | nil => rfl
  | cons f fs ih => exact congrArg (Stmt.outlineFunction f :: ·) ih

theorem outlinePart_expr (e : Option Expr) : Expr.outlinePart e = outlinePart (e.map expr) := by
  cases e with
  | none => rfl
  | some e => rfl

theorem outlinePart_stmt (s : Option Stmt) : Stmt.outlinePart s = outlinePart (s.map stmt) := by
  cases s with
  | none => rfl
  | some s => rfl

/-- An outline has the head of its node and the outlines of all its children, in their order. -/
theorem outline_eq (n : Node) : n.outline = .node n.head (n.children.map outlinePart) := by
  cases n with
  | expr e =>
      cases e with
      | call callee paren arguments =>
          exact congrArg (fun os => Outline.node (.call paren) (callee.outline :: os))
            (outlines_exprs arguments)
      | _ => rfl
  | stmt s =>
      cases s with
      | varDecl name typeName initializer =>
          exact congrArg (fun o => Outline.node _ [o]) (outlinePart_expr initializer)
      | block statements | program statements =>
          exact congrArg (Outline.node _) (outlines_stmts statements)
      | conditional condition thenBranch elseBranch =>
          exact congrArg (fun o => Outline.node _ [condition.outline, thenBranch.outline, o])
            (outlinePart_stmt elseBranch)
      | forLoop initializer condition increment body =>
          show Outline.node _ [_, _, _, _] = Outline.node _ [_, _, _, _]
          rw [outlinePart_stmt, outlinePart_expr, outlinePart_expr]
          rfl
      | returnValue keyword value =>
          exact congrArg (fun o => Outline.node _ [o]) (outlinePart_expr value)
      | function decl =>
          obtain ⟨name, parameters, body⟩ := decl
          exact congrArg (Outline.node _) (outlines_stmts body)
      | classDecl name superclass methods =>
          cases superclass with
          | none =>
              exact congrArg (fun os => Outline.node _ (.absent :: os)) (outlines_functions methods)
          | some t =>
              exact congrArg (fun os => Outline.node _ ((Expr.var t).outline :: os))
                (outlines_functions methods)
      | _ => rfl

/-! ## Going down -/

/-- The node to which a path leads. -/
def at? : Node → Path → Option Node
  | n, [] => some n
  | n, i :: path => n.children[i]?.join.bind fun c => c.at? path

/-- A path that leads to a node leads to its head in the outline, and all others lead nowhere. -/
theorem headAt?_outline (n : Node) (path : Path) :
    n.outline.headAt? path = (n.at? path).map head := by
  induction path generalizing n with
  | nil =>
      rw [outline_eq]
      rfl
  | cons i path ih =>
      rw [outline_eq, Outline.headAt?_node_cons, Outline.headIn?, at?, List.getElem?_map]
      cases n.children[i]? with
      | none => rfl
      | some part =>
          cases part with
          | none => exact Outline.headAt?_absent path
          | some c => exact ih c

end Node

namespace Program

/-- The node of the whole program. -/
def root (p : Program) : Node := .stmt (.program p.statements)

/-- The paths to the nodes of a program, in the order in which they are visited. -/
def paths (p : Program) : List Path := p.outline.paths

/-- The heads of a program are those of the nodes to which its paths lead, one by one. -/
theorem nodes_at_paths (p : Program) :
    List.Forall₂ (fun path head => ∃ n, p.root.at? path = some n ∧ n.head = head)
      p.paths p.heads := by
  refine (Outline.heads_at_paths p.outline).imp fun path head leads => ?_
  have there : (p.root.at? path).map Node.head = some head :=
    (p.root.headAt?_outline path).symm.trans leads
  exact Option.map_eq_some_iff.mp there

/-- Exactly the paths that lead to nodes are among those of a program. -/
theorem mem_paths_iff (p : Program) (path : Path) :
    path ∈ p.paths ↔ (p.root.at? path).isSome := by
  have there := Outline.mem_paths_iff p.outline path
  rwa [show p.outline.headAt? path = _ from p.root.headAt?_outline path, Option.isSome_map] at there

end Program

end ScriptFront
