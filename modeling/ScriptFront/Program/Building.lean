import ScriptFront.Grammar.Machine
import ScriptFront.Program.Basic

/-! # Building programs — from parse trees to programs

    A parse tree is evaluated from the leaves up, children from left to right.  Each form of a rule
    takes the values of a right side to the value of the left side.  The only thing the grammar
    leaves open is what may be assigned to: a variable or a property.

    What a form asks for is data as well: its layouts name the kinds of its children, and which of
    them may be absent (`Form.layouts`). -/

namespace ScriptFront.Grammar

/-- What a parse tree stands for. -/
inductive Value
  | token (t : Token)
  | expr (e : Expr)
  | stmt (s : Stmt)
  | stmts (ss : List Stmt)
  | function (f : FunctionDecl Stmt)
  | functions (fs : List (FunctionDecl Stmt))
  | names (ts : List Token)
  | exprs (es : List Expr)
  | init (s : Option Stmt)
deriving Inhabited

/-- Why a tree stands for no program: something is assigned to that cannot be, at this equals
    sign; or the tree is none of the grammar. -/
inductive Misfit
  | invalidTarget (equal : Token)
  | malformed

/-- The value of a rule from the values of its right side. -/
def Form.build : Form → List Value → Except Misfit Value
  | .same, [v] => .ok v
  | .emptyProgram, [] => .ok (.stmts [])
  | .oneStatement, [.stmt s] => .ok (.stmts [s])
  | .moreStatements, [.stmts ss, .stmt s] => .ok (.stmts (ss ++ [s]))
  | .blockStmt, [.stmts ss] => .ok (.stmt (.block ss))
  | .functionStmt, [.function f] => .ok (.stmt (.function f))
  | .classStmt, [.token _, .token name, .token _, .token _] =>
      .ok (.stmt (.classDecl name none []))
  | .classStmt, [.token _, .token name, .token _, .functions fs, .token _] =>
      .ok (.stmt (.classDecl name none fs))
  | .classStmt, [.token _, .token name, .token _, .token parent, .token _, .token _] =>
      .ok (.stmt (.classDecl name (some parent) []))
  | .classStmt,
    [.token _, .token name, .token _, .token parent, .token _, .functions fs, .token _] =>
      .ok (.stmt (.classDecl name (some parent) fs))
  | .oneFunction, [.function f] => .ok (.functions [f])
  | .moreFunctions, [.functions fs, .function f] => .ok (.functions (fs ++ [f]))
  | .function, [.token _, .token name, .token _, .token _, .stmts body] =>
      .ok (.function ⟨name, [], body⟩)
  | .function, [.token _, .token name, .token _, .names parameters, .token _, .stmts body] =>
      .ok (.function ⟨name, parameters, body⟩)
  | .names, [.token name] => .ok (.names [name])
  | .names, [.token name, .names more] => .ok (.names (name :: more))
  | .names, [.token _, .token name] => .ok (.names [name])
  | .names, [.names ts, .token _, .token name] => .ok (.names (ts ++ [name]))
  | .varStmt, [.token _, .token name, .token _] => .ok (.stmt (.varDecl name none none))
  | .varStmt, [.token _, .token name, .token _, .token type, .token _] =>
      .ok (.stmt (.varDecl name (some type) none))
  | .varStmt, [.token _, .token name, .token _, .expr e, .token _] =>
      .ok (.stmt (.varDecl name none (some e)))
  | .varStmt, [.token _, .token name, .token _, .token type, .token _, .expr e, .token _] =>
      .ok (.stmt (.varDecl name (some type) (some e)))
  | .exprStmt, [.expr e, .token _] => .ok (.stmt (.expression e))
  | .printStmt, [.token keyword, .expr e, .token _] => .ok (.stmt (.print keyword e))
  | .ifStmt, [.token _, .token _, .expr c, .token _, .stmt s] =>
      .ok (.stmt (.conditional c s none))
  | .ifStmt, [.token _, .token _, .expr c, .token _, .stmt s, .token _, .stmt s'] =>
      .ok (.stmt (.conditional c s (some s')))
  | .whileStmt, [.token _, .token _, .expr c, .token _, .stmt s] => .ok (.stmt (.whileLoop c s))
  | .forStmt, [.token _, .token _, .init i, .token _, .token _, .stmt s] =>
      .ok (.stmt (.forLoop i none none s))
  | .forStmt, [.token _, .token _, .init i, .expr c, .token _, .token _, .stmt s] =>
      .ok (.stmt (.forLoop i (some c) none s))
  | .forStmt, [.token _, .token _, .init i, .token _, .expr e, .token _, .stmt s] =>
      .ok (.stmt (.forLoop i none (some e) s))
  | .forStmt, [.token _, .token _, .init i, .expr c, .token _, .expr e, .token _, .stmt s] =>
      .ok (.stmt (.forLoop i (some c) (some e) s))
  | .someInit, [.stmt s] => .ok (.init (some s))
  | .noInit, [.token _] => .ok (.init none)
  | .breakStmt, [.token keyword, .token _] => .ok (.stmt (.breakLoop keyword))
  | .continueStmt, [.token keyword, .token _] => .ok (.stmt (.continueLoop keyword))
  | .returnStmt, [.token keyword, .token _] => .ok (.stmt (.returnValue keyword none))
  | .returnStmt, [.token keyword, .expr e, .token _] =>
      .ok (.stmt (.returnValue keyword (some e)))
  | .braced, [.token _, .token _] => .ok (.stmts [])
  | .braced, [.token _, .stmts ss, .token _] => .ok (.stmts ss)
  | .assign, [.expr target, .token equal, .expr value] =>
      match target with
      | .var name => .ok (.expr (.assign name value))
      | .get object name => .ok (.expr (.set object name value))
      | _ => .error (.invalidTarget equal)
  | .logical, [.expr l, .token operator, .expr r] => .ok (.expr (.logical l operator r))
  | .binary, [.expr l, .token operator, .expr r] => .ok (.expr (.binary l operator r))
  | .unary, [.token operator, .expr r] => .ok (.expr (.unary operator r))
  | .call, [.expr callee, .token _, .token paren] => .ok (.expr (.call callee paren []))
  | .call, [.expr callee, .token _, .exprs es, .token paren] =>
      .ok (.expr (.call callee paren es))
  | .get, [.expr object, .token _, .token name] => .ok (.expr (.get object name))
  | .values, [.expr e] => .ok (.exprs [e])
  | .values, [.expr e, .exprs more] => .ok (.exprs (e :: more))
  | .values, [.token _, .expr e] => .ok (.exprs [e])
  | .values, [.exprs es, .token _, .expr e] => .ok (.exprs (es ++ [e]))
  | .literal, [.token t] => .ok (.expr (.literal t.literal))
  | .this, [.token keyword] => .ok (.expr (.this keyword))
  | .var, [.token name] => .ok (.expr (.var name))
  | .grouping, [.token _, .expr e, .token _] => .ok (.expr (.grouping e))
  | .super, [.token keyword, .token _, .token method] => .ok (.expr (.super keyword method))
  | .new, [.token _, .token name, .token _, .token paren] =>
      .ok (.expr (.call (.var name) paren []))
  | .new, [.token _, .token name, .token _, .exprs es, .token paren] =>
      .ok (.expr (.call (.var name) paren es))
  | _, _ => .error .malformed

/-! ## Layouts -/

/-- The kinds of values. -/
inductive Value.Kind
  | token | expr | stmt | stmts | function | functions | names | exprs | init
deriving DecidableEq, Repr

/-- All kinds. -/
def Value.Kind.all : List Value.Kind :=
  [token, expr, stmt, stmts, function, functions, names, exprs, init]

/-- A part of a layout: one child, some that are there or absent together, or what any number of
    children have been put together to. -/
inductive Part
  | child (kind : Value.Kind)
  | optional (kinds : List Value.Kind)
  | repeated (kind : Value.Kind)
deriving DecidableEq, Repr

/-- How a form unpacks its children, and the kind of what it makes of them.  The table transcribes
    the parameter lists of the actions that make a program of a parse tree.  A child is a parameter
    that is always given; an optional part stands for the parameters that are left empty when a
    bracket of the grammar is, and a repeated part for the parameter that takes any number of
    children, which the rules that gather them have put together.  The forms of these rules unpack
    their right sides. -/
def Form.layouts : Form → List (List Part × Value.Kind)
  | same => Value.Kind.all.map fun k => ([.child k], k)
  | emptyProgram => [([], .stmts)]
  | oneStatement => [([.child .stmt], .stmts)]
  | moreStatements => [([.child .stmts, .child .stmt], .stmts)]
  | blockStmt => [([.child .stmts], .stmt)]
  | functionStmt => [([.child .function], .stmt)]
  | classStmt =>
      [([.child .token, .child .token, .optional [.token, .token], .child .token,
         .repeated .functions, .child .token], .stmt)]
  | oneFunction => [([.child .function], .functions)]
  | moreFunctions => [([.child .functions, .child .function], .functions)]
  | function =>
      [([.child .token, .child .token, .child .token, .optional [.names], .child .token,
         .child .stmts], .function)]
  | names =>
      [([.child .token, .repeated .names], .names),
       ([.repeated .names, .child .token, .child .token], .names)]
  | varStmt =>
      [([.child .token, .child .token, .optional [.token, .token], .optional [.token, .expr],
         .child .token], .stmt)]
  | exprStmt => [([.child .expr, .child .token], .stmt)]
  | printStmt => [([.child .token, .child .expr, .child .token], .stmt)]
  | ifStmt =>
      [([.child .token, .child .token, .child .expr, .child .token, .child .stmt,
         .optional [.token, .stmt]], .stmt)]
  | whileStmt =>
      [([.child .token, .child .token, .child .expr, .child .token, .child .stmt], .stmt)]
  | forStmt =>
      [([.child .token, .child .token, .child .init, .optional [.expr], .child .token,
         .optional [.expr], .child .token, .child .stmt], .stmt)]
  | someInit => [([.child .stmt], .init)]
  | noInit => [([.child .token], .init)]
  | breakStmt | continueStmt => [([.child .token, .child .token], .stmt)]
  | returnStmt => [([.child .token, .optional [.expr], .child .token], .stmt)]
  | braced => [([.child .token, .repeated .stmts, .child .token], .stmts)]
  | assign | logical | binary => [([.child .expr, .child .token, .child .expr], .expr)]
  | unary => [([.child .token, .child .expr], .expr)]
  | call => [([.child .expr, .child .token, .optional [.exprs], .child .token], .expr)]
  | get => [([.child .expr, .child .token, .child .token], .expr)]
  | values =>
      [([.child .expr, .repeated .exprs], .exprs),
       ([.repeated .exprs, .child .token, .child .expr], .exprs)]
  | literal | this | var => [([.child .token], .expr)]
  | grouping => [([.child .token, .child .expr, .child .token], .expr)]
  | super => [([.child .token, .child .token, .child .token], .expr)]
  | new =>
      [([.child .token, .child .token, .child .token, .optional [.exprs], .child .token], .expr)]

/-! ## Trees -/

namespace Tree

mutual

/-- The value of a tree. -/
def value : Tree → Except Misfit Value
  | leaf t => .ok (.token t)
  | node rule children =>
    match values children with
    | .error misfit => .error misfit
    | .ok vs => rule.form.build vs

/-- The values of some trees, from left to right. -/
def values : List Tree → Except Misfit (List Value)
  | [] => .ok []
  | t :: ts =>
    match t.value with
    | .error misfit => .error misfit
    | .ok v =>
      match values ts with
      | .error misfit => .error misfit
      | .ok vs => .ok (v :: vs)

end

/-- The program of a tree. -/
def toProgram (t : Tree) : Except Misfit Program :=
  match t.value with
  | .error misfit => .error misfit
  | .ok (.stmts ss) => .ok ⟨ss⟩
  | .ok _ => .error .malformed

end Tree

end ScriptFront.Grammar
