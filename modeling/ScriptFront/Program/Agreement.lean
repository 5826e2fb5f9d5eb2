import ScriptFront.Program.Basic

/-! # Agreement — when two programs count as the same

    Tokens agree if kind, lexeme, value and place do; trees agree if they have the same nodes with
    agreeing tokens and values.  Values agree as numbers do: a truth value counts as zero or one.
    A literal keeps its value only, so neither its spelling nor its place matters. -/

namespace ScriptFront

/-- The number a truth value counts as. -/
def truthNumber : Bool → Float
  | true => 1
  | false => 0

/-- Whether two values are equal, truth values counted as numbers. -/
def Literal.agrees : Literal → Literal → Bool
  | .null, .null => true
  | .bool a, .bool b => a == b
  | .number x, .number y => x == y
  | .bool a, .number y => truthNumber a == y
  | .number x, .bool b => x == truthNumber b
  | .text s, .text t => s == t
  | _, _ => false

/-- Whether two tokens are equal in all they hold. -/
def Token.agrees (a b : Token) : Bool :=
  a.kind = b.kind && a.lexeme == b.lexeme && a.literal.agrees b.literal
    && a.position = b.position

/-- Whether two rows have the same length and agree item by item. -/
def agreeAll (agree : α → α → Bool) : List α → List α → Bool
  | [], [] => true
  | a :: as, b :: bs => agree a b && agreeAll agree as bs
  | _, _ => false

/-- Whether two optional things are both absent or agree. -/
def agreePart (agree : α → α → Bool) : Option α → Option α → Bool
  | none, none => true
  | some a, some b => agree a b
  | _, _ => false

namespace Expr

mutual

/-- Whether two expressions agree. -/
def agrees : Expr → Expr → Bool
  | assign n v, assign n' v' => n.agrees n' && v.agrees v'
  | binary l o r, binary l' o' r' => l.agrees l' && o.agrees o' && r.agrees r'
  | call c p as, call c' p' as' => c.agrees c' && p.agrees p' && agreesAll as as'
  | get o n, get o' n' => o.agrees o' && n.agrees n'
  | grouping e, grouping e' => e.agrees e'
  | literal v, literal v' => v.agrees v'
  | logical l o r, logical l' o' r' => l.agrees l' && o.agrees o' && r.agrees r'
  | set o n v, set o' n' v' => o.agrees o' && n.agrees n' && v.agrees v'
  | super k m, super k' m' => k.agrees k' && m.agrees m'
  | this k, this k' => k.agrees k'
  | unary o r, unary o' r' => o.agrees o' && r.agrees r'
  | var n, var n' => n.agrees n'
  | _, _ => false

/-- Whether two rows of expressions agree. -/
def agreesAll : List Expr → List Expr → Bool
  | [], [] => true
  | e :: es, e' :: es' => e.agrees e' && agreesAll es es'
  | _, _ => false

end

end Expr

namespace Stmt

mutual

/-- Whether two statements agree. -/
def agrees : Stmt → Stmt → Bool
  | expression e, expression e' => e.agrees e'
  | print k e, print k' e' => k.agrees k' && e.agrees e'
  | varDecl n t i, varDecl n' t' i' =>
      n.agrees n' && agreePart Token.agrees t t' && agreePart Expr.agrees i i'
  | block ss, block ss' => agreesAll ss ss'
  | conditional c s t, conditional c' s' t' => c.agrees c' && s.agrees s' && agreesPart t t'
  | whileLoop c s, whileLoop c' s' => c.agrees c' && s.agrees s'
  | forLoop i c e s, forLoop i' c' e' s' =>
      agreesPart i i' && agreePart Expr.agrees c c' && agreePart Expr.agrees e e' && s.agrees s'
  | breakLoop k, breakLoop k' => k.agrees k'
  | continueLoop k, continueLoop k' => k.agrees k'
  | returnValue k v, returnValue k' v' => k.agrees k' && agreePart Expr.agrees v v'
  | function f, function f' => agreesFunction f f'
  | classDecl n s ms, classDecl n' s' ms' =>
      n.agrees n' && agreePart Token.agrees s s' && agreesFunctions ms ms'
  | program ss, program ss' => agreesAll ss ss'
  | _, _ => false

/-- Whether two rows of statements agree. -/
def agreesAll : List Stmt → List Stmt → Bool
  | [], [] => true
  | s :: ss, s' :: ss' => s.agrees s' && agreesAll ss ss'
  | _, _ => false

/-- Whether two optional statements agree. -/
def agreesPart : Option Stmt → Option Stmt → Bool
  | none, none => true
  | some s, some s' => s.agrees s'
  | _, _ => false

/-- Whether two functions agree. -/
def agreesFunction : FunctionDecl Stmt → FunctionDecl Stmt → Bool
  | ⟨n, ps, ss⟩, ⟨n', ps', ss'⟩ =>
      n.agrees n' && agreeAll Token.agrees ps ps' && agreesAll ss ss'

/-- Whether two rows of functions agree. -/
def agreesFunctions : List (FunctionDecl Stmt) → List (FunctionDecl Stmt) → Bool
  | [], [] => true
  | f :: fs, f' :: fs' => agreesFunction f f' && agreesFunctions fs fs'
  | _, _ => false

end

end Stmt

/-- Whether two programs agree. -/
def Program.agrees (p q : Program) : Bool :=
  Stmt.agreesAll p.statements q.statements

end ScriptFront
