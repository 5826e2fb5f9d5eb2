import Mathlib.Data.List.Forall2
import ScriptFront.Program.Basic

/-! # Canonical programs — programs that can be written down as they are

    A program made by hand may have an operand that is looser than its operator, a declaration in
    the place of a branch, or a name that is no identifier.  A canonical program has nothing of the
    kind: written with the punctuation of the grammar and without more parentheses than it holds
    itself, it is a text of the grammar.

    How a program is written is said by its slots, one for each token of its text: some marks are
    of a kind only, others are the very tokens that the program keeps. -/

namespace ScriptFront

open TokenKind

/-! ## Levels -/

/-- How tightly an expression holds together, the loosest first. -/
inductive Level
  | assignment | logicOr | logicAnd | equality | comparison | term | factor | unary | power | call
deriving DecidableEq, Repr

namespace Level

instance : LE Level := ⟨fun a b => a.ctorIdx ≤ b.ctorIdx⟩

instance (a b : Level) : Decidable (a ≤ b) :=
  inferInstanceAs (Decidable (a.ctorIdx ≤ b.ctorIdx))

theorem refl (a : Level) : a ≤ a := Nat.le_refl a.ctorIdx

theorem trans {a b c : Level} (hab : a ≤ b) (hbc : b ≤ c) : a ≤ c := Nat.le_trans hab hbc

/-- The next looser level. -/
def looser : Level → Level
  | assignment | logicOr => assignment
  | logicAnd => logicOr
  | equality => logicAnd
  | comparison => equality
  | term => comparison
  | factor => term
  | unary => factor
  | power => unary
  | call => power

theorem ctorIdx_looser (a : Level) : a.looser.ctorIdx = a.ctorIdx - 1 := by
  cases a <;> rfl

theorem eq_of_ctorIdx_eq {a b : Level} (h : a.ctorIdx = b.ctorIdx) : a = b := by
  have back := congrArg Level.ofNat h
  rwa [Level.ofNat_ctorIdx, Level.ofNat_ctorIdx] at back

theorem assignment_le (a : Level) : assignment ≤ a := Nat.zero_le a.ctorIdx

end Level

/-- What an operator between two operands forms, and the least levels of its operands. -/
structure Operator where
  level : Level
  left : Level
  right : Level
deriving DecidableEq

/-- The operators on values.  All but the power take an operand of their own level on the left. -/
def TokenKind.binary? : TokenKind → Option Operator
  | bangEqual | equalEqual => some ⟨.equality, .equality, .comparison⟩
  | greater | greaterEqual | less | lessEqual => some ⟨.comparison, .comparison, .term⟩
  | minus | plus => some ⟨.term, .term, .factor⟩
  | slash | star => some ⟨.factor, .factor, .unary⟩
  | starStar => some ⟨.power, .call, .unary⟩
  | _ => none

/-- The operators on truth values. -/
def TokenKind.logical? : TokenKind → Option Operator
  | kwOr => some ⟨.logicOr, .logicOr, .logicAnd⟩
  | kwAnd => some ⟨.logicAnd, .logicAnd, .equality⟩
  | _ => none

/-- The operators before an operand. -/
def TokenKind.isUnary (k : TokenKind) : Bool :=
  [bang, minus, plusPlus, minusMinus].contains k

/-- The kinds of lexemes that denote a value. -/
def TokenKind.isLiteral (k : TokenKind) : Bool :=
  [boolean, kwNull, number, string].contains k

namespace Expr

/-- The level of an expression. -/
def level : Expr → Level
  | assign .. | set .. => .assignment
  | binary _ operator _ => (operator.kind.binary?.map Operator.level).getD .assignment
  | logical _ operator _ => (operator.kind.logical?.map Operator.level).getD .assignment
  | unary .. => .unary
  | call .. | get .. | grouping _ | literal _ | super .. | this _ | var _ => .call

/-- Operands are tight enough for their operators, and tokens are of the kinds they should be. -/
inductive Canonical : Expr → Prop
  | assign {name : Token} {e : Expr} (kind : name.kind = identifier) (value : Canonical e) :
      Canonical (assign name e)
  | binary {l r : Expr} {t : Token} {o : Operator} (kind : t.kind.binary? = some o)
      (left : Canonical l) (right : Canonical r) (tightLeft : o.left ≤ l.level)
      (tightRight : o.right ≤ r.level) : Canonical (binary l t r)
  | call {c : Expr} {paren : Token} {es : List Expr} (callee : Canonical c)
      (tight : Level.call ≤ c.level) (kind : paren.kind = rightParen)
      (arguments : ∀ e ∈ es, Canonical e) : Canonical (call c paren es)
  | get {e : Expr} {name : Token} (object : Canonical e) (tight : Level.call ≤ e.level)
      (kind : name.kind = identifier) : Canonical (get e name)
  | grouping {e : Expr} (inner : Canonical e) : Canonical (grouping e)
  | literal (v : Literal) : Canonical (literal v)
  | logical {l r : Expr} {t : Token} {o : Operator} (kind : t.kind.logical? = some o)
      (left : Canonical l) (right : Canonical r) (tightLeft : o.left ≤ l.level)
      (tightRight : o.right ≤ r.level) : Canonical (logical l t r)
  | set {e v : Expr} {name : Token} (object : Canonical e) (tight : Level.call ≤ e.level)
      (kind : name.kind = identifier) (value : Canonical v) : Canonical (set e name v)
  | super {keyword method : Token} (kind : keyword.kind = kwSuper)
      (methodKind : method.kind = identifier) : Canonical (super keyword method)
  | this {keyword : Token} (kind : keyword.kind = kwThis) : Canonical (this keyword)
  | unary {t : Token} {e : Expr} (kind : t.kind.isUnary = true) (right : Canonical e)
      (tight : Level.unary ≤ e.level) : Canonical (unary t e)
  | var {name : Token} (kind : name.kind = identifier) : Canonical (var name)

end Expr

/-- The name and the parameters of a function are identifiers. -/
structure FunctionDecl.NamesCanonical {σ : Type} (f : FunctionDecl σ) : Prop where
  name : f.name.kind = identifier
  parameters : ∀ t ∈ f.parameters, t.kind = identifier

namespace Stmt

/-- Whether a statement is none of the declarations; only then it can be a branch or the body of a
    loop. -/
def isStatement : Stmt → Bool
  | varDecl .. | function _ | classDecl .. | program _ => false
  | _ => true

/-- Whether a statement can begin a `for`. -/
def isInitializer : Stmt → Bool
  | varDecl .. | expression _ => true
  | _ => false

/-- Whether a statement ends with an `if` without `else`. -/
def endsOpen : Stmt → Bool
  | conditional _ _ none => true
  | conditional _ _ (some branch) => branch.endsOpen
  | whileLoop _ body => body.endsOpen
  | forLoop _ _ _ body => body.endsOpen
  | _ => false

/-- Branches are statements, an `else` belongs to the nearest `if`, no program stands within
    another, and tokens are of the kinds they should be. -/
inductive Canonical : Stmt → Prop
  | expression {e : Expr} (value : e.Canonical) : Canonical (expression e)
  | print {keyword : Token} {e : Expr} (kind : keyword.kind = kwPrint) (value : e.Canonical) :
      Canonical (print keyword e)
  | varDecl {name : Token} {type : Option Token} {init : Option Expr}
      (kind : name.kind = identifier) (typeKind : ∀ t ∈ type, t.kind = identifier)
      (value : ∀ e ∈ init, e.Canonical) : Canonical (varDecl name type init)
  | block {ss : List Stmt} (statements : ∀ s ∈ ss, Canonical s) : Canonical (block ss)
  | short {c : Expr} {s : Stmt} (condition : c.Canonical) (branch : Canonical s)
      (isStatement : s.isStatement = true) : Canonical (conditional c s none)
  | full {c : Expr} {s s' : Stmt} (condition : c.Canonical) (branch : Canonical s)
      (isStatement : s.isStatement = true) (closed : s.endsOpen = false) (other : Canonical s')
      (otherIsStatement : s'.isStatement = true) : Canonical (conditional c s (some s'))
  | whileLoop {c : Expr} {s : Stmt} (condition : c.Canonical) (body : Canonical s)
      (isStatement : s.isStatement = true) : Canonical (whileLoop c s)
  | forLoop {i : Option Stmt} {c e : Option Expr} {s : Stmt}
      (initializer : ∀ first ∈ i, Canonical first)
      (isInitializer : ∀ first ∈ i, first.isInitializer = true)
      (condition : ∀ x ∈ c, x.Canonical) (increment : ∀ x ∈ e, x.Canonical)
      (body : Canonical s) (isStatement : s.isStatement = true) : Canonical (forLoop i c e s)
  | breakLoop {keyword : Token} (kind : keyword.kind = kwBreak) : Canonical (breakLoop keyword)
  | continueLoop {keyword : Token} (kind : keyword.kind = kwContinue) :
      Canonical (continueLoop keyword)
  | returnValue {keyword : Token} {v : Option Expr} (kind : keyword.kind = kwReturn)
      (value : ∀ e ∈ v, e.Canonical) : Canonical (returnValue keyword v)
  | function {f : FunctionDecl Stmt} (names : f.NamesCanonical)
      (body : ∀ s ∈ f.body, Canonical s) : Canonical (function f)
  | classDecl {name : Token} {superclass : Option Token} {fs : List (FunctionDecl Stmt)}
      (kind : name.kind = identifier) (superKind : ∀ t ∈ superclass, t.kind = identifier)
      (names : ∀ f ∈ fs, f.NamesCanonical) (bodies : ∀ f ∈ fs, ∀ s ∈ f.body, Canonical s) :
      Canonical (classDecl name superclass fs)

end Stmt

/-- A canonical program is a row of canonical statements. -/
def Program.Canonical (p : Program) : Prop := ∀ s ∈ p.statements, s.Canonical

/-! ## Slots -/

/-- What stands at one place of a written program: a mark of a kind, a token that the program keeps,
    or a token of which it keeps the value. -/
inductive Slot
  | mark (kind : TokenKind)
  | token (t : Token)
  | value (v : Literal)

/-- Whether a token fills a slot. -/
def Slot.Holds : Slot → Token → Prop
  | mark k, t => t.kind = k
  | token t', t => t = t'
  | value v, t => t.kind.isLiteral = true ∧ t.literal = v

/-- Whether a token is kept or has a slot; `new` leaves no trace in a program. -/
def Token.isKept (t : Token) : Bool := t.kind ≠ kwNew

/-- The slots of some names, each preceded by a comma. -/
def Slot.ofMore : List Token → List Slot
  | [] => []
  | t :: ts => .mark comma :: .token t :: Slot.ofMore ts

/-- The slots of some names, separated by commas. -/
def Slot.ofNames : List Token → List Slot
  | [] => []
  | t :: ts => .token t :: Slot.ofMore ts

namespace Expr

open Slot (mark)

mutual

/-- The slots of an expression. -/
def slots : Expr → List Slot
  | assign name value => .token name :: mark equal :: value.slots
  | binary left operator right => left.slots ++ .token operator :: right.slots
  | call callee paren arguments =>
      callee.slots ++ mark leftParen :: (argumentSlots arguments ++ [.token paren])
  | get object name => object.slots ++ [mark dot, .token name]
  | grouping inner => mark leftParen :: (inner.slots ++ [mark rightParen])
  | literal value => [.value value]
  | logical left operator right => left.slots ++ .token operator :: right.slots
  | set object name value => object.slots ++ mark dot :: .token name :: mark equal :: value.slots
  | super keyword method => [.token keyword, mark dot, .token method]
  | this keyword => [.token keyword]
  | unary operator right => .token operator :: right.slots
  | var name => [.token name]

/-- The slots of some expressions, separated by commas. -/
def argumentSlots : List Expr → List Slot
  | [] => []
  | e :: es => e.slots ++ moreSlots es

/-- The slots of some expressions, each preceded by a comma. -/
def moreSlots : List Expr → List Slot
  | [] => []
  | e :: es => mark comma :: (e.slots ++ moreSlots es)

end

/-- The slots of an optional expression. -/
def slotsPart : Option Expr → List Slot
  | none => []
  | some e => e.slots

attribute [simp] slots argumentSlots moreSlots

end Expr

namespace Stmt

open Slot (mark)

/-- The slots of an optional name behind a mark. -/
def nameSlots (k : TokenKind) : Option Token → List Slot
  | none => []
  | some t => [mark k, .token t]

/-- The slots of an optional initial value. -/
def initialSlots : Option Expr → List Slot
  | none => []
  | some e => mark equal :: e.slots

mutual

/-- The slots of a statement. -/
def slots : Stmt → List Slot
  | expression value => value.slots ++ [mark semicolon]
  | print keyword value => .token keyword :: (value.slots ++ [mark semicolon])
  | varDecl name typeName initializer =>
      mark kwVar :: .token name
        :: (nameSlots colon typeName ++ initialSlots initializer ++ [mark semicolon])
  | block statements => mark leftBrace :: (slotsAll statements ++ [mark rightBrace])
  | conditional condition branch other =>
      mark kwIf :: mark leftParen
        :: (condition.slots ++ mark rightParen :: (branch.slots ++ elseSlots other))
  | whileLoop condition body =>
      mark kwWhile :: mark leftParen :: (condition.slots ++ mark rightParen :: body.slots)
  | forLoop initializer condition increment body =>
      mark kwFor :: mark leftParen
        :: (initializerSlots initializer ++ (Expr.slotsPart condition
          ++ mark semicolon :: (Expr.slotsPart increment ++ mark rightParen :: body.slots)))
  | breakLoop keyword => [.token keyword, mark semicolon]
  | continueLoop keyword => [.token keyword, mark semicolon]
  | returnValue keyword value => .token keyword :: (Expr.slotsPart value ++ [mark semicolon])
  | function decl => functionSlots decl
  | classDecl name superclass methods =>
      mark kwClass :: .token name
        :: (nameSlots kwExtends superclass
          ++ mark leftBrace :: (functionsSlots methods ++ [mark rightBrace]))
  | program statements => slotsAll statements

/-- The slots of some statements. -/
def slotsAll : List Stmt → List Slot
  | [] => []
  | s :: ss => s.slots ++ slotsAll ss

/-- The slots of an optional `else`. -/
def elseSlots : Option Stmt → List Slot
  | none => []
  | some s => mark kwElse :: s.slots

/-- The slots of the first part of a `for`. -/
def initializerSlots : Option Stmt → List Slot
  | none => [mark semicolon]
  | some s => s.slots

/-- The slots of a function. -/
def functionSlots : FunctionDecl Stmt → List Slot
  | ⟨name, parameters, body⟩ =>
      mark kwDef :: .token name :: mark leftParen
        :: (Slot.ofNames parameters ++ mark rightParen
          :: mark leftBrace :: (slotsAll body ++ [mark rightBrace]))

/-- The slots of some functions. -/
def functionsSlots : List (FunctionDecl Stmt) → List Slot
  | [] => []
  | f :: fs => functionSlots f ++ functionsSlots fs

end

attribute [simp] slots slotsAll elseSlots initializerSlots functionSlots functionsSlots

end Stmt

/-- The slots of a program. -/
def Program.slots (p : Program) : List Slot := Stmt.slotsAll p.statements

/-- Some tokens are a program written out. -/
def Program.WrittenAs (p : Program) (ts : List Token) : Prop :=
  List.Forall₂ Slot.Holds p.slots ts

end ScriptFront
