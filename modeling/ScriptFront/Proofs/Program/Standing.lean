import ScriptFront.Program.Building
import ScriptFront.Proofs.Grammar.NearestElse
import ScriptFront.Proofs.Program.Canonical

/-! # Standing — what the values of trees are like

    Every nonterminal stands for values of its own: an expression of some level, a statement of some
    kind, a row of names.  Whatever a tree of the grammar stands for is canonical, and the tokens of
    the tree fill its slots; `new` leaves no trace in a program and so has no slot.  The one thing
    that may go wrong is a target that cannot be assigned to.

    The proof has one step for each rule (`sound_of_mem`), and `outcome_of_fits` puts the steps
    together along a tree. -/

namespace ScriptFront

/-- Some tokens fill some slots one by one. -/
abbrev Fills (slots : List Slot) (ts : List Token) : Prop := List.Forall₂ Slot.Holds slots ts

theorem Fills.append {as bs : List Slot} {us vs : List Token} (ha : Fills as us)
    (hb : Fills bs vs) : Fills (as ++ bs) (us ++ vs) :=
  List.rel_append ha hb

theorem Fills.exists_of_append {as bs : List Slot} {ts : List Token}
    (h : Fills (as ++ bs) ts) : ∃ us vs, ts = us ++ vs ∧ Fills as us ∧ Fills bs vs := by
  induction as generalizing ts with
  | nil => exact ⟨[], ts, rfl, .nil, h⟩
  | cons a as ih =>
      cases h with
      | cons holds rest =>
          obtain ⟨us, vs, rfl, ha, hb⟩ := ih rest
          exact ⟨_ :: us, vs, rfl, .cons holds ha, hb⟩

/-- A single mark is filled by a token of its kind. -/
theorem Fills.mark {t : Token} {k : TokenKind} (kind : t.kind = k) : Fills [.mark k] [t] :=
  .cons kind .nil

/-- The nonterminal of the expressions of a level. -/
def Level.nonterminal : Level → Grammar.Nonterminal
  | .assignment => .assignment
  | .logicOr => .logicOr
  | .logicAnd => .logicAnd
  | .equality => .equality
  | .comparison => .comparison
  | .term => .term
  | .factor => .factor
  | .unary => .unary
  | .power => .power
  | .call => .call

namespace Grammar

open Nonterminal TokenKind

/-! ## What nonterminals stand for -/

/-- A canonical expression that is tight enough, filled by some tokens.  No expression ends with an
    `if`. -/
def StandsExpr (l : Level) (v : Value) (ts : List Token) (isOpen : Prop) : Prop :=
  ∃ e, v = .expr e ∧ e.Canonical ∧ l ≤ e.level ∧ Fills e.slots ts ∧ ¬ isOpen

/-- A canonical statement of some kind, filled by some tokens, that ends open if it should. -/
def StandsStmt (p : Stmt → Bool) (v : Value) (ts : List Token) (isOpen : Prop) : Prop :=
  ∃ s, v = .stmt s ∧ s.Canonical ∧ p s = true ∧ Fills s.slots ts ∧ (isOpen ↔ s.endsOpen = true)

/-- What a nonterminal stands for, with the tokens that are kept of its text and whether it ends
    with an `if` without `else`. -/
def Nonterminal.Stands (n : Nonterminal) (v : Value) (ts : List Token) (isOpen : Prop) : Prop :=
  match n with
  | text => False
  | program | declarations =>
      ∃ ss, v = .stmts ss ∧ (∀ s ∈ ss, s.Canonical) ∧ Fills (Stmt.slotsAll ss) ts
  | declaration | classDecl => StandsStmt (fun _ => true) v ts isOpen
  | statement | ifStmt | whileStmt | forStmt | printStmt | breakStmt | continueStmt
  | returnStmt => StandsStmt Stmt.isStatement v ts isOpen
  | varDecl => StandsStmt Stmt.isInitializer v ts isOpen
  | exprStmt => StandsStmt (fun s => s.isStatement && s.isInitializer) v ts isOpen
  | block =>
      ∃ ss, v = .stmts ss ∧ (∀ s ∈ ss, s.Canonical)
        ∧ Fills (.mark leftBrace :: (Stmt.slotsAll ss ++ [.mark rightBrace])) ts ∧ ¬ isOpen
  | functions =>
      ∃ fs, v = .functions fs ∧ (∀ f ∈ fs, f.NamesCanonical)
        ∧ (∀ f ∈ fs, ∀ s ∈ f.body, s.Canonical) ∧ Fills (Stmt.functionsSlots fs) ts
  | funDecl =>
      ∃ f, v = .function f ∧ f.NamesCanonical ∧ (∀ s ∈ f.body, s.Canonical)
        ∧ Fills (Stmt.functionSlots f) ts ∧ ¬ isOpen
  | parameters =>
      ∃ ns, v = .names ns ∧ (∀ t ∈ ns, t.kind = identifier) ∧ Fills (Slot.ofNames ns) ts
  | moreParameters =>
      ∃ ns, v = .names ns ∧ (∀ t ∈ ns, t.kind = identifier) ∧ Fills (Slot.ofMore ns) ts
  | forInit =>
      ∃ i, v = .init i ∧ (∀ s ∈ i, s.Canonical) ∧ (∀ s ∈ i, s.isInitializer = true)
        ∧ Fills (Stmt.initializerSlots i) ts
  | emptyInit => ∃ t, v = .token t ∧ Fills [.mark semicolon] ts
  | arguments =>
      ∃ es, v = .exprs es ∧ (∀ e ∈ es, e.Canonical) ∧ Fills (Expr.argumentSlots es) ts
  | moreArguments =>
      ∃ es, v = .exprs es ∧ (∀ e ∈ es, e.Canonical) ∧ Fills (Expr.moreSlots es) ts
  | expression | assignment => StandsExpr .assignment v ts isOpen
  | logicOr => StandsExpr .logicOr v ts isOpen
  | logicAnd => StandsExpr .logicAnd v ts isOpen
  | equality => StandsExpr .equality v ts isOpen
  | comparison => StandsExpr .comparison v ts isOpen
  | term => StandsExpr .term v ts isOpen
  | factor => StandsExpr .factor v ts isOpen
  | unary => StandsExpr .unary v ts isOpen
  | power => StandsExpr .power v ts isOpen
  | call | primary => StandsExpr .call v ts isOpen

theorem stands_level {l : Level} {v : Value} {ts : List Token} {isOpen : Prop} :
    l.nonterminal.Stands v ts isOpen ↔ StandsExpr l v ts isOpen := by
  cases l <;> rfl

theorem StandsExpr.weaken {l m : Level} (le : l ≤ m) {v : Value} {ts : List Token}
    {isOpen : Prop} (h : StandsExpr m v ts isOpen) : StandsExpr l v ts isOpen := by
  obtain ⟨e, rfl, canonical, tight, fills, closed⟩ := h
  exact ⟨e, rfl, canonical, Level.trans le tight, fills, closed⟩

/-- What becomes of a tree: a value as its root asks for, or an equals sign among its tokens before
    which there is nothing that can be assigned to. -/
def Nonterminal.Outcome (n : Nonterminal) (ts : List Token) (isOpen : Prop) :
    Except Misfit Value → Prop
  | .ok v => n.Stands v ts isOpen
  | .error (.invalidTarget t) => t ∈ ts ∧ t.kind = equal
  | .error .malformed => False

/-- A statement about all values and tokens that a row of symbols can have; `isOpen` is how the
    last symbol ends. -/
def Demands : List Symbol → Prop → (List Value → List Token → Prop → Prop) → Prop
  | [], isOpen, p => p [] [] isOpen
  | .terminal kwNew :: xs, _, p =>
      ∀ t : Token, t.kind = kwNew → Demands xs False fun vs ts o => p (.token t :: vs) ts o
  | .terminal k :: xs, _, p =>
      ∀ t : Token, t.kind = k → Demands xs False fun vs ts o => p (.token t :: vs) (t :: ts) o
  | .nonterminal n :: xs, _, p =>
      ∀ v us o', n.Stands v us o' →
        Demands xs o' fun vs ts o => p (v :: vs) (us ++ ts) o

/-- Whatever the right side of a rule has for values, the rule makes a value for its left side of
    them. -/
def Rule.Sound (r : Rule) : Prop :=
  Demands r.right False fun vs ts isOpen => r.left.Outcome ts isOpen (r.form.build vs)

theorem demands_terminal {k : TokenKind} (kept : k ≠ kwNew) {xs : List Symbol} {o : Prop}
    {p : List Value → List Token → Prop → Prop} :
    Demands (.terminal k :: xs) o p
      ↔ ∀ t : Token, t.kind = k →
        Demands xs False fun vs ts o => p (.token t :: vs) (t :: ts) o := by
  cases k <;> first | rfl | exact absurd rfl kept

/-- The value of a single symbol is that of the rule. -/
theorem sound_same {n m : Nonterminal}
    (h : ∀ v ts o, m.Stands v ts o → n.Stands v ts o) : Rule.Sound ⟨n, [m], .same⟩ := by
  intro v us o stands
  show n.Stands v (us ++ []) o
  rw [List.append_nil]
  exact h v us o stands

end Grammar

end ScriptFront
