import ScriptFront.Program.Outline
import ScriptFront.Proofs.Program.Moved
import ScriptFront.Proofs.Program.SyntaxErrors

/-! # Placeless — the parser and the printer do not look at places

    The machine decides by kinds alone, and so with its tokens in other places it reads the same but
    for the places.  Two rows of tokens that differ in nothing but places form programs that differ
    in nothing else, or are refused for the same cause (`parse_alike`). -/

namespace ScriptFront

/-- No place in particular. -/
def Position.nowhere (_ : Position) : Position := .origin

/-- A token without its place. -/
abbrev Token.placeless (t : Token) : Token := t.move Position.nowhere

/-- A program without its places. -/
abbrev Program.placeless (p : Program) : Program := p.move Position.nowhere

/-- Two results are alike if both are there and related, or if there is a problem with the same
    cause instead of either.  The cause decides the kind of a problem, its message, its code, its
    help and the name it is about; its place does not matter. -/
def Alike {α : Type} (related : α → α → Prop) : Except Problem α → Except Problem α → Prop
  | .ok x, .ok y => related x y
  | .error p, .error q => p.cause = q.cause
  | _, _ => False

/-- Results that are alike are both there, or there is a problem instead of each. -/
theorem alike_iff {α : Type} {related : α → α → Prop} {x y : Except Problem α} :
    Alike related x y ↔ (∃ a b, x = .ok a ∧ y = .ok b ∧ related a b)
      ∨ ∃ p q, x = .error p ∧ y = .error q ∧ p.cause = q.cause := by
  cases x with
  | ok a =>
      cases y with
      | ok b => simp [Alike]
      | error q => simp [Alike]
  | error p =>
      cases y with
      | ok b => simp [Alike]
      | error q => simp [Alike]

theorem Alike.imp {α : Type} {related related' : α → α → Prop} {x y : Except Problem α}
    (h : Alike related x y) (weaker : ∀ a b, related a b → related' a b) : Alike related' x y := by
  rcases alike_iff.mp h with ⟨a, b, rfl, rfl, h⟩ | ⟨p, q, rfl, rfl, h⟩
  · exact weaker a b h
  · exact h

/-! ## The parser -/

open Grammar

section Parser

variable {m : Position → Position}

/-- Two trees of programs that differ in nothing but places form such programs, or both have an
    invalid target. -/
theorem alike_of_trees {tree tree' : Tree} (fits : tree.Fits grammar) (fits' : tree'.Fits grammar)
    (root : tree.root = .nonterminal .program) (root' : tree'.root = .nonterminal .program)
    (same : tree.move m = tree'.move m) :
    (∃ p p', tree.toProgram = .ok p ∧ tree'.toProgram = .ok p' ∧ p.move m = p'.move m)
    ∨ ∃ t t', tree.toProgram = .error (.invalidTarget t)
      ∧ tree'.toProgram = .error (.invalidTarget t') := by
  have notText : tree.root ≠ .nonterminal .text := by rw [root]; decide
  have notText' : tree'.root ≠ .nonterminal .text := by rw [root']; decide
  have values : moveBuilt m tree.value = moveBuilt m tree'.value := by
    rw [← Tree.value_move fits notText, ← Tree.value_move fits' notText', same]
  rcases toProgram_of_fits fits root with ⟨ss, value, ok⟩ | ⟨t, value, invalid⟩
  · rcases toProgram_of_fits fits' root' with ⟨ss', value', ok'⟩ | ⟨t', value', -⟩
    · rw [value, value'] at values
      refine Or.inl ⟨⟨ss⟩, ⟨ss'⟩, ok, ok', ?_⟩
      exact congrArg Program.mk (Value.stmts.inj (Except.ok.inj values))
    · rw [value, value'] at values
      cases values
  · rcases toProgram_of_fits fits' root' with ⟨ss', value', -⟩ | ⟨t', -, invalid'⟩
    · rw [value, value'] at values
      cases values
    · exact Or.inr ⟨t, t', invalid, invalid'⟩

/-- Tokens that differ in nothing but places form programs that differ in nothing else, or are
    refused for the same cause. -/
theorem parse_alike (fixed : m .origin = .origin) {tokens others : List Token}
    (same : (tokens.filter Token.isSignificant).map (Token.move m)
      = (others.filter Token.isSignificant).map (Token.move m)) :
    Alike (fun p q => p.move m = q.move m) (parse tokens) (parse others) := by
  have kinds : ∀ t, (Token.move m t).kind = t.kind := fun _ => rfl
  have atEnd : (Token.endAt .origin).move m = .endAt .origin := congrArg Token.endAt fixed
  -- both readings are the reading of the same tokens in the same places
  have ahead := automaton.read_map kinds atEnd (tokens.filter Token.isSignificant) []
  have back := automaton.read_map kinds atEnd (others.filter Token.isSignificant) []
  have readings := ahead.symm.trans ((congrArg (automaton.read []) same).trans back)
  rcases read_significant tokens with ⟨tree, read, fits, root⟩ | ⟨rest, expected, read⟩
  · rcases read_significant others with ⟨tree', read', fits', root'⟩ | ⟨_, _, read'⟩
    · rw [read, read'] at readings
      have trees : tree.move m = tree'.move m := by
        rw [Tree.move_eq_map, Tree.move_eq_map]
        exact Automaton.Reading.accepted.inj readings
      rcases alike_of_trees fits fits' root root' trees with
        ⟨p, p', ok, ok', moved⟩ | ⟨t, t', invalid, invalid'⟩
      · simp only [parse, read, read', ok, ok']
        exact moved
      · simp only [parse, read, read', invalid, invalid']
        rfl
    · rw [read, read'] at readings
      cases readings
  · rcases read_significant others with ⟨_, read', -⟩ | ⟨rest', _, read'⟩
    · rw [read, read'] at readings
      cases readings
    · rw [read, read'] at readings
      obtain ⟨rests, rfl⟩ := Automaton.Reading.refused.inj readings
      cases rest with
      | nil =>
          cases List.map_eq_nil_iff.mp rests.symm
          simp only [parse, read, read']
          rfl
      | cons t rest =>
          obtain ⟨t', _, rfl, own, -⟩ := List.map_eq_cons_iff.mp rests.symm
          have lexemes := congrArg Token.lexeme own
          rw [Token.lexeme_move, Token.lexeme_move] at lexemes
          simp only [parse, read, read']
          show Cause.unexpectedToken t.lexeme expected = .unexpectedToken t'.lexeme expected
          rw [lexemes]

end Parser

/-! ## The printer -/

open Outline

namespace Expr

mutual

/-- An expression is printed without a look at places. -/
theorem text?_move (m : Position → Position) :
    ∀ e : Expr, (e.move m).outline.text? = e.outline.text?
  | assign name value | get value name | unary name value => by
      simp [move, outline, text?, texts, Head.text, text?_move m value]
  | binary left operator right | logical left operator right | set left operator right => by
      simp [move, outline, text?, texts, Head.text, text?_move m left, text?_move m right]
  | call callee paren arguments => by
      simp [move, outline, text?, texts, Head.text, text?_move m callee, texts_moveAll m arguments]
  | grouping inner => by simp [move, outline, text?, texts, Head.text, text?_move m inner]
  | literal value | super _ value | this value | var value => rfl

theorem texts_moveAll (m : Position → Position) :
    ∀ es : List Expr, texts (outlines (moveAll m es)) = texts (outlines es)
  | [] => rfl
  | e :: es => by simp [moveAll, outlines, texts, text?_move m e, texts_moveAll m es]

end

end Expr

namespace Stmt

theorem text?_movePart (m : Position → Position) (e : Option Expr) :
    (Expr.outlinePart (e.map (Expr.move m))).text? = (Expr.outlinePart e).text? := by
  cases e with
  | none => rfl
  | some e => exact e.text?_move m

mutual

/-- A statement is printed without a look at places. -/
theorem text?_move (m : Position → Position) :
    ∀ s : Stmt, (s.move m).outline.text? = s.outline.text?
  | expression value | print _ value => by
      simp [move, outline, text?, texts, Head.text, value.text?_move m]
  | varDecl name typeName initializer => by
      cases typeName with
      | none =>
          simp [move, outline, text?, texts, Head.text, text?_movePart m initializer]
      | some t =>
          simp [move, outline, text?, texts, Head.text, text?_movePart m initializer]
  | block statements | program statements => by
      simp [move, outline, text?, Head.text, texts_moveAll m statements]
  | conditional condition thenBranch elseBranch => by
      simp [move, outline, text?, texts, Head.text, condition.text?_move m, text?_move m thenBranch,
        text?_moveOptional m elseBranch]
  | whileLoop condition body => by
      simp [move, outline, text?, texts, Head.text, condition.text?_move m, text?_move m body]
  | forLoop initializer condition increment body => by
      simp [move, outline, text?, texts, Head.text, text?_moveOptional m initializer,
        text?_movePart m condition, text?_movePart m increment, text?_move m body]
  | breakLoop _ | continueLoop _ => rfl
  | returnValue _ value => by
      simp [move, outline, text?, texts, Head.text, text?_movePart m value]
  | function decl => text?_moveFunction m decl
  | classDecl name superclass methods => by
      cases superclass with
      | none =>
          simp [move, outline, text?, texts, Head.text, texts_moveFunctions m methods]
      | some t =>
          simp [move, outline, Expr.outlinePart, Expr.outline, text?, texts, Head.text,
            texts_moveFunctions m methods]

theorem texts_moveAll (m : Position → Position) :
    ∀ ss : List Stmt, texts (outlines (moveAll m ss)) = texts (outlines ss)
  | [] => rfl
  | s :: ss => by simp [moveAll, outlines, texts, text?_move m s, texts_moveAll m ss]

theorem text?_moveOptional (m : Position → Position) :
    ∀ s : Option Stmt, (outlinePart (movePart m s)).text? = (outlinePart s).text?
  | none => rfl
  | some s => text?_move m s

theorem text?_moveFunction (m : Position → Position) :
    ∀ f : FunctionDecl Stmt, (outlineFunction (moveFunction m f)).text? = (outlineFunction f).text?
  | ⟨name, parameters, body⟩ => by
      have lexemes : (parameters.map (Token.move m)).map Token.lexeme
          = parameters.map Token.lexeme := by
        rw [List.map_map]
        rfl
      simp only [moveFunction, outlineFunction, text?, Head.text, lexemes, texts_moveAll m body,
        Token.lexeme_move]

theorem texts_moveFunctions (m : Position → Position) :
    ∀ fs : List (FunctionDecl Stmt),
      texts (outlineFunctions (moveFunctions m fs)) = texts (outlineFunctions fs)
  | [] => rfl
  | f :: fs => by
      simp [moveFunctions, outlineFunctions, texts, text?_moveFunction m f,
        texts_moveFunctions m fs]

end

end Stmt

/-- A program has the same text in other places. -/
theorem Program.printed_move (m : Position → Position) (p : Program) :
    (p.move m).printed = p.printed := by
  have parts : texts (p.move m).outlines = texts p.outlines := Stmt.texts_moveAll m p.statements
  simp only [printed, outline, Outline.printed, text?, parts]

end ScriptFront
