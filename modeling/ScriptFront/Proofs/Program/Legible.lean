import ScriptFront.Proofs.Program.Decoding
import ScriptFront.Proofs.Program.Names
import ScriptFront.Program.Source

/-! # Legible programs — what a printed program tells

    The phrase of a canonical expression or statement with genuine tokens is well formed, and it
    stands for what the expression or statement looks like without its places
    (`Expr.Canonical.legible`, `Stmt.Canonical.legible`).  So two texts are printed alike just if
    their programs look alike (`printed_eq_iff_apparent_eq`). -/

namespace ScriptFront

open Phrase TokenKind
open Outline (phrase? phrases)

/-- One number only is too large for any other. -/
theorem Decimal.eq_infinity {x : Float} (h : classify x = .infinite false) : x = infinity := by
  have infinite : classify infinity = .infinite false := by decide +kernel
  exact eq_of_classify_eq (h.trans infinite.symm) (by rw [h]; nofun)

/-- A row that begins with a word is well formed if its word and its parts are. -/
theorem Phrase.WellFormed.named {w : String} {ps : List Phrase} (head : (Phrase.word w).WellFormed)
    (parts : ∀ p ∈ ps, p.WellFormed) : (Phrase.row (.word w :: ps)).WellFormed :=
  .row (List.forall_mem_cons.mpr ⟨head, parts⟩)

/-- The clauses of a `for` are always there. -/
theorem Head.phrase_forLoop (i c e : Option Phrase) (b : Phrase) :
    Head.forLoop.phrase [i, c, e, some b]
      = row [word "for", i.getD (word "_"), c.getD (word "_"), e.getD (word "_"), b] := rfl

/-! ## Expressions -/

namespace Expr

/-- An expression has a phrase, and the phrase stands for what the expression looks like. -/
structure ShownBy (e : Expr) (p : Phrase) : Prop where
  phrase : e.outline.phrase? = some p
  wellFormed : p.WellFormed
  expr : p.toExpr = (e.move Position.nowhere).apparent

/-- An expression can be read off its phrase. -/
def Legible (e : Expr) : Prop := ∃ p, e.ShownBy p

/-- Some expressions have phrases that stand for what they look like. -/
structure ShownAllBy (es : List Expr) (ps : List Phrase) : Prop where
  phrases : phrases (outlines es) = ps.map some
  wellFormed : ∀ p ∈ ps, p.WellFormed
  exprs : toExprs ps = apparentAll (moveAll Position.nowhere es)

/-- Expressions can be read if each can. -/
theorem legible_all {es : List Expr} (h : ∀ e ∈ es, e.Legible) : ∃ ps, ShownAllBy es ps := by
  induction es with
  | nil => exact ⟨[], rfl, List.forall_mem_nil _, rfl⟩
  | cons e es ih =>
      obtain ⟨⟨p, first⟩, rest⟩ := List.forall_mem_cons.mp h
      obtain ⟨ps, shown⟩ := ih rest
      refine ⟨p :: ps, ?_, List.forall_mem_cons.mpr ⟨first.wellFormed, shown.wellFormed⟩, ?_⟩
      · rw [outlines, Outline.phrases, first.phrase, shown.phrases, List.map_cons]
      · rw [toExprs, first.expr, shown.exprs, moveAll, apparentAll]

theorem slots_subset_more {es : List Expr} {e : Expr} (mem : e ∈ es) : e.slots ⊆ moreSlots es := by
  induction es with
  | nil => cases mem
  | cons d es ih =>
      intro s slot
      rcases List.mem_cons.mp mem with rfl | later
      · simp [slot]
      · simp [ih later slot]

theorem slots_subset_arguments {es : List Expr} {e : Expr} (mem : e ∈ es) :
    e.slots ⊆ argumentSlots es := by
  cases es with
  | nil => cases mem
  | cons d es =>
      intro s slot
      rcases List.mem_cons.mp mem with rfl | later
      · simp [slot]
      · simp [slots_subset_more later slot]

/-- A literal can be read: an infinite one looks like a name. -/
theorem legible_literal {v : Literal} (genuine : v.Genuine) : (literal v).Legible := by
  cases v with
  | null => exact ⟨word "null", rfl, .word rfl, rfl⟩
  | bool b =>
      cases b with
      | true => exact ⟨word "true", rfl, .word rfl, rfl⟩
      | false => exact ⟨word "false", rfl, .word rfl, rfl⟩
  | text s => exact ⟨quoted s, rfl, .quoted genuine, rfl⟩
  | number x =>
      have seen : (literal (.number x)).ShownBy (Literal.number x).phrase := by
        refine ⟨rfl, ?_, ?_⟩
        · rw [Literal.phrase]
          split
          · exact .word rfl
          · rename_i finite
            exact .number genuine fun infinite => finite (Decimal.eq_infinity infinite)
        · rw [Literal.phrase, move, apparent, Literal.apparent]
          split
          · rfl
          · rfl
      exact ⟨_, seen⟩

/-- A canonical expression with genuine tokens can be read off its phrase. -/
theorem Canonical.legible {e : Expr} (h : e.Canonical) (genuine : ∀ s ∈ e.slots, s.Genuine) :
    e.Legible := by
  -- each form has a phrase of its own: the first word says the form, the parts what it is made of
  induction h with
  | @assign name e kind _ ih =>
      obtain ⟨p, shown⟩ := ih fun s mem => genuine s (by simp [mem])
      have named : name.Genuine := genuine (.token name) (by simp)
      refine ⟨row [word "=", word name.lexeme, p], ?_, ?_, ?_⟩
      · simp [outline, phrase?, phrases, Head.phrase, shown.phrase]
      · refine .named (.word rfl) ?_
        simp [named.wellFormed_word kind, shown.wellFormed]
      · show ofRow "=" [ofWord name.lexeme, p.toExpr] = _
        rw [named.ofWord_lexeme kind, shown.expr]
        rfl
  | @binary l r t o kind _ _ _ _ ihLeft ihRight =>
      obtain ⟨p, left⟩ := ihLeft fun s mem => genuine s (by simp [mem])
      obtain ⟨q, right⟩ := ihRight fun s mem => genuine s (by simp [mem])
      have operator : t.Genuine := genuine (.token t) (by simp)
      obtain ⟨isWord, read⟩ := operator.binary kind
      refine ⟨row [word t.lexeme, p, q], ?_, ?_, ?_⟩
      · simp [outline, phrase?, phrases, Head.phrase, left.phrase, right.phrase]
      · refine .named isWord ?_
        simp [left.wellFormed, right.wellFormed]
      · exact (read _ _).trans (by rw [left.expr, right.expr]; rfl)
  | @call c paren es _ _ kind _ ihCallee ihArguments =>
      obtain ⟨p, callee⟩ := ihCallee fun s mem => genuine s (by simp [mem])
      obtain ⟨ps, arguments⟩ := legible_all fun e mem =>
        ihArguments e mem fun s slot => genuine s (by simp [slots_subset_arguments mem slot])
      have closing : paren.Genuine := genuine (.token paren) (by simp)
      refine ⟨row (word "call" :: p :: ps), ?_, ?_, ?_⟩
      · simp only [outline, phrase?, phrases, Head.phrase, callee.phrase, arguments.phrases]
        rw [← List.map_cons, present_map_some]
      · exact .named (.word rfl)
          (List.forall_mem_cons.mpr ⟨callee.wellFormed, arguments.wellFormed⟩)
      · show ofRow "call" (p.toExpr :: toExprs ps) = _
        rw [callee.expr, arguments.exprs, move, apparent, closing.eq_mark_of_kind kind rfl]
        rfl
  | @get e name _ _ kind ih =>
      obtain ⟨p, object⟩ := ih fun s mem => genuine s (by simp [mem])
      have named : name.Genuine := genuine (.token name) (by simp)
      refine ⟨row [word ".", p, word name.lexeme], ?_, ?_, ?_⟩
      · simp [outline, phrase?, phrases, Head.phrase, object.phrase]
      · refine .named (.word rfl) ?_
        simp [named.wellFormed_word kind, object.wellFormed]
      · show ofRow "." [p.toExpr, ofWord name.lexeme] = _
        rw [named.ofWord_lexeme kind, object.expr]
        rfl
  | grouping _ ih =>
      obtain ⟨p, inner⟩ := ih fun s mem => genuine s (by simp [mem])
      refine ⟨row [word "group", p], ?_, ?_, ?_⟩
      · simp [outline, phrase?, phrases, Head.phrase, inner.phrase]
      · exact .named (.word rfl) (List.forall_mem_singleton.mpr inner.wellFormed)
      · show ofRow "group" [p.toExpr] = _
        rw [inner.expr]
        rfl
  | literal v => exact legible_literal (genuine (.value v) (by simp))
  | @logical l r t o kind _ _ _ _ ihLeft ihRight =>
      obtain ⟨p, left⟩ := ihLeft fun s mem => genuine s (by simp [mem])
      obtain ⟨q, right⟩ := ihRight fun s mem => genuine s (by simp [mem])
      have operator : t.Genuine := genuine (.token t) (by simp)
      obtain ⟨isWord, read⟩ := operator.logical kind
      refine ⟨row [word t.lexeme, p, q], ?_, ?_, ?_⟩
      · simp [outline, phrase?, phrases, Head.phrase, left.phrase, right.phrase]
      · refine .named isWord ?_
        simp [left.wellFormed, right.wellFormed]
      · exact (read _ _).trans (by rw [left.expr, right.expr]; rfl)
  | @set e v name _ _ kind _ ihObject ihValue =>
      obtain ⟨p, object⟩ := ihObject fun s mem => genuine s (by simp [mem])
      obtain ⟨q, value⟩ := ihValue fun s mem => genuine s (by simp [mem])
      have named : name.Genuine := genuine (.token name) (by simp)
      refine ⟨row [word "=.", p, word name.lexeme, q], ?_, ?_, ?_⟩
      · simp [outline, phrase?, phrases, Head.phrase, object.phrase, value.phrase]
      · refine .named (.word rfl) ?_
        simp [named.wellFormed_word kind, object.wellFormed, value.wellFormed]
      · show ofRow "=." [p.toExpr, ofWord name.lexeme, q.toExpr] = _
        rw [named.ofWord_lexeme kind, object.expr, value.expr]
        rfl
  | @super keyword method kind methodKind =>
      have super : keyword.Genuine := genuine (.token keyword) (by simp)
      have named : method.Genuine := genuine (.token method) (by simp)
      refine ⟨row [word "super", word method.lexeme], rfl, ?_, ?_⟩
      · exact .named (.word rfl) (List.forall_mem_singleton.mpr (named.wellFormed_word methodKind))
      · show ofRow "super" [ofWord method.lexeme] = _
        rw [named.ofWord_lexeme methodKind, move, apparent, super.eq_mark_of_kind kind rfl]
        rfl
  | @this keyword kind =>
      have this : keyword.Genuine := genuine (.token keyword) (by simp)
      refine ⟨word "this", rfl, .word rfl, ?_⟩
      rw [move, apparent, this.eq_mark_of_kind kind rfl]
      rfl
  | @unary t e kind _ _ ih =>
      obtain ⟨p, right⟩ := ih fun s mem => genuine s (by simp [mem])
      have operator : t.Genuine := genuine (.token t) (by simp)
      obtain ⟨isWord, read⟩ := operator.unary kind
      refine ⟨row [word t.lexeme, p], ?_, ?_, ?_⟩
      · simp [outline, phrase?, phrases, Head.phrase, right.phrase]
      · exact .named isWord (List.forall_mem_singleton.mpr right.wellFormed)
      · exact (read _).trans (by rw [right.expr]; rfl)
  | @var name kind =>
      have named : name.Genuine := genuine (.token name) (by simp)
      exact ⟨word name.lexeme, rfl, named.wellFormed_word kind, named.ofWord_lexeme kind⟩

/-- An optional expression can be read: what is not there has no phrase. -/
def LegiblePart (e : Option Expr) : Prop :=
  ∃ p : Option Phrase, (outlinePart e).phrase? = p ∧ (∀ q ∈ p, q.WellFormed)
    ∧ p.map toExpr = (e.map (move Position.nowhere)).map apparent

theorem legible_part {e : Option Expr} (h : ∀ x ∈ e, x.Canonical)
    (genuine : ∀ s ∈ slotsPart e, s.Genuine) : LegiblePart e := by
  cases e with
  | none => exact ⟨none, rfl, nofun, rfl⟩
  | some x =>
      obtain ⟨p, shown⟩ := (h x rfl).legible genuine
      refine ⟨some p, shown.phrase, ?_, congrArg some shown.expr⟩
      rintro _ ⟨⟩
      exact shown.wellFormed

/-- Only what is the variable `_` looks like it. -/
theorem isUnderscore_of_apparent {e : Expr} (h : e.apparent = var (.named "_")) :
    e.isUnderscore = true := by
  cases e with
  | var name =>
      rw [Expr.var.inj h]
      rfl
  | literal v =>
      cases v with
      | number x =>
          rw [apparent, Literal.apparent] at h
          split at h
          · have same : "inf" = "_" := congrArg Token.lexeme (Expr.var.inj h)
            exact absurd same (by decide)
          · cases h
      | _ => cases h
  | _ => cases h

/-- Just the variable `_` is written as `_`. -/
theorem ShownBy.clause {e : Expr} {p : Phrase} (shown : e.ShownBy p) :
    p.toClause = apparentClause (some (e.move Position.nowhere)) := by
  rw [apparentClause]
  split
  · rename_i underscore
    cases e with
    | var name =>
        have same : name.lexeme = "_" := eq_of_beq underscore
        have phrase : some (word name.lexeme) = some p := shown.phrase
        rw [← Option.some.inj phrase, same]
        rfl
    | _ => cases underscore
  · rename_i other
    unfold toClause
    split
    · exact absurd (isUnderscore_of_apparent shown.expr.symm) other
    · rw [shown.expr]

/-- A clause of a `for` can be read: `_` is none. -/
def LegibleClause (e : Option Expr) : Prop :=
  ∃ p, (outlinePart e).phrase?.getD (word "_") = p ∧ p.WellFormed
    ∧ p.toClause = apparentClause (e.map (move Position.nowhere))

theorem legible_clause {e : Option Expr} (h : ∀ x ∈ e, x.Canonical)
    (genuine : ∀ s ∈ slotsPart e, s.Genuine) : LegibleClause e := by
  cases e with
  | none => exact ⟨word "_", rfl, .word rfl, rfl⟩
  | some x =>
      obtain ⟨p, shown⟩ := (h x rfl).legible genuine
      exact ⟨p, congrArg (Option.getD · _) shown.phrase, shown.wellFormed, shown.clause⟩

end Expr

/-! ## Statements -/

namespace Stmt

/-- A statement has a row, and the row stands for what the statement looks like. -/
structure ShownBy (s : Stmt) (parts : List Phrase) : Prop where
  phrase : s.outline.phrase? = some (row parts)
  wellFormed : (row parts).WellFormed
  stmt : (row parts).toStmt = (s.move Position.nowhere).apparent

/-- A statement can be read off its row. -/
def Legible (s : Stmt) : Prop := ∃ parts, s.ShownBy parts

/-- Some statements have phrases that stand for what they look like. -/
structure ShownAllBy (ss : List Stmt) (ps : List Phrase) : Prop where
  phrases : phrases (outlines ss) = ps.map some
  wellFormed : ∀ p ∈ ps, p.WellFormed
  stmts : toStmts ps = apparentAll (moveAll Position.nowhere ss)

/-- Statements can be read if each can. -/
theorem legible_all {ss : List Stmt} (h : ∀ s ∈ ss, s.Legible) : ∃ ps, ShownAllBy ss ps := by
  induction ss with
  | nil => exact ⟨[], rfl, List.forall_mem_nil _, rfl⟩
  | cons s ss ih =>
      obtain ⟨⟨p, first⟩, rest⟩ := List.forall_mem_cons.mp h
      obtain ⟨ps, shown⟩ := ih rest
      refine ⟨row p :: ps, ?_, List.forall_mem_cons.mpr ⟨first.wellFormed, shown.wellFormed⟩, ?_⟩
      · rw [outlines, Outline.phrases, first.phrase, shown.phrases, List.map_cons]
      · rw [toStmts, first.stmt, shown.stmts, moveAll, apparentAll]

theorem slots_subset_all {ss : List Stmt} {s : Stmt} (mem : s ∈ ss) : s.slots ⊆ slotsAll ss := by
  induction ss with
  | nil => cases mem
  | cons t ss ih =>
      intro slot inside
      rcases List.mem_cons.mp mem with rfl | later
      · simp [inside]
      · simp [ih later inside]

theorem body_subset_function {f : FunctionDecl Stmt} {s : Stmt} (mem : s ∈ f.body) :
    s.slots ⊆ functionSlots f := by
  obtain ⟨name, parameters, body⟩ := f
  intro slot inside
  simp [slots_subset_all mem inside]

theorem function_subset_functions {fs : List (FunctionDecl Stmt)} {f : FunctionDecl Stmt}
    (mem : f ∈ fs) : functionSlots f ⊆ functionsSlots fs := by
  induction fs with
  | nil => cases mem
  | cons g fs ih =>
      intro slot inside
      rcases List.mem_cons.mp mem with rfl | later
      · simp [inside]
      · simp [ih later inside]

theorem slotsPart_subset_initial {e : Option Expr} : Expr.slotsPart e ⊆ initialSlots e := by
  cases e with
  | none => exact List.Subset.refl _
  | some e => exact List.subset_cons_self _ _

/-- A function can be read if its statements can. -/
theorem legible_function {f : FunctionDecl Stmt} (names : f.NamesCanonical)
    (genuine : ∀ s ∈ functionSlots f, s.Genuine) (body : ∀ s ∈ f.body, s.Legible) :
    (function f).Legible := by
  obtain ⟨name, parameters, body'⟩ := f
  obtain ⟨ps, shown⟩ := legible_all body
  have named : name.Genuine := genuine (.token name) (by simp)
  have named' : ∀ t ∈ parameters, t.Genuine := fun t mem =>
    genuine (.token t) (by simp [token_mem_ofNames mem])
  have words : (parameters.map fun t => word t.lexeme).map toName
      = parameters.map (Token.move Position.nowhere) := by
    rw [List.map_map]
    exact List.map_congr_left fun t mem =>
      ((named' t mem).eq_named (names.parameters t mem)).symm
  refine ⟨word "def" :: word name.lexeme :: row (parameters.map fun t => word t.lexeme) :: ps,
    ?_, ?_, ?_⟩
  · simp only [outline, outlineFunction, phrase?, Head.phrase, shown.phrases, present_map_some]
  · refine .named (.word rfl) (List.forall_mem_cons.mpr ⟨named.wellFormed_word names.name, ?_⟩)
    refine List.forall_mem_cons.mpr ⟨.row ?_, shown.wellFormed⟩
    exact List.forall_mem_map.mpr fun t mem =>
      (named' t mem).wellFormed_word (names.parameters t mem)
  · show function ⟨.named name.lexeme, (parameters.map fun t => word t.lexeme).map toName,
      toStmts ps⟩ = _
    rw [words, shown.stmts, ← named.eq_named names.name]
    rfl

/-- Methods can be read: each of them has a row. -/
def LegibleMethods (fs : List (FunctionDecl Stmt)) : Prop :=
  ∃ rows : List (List Phrase), phrases (outlineFunctions fs) = (rows.map row).map some
    ∧ (∀ p ∈ rows.map row, p.WellFormed)
    ∧ (toStmts (rows.map row)).filterMap function?
      = apparentFunctions (moveFunctions Position.nowhere fs)

/-- Methods can be read if their statements can. -/
theorem legible_methods {fs : List (FunctionDecl Stmt)} (names : ∀ f ∈ fs, f.NamesCanonical)
    (genuine : ∀ s ∈ functionsSlots fs, s.Genuine) (bodies : ∀ f ∈ fs, ∀ s ∈ f.body, s.Legible) :
    LegibleMethods fs := by
  induction fs with
  | nil => exact ⟨[], rfl, List.forall_mem_nil _, rfl⟩
  | cons f fs ih =>
      obtain ⟨named, restNamed⟩ := List.forall_mem_cons.mp names
      obtain ⟨body, restBodies⟩ := List.forall_mem_cons.mp bodies
      obtain ⟨parts, shown⟩ := legible_function named (fun s mem => genuine s (by simp [mem])) body
      have phrase : (outlineFunction f).phrase? = some (row parts) := shown.phrase
      obtain ⟨rows, phrases, wellFormed, functions⟩ :=
        ih restNamed (fun s mem => genuine s (by simp [mem])) restBodies
      refine ⟨parts :: rows, ?_, List.forall_mem_cons.mpr ⟨shown.wellFormed, wellFormed⟩, ?_⟩
      · rw [outlineFunctions, Outline.phrases, phrase, phrases, List.map_cons, List.map_cons]
      · rw [List.map_cons, toStmts, shown.stmt, List.filterMap_cons, functions]
        rfl

/-- A declaration of a variable can be read: a type is behind a colon, and an initial value is the
    last part if it is there. -/
theorem legible_varDecl {name : Token} {type : Option Token} {init : Option Expr}
    (named : name.Genuine) (kind : name.kind = identifier)
    (typed : ∀ t ∈ type, t.Genuine ∧ t.kind = identifier)
    (initial : Expr.LegiblePart init) : (varDecl name type init).Legible := by
  obtain ⟨p, phrase, wellFormed, expr⟩ := initial
  have parts : ∀ q ∈ p.toList, q.WellFormed := fun q mem => wellFormed q (Option.mem_toList.mp mem)
  cases type with
  | none =>
      refine ⟨word "var" :: word name.lexeme :: p.toList, ?_, ?_, ?_⟩
      · simp only [outline, phrase?, phrases, Head.phrase, phrase, present_singleton]
      · exact .named (.word rfl) (List.forall_mem_cons.mpr ⟨named.wellFormed_word kind, parts⟩)
      · refine (named.ofVar_lexeme kind p.toList).trans ?_
        rw [Option.head?_toList, expr]
        rfl
  | some t =>
      obtain ⟨typeNamed, typeKind⟩ := typed t rfl
      refine ⟨word "var" :: word (name.lexeme ++ ":") :: word t.lexeme :: p.toList, ?_, ?_, ?_⟩
      · simp only [outline, phrase?, phrases, Head.phrase, phrase, present_singleton]
      · refine .named (.word rfl) (List.forall_mem_cons.mpr ⟨named.wellFormed_typed kind, ?_⟩)
        exact List.forall_mem_cons.mpr ⟨typeNamed.wellFormed_word typeKind, parts⟩
      · refine (named.ofVar_typed kind typeNamed typeKind p.toList).trans ?_
        rw [Option.head?_toList, expr]
        rfl

/-- A `for` can be read: its three clauses are always there. -/
theorem legible_forLoop {i : Option Stmt} {c e : Option Expr} {s : Stmt}
    (initializer : ∀ first ∈ i, first.Legible) (condition : Expr.LegibleClause c)
    (increment : Expr.LegibleClause e) (body : s.Legible) : (forLoop i c e s).Legible := by
  obtain ⟨p, testPhrase, testWellFormed, test⟩ := condition
  obtain ⟨q, stepPhrase, stepWellFormed, step⟩ := increment
  obtain ⟨r, body⟩ := body
  cases i with
  | none =>
      refine ⟨[word "for", word "_", p, q, row r], ?_, ?_, ?_⟩
      · simp only [outline, outlinePart, phrase?, phrases, Head.phrase_forLoop, body.phrase,
          testPhrase, stepPhrase, Option.getD_none]
      · refine .named (.word rfl) (List.forall_mem_cons.mpr ⟨.word rfl, ?_⟩)
        simp [testWellFormed, stepWellFormed, body.wellFormed]
      · show forLoop none p.toClause q.toClause (row r).toStmt = _
        rw [test, step, body.stmt]
        rfl
  | some i =>
      obtain ⟨first, shown⟩ := initializer i rfl
      refine ⟨[word "for", row first, p, q, row r], ?_, ?_, ?_⟩
      · simp only [outline, outlinePart, phrase?, phrases, Head.phrase_forLoop, body.phrase,
          testPhrase, stepPhrase, shown.phrase, Option.getD_some]
      · refine .named (.word rfl) ?_
        simp [shown.wellFormed, testWellFormed, stepWellFormed, body.wellFormed]
      · show forLoop (some (row first).toStmt) p.toClause q.toClause (row r).toStmt = _
        rw [test, step, body.stmt, shown.stmt]
        rfl

/-- A class can be read: a superclass is behind a `<`, and every method is a row. -/
theorem legible_classDecl {name : Token} {superclass : Option Token}
    {fs : List (FunctionDecl Stmt)} (named : name.Genuine) (kind : name.kind = identifier)
    (super : ∀ t ∈ superclass, t.Genuine ∧ t.kind = identifier) (methods : LegibleMethods fs) :
    (classDecl name superclass fs).Legible := by
  obtain ⟨rows, phrases, wellFormed, functions⟩ := methods
  have head : Token.named name.lexeme = name.move Position.nowhere := (named.eq_named kind).symm
  cases superclass with
  | none =>
      refine ⟨word "class" :: word name.lexeme :: rows.map row, ?_, ?_, ?_⟩
      · simp only [outline, Option.map_none, Expr.outlinePart, phrase?, Outline.phrases, phrases,
          Head.phrase, present_none, present_map_some]
      · exact .named (.word rfl)
          (List.forall_mem_cons.mpr ⟨named.wellFormed_word kind, wellFormed⟩)
      · -- the first method is a row, and so it is no `<`
        have bare : ∀ ss, ofClass name.lexeme (rows.map row) ss
            = classDecl (.named name.lexeme) none (ss.filterMap function?) := by
          intro ss
          cases rows with
          | nil => rfl
          | cons parts rows => rfl
        refine (bare (toStmts (rows.map row))).trans ?_
        rw [head, functions]
        rfl
  | some t =>
      obtain ⟨superNamed, superKind⟩ := super t rfl
      refine ⟨word "class" :: word name.lexeme :: word "<" :: word t.lexeme :: rows.map row,
        ?_, ?_, ?_⟩
      · simp only [outline, Option.map_some, Expr.outlinePart, Expr.outline, phrase?,
          Outline.phrases, phrases, Head.phrase, present_map_some]
      · refine .named (.word rfl) (List.forall_mem_cons.mpr ⟨named.wellFormed_word kind, ?_⟩)
        refine List.forall_mem_cons.mpr ⟨.word rfl, ?_⟩
        exact List.forall_mem_cons.mpr ⟨superNamed.wellFormed_word superKind, wellFormed⟩
      · show classDecl (.named name.lexeme) (some (.named t.lexeme))
          ((toStmts (rows.map row)).filterMap function?) = _
        rw [head, functions, ← superNamed.eq_named superKind]
        rfl

/-- A canonical statement with genuine tokens can be read off its row. -/
theorem Canonical.legible {s : Stmt} (h : s.Canonical) (genuine : ∀ slot ∈ s.slots, slot.Genuine) :
    s.Legible := by
  -- a keyword that is not printed is the mark of its kind, so nothing is lost with it
  induction h with
  | expression value =>
      obtain ⟨p, shown⟩ := value.legible fun s mem => genuine s (by simp [mem])
      refine ⟨[word ";", p], ?_, ?_, ?_⟩
      · simp [outline, phrase?, phrases, Head.phrase, shown.phrase]
      · exact .named (.word rfl) (List.forall_mem_singleton.mpr shown.wellFormed)
      · exact congrArg Stmt.expression shown.expr
  | @print keyword _ kind value =>
      obtain ⟨p, shown⟩ := value.legible fun s mem => genuine s (by simp [mem])
      have mark : keyword.Genuine := genuine (.token keyword) (by simp)
      refine ⟨[word "print", p], ?_, ?_, ?_⟩
      · simp [outline, phrase?, phrases, Head.phrase, shown.phrase]
      · exact .named (.word rfl) (List.forall_mem_singleton.mpr shown.wellFormed)
      · rw [move, mark.eq_mark_of_kind kind rfl, apparent, ← shown.expr]
        rfl
  | @varDecl name type init kind typeKind value =>
      have initial := Expr.legible_part value fun s mem =>
        genuine s (by simp [slotsPart_subset_initial mem])
      refine legible_varDecl (genuine (.token name) (by simp)) kind (fun t mem => ?_) initial
      cases mem
      exact ⟨genuine (.token t) (by simp [nameSlots]), typeKind t rfl⟩
  | @block ss _ ih =>
      obtain ⟨ps, shown⟩ := legible_all fun s mem =>
        ih s mem fun slot inside => genuine slot (by simp [slots_subset_all mem inside])
      refine ⟨word "block" :: ps, ?_, .named (.word rfl) shown.wellFormed, ?_⟩
      · simp only [outline, phrase?, Head.phrase, shown.phrases, present_map_some]
      · exact congrArg Stmt.block shown.stmts
  | short condition _ _ ih =>
      obtain ⟨p, test⟩ := condition.legible fun s mem => genuine s (by simp [mem])
      obtain ⟨q, branch⟩ := ih fun s mem => genuine s (by simp [mem])
      refine ⟨[word "if", p, row q], ?_, ?_, ?_⟩
      · simp [outline, outlinePart, phrase?, phrases, Head.phrase, test.phrase,
          branch.phrase]
      · refine .named (.word rfl) ?_
        simp [test.wellFormed, branch.wellFormed]
      · show conditional p.toExpr (row q).toStmt none = _
        rw [test.expr, branch.stmt]
        rfl
  | full condition _ _ _ _ _ ih ihOther =>
      obtain ⟨p, test⟩ := condition.legible fun s mem => genuine s (by simp [mem])
      obtain ⟨q, branch⟩ := ih fun s mem => genuine s (by simp [mem])
      obtain ⟨r, other⟩ := ihOther fun s mem => genuine s (by simp [mem])
      refine ⟨[word "if", p, row q, row r], ?_, ?_, ?_⟩
      · simp [outline, outlinePart, phrase?, phrases, Head.phrase, test.phrase,
          branch.phrase, other.phrase]
      · refine .named (.word rfl) ?_
        simp [test.wellFormed, branch.wellFormed, other.wellFormed]
      · show conditional p.toExpr (row q).toStmt (some (row r).toStmt) = _
        rw [test.expr, branch.stmt, other.stmt]
        rfl
  | whileLoop condition _ _ ih =>
      obtain ⟨p, test⟩ := condition.legible fun s mem => genuine s (by simp [mem])
      obtain ⟨q, body⟩ := ih fun s mem => genuine s (by simp [mem])
      refine ⟨[word "while", p, row q], ?_, ?_, ?_⟩
      · simp [outline, phrase?, phrases, Head.phrase, test.phrase, body.phrase]
      · refine .named (.word rfl) ?_
        simp [test.wellFormed, body.wellFormed]
      · show Stmt.whileLoop p.toExpr (row q).toStmt = _
        rw [test.expr, body.stmt]
        rfl
  | @forLoop i c e s _ _ condition increment _ _ ihInitializer ihBody =>
      refine legible_forLoop (fun first mem => ?_)
        (Expr.legible_clause condition fun s mem => genuine s (by simp [mem]))
        (Expr.legible_clause increment fun s mem => genuine s (by simp [mem]))
        (ihBody fun s mem => genuine s (by simp [mem]))
      cases mem
      exact ihInitializer first rfl fun s mem => genuine s (by simp [mem])
  | @breakLoop keyword kind =>
      have mark : keyword.Genuine := genuine (.token keyword) (by simp)
      refine ⟨[word "break"], rfl, .named (.word rfl) (List.forall_mem_nil _), ?_⟩
      rw [move, mark.eq_mark_of_kind kind rfl]
      rfl
  | @continueLoop keyword kind =>
      have mark : keyword.Genuine := genuine (.token keyword) (by simp)
      refine ⟨[word "continue"], rfl, .named (.word rfl) (List.forall_mem_nil _), ?_⟩
      rw [move, mark.eq_mark_of_kind kind rfl]
      rfl
  | @returnValue keyword v kind value =>
      have mark : keyword.Genuine := genuine (.token keyword) (by simp)
      obtain ⟨p, phrase, wellFormed, expr⟩ := Expr.legible_part value fun s mem =>
        genuine s (by simp [mem])
      refine ⟨word "return" :: p.toList, ?_, .named (.word rfl) (by simpa using wellFormed), ?_⟩
      · simp only [outline, phrase?, phrases, Head.phrase, phrase, present_singleton]
      · show Stmt.returnValue (.mark kwReturn) (p.toList.head?.map toExpr) = _
        rw [move, mark.eq_mark_of_kind kind rfl, Option.head?_toList, expr]
        rfl
  | @function f names _ ih =>
      refine legible_function names genuine fun s mem => ih s mem fun slot inside => genuine slot ?_
      exact body_subset_function mem inside
  | @classDecl name superclass fs kind superKind names _ ih =>
      have inside : ∀ slot ∈ functionsSlots fs, slot.Genuine := fun slot mem =>
        genuine slot (by simp [mem])
      have bodies : ∀ f ∈ fs, ∀ s ∈ f.body, s.Legible := fun f method s mem =>
        ih f method s mem fun slot written =>
          inside slot (function_subset_functions method (body_subset_function mem written))
      refine legible_classDecl (genuine (.token name) (by simp)) kind (fun t mem => ?_)
        (legible_methods names inside bodies)
      cases mem
      exact ⟨genuine (.token t) (by simp [nameSlots]), superKind t rfl⟩

end Stmt

/-! ## Programs -/

namespace Program

/-- A canonical program with genuine tokens can be read off its phrase. -/
theorem Canonical.legible {p : Program} (h : p.Canonical) (genuine : ∀ s ∈ p.slots, s.Genuine) :
    p.phrase.WellFormed ∧ p.phrase.toStmt = .program p.placeless.apparent.statements := by
  obtain ⟨ps, shown⟩ := Stmt.legible_all fun s mem =>
    (h s mem).legible fun slot inside => genuine slot (Stmt.slots_subset_all mem inside)
  have phrase : p.phrase = row (word "program" :: ps) := by
    rw [Program.phrase, Program.outlines, shown.phrases, Head.phrase, present_map_some]
  rw [phrase]
  exact ⟨.named (.word rfl) shown.wellFormed, congrArg Stmt.program shown.stmts⟩

end Program

/-- The program of a text can be read off its phrase. -/
theorem legible_of_ofSource {source : String} {p : Program} (h : Program.ofSource source = .ok p) :
    p.phrase.WellFormed ∧ p.phrase.toStmt = .program p.placeless.apparent.statements := by
  obtain ⟨tokens, scanned, parsed⟩ := ofSource_eq_ok_iff.mp h
  exact (canonical_of_parse parsed).1.legible (genuine_of_parse scanned parsed)

/-- Two texts are printed alike just if their programs look alike: if, without their places, they
    are the same but for clauses of a `for` that are the variable `_` in one and absent in the
    other, and for infinite numbers in one that are the variable `inf` in the other. -/
theorem printed_eq_iff_apparent_eq {source source' : String} {p q : Program}
    (formed : Program.ofSource source = .ok p) (formed' : Program.ofSource source' = .ok q) :
    p.printed = q.printed ↔ p.placeless.apparent = q.placeless.apparent := by
  obtain ⟨wellFormed, read⟩ := legible_of_ofSource formed
  obtain ⟨wellFormed', read'⟩ := legible_of_ofSource formed'
  constructor
  · intro same
    rw [p.printed_eq, q.printed_eq] at same
    have phrases := eq_of_text_eq wellFormed wellFormed' (String.ofList_injective same)
    rw [phrases, read'] at read
    exact congrArg Program.mk (Stmt.program.inj read).symm
  · intro same
    rw [← p.printed_move Position.nowhere, ← q.printed_move Position.nowhere,
      ← p.placeless.printed_apparent, ← q.placeless.printed_apparent, same]

/-- A condition `_` looks like none; a number and a text with the digits of the number do not look
    alike. -/
theorem underscore_looks_like_no_condition :
    let loop : Program := ⟨[.forLoop none (some (.var ⟨.identifier, "_", .null, ⟨1, 6⟩⟩)) none
      (.expression (.literal (.number 1.0)))]⟩
    let loop' : Program := ⟨[.forLoop none none none (.expression (.literal (.number 1.0)))]⟩
    let number : Program := ⟨[.expression (.literal (.number 1.0))]⟩
    let text : Program := ⟨[.expression (.literal (.text "1.0"))]⟩
    Program.ofSource "for(;_;)1;" = .ok loop
    ∧ Program.ofSource "for(;;)1;" = .ok loop'
    ∧ Program.ofSource "1;" = .ok number
    ∧ Program.ofSource "\"1.0\";" = .ok text
    ∧ loop.printed = loop'.printed
    ∧ number.printed ≠ text.printed := by
  intro loop loop' number text
  have first : Program.ofSource "for(;_;)1;" = .ok loop := by
    let tokens : List Token :=
      [⟨.kwFor, "for", .null, ⟨1, 1⟩⟩, ⟨.leftParen, "(", .null, ⟨1, 4⟩⟩,
       ⟨.semicolon, ";", .null, ⟨1, 5⟩⟩, ⟨.identifier, "_", .null, ⟨1, 6⟩⟩,
       ⟨.semicolon, ";", .null, ⟨1, 7⟩⟩, ⟨.rightParen, ")", .null, ⟨1, 8⟩⟩,
       ⟨.number, "1", .number 1.0, ⟨1, 9⟩⟩, ⟨.semicolon, ";", .null, ⟨1, 10⟩⟩, .endAt ⟨1, 11⟩]
    have scanned : scan "for(;_;)1;" = .ok tokens := by decide +kernel
    have canonical : loop.Canonical := by
      refine List.forall_mem_singleton.mpr
        (.forLoop nofun nofun ?_ nofun (.expression (.literal _)) rfl)
      rintro _ ⟨⟩
      exact .var rfl
    have written : loop.WrittenAs (tokens.filter Token.isSignificant) := by repeat' constructor
    exact ofSource_eq_ok_iff.mpr ⟨tokens, scanned, parse_of_writtenAs canonical written⟩
  have second : Program.ofSource "for(;;)1;" = .ok loop' := by
    let tokens : List Token :=
      [⟨.kwFor, "for", .null, ⟨1, 1⟩⟩, ⟨.leftParen, "(", .null, ⟨1, 4⟩⟩,
       ⟨.semicolon, ";", .null, ⟨1, 5⟩⟩, ⟨.semicolon, ";", .null, ⟨1, 6⟩⟩,
       ⟨.rightParen, ")", .null, ⟨1, 7⟩⟩, ⟨.number, "1", .number 1.0, ⟨1, 8⟩⟩,
       ⟨.semicolon, ";", .null, ⟨1, 9⟩⟩, .endAt ⟨1, 10⟩]
    have scanned : scan "for(;;)1;" = .ok tokens := by decide +kernel
    have canonical : loop'.Canonical :=
      List.forall_mem_singleton.mpr
        (.forLoop nofun nofun nofun nofun (.expression (.literal _)) rfl)
    have written : loop'.WrittenAs (tokens.filter Token.isSignificant) := by repeat' constructor
    exact ofSource_eq_ok_iff.mpr ⟨tokens, scanned, parse_of_writtenAs canonical written⟩
  have third : Program.ofSource "1;" = .ok number := by
    let tokens : List Token :=
      [⟨.number, "1", .number 1.0, ⟨1, 1⟩⟩, ⟨.semicolon, ";", .null, ⟨1, 2⟩⟩, .endAt ⟨1, 3⟩]
    have scanned : scan "1;" = .ok tokens := by decide +kernel
    have canonical : number.Canonical :=
      List.forall_mem_singleton.mpr (.expression (.literal _))
    have written : number.WrittenAs (tokens.filter Token.isSignificant) := by repeat' constructor
    exact ofSource_eq_ok_iff.mpr ⟨tokens, scanned, parse_of_writtenAs canonical written⟩
  have fourth : Program.ofSource "\"1.0\";" = .ok text := by
    let tokens : List Token :=
      [⟨.string, "\"1.0\"", .text "1.0", ⟨1, 1⟩⟩, ⟨.semicolon, ";", .null, ⟨1, 6⟩⟩,
       .endAt ⟨1, 7⟩]
    have scanned : scan "\"1.0\";" = .ok tokens := by decide +kernel
    have canonical : text.Canonical := List.forall_mem_singleton.mpr (.expression (.literal _))
    have written : text.WrittenAs (tokens.filter Token.isSignificant) := by repeat' constructor
    exact ofSource_eq_ok_iff.mpr ⟨tokens, scanned, parse_of_writtenAs canonical written⟩
  refine ⟨first, second, third, fourth, (printed_eq_iff_apparent_eq first second).mpr rfl, ?_⟩
  intro same
  have finite : (Literal.number 1.0).apparent = .literal (.number 1.0) := by
    rw [Literal.apparent, if_neg (by decide +kernel)]
  have alike : Program.mk [.expression (Literal.number 1.0).apparent]
      = ⟨[.expression (.literal (.text "1.0"))]⟩ :=
    (printed_eq_iff_apparent_eq third fourth).mp same
  rw [finite] at alike
  cases alike

end ScriptFront
