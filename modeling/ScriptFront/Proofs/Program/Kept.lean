import ScriptFront.Program.Outline
import ScriptFront.Proofs.Analysis.Untyped

/-! # Kept tokens — the heads of a program hold what its slots keep

    The tokens in the heads of a program are those that it keeps in its slots, each as often; an
    operator stands in front of its operands in the one and between them in the other
    (`Program.count_tokens`).  The variables that it uses are met in the order in which they are
    written (`Program.uses_sublist`). -/

namespace ScriptFront

/-- The tokens of a head. -/
def Head.tokens : Head → List Token
  | assign name | get name | set name | var name | classDecl name => [name]
  | binary operator | logical operator | unary operator => [operator]
  | call paren => [paren]
  | super keyword method => [keyword, method]
  | this keyword | print keyword | breakLoop keyword | continueLoop keyword
  | returnValue keyword => [keyword]
  | varDecl name typeName => name :: typeName.toList
  | function name parameters => name :: parameters
  | grouping | literal _ | expression | block | conditional | whileLoop | forLoop | program => []

/-- The variables that a head uses. -/
def Head.uses : Head → List Token
  | var name => [name]
  | _ => []

namespace Outline

variable {α : Type} (f : Head → List α)

/-- What is found in the heads of an outline. -/
def collect (o : Outline) : List α := o.heads.flatMap f

/-- What is found in the heads of some outlines. -/
def collectAll (os : List Outline) : List α := (headsAll os).flatMap f

@[simp] theorem collect_absent : absent.collect f = [] := rfl

@[simp] theorem collect_node (head : Head) (children : List Outline) :
    (node head children).collect f = f head ++ collectAll f children := rfl

@[simp] theorem collectAll_nil : collectAll f [] = [] := rfl

@[simp] theorem collectAll_cons (o : Outline) (os : List Outline) :
    collectAll f (o :: os) = o.collect f ++ collectAll f os := List.flatMap_append

end Outline

open Outline (collectAll)
open Slot (kept)

/-! ## Tokens -/

section

variable (a : Token)

theorem Slot.kept_ofMore (ts : List Token) : kept (ofMore ts) = ts := by
  induction ts with
  | nil => rfl
  | cons t ts ih => rw [ofMore, kept_mark, kept_token, ih]

theorem Slot.kept_ofNames (ts : List Token) : kept (ofNames ts) = ts := by
  cases ts with
  | nil => rfl
  | cons t ts => rw [ofNames, kept_token, kept_ofMore]

@[simp] theorem Slot.kept_value (v : Literal) (slots : List Slot) :
    kept (.value v :: slots) = kept slots := rfl

namespace Expr

mutual

/-- The heads of an expression have the tokens that its slots keep. -/
theorem count_tokens : ∀ e : Expr, (e.outline.collect Head.tokens).count a = (kept e.slots).count a
  | assign _ e | get e _ | unary _ e => by
      simp [outline, Head.tokens, List.count_append, List.count_cons, count_tokens e]
  | grouping e => by simp [outline, Head.tokens, count_tokens e]
  | binary l _ r | logical l _ r | set l _ r => by
      simp [outline, Head.tokens, List.count_append, List.count_cons, count_tokens l,
        count_tokens r]
      omega
  | call callee _ arguments => by
      simp [outline, Head.tokens, List.count_append, List.count_cons, count_tokens callee,
        count_tokensAll arguments]
      omega
  | literal _ | super _ _ | this _ | var _ => by simp [outline, Head.tokens]

theorem count_tokensAll :
    ∀ es : List Expr, (collectAll Head.tokens (outlines es)).count a
      = (kept (argumentSlots es)).count a
  | [] => rfl
  | e :: es => by simp [outlines, count_tokens e, count_tokensMore es]

theorem count_tokensMore :
    ∀ es : List Expr, (collectAll Head.tokens (outlines es)).count a = (kept (moreSlots es)).count a
  | [] => rfl
  | e :: es => by simp [outlines, count_tokens e, count_tokensMore es]

end

theorem count_tokensPart (e : Option Expr) :
    ((outlinePart e).collect Head.tokens).count a = (kept (slotsPart e)).count a := by
  cases e with
  | none => rfl
  | some e => exact count_tokens a e

end Expr

namespace Stmt

/-- Of an initializer the mark in front of it is not kept. -/
theorem kept_initial (e : Option Expr) : kept (initialSlots e) = kept (Expr.slotsPart e) := by
  cases e with
  | none => rfl
  | some e => rfl

/-- In a superclass is found what is found in a variable. -/
theorem collect_superclass {α : Type} (f : Head → List α) (superclass : Option Token) :
    (Expr.outlinePart (superclass.map .var)).collect f
      = superclass.toList.flatMap fun t => f (.var t) := by
  cases superclass with
  | none => rfl
  | some t => rfl

mutual

/-- The heads of a statement have the tokens that its slots keep. -/
theorem count_tokens : ∀ s : Stmt, (s.outline.collect Head.tokens).count a = (kept s.slots).count a
  | expression e => by simp [outline, Head.tokens, e.count_tokens a]
  | print _ e => by
      simp [outline, Head.tokens, List.count_cons, e.count_tokens a]
  | varDecl _ typeName e => by
      simp [outline, Head.tokens, List.count_append, List.count_cons, Slot.kept_nameSlots,
        kept_initial, Expr.count_tokensPart a e]
  | block ss => by simp [outline, Head.tokens, count_tokensAll ss]
  | conditional c s s' => by
      simp [outline, Head.tokens, List.count_append, c.count_tokens a, count_tokens s,
        count_tokensElse s']
  | whileLoop c s => by
      simp [outline, Head.tokens, List.count_append, c.count_tokens a, count_tokens s]
  | forLoop i c e s => by
      simp [outline, Head.tokens, List.count_append, count_tokensInitializer i,
        Expr.count_tokensPart a c, Expr.count_tokensPart a e, count_tokens s]
  | breakLoop _ | continueLoop _ => by simp [outline, Head.tokens]
  | returnValue _ e => by
      simp [outline, Head.tokens, List.count_cons, Expr.count_tokensPart a e]
  | function f => count_tokensFunction f
  | classDecl _ superclass fs => by
      simp [outline, Head.tokens, List.count_append, List.count_cons, Slot.kept_nameSlots,
        collect_superclass, count_tokensFunctions fs]
  | program ss => by simp [outline, Head.tokens, count_tokensAll ss]

theorem count_tokensAll :
    ∀ ss : List Stmt, (collectAll Head.tokens (outlines ss)).count a = (kept (slotsAll ss)).count a
  | [] => rfl
  | s :: ss => by simp [outlines, List.count_append, count_tokens s, count_tokensAll ss]

theorem count_tokensElse :
    ∀ s : Option Stmt, ((outlinePart s).collect Head.tokens).count a = (kept (elseSlots s)).count a
  | none => rfl
  | some s => by simp [outlinePart, count_tokens s]

theorem count_tokensInitializer :
    ∀ s : Option Stmt, ((outlinePart s).collect Head.tokens).count a
      = (kept (initializerSlots s)).count a
  | none => rfl
  | some s => count_tokens s

theorem count_tokensFunction :
    ∀ f : FunctionDecl Stmt, ((outlineFunction f).collect Head.tokens).count a
      = (kept (functionSlots f)).count a
  | ⟨name, parameters, body⟩ => by
      simp [outlineFunction, Head.tokens, List.count_append, List.count_cons, Slot.kept_ofNames,
        count_tokensAll body]

theorem count_tokensFunctions : ∀ fs : List (FunctionDecl Stmt),
    (collectAll Head.tokens (outlineFunctions fs)).count a = (kept (functionsSlots fs)).count a
  | [] => rfl
  | f :: fs => by
      simp [outlineFunctions, List.count_append, count_tokensFunction f, count_tokensFunctions fs]

end

end Stmt

end

/-- The heads of a program have the tokens that its slots keep. -/
theorem Program.count_tokens (p : Program) (a : Token) :
    (p.heads.flatMap Head.tokens).count a = (kept p.slots).count a :=
  Stmt.count_tokensAll a p.statements

/-! ## Variables -/

namespace Expr

mutual

/-- The variables that an expression uses are kept in its slots, in their order. -/
theorem uses_sublist : ∀ e : Expr, (e.outline.collect Head.uses).Sublist (kept e.slots)
  | assign name e => by
      simpa [outline, Head.uses] using (uses_sublist e).cons name
  | unary operator e => by
      simpa [outline, Head.uses] using (uses_sublist e).cons operator
  | get e name => by
      simpa [outline, Head.uses] using
        (uses_sublist e).trans (List.sublist_append_left _ [name])
  | grouping e => by simpa [outline, Head.uses] using uses_sublist e
  | binary l t r | logical l t r | set l t r => by
      simpa [outline, Head.uses] using
        (uses_sublist l).append ((uses_sublist r).cons t)
  | call callee paren arguments => by
      simpa [outline, Head.uses] using
        (uses_sublist callee).append
          ((usesAll_sublist arguments).trans (List.sublist_append_left _ [paren]))
  | literal _ | super _ _ | this _ => List.nil_sublist _
  | var name => List.Sublist.refl [name]

theorem usesAll_sublist :
    ∀ es : List Expr, (collectAll Head.uses (outlines es)).Sublist (kept (argumentSlots es))
  | [] => .slnil
  | e :: es => by
      simpa [outlines] using (uses_sublist e).append (usesMore_sublist es)

theorem usesMore_sublist :
    ∀ es : List Expr, (collectAll Head.uses (outlines es)).Sublist (kept (moreSlots es))
  | [] => .slnil
  | e :: es => by
      simpa [outlines] using (uses_sublist e).append (usesMore_sublist es)

end

theorem usesPart_sublist (e : Option Expr) :
    ((outlinePart e).collect Head.uses).Sublist (kept (slotsPart e)) := by
  cases e with
  | none => exact .slnil
  | some e => exact uses_sublist e

end Expr

namespace Stmt

mutual

/-- The variables that a statement uses are kept in its slots, in their order. -/
theorem uses_sublist : ∀ s : Stmt, (s.outline.collect Head.uses).Sublist (kept s.slots)
  | expression e => by simpa [outline, Head.uses] using e.uses_sublist
  | print keyword e => by
      simpa [outline, Head.uses] using e.uses_sublist.cons keyword
  | varDecl name typeName e => by
      simpa [outline, Head.uses, Slot.kept_nameSlots, kept_initial] using
        ((Expr.usesPart_sublist e).trans (List.sublist_append_right typeName.toList _)).cons name
  | block ss => by simpa [outline, Head.uses] using usesAll_sublist ss
  | conditional c s s' => by
      simpa [outline, Head.uses] using
        c.uses_sublist.append ((uses_sublist s).append (usesElse_sublist s'))
  | whileLoop c s => by
      simpa [outline, Head.uses] using c.uses_sublist.append (uses_sublist s)
  | forLoop i c e s => by
      simpa [outline, Head.uses] using
        (usesInitializer_sublist i).append ((Expr.usesPart_sublist c).append
          ((Expr.usesPart_sublist e).append (uses_sublist s)))
  | breakLoop _ | continueLoop _ => List.nil_sublist _
  | returnValue keyword e => by
      simpa [outline, Head.uses] using (Expr.usesPart_sublist e).cons keyword
  | function f => usesFunction_sublist f
  | classDecl name superclass fs => by
      simpa [outline, Head.uses, Slot.kept_nameSlots, collect_superclass] using
        ((List.Sublist.refl superclass.toList).append (usesFunctions_sublist fs)).cons name
  | program ss => by simpa [outline, Head.uses] using usesAll_sublist ss

theorem usesAll_sublist :
    ∀ ss : List Stmt, (collectAll Head.uses (outlines ss)).Sublist (kept (slotsAll ss))
  | [] => .slnil
  | s :: ss => by simpa [outlines] using (uses_sublist s).append (usesAll_sublist ss)

theorem usesElse_sublist :
    ∀ s : Option Stmt, ((outlinePart s).collect Head.uses).Sublist (kept (elseSlots s))
  | none => .slnil
  | some s => by simpa [outlinePart] using uses_sublist s

theorem usesInitializer_sublist :
    ∀ s : Option Stmt, ((outlinePart s).collect Head.uses).Sublist (kept (initializerSlots s))
  | none => .slnil
  | some s => uses_sublist s

theorem usesFunction_sublist :
    ∀ f : FunctionDecl Stmt,
      ((outlineFunction f).collect Head.uses).Sublist (kept (functionSlots f))
  | ⟨name, parameters, body⟩ => by
      simpa [outlineFunction, Head.uses, Slot.kept_ofNames] using
        ((usesAll_sublist body).trans (List.sublist_append_right parameters _)).cons name

theorem usesFunctions_sublist : ∀ fs : List (FunctionDecl Stmt),
    (collectAll Head.uses (outlineFunctions fs)).Sublist (kept (functionsSlots fs))
  | [] => .slnil
  | f :: fs => by
      simpa [outlineFunctions] using (usesFunction_sublist f).append (usesFunctions_sublist fs)

end

end Stmt

/-- The variables that a program uses are kept in its slots, in their order. -/
theorem Program.uses_sublist (p : Program) :
    (p.heads.flatMap Head.uses).Sublist (kept p.slots) :=
  Stmt.usesAll_sublist p.statements

end ScriptFront
