import ScriptFront.Proofs.Program.Kept
import ScriptFront.Proofs.Program.Nodes

/-! # Annotations — where the variables without a type stand

    Each node that gives a variable an unknown type is reached by one path (`Program.untyped`).  In
    the order of the paths these nodes are the statements that the analysis leaves unresolved when
    it comes to them, and so what it has left unresolved when it ends, with a problem or without, is
    a first part of them (`unresolved_prefix`). -/

namespace ScriptFront

open Analysis

/-- The variable that a head leaves without a type. -/
def Head.unresolved? : Head → Option Unresolved
  | varDecl name (some typeName) => (Step.annotate name typeName).unresolved?
  | _ => none

/-- The same as a list, which is empty or has one entry. -/
def Head.untyped (h : Head) : List Unresolved := h.unresolved?.toList

/-- The variable that a node leaves without a type. -/
def Node.unresolved? : Node → Option Unresolved
  | expr _ => none
  | stmt s => s.unresolved?

/-- The head of a node tells what the node leaves without a type. -/
theorem Node.unresolved?_head (n : Node) : n.head.unresolved? = n.unresolved? := by
  cases n with
  | expr e =>
      cases e with
      | _ => rfl
  | stmt s =>
      cases s with
      | varDecl name typeName initializer =>
          cases typeName with
          | none => rfl
          | some t => rfl
      | _ => rfl

namespace Program

/-- The variable that is left without a type by the node to which a path leads. -/
def unresolvedAt? (p : Program) (path : Path) : Option Unresolved :=
  (p.root.at? path).bind Node.unresolved?

/-- The variables without a type, each with the path to its declaration. -/
def untyped (p : Program) : List (Path × Unresolved) :=
  p.paths.filterMap fun path => (p.unresolvedAt? path).map (path, ·)

theorem unresolved_at_paths (p : Program) :
    p.paths.map p.unresolvedAt? = p.heads.map Head.unresolved? := by
  rw [← List.forall₂_eq_eq_eq, List.forall₂_map_left_iff, List.forall₂_map_right_iff]
  refine p.nodes_at_paths.imp fun path head leads => ?_
  obtain ⟨n, there, rfl⟩ := leads
  rw [unresolvedAt?, there, n.unresolved?_head]
  rfl

/-- Without their places they are what the heads leave without a type. -/
theorem map_snd_untyped (p : Program) : p.untyped.map Prod.snd = p.heads.flatMap Head.untyped := by
  have found : p.untyped.map Prod.snd = p.paths.filterMap p.unresolvedAt? := by
    rw [untyped, List.map_filterMap]
    refine List.filterMap_congr fun path _ => ?_
    rw [Option.map_map]
    exact Option.map_id'
  have listed := congrArg (List.filterMap id) p.unresolved_at_paths
  rw [List.filterMap_map, List.filterMap_map] at listed
  rw [found]
  exact listed.trans (List.filterMap_eq_flatMap_toList _ _)

end Program

/-! ## Heads and statements -/

open Outline (collectAll)

namespace Expr

mutual

/-- Expressions declare nothing. -/
theorem untyped_heads : ∀ e : Expr, e.outline.collect Head.untyped = []
  | assign _ e | get e _ | grouping e | unary _ e => by
      simp [outline, Head.untyped, Head.unresolved?, untyped_heads e]
  | binary l _ r | logical l _ r | set l _ r => by
      simp [outline, Head.untyped, Head.unresolved?, untyped_heads l, untyped_heads r]
  | call callee _ arguments => by
      simp [outline, Head.untyped, Head.unresolved?, untyped_heads callee,
        untyped_headsAll arguments]
  | literal _ | super _ _ | this _ | var _ => rfl

theorem untyped_headsAll :
    ∀ es : List Expr, collectAll Head.untyped (outlines es) = []
  | [] => rfl
  | e :: es => by simp [outlines, untyped_heads e, untyped_headsAll es]

end

theorem untyped_headsPart (e : Option Expr) : (outlinePart e).collect Head.untyped = [] := by
  cases e with
  | none => rfl
  | some e => exact e.untyped_heads

end Expr

namespace Stmt

mutual

/-- The heads of a statement leave without a type what its steps do. -/
theorem untyped_heads :
    ∀ s : Stmt, s.outline.collect Head.untyped = s.steps.filterMap Step.unresolved?
  | expression e | print _ e => by
      simp [outline, steps, Head.untyped, Head.unresolved?, e.untyped_heads, e.unresolved_steps]
  | varDecl name typeName e => by
      simp only [outline, Outline.collect_node, Outline.collectAll_cons, Outline.collectAll_nil,
        Expr.untyped_headsPart, List.append_nil]
      rw [steps, List.filterMap_cons_none rfl, List.filterMap_append, Expr.unresolved_stepsPart,
        List.nil_append, List.filterMap_eq_flatMap_toList]
      cases typeName with
      | none => rfl
      | some t => exact (List.append_nil _).symm
  | block ss | program ss => by
      simp [outline, steps, Head.untyped, Head.unresolved?, untyped_headsAll ss]
  | conditional c s s' => by
      simp [outline, steps, Head.untyped, Head.unresolved?, c.untyped_heads, c.unresolved_steps,
        untyped_heads s, untyped_headsPart s']
  | whileLoop c s => by
      simp [outline, steps, Head.untyped, Head.unresolved?, c.untyped_heads, c.unresolved_steps,
        untyped_heads s]
  | forLoop i c e s => by
      simp [outline, steps, Head.untyped, Head.unresolved?, untyped_headsPart i,
        Expr.untyped_headsPart, Expr.unresolved_stepsPart, untyped_heads s]
  | breakLoop _ | continueLoop _ => rfl
  | returnValue _ e => by
      simp [outline, steps, Head.untyped, Head.unresolved?, Expr.untyped_headsPart,
        Expr.unresolved_stepsPart]
  | function f => untyped_headsFunction f
  | classDecl name superclass fs => by
      rw [steps, List.filterMap_append, unresolved_superclass, List.filterMap_cons_none rfl,
        List.filterMap_cons_none rfl]
      simp [outline, Head.untyped, Head.unresolved?, Expr.untyped_headsPart,
        untyped_headsFunctions fs]

theorem untyped_headsAll : ∀ ss : List Stmt,
    collectAll Head.untyped (outlines ss) = (stepsAll ss).filterMap Step.unresolved?
  | [] => rfl
  | s :: ss => by simp [outlines, stepsAll, untyped_heads s, untyped_headsAll ss]

theorem untyped_headsPart : ∀ s : Option Stmt,
    (outlinePart s).collect Head.untyped = (stepsPart s).filterMap Step.unresolved?
  | none => rfl
  | some s => untyped_heads s

theorem untyped_headsFunction : ∀ f : FunctionDecl Stmt,
    (outlineFunction f).collect Head.untyped = (stepsInside f).filterMap Step.unresolved?
  | ⟨name, parameters, body⟩ => by
      simp [outlineFunction, stepsInside, Head.untyped, Head.unresolved?, unresolved_parameters,
        untyped_headsAll body]

theorem untyped_headsFunctions : ∀ fs : List (FunctionDecl Stmt),
    collectAll Head.untyped (outlineFunctions fs)
      = (stepsInsideAll fs).filterMap Step.unresolved?
  | [] => rfl
  | f :: fs => by
      simp [outlineFunctions, stepsInsideAll, untyped_headsFunction f, untyped_headsFunctions fs]

end

end Stmt

/-- The variables without a type are those that the steps of the program leave unresolved. -/
theorem Program.untyped_eq_steps (p : Program) :
    p.untyped.map Prod.snd = p.steps.filterMap Step.unresolved? :=
  p.map_snd_untyped.trans (Stmt.untyped_headsAll p.statements)

/-- What an analysis has left unresolved when it ends is a first part of the variables without a
    type. -/
theorem Analysis.unresolved_prefix (strict : Bool) (p : Program) :
    (analyze strict p).1.unresolved <+: p.untyped.map Prod.snd := by
  obtain ⟨done, first, -, ended⟩ := exists_held strict p.guarded_steps
  rw [analyze_eq_perform, ended, p.untyped_eq_steps]
  exact first.filterMap _

end ScriptFront
