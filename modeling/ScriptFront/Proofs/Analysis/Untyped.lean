import ScriptFront.Proofs.Analysis.Rerun
import ScriptFront.Proofs.Program.Standing

/-! # Untyped variables — the walk reaches every declaration once, in the order of the text

    A statement has other statements inside it, at any depth (`Stmt.inside`).  Each of them that
    declares a variable of an unknown type is left unresolved by exactly one step of the analysis,
    and the steps take them in the order of the text (`unresolved_steps`); the names of their types
    stand in this order among the slots of the program (`typeNames_sublist`). -/

namespace ScriptFront

open Analysis

namespace Stmt

mutual

/-- The statements inside a statement at any depth, in the order of the text: what blocks, branches,
    loops, the first part of a `for` and the bodies of functions and methods hold. -/
def inside : Stmt → List Stmt
  | expression _ => []
  | print _ _ => []
  | varDecl _ _ _ => []
  | block statements => insideAll statements
  | conditional _ thenBranch elseBranch =>
      thenBranch :: (thenBranch.inside ++ insidePart elseBranch)
  | whileLoop _ body => body :: body.inside
  | forLoop initializer _ _ body => insidePart initializer ++ body :: body.inside
  | breakLoop _ => []
  | continueLoop _ => []
  | returnValue _ _ => []
  | function decl => insideFunction decl
  | classDecl _ _ methods => insideFunctions methods
  | program statements => insideAll statements

/-- Some statements and those inside them. -/
def insideAll : List Stmt → List Stmt
  | [] => []
  | s :: ss => s :: (s.inside ++ insideAll ss)

/-- An optional statement and those inside it. -/
def insidePart : Option Stmt → List Stmt
  | none => []
  | some s => s :: s.inside

/-- The statements in the body of a function or method. -/
def insideFunction : FunctionDecl Stmt → List Stmt
  | ⟨_, _, body⟩ => insideAll body

/-- The statements in the bodies of some methods. -/
def insideFunctions : List (FunctionDecl Stmt) → List Stmt
  | [] => []
  | f :: fs => insideFunction f ++ insideFunctions fs

end

/-- The variable that a statement leaves without a type. -/
def unresolved? : Stmt → Option Unresolved
  | varDecl name (some typeName) _ => (Step.annotate name typeName).unresolved?
  | _ => none

/-- The type that a statement gives to a variable. -/
def typeName? : Stmt → Option Token
  | varDecl _ typeName _ => typeName
  | _ => none

end Stmt

/-- All statements of a program at any depth, in the order of the text. -/
def Program.everyStatement (p : Program) : List Stmt := Stmt.insideAll p.statements

/-! ## What the steps leave unresolved -/

/-- Uses leave nothing unresolved. -/
theorem Analysis.unresolved_of_uses {steps : List Step}
    (uses : ∀ step ∈ steps, ∃ used, step = .use used) :
    steps.filterMap Step.unresolved? = [] := by
  refine List.filterMap_eq_nil_iff.mpr fun step mem => ?_
  obtain ⟨used, rfl⟩ := uses step mem
  rfl

theorem Expr.unresolved_steps (e : Expr) : e.steps.filterMap Step.unresolved? = [] :=
  unresolved_of_uses e.uses_steps

theorem Expr.unresolved_stepsPart (e : Option Expr) :
    (stepsPart e).filterMap Step.unresolved? = [] :=
  unresolved_of_uses (uses_stepsPart e)

/-- Parameters have no types. -/
theorem Analysis.unresolved_parameters (ps : List Token) :
    ∀ earlier, (Step.ofParameters earlier ps).filterMap Step.unresolved? = [] := by
  induction ps with
  | nil =>
      intro earlier
      rfl
  | cons p ps ih =>
      intro earlier
      exact ih (p :: earlier)

/-- A class has no type, and no more its superclass. -/
theorem Analysis.unresolved_superclass (superclass : Option Token) :
    (superclass.toList.map Step.use).filterMap Step.unresolved? = [] := by
  refine unresolved_of_uses fun step mem => ?_
  obtain ⟨t, -, rfl⟩ := List.mem_map.mp mem
  exact ⟨t, rfl⟩

namespace Stmt

mutual

/-- The steps of a statement leave unresolved what the statement or one inside it leaves without a
    type. -/
theorem unresolved_steps :
    ∀ s : Stmt, s.steps.filterMap Step.unresolved? = (s :: s.inside).filterMap unresolved?
  | expression value => value.unresolved_steps
  | print _ value => value.unresolved_steps
  | varDecl name typeName initializer => by
      rw [steps, inside, List.filterMap_cons_none rfl, List.filterMap_append,
        Expr.unresolved_stepsPart, List.nil_append]
      cases typeName with
      | none => rfl
      | some t =>
          show ([Step.annotate name t] ++ [Step.bind (variableSymbol name (some t))]).filterMap
            Step.unresolved? = _
          rw [List.filterMap_append]
          exact List.append_nil _
  | block statements => unresolved_stepsAll statements
  | conditional condition thenBranch elseBranch => by
      rw [steps, inside, List.filterMap_append, List.filterMap_append, condition.unresolved_steps,
        unresolved_steps thenBranch, unresolved_stepsPart elseBranch, List.nil_append,
        ← List.filterMap_append]
      rfl
  | whileLoop condition body => by
      rw [steps, inside, List.filterMap_append, condition.unresolved_steps, unresolved_steps body,
        List.nil_append]
      rfl
  | forLoop initializer condition increment body => by
      rw [steps, inside, List.filterMap_append, List.filterMap_append, List.filterMap_append,
        unresolved_stepsPart initializer, Expr.unresolved_stepsPart, Expr.unresolved_stepsPart,
        unresolved_steps body, List.nil_append, List.nil_append, ← List.filterMap_append]
      rfl
  | breakLoop _ => rfl
  | continueLoop _ => rfl
  | returnValue _ value => Expr.unresolved_stepsPart value
  | function decl => unresolved_stepsInside decl
  | classDecl name superclass methods => by
      rw [steps, inside, List.filterMap_append, unresolved_superclass, List.nil_append]
      exact unresolved_stepsInsideAll methods
  | program statements => unresolved_stepsAll statements

theorem unresolved_stepsAll :
    ∀ ss : List Stmt,
      (stepsAll ss).filterMap Step.unresolved? = (insideAll ss).filterMap unresolved?
  | [] => rfl
  | s :: ss => by
      rw [stepsAll, insideAll, List.filterMap_append, unresolved_steps s, unresolved_stepsAll ss,
        ← List.cons_append, List.filterMap_append]

theorem unresolved_stepsPart :
    ∀ s : Option Stmt,
      (stepsPart s).filterMap Step.unresolved? = (insidePart s).filterMap unresolved?
  | none => rfl
  | some s => unresolved_steps s

theorem unresolved_stepsInside :
    ∀ f : FunctionDecl Stmt,
      (stepsInside f).filterMap Step.unresolved? = (insideFunction f).filterMap unresolved?
  | ⟨_, parameters, body⟩ => by
      rw [stepsInside, insideFunction, List.filterMap_append, unresolved_parameters,
        List.nil_append, unresolved_stepsAll body]

theorem unresolved_stepsInsideAll :
    ∀ fs : List (FunctionDecl Stmt),
      (stepsInsideAll fs).filterMap Step.unresolved? = (insideFunctions fs).filterMap unresolved?
  | [] => rfl
  | f :: fs => by
      rw [stepsInsideAll, insideFunctions, List.filterMap_append, unresolved_stepsInside f,
        unresolved_stepsInsideAll fs, List.filterMap_append]

end

end Stmt

/-- An analysis without a problem leaves unresolved what the statements of the program leave without
    a type, in the order of the text. -/
theorem Analysis.unresolved_of_analyze {strict : Bool} {p : Program} {s : State}
    (h : analyze strict p = (s, none)) :
    s.unresolved = p.everyStatement.filterMap Stmt.unresolved? := by
  rw [analyze_eq_perform] at h
  have held := (perform_eq_none_iff p.guarded_steps).mp (congrArg Prod.snd h)
  rw [perform_of_allHold p.guarded_steps held] at h
  cases h
  exact Stmt.unresolved_stepsAll p.statements

/-! ## Where the types stand -/

/-- The token that a program keeps in a slot. -/
def Slot.token? : Slot → Option Token
  | token t => some t
  | mark _ | value _ => none

/-- The tokens that a program keeps in some slots. -/
def Slot.kept (slots : List Slot) : List Token := slots.filterMap token?

/-- The tokens that a program keeps are among those that it is written as, in their order. -/
theorem Fills.kept_sublist {slots : List Slot} {ts : List Token} (h : Fills slots ts) :
    (Slot.kept slots).Sublist ts := by
  induction h with
  | nil => exact .slnil
  | @cons slot t slots ts holds _ ih =>
      cases slot with
      | mark kind => exact ih.cons t
      | value v => exact ih.cons t
      | token kept =>
          have same : t = kept := holds
          exact same ▸ ih.cons_cons t

namespace Slot

@[simp] theorem kept_nil : kept [] = [] := rfl

@[simp] theorem kept_mark (k : TokenKind) (slots : List Slot) :
    kept (.mark k :: slots) = kept slots := rfl

@[simp] theorem kept_token (t : Token) (slots : List Slot) :
    kept (.token t :: slots) = t :: kept slots := rfl

@[simp] theorem kept_append (as bs : List Slot) : kept (as ++ bs) = kept as ++ kept bs :=
  List.filterMap_append

theorem kept_nameSlots (k : TokenKind) (t : Option Token) :
    kept (Stmt.nameSlots k t) = t.toList := by
  cases t with
  | none => rfl
  | some t => rfl

end Slot

/-- The types that some statements give to variables. -/
def Stmt.typeNames (ss : List Stmt) : List Token := ss.filterMap typeName?

namespace Stmt

open Slot (kept)

theorem typeNames_append (as bs : List Stmt) :
    typeNames (as ++ bs) = typeNames as ++ typeNames bs :=
  List.filterMap_append

mutual

/-- The types that a statement and those inside it give to variables are kept in its slots, in their
    order. -/
theorem typeNames_sublist :
    ∀ s : Stmt, (typeNames (s :: s.inside)).Sublist (kept s.slots)
  | expression _ => List.nil_sublist _
  | print _ _ => List.nil_sublist _
  | varDecl name typeName initializer => by
      have own : typeNames [varDecl name typeName initializer] = typeName.toList := by
        cases typeName with
        | none => rfl
        | some t => rfl
      rw [inside, own, slots, Slot.kept_mark, Slot.kept_token, List.append_assoc,
        Slot.kept_append, Slot.kept_nameSlots]
      exact (List.sublist_append_left _ _).cons name
  | block statements => by
      rw [inside, slots, Slot.kept_mark, Slot.kept_append]
      exact (typeNames_sublist_all statements).trans (List.sublist_append_left _ _)
  | conditional condition thenBranch elseBranch => by
      rw [inside, slots, Slot.kept_mark, Slot.kept_mark, Slot.kept_append, Slot.kept_mark,
        Slot.kept_append]
      show (typeNames ((thenBranch :: thenBranch.inside) ++ insidePart elseBranch)).Sublist _
      rw [typeNames_append]
      have branches := (typeNames_sublist thenBranch).append (typeNames_sublist_else elseBranch)
      exact branches.trans (List.sublist_append_right _ _)
  | whileLoop condition body => by
      rw [inside, slots, Slot.kept_mark, Slot.kept_mark, Slot.kept_append, Slot.kept_mark]
      exact (typeNames_sublist body).trans (List.sublist_append_right _ _)
  | forLoop initializer condition increment body => by
      rw [inside, slots, Slot.kept_mark, Slot.kept_mark, Slot.kept_append, Slot.kept_append,
        Slot.kept_mark, Slot.kept_append, Slot.kept_mark]
      show (typeNames (insidePart initializer ++ body :: body.inside)).Sublist _
      rw [typeNames_append]
      refine (typeNames_sublist_initializer initializer).append ?_
      refine (typeNames_sublist body).trans ?_
      exact (List.sublist_append_right _ _).trans (List.sublist_append_right _ _)
  | breakLoop _ => List.nil_sublist _
  | continueLoop _ => List.nil_sublist _
  | returnValue _ _ => List.nil_sublist _
  | function decl => typeNames_sublist_function decl
  | classDecl name superclass methods => by
      rw [inside, slots, Slot.kept_mark, Slot.kept_token, Slot.kept_append, Slot.kept_mark,
        Slot.kept_append]
      have bodies := (typeNames_sublist_functions methods).trans
        (List.sublist_append_left (kept (functionsSlots methods)) (kept [.mark .rightBrace]))
      exact (bodies.trans (List.sublist_append_right _ _)).cons name
  | program statements => typeNames_sublist_all statements

theorem typeNames_sublist_all :
    ∀ ss : List Stmt, (typeNames (insideAll ss)).Sublist (kept (slotsAll ss))
  | [] => List.nil_sublist _
  | s :: ss => by
      rw [insideAll, slotsAll, Slot.kept_append, ← List.cons_append, typeNames_append]
      exact (typeNames_sublist s).append (typeNames_sublist_all ss)

theorem typeNames_sublist_else :
    ∀ s : Option Stmt, (typeNames (insidePart s)).Sublist (kept (elseSlots s))
  | none => List.nil_sublist _
  | some s => typeNames_sublist s

theorem typeNames_sublist_initializer :
    ∀ s : Option Stmt, (typeNames (insidePart s)).Sublist (kept (initializerSlots s))
  | none => List.nil_sublist _
  | some s => typeNames_sublist s

theorem typeNames_sublist_function :
    ∀ f : FunctionDecl Stmt, (typeNames (insideFunction f)).Sublist (kept (functionSlots f))
  | ⟨name, parameters, body⟩ => by
      rw [insideFunction, functionSlots, Slot.kept_mark, Slot.kept_token, Slot.kept_mark,
        Slot.kept_append, Slot.kept_mark, Slot.kept_mark, Slot.kept_append]
      have held := (typeNames_sublist_all body).trans
        (List.sublist_append_left (kept (slotsAll body)) (kept [.mark .rightBrace]))
      exact (held.trans (List.sublist_append_right _ _)).cons name

theorem typeNames_sublist_functions :
    ∀ fs : List (FunctionDecl Stmt),
      (typeNames (insideFunctions fs)).Sublist (kept (functionsSlots fs))
  | [] => List.nil_sublist _
  | f :: fs => by
      rw [insideFunctions, functionsSlots, Slot.kept_append, typeNames_append]
      exact (typeNames_sublist_function f).append (typeNames_sublist_functions fs)

end

end Stmt

/-- The types that a program gives to variables are tokens of what it is written as, in their
    order. -/
theorem Program.WrittenAs.typeNames_sublist {p : Program} {ts : List Token} (h : p.WrittenAs ts) :
    (Stmt.typeNames p.everyStatement).Sublist ts :=
  (Stmt.typeNames_sublist_all p.statements).trans (Fills.kept_sublist h)

end ScriptFront
