import ScriptFront.Proofs.Analysis.Steps
import ScriptFront.Proofs.Program.Moved

/-! # Placeless — the analysis does not look at places

    The steps of a program in other places are its steps in other places (`Program.steps_move`), and
    taking them does the same to the state and ends for the same cause (`perform_move`).  Places
    only come along: with the names that are left unresolved, and with the problem. -/

namespace ScriptFront

namespace Analysis

/-! ## Other places -/

/-- A step at another place. -/
def Step.move (m : Position → Position) : Step → Step
  | use name => use (name.move m)
  | declare name => declare (name.move m)
  | parameter earlier name => parameter (earlier.map (Token.move m)) (name.move m)
  | annotate owner typeName => annotate (owner.move m) (typeName.move m)
  | bind symbol => bind symbol

/-- A variable without a type, in another place. -/
def Unresolved.move (m : Position → Position) (u : Unresolved) : Unresolved :=
  ⟨u.name.move m, u.typeName.move m⟩

/-- A state that has been reached in other places. -/
def State.move (m : Position → Position) (s : State) : State :=
  { s with unresolved := s.unresolved.map (Unresolved.move m) }

theorem Step.ofParameters_move (m : Position → Position) (earlier ps : List Token) :
    Step.ofParameters (earlier.map (Token.move m)) (ps.map (Token.move m))
      = (Step.ofParameters earlier ps).map (Step.move m) := by
  induction ps generalizing earlier with
  | nil => rfl
  | cons p ps ih =>
      simp only [List.map_cons, ofParameters, move, ← ih (p :: earlier)]
      rfl

theorem variableSymbol_move (m : Position → Position) (name : Token) (typeName : Option Token) :
    variableSymbol (name.move m) (typeName.map (Token.move m)) = variableSymbol name typeName := by
  rw [variableSymbol, variableSymbol, Option.map_map]
  rfl

end Analysis

open Analysis

/-! ## Steps in other places -/

namespace Expr

mutual

theorem steps_move (m : Position → Position) :
    ∀ e : Expr, (e.move m).steps = e.steps.map (Step.move m)
  | assign name value => by simp [move, steps, steps_move m value, Step.move]
  | binary left _ right | logical left _ right | set left _ right => by
      simp [move, steps, steps_move m left, steps_move m right]
  | call callee _ arguments => by
      simp [move, steps, steps_move m callee, stepsAll_move m arguments]
  | get inner _ | grouping inner | unary _ inner => by simp [move, steps, steps_move m inner]
  | literal _ | super _ _ | this _ | var _ => rfl

theorem stepsAll_move (m : Position → Position) :
    ∀ es : List Expr, stepsAll (moveAll m es) = (stepsAll es).map (Step.move m)
  | [] => rfl
  | e :: es => by simp [moveAll, stepsAll, steps_move m e, stepsAll_move m es]

end

theorem stepsPart_move (m : Position → Position) (e : Option Expr) :
    stepsPart (e.map (move m)) = (stepsPart e).map (Step.move m) := by
  cases e with
  | none => rfl
  | some e => exact e.steps_move m

end Expr

namespace Stmt

mutual

theorem steps_move (m : Position → Position) :
    ∀ s : Stmt, (s.move m).steps = s.steps.map (Step.move m)
  | expression value | print _ value => by simp [move, steps, value.steps_move m]
  | varDecl name typeName initializer => by
      have annotated : (typeName.map (Token.move m)).toList.map (Step.annotate (name.move m))
          = (typeName.toList.map (Step.annotate name)).map (Step.move m) := by
        cases typeName with
        | none => rfl
        | some t => rfl
      simp [move, steps, Expr.stepsPart_move, annotated, variableSymbol_move, Step.move]
  | block statements | program statements => by simp [move, steps, stepsAll_move m statements]
  | conditional condition thenBranch elseBranch => by
      simp [move, steps, condition.steps_move m, steps_move m thenBranch,
        stepsPart_move m elseBranch]
  | whileLoop condition body => by
      simp [move, steps, condition.steps_move m, steps_move m body]
  | forLoop initializer condition increment body => by
      simp [move, steps, stepsPart_move m initializer, Expr.stepsPart_move, steps_move m body]
  | breakLoop _ | continueLoop _ => rfl
  | returnValue _ value => by simp [move, steps, Expr.stepsPart_move]
  | function ⟨name, parameters, body⟩ => by
      have inside := stepsInside_move m ⟨name, parameters, body⟩
      simp only [moveFunction] at inside
      simp [move, moveFunction, steps, inside, Step.move]
      rfl
  | classDecl name superclass methods => by
      have used : (superclass.map (Token.move m)).toList.map Step.use
          = (superclass.toList.map Step.use).map (Step.move m) := by
        cases superclass with
        | none => rfl
        | some t => rfl
      simp [move, steps, used, stepsInsideAll_move m methods, Step.move]
      rfl

theorem stepsAll_move (m : Position → Position) :
    ∀ ss : List Stmt, stepsAll (moveAll m ss) = (stepsAll ss).map (Step.move m)
  | [] => rfl
  | s :: ss => by simp [moveAll, stepsAll, steps_move m s, stepsAll_move m ss]

theorem stepsPart_move (m : Position → Position) :
    ∀ s : Option Stmt, stepsPart (movePart m s) = (stepsPart s).map (Step.move m)
  | none => rfl
  | some s => steps_move m s

theorem stepsInside_move (m : Position → Position) :
    ∀ f : FunctionDecl Stmt,
      stepsInside (moveFunction m f) = (stepsInside f).map (Step.move m)
  | ⟨name, parameters, body⟩ => by
      have listed := Step.ofParameters_move m [] parameters
      rw [List.map_nil] at listed
      simp [moveFunction, stepsInside, listed, stepsAll_move m body]

theorem stepsInsideAll_move (m : Position → Position) :
    ∀ fs : List (FunctionDecl Stmt),
      stepsInsideAll (moveFunctions m fs) = (stepsInsideAll fs).map (Step.move m)
  | [] => rfl
  | f :: fs => by
      simp [moveFunctions, stepsInsideAll, stepsInside_move m f, stepsInsideAll_move m fs]

end

end Stmt

/-- The steps of a program in other places are its steps in other places. -/
theorem Program.steps_move (m : Position → Position) (p : Program) :
    (p.move m).steps = p.steps.map (Step.move m) :=
  Stmt.stepsAll_move m p.statements

namespace Analysis

/-! ## Taking steps in other places -/

/-- What comes of a run in other places: the state is the same but for them, and so is the cause of
    the problem, if there is one. -/
structure Follows (m : Position → Position) (moved run : State × Option Problem) : Prop where
  state : moved.1 = run.1.move m
  cause : moved.2.map Problem.cause = run.2.map Problem.cause

variable (m : Position → Position) (strict : Bool)

/-- A look stops in other places if it stops. -/
theorem follows_stopIf (condition : State → Bool) {s : State}
    (same : condition (s.move m) = condition s) (cause : Cause) (p : Position) :
    Follows m (Pass.stopIf condition (.ofCause cause (m p)) (s.move m))
      (Pass.stopIf condition (.ofCause cause p) s) := by
  refine ⟨rfl, ?_⟩
  simp only [Pass.stopIf, same]
  split
  · rfl
  · rfl

theorem Step.pass_move (step : Step) (s : State) :
    Follows m ((step.move m).pass strict (s.move m)) (step.pass strict s) := by
  cases step with
  | use name =>
      exact follows_stopIf m (fun s => !s.table.contains name.lexeme) rfl _ name.position
  | declare name =>
      exact follows_stopIf m (fun s => s.table.contains name.lexeme) rfl _ name.position
  | parameter earlier name =>
      have lexemes : (earlier.map (Token.move m)).map Token.lexeme = earlier.map Token.lexeme := by
        rw [List.map_map]
        rfl
      rw [move, pass, pass, lexemes]
      exact follows_stopIf m
        (fun s => (earlier.map Token.lexeme).contains name.lexeme || isTaken s.table name.lexeme)
        rfl _ name.position
  | annotate owner t =>
      by_cases known : t.lexeme ∈ builtinTypes
      · rw [pass_annotate_of_builtin known, move, pass_annotate_of_builtin (t := t.move m) known]
        exact ⟨rfl, rfl⟩
      · cases strict with
        | true =>
            rw [pass_annotate_of_strict known, move, pass_annotate_of_strict (t := t.move m) known]
            exact ⟨rfl, rfl⟩
        | false =>
            rw [pass_annotate_of_lenient known, move,
              pass_annotate_of_lenient (t := t.move m) known]
            refine ⟨?_, rfl⟩
            simp [State.move, Unresolved.move]
  | bind symbol => exact ⟨rfl, rfl⟩

theorem perform_move (steps : List Step) (s : State) :
    Follows m (perform strict (steps.map (Step.move m)) (s.move m)) (perform strict steps s) := by
  induction steps generalizing s with
  | nil => exact ⟨rfl, rfl⟩
  | cons step steps ih =>
      obtain ⟨state, cause⟩ := step.pass_move m strict s
      rw [List.map_cons, perform, perform, Pass.andThen, Pass.andThen]
      cases first : step.pass strict s with
      | mk s₁ end₁ =>
          cases moved : (step.move m).pass strict (s.move m) with
          | mk s₂ end₂ =>
              rw [first, moved] at state cause
              cases state
              cases end₁ with
              | none =>
                  cases end₂ with
                  | none => exact ih s₁
                  | some q => cases cause
              | some p =>
                  cases end₂ with
                  | none => cases cause
                  | some q => exact ⟨rfl, cause⟩

/-- The analysis of a program in other places finds the same, in other places. -/
theorem analyze_move (p : Program) :
    Follows m (analyze strict (p.move m)) (analyze strict p) := by
  rw [analyze_eq_perform, analyze_eq_perform, p.steps_move]
  exact perform_move m strict p.steps {}

end Analysis

end ScriptFront
