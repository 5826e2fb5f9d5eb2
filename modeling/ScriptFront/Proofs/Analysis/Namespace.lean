import Mathlib.Data.List.Infix
import ScriptFront.Proofs.Analysis.Meaning

/-! # Namespace — a name that is bound stays what it is

    All names of a program share one table.  No step of an analysis moves or changes what the table
    holds (`symbols_prefix_concat`), so no run of steps does (`symbols_prefix`), and only parameters
    are defined again, as what they are.  After an analysis without a problem the table holds what
    the program binds at any depth, each name once (`names_are_bound_for_good`). -/

namespace ScriptFront

open Analysis

namespace Stmt

mutual

/-- The symbols that a statement binds at any depth, in the order of the text: variables,
    functions, classes, and the parameters of functions and methods.  Names of methods are not
    bound. -/
def bound : Stmt → List Symbol
  | expression _ => []
  | print _ _ => []
  | varDecl name typeName _ => [variableSymbol name typeName]
  | block statements => boundAll statements
  | conditional _ thenBranch elseBranch => thenBranch.bound ++ boundPart elseBranch
  | whileLoop _ body => body.bound
  | forLoop initializer _ _ body => boundPart initializer ++ body.bound
  | breakLoop _ => []
  | continueLoop _ => []
  | returnValue _ _ => []
  | function decl => functionSymbol decl.name :: boundInside decl
  | classDecl name _ methods => classSymbol name :: boundInsideAll methods
  | program statements => boundAll statements

/-- The symbols that some statements bind. -/
def boundAll : List Stmt → List Symbol
  | [] => []
  | s :: ss => s.bound ++ boundAll ss

/-- The symbols that an optional statement binds. -/
def boundPart : Option Stmt → List Symbol
  | none => []
  | some s => s.bound

/-- The parameters of a function or method, and what its body binds. -/
def boundInside : FunctionDecl Stmt → List Symbol
  | ⟨_, parameters, body⟩ => parameters.map parameterSymbol ++ boundAll body

/-- What is bound inside some methods. -/
def boundInsideAll : List (FunctionDecl Stmt) → List Symbol
  | [] => []
  | f :: fs => boundInside f ++ boundInsideAll fs

end

end Stmt

/-- The symbols that a program binds at any depth, in the order of the text. -/
def Program.bound (p : Program) : List Symbol := Stmt.boundAll p.statements

namespace Analysis

/-- The symbol that an event is about, if something was defined. -/
def Event.symbol? : Event → Option Symbol
  | .defined s => some s
  | .leftUnresolved _ => none

/-- All that was defined so far, in its order. -/
def State.definitions (s : State) : List Symbol := s.events.filterMap Event.symbol?

/-! ## What the steps bind -/

theorem bindings_parameters (ps : List Token) :
    ∀ earlier, bindings (Step.ofParameters earlier ps) = ps.map parameterSymbol := by
  induction ps with
  | nil =>
      intro earlier
      rfl
  | cons p ps ih =>
      intro earlier
      rw [Step.ofParameters, bindings_parameter, bindings_bind, ih, List.map_cons]

end Analysis

namespace Stmt

mutual

/-- The steps of a statement bind what the statement binds. -/
theorem bindings_steps : ∀ s : Stmt, bindings s.steps = s.bound
  | expression value => by rw [steps, bound, value.bindings_steps]
  | print _ value => by rw [steps, bound, value.bindings_steps]
  | varDecl name typeName initializer => by
      rw [steps, bound, bindings_declare, bindings_append, Expr.bindings_stepsPart, bindings_append,
        bindings_bind]
      cases typeName with
      | none => rfl
      | some t => rfl
  | block statements => by rw [steps, bound, bindings_stepsAll statements]
  | conditional condition thenBranch elseBranch => by
      rw [steps, bound, bindings_append, bindings_append, condition.bindings_steps,
        bindings_steps thenBranch, bindings_stepsPart elseBranch, List.nil_append]
  | whileLoop condition body => by
      rw [steps, bound, bindings_append, condition.bindings_steps, bindings_steps body,
        List.nil_append]
  | forLoop initializer condition increment body => by
      rw [steps, bound, bindings_append, bindings_append, bindings_append,
        bindings_stepsPart initializer, Expr.bindings_stepsPart, Expr.bindings_stepsPart,
        bindings_steps body, List.nil_append, List.nil_append]
  | breakLoop _ => by rw [steps, bound, bindings_nil]
  | continueLoop _ => by rw [steps, bound, bindings_nil]
  | returnValue _ value => by rw [steps, bound, Expr.bindings_stepsPart]
  | function decl => by
      rw [steps, bound, bindings_declare, bindings_bind, bindings_stepsInside decl]
  | classDecl name superclass methods => by
      have own : bindings (superclass.toList.map .use) = [] := by
        cases superclass with
        | none => rfl
        | some t => rfl
      rw [steps, bound, bindings_append, own, bindings_declare, bindings_bind,
        bindings_stepsInsideAll methods, List.nil_append]
  | program statements => by rw [steps, bound, bindings_stepsAll statements]

theorem bindings_stepsAll : ∀ ss : List Stmt, bindings (stepsAll ss) = boundAll ss
  | [] => by rw [stepsAll, boundAll, bindings_nil]
  | s :: ss => by
      rw [stepsAll, boundAll, bindings_append, bindings_steps s, bindings_stepsAll ss]

theorem bindings_stepsPart : ∀ s : Option Stmt, bindings (stepsPart s) = boundPart s
  | none => by rw [stepsPart, boundPart, bindings_nil]
  | some s => by rw [stepsPart, boundPart, bindings_steps s]

theorem bindings_stepsInside :
    ∀ f : FunctionDecl Stmt, bindings (stepsInside f) = boundInside f
  | ⟨_, parameters, body⟩ => by
      rw [stepsInside, boundInside, bindings_append, bindings_parameters, bindings_stepsAll body]

theorem bindings_stepsInsideAll :
    ∀ fs : List (FunctionDecl Stmt), bindings (stepsInsideAll fs) = boundInsideAll fs
  | [] => by rw [stepsInsideAll, boundInsideAll, bindings_nil]
  | f :: fs => by
      rw [stepsInsideAll, boundInsideAll, bindings_append, bindings_stepsInside f,
        bindings_stepsInsideAll fs]

end

end Stmt

/-- The steps of a program bind what the program binds. -/
theorem Program.bindings_steps (p : Program) : bindings p.steps = p.bound :=
  Stmt.bindings_stepsAll p.statements

namespace Analysis

/-! ## What the table holds stays -/

/-- What more steps leave goes on from what fewer leave. -/
theorem stateAfter_prefix {done more : List Step} :
    (stateAfter done).table.symbols <+: (stateAfter (done ++ more)).table.symbols := by
  show (bindings done).eraseDups <+: (bindings (done ++ more)).eraseDups
  rw [bindings_append, List.eraseDups_append]
  exact List.prefix_append _ _

/-- A step leaves everything in the table as and where it is. -/
theorem symbols_prefix_concat {strict : Bool} {steps : List Step} {step : Step}
    (g : Guarded (steps ++ [step])) :
    (perform strict steps {}).1.table.symbols
      <+: (perform strict (steps ++ [step]) {}).1.table.symbols := by
  rw [perform_append, perform_singleton]
  by_cases h : AllHold strict steps
  · have taken := perform_of_allHold g.of_append h
    rw [Pass.andThen_of_none taken, taken]
    by_cases holds : step.Holds strict steps
    · rw [(runs_of_allHold g h).taken holds]
      exact stateAfter_prefix
    · obtain ⟨p, -, kept⟩ := (runs_of_allHold g h).stopped holds
      rw [kept]
  · -- behind a problem no step is taken
    have ended := mt (perform_eq_none_iff g.of_append).mp h
    cases taken : perform strict steps {} with
    | mk s end' =>
        rw [taken] at ended
        cases end' with
        | none => exact absurd rfl ended
        | some p =>
            rw [Pass.andThen_of_some taken]

/-- Steps leave everything in the table as and where it is. -/
theorem symbols_prefix {strict : Bool} {steps more : List Step} (g : Guarded (steps ++ more)) :
    (perform strict steps {}).1.table.symbols
      <+: (perform strict (steps ++ more) {}).1.table.symbols := by
  induction more using List.reverseRecOn with
  | nil => rw [List.append_nil]
  | append_singleton more step ih =>
      rw [← List.append_assoc] at g ⊢
      exact (ih g.of_append).trans (symbols_prefix_concat g)

/-- What was defined is what the steps have bound. -/
theorem definitions_stateAfter (done : List Step) :
    (stateAfter done).definitions = bindings done := by
  rw [State.definitions, stateAfter, List.filterMap_filterMap, bindings]
  congr 1
  funext step
  cases step with
  | annotate owner t =>
      rw [Step.event?]
      split
      · rfl
      · rfl
  | _ => rfl

/-- Names that are not of parameters are bound once, and no parameter has one of them. -/
theorem Coherent.apart {ss : List Symbol} (h : Coherent ss) :
    ((ss.filter fun s => s.kind ≠ .parameter).map Symbol.name).Nodup
    ∧ ∀ s ∈ ss, ∀ q ∈ ss, s.kind ≠ .parameter → q.kind = .parameter → s.name ≠ q.name := by
  constructor
  · rw [List.Nodup, List.pairwise_map, List.pairwise_filter]
    refine h.imp fun {a b} compatible kind _ same => ?_
    exact of_decide_eq_true kind (compatible same).2
  · intro s hs q hq kind parameter same
    rw [h.eq_of_name hs hq same] at kind
    exact kind parameter

/-- An analysis takes the steps of its program one after the other, and from one point of it to any
    later one, whether or not it ends in a problem, every name in the table keeps its symbol and its
    place.  What it defines again is a parameter, and the symbol is the same.

    If it has no problem, the names of variables, functions and classes are different from each
    other and from those of all parameters, only variables have types, and the table holds exactly
    what the program binds, each symbol in the place of its first binding. -/
theorem names_are_bound_for_good (strict : Bool) (p : Program) :
    analyze strict p = perform strict p.steps {}
    ∧ (∀ i j, i <+: j → j <+: p.steps →
        (perform strict i {}).1.table.symbols <+: (perform strict j {}).1.table.symbols)
    ∧ Coherent (analyze strict p).1.definitions
    ∧ ((analyze strict p).2 = none →
        ((p.bound.filter fun s => s.kind ≠ .parameter).map Symbol.name).Nodup
        ∧ (∀ s ∈ p.bound, ∀ q ∈ p.bound,
            s.kind ≠ .parameter → q.kind = .parameter → s.name ≠ q.name)
        ∧ (∀ s ∈ p.bound, ∀ t ∈ s.type, s.kind = .variable ∧ t ∈ builtinTypes)
        ∧ (analyze strict p).1.table.symbols = p.bound.eraseDups) := by
  have g := p.guarded_steps
  rw [analyze_eq_perform]
  refine ⟨rfl, ?_, ?_, fun ended => ?_⟩
  · rintro i j ⟨more, rfl⟩ ⟨rest, split⟩
    rw [← split] at g
    exact symbols_prefix g.of_append
  · obtain ⟨done, ⟨rest, split⟩, held, state⟩ := exists_held strict g
    rw [state, definitions_stateAfter]
    rw [← split] at g
    exact coherent_of_allHold g.of_append held
  · have h := (perform_eq_none_iff g).mp ended
    have apart := (coherent_of_allHold g h).apart
    rw [p.bindings_steps] at apart
    refine ⟨apart.1, apart.2, ?_, ?_⟩
    · intro s mem
      rw [← p.bindings_steps] at mem
      exact type_of_mem g mem
    · rw [perform_of_allHold g h, stateAfter, p.bindings_steps]

/-- A name may be a parameter of two functions; the table holds it once, in its first place. -/
theorem shared_parameter_is_bound_once :
    let f : Token := ⟨.identifier, "f", .null, ⟨1, 5⟩⟩
    let g : Token := ⟨.identifier, "g", .null, ⟨2, 5⟩⟩
    let a : Token := ⟨.identifier, "a", .null, ⟨1, 7⟩⟩
    let b : Token := ⟨.identifier, "b", .null, ⟨3, 5⟩⟩
    let real : Token := ⟨.identifier, "REAL", .null, ⟨3, 8⟩⟩
    let p : Program :=
      ⟨[.function ⟨f, [a], []⟩, .function ⟨g, [a], []⟩, .varDecl b (some real) none]⟩
    (analyze true p).2 = none
    ∧ (analyze true p).1.table.symbols
      = [functionSymbol f, parameterSymbol a, functionSymbol g, ⟨"b", some "REAL", .variable⟩]
    ∧ [functionSymbol f, parameterSymbol a]
      <+: (perform true (p.steps.take 8) {}).1.table.symbols := by
  intro f g a b real p
  obtain ⟨-, keeps, -, ended⟩ := names_are_bound_for_good true p
  have clean : (analyze true p).2 = none := by decide
  obtain ⟨-, -, -, table⟩ := ended clean
  have kept := keeps (p.steps.take 4) (p.steps.take 8)
    (List.take_prefix_take_left (by decide)) (List.take_prefix 8 p.steps)
  exact ⟨clean, table.trans (by decide), kept⟩

end Analysis

end ScriptFront
