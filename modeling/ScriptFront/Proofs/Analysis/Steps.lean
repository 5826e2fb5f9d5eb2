import ScriptFront.Analysis.Basic

/-! # Steps — an analysis is a row of looks at names and of bindings

    What the analysis has to do can be read off a program: a row of steps, of which each looks at
    one name or binds one (`Program.steps`).  The analysis goes through the tree and stops at the
    first problem; this is to take the steps one after the other and nothing else
    (`analyze_eq_perform`). -/

namespace ScriptFront

namespace Analysis

/-! ## Steps -/

/-- What the analysis does at one place of a program. -/
inductive Step
  /-- A name is used. -/
  | use (name : Token)
  /-- The name of a variable, a function or a class is about to be bound. -/
  | declare (name : Token)
  /-- A parameter is about to be bound; `earlier` are those before it in its list. -/
  | parameter (earlier : List Token) (name : Token)
  /-- A variable has a type. -/
  | annotate (owner typeName : Token)
  /-- A name is bound. -/
  | bind (symbol : Symbol)

/-- A variable has the type of its annotation if that names a builtin type. -/
def variableSymbol (name : Token) (typeName : Option Token) : Symbol :=
  { name := name.lexeme
    type := (typeName.map Token.lexeme).filter (· ∈ builtinTypes)
    kind := .variable }

/-- A parameter has no type. -/
def parameterSymbol (name : Token) : Symbol :=
  { name := name.lexeme, kind := .parameter }

/-- A function has no type. -/
def functionSymbol (name : Token) : Symbol :=
  { name := name.lexeme, kind := .function }

/-- A class has no type. -/
def classSymbol (name : Token) : Symbol :=
  { name := name.lexeme, kind := .classType }

/-- The parameters of a list are looked at and bound in turn. -/
def Step.ofParameters (earlier : List Token) : List Token → List Step
  | [] => []
  | p :: ps =>
    .parameter earlier p :: .bind (parameterSymbol p) :: ofParameters (p :: earlier) ps

end Analysis

open Analysis

namespace Expr

mutual

/-- The steps of an expression: an assigned name is used before its value is gone through. -/
def steps : Expr → List Step
  | assign name value => .use name :: value.steps
  | binary left _ right => left.steps ++ right.steps
  | call callee _ arguments => callee.steps ++ stepsAll arguments
  | get object _ => object.steps
  | grouping inner => inner.steps
  | literal _ => []
  | logical left _ right => left.steps ++ right.steps
  | set object _ value => object.steps ++ value.steps
  | super _ _ => []
  | this _ => []
  | unary _ right => right.steps
  | var name => [.use name]

/-- The steps of some expressions, one after the other. -/
def stepsAll : List Expr → List Step
  | [] => []
  | e :: es => e.steps ++ stepsAll es

end

/-- The steps of an optional expression. -/
def stepsPart : Option Expr → List Step
  | none => []
  | some e => e.steps

end Expr

namespace Stmt

mutual

/-- The steps of a statement.  A variable is looked at before its initializer and bound behind its
    type; a function and a class are bound before what is inside them. -/
def steps : Stmt → List Step
  | expression value => value.steps
  | print _ value => value.steps
  | varDecl name typeName initializer =>
      .declare name :: (Expr.stepsPart initializer
        ++ (typeName.toList.map (.annotate name) ++ [.bind (variableSymbol name typeName)]))
  | block statements => stepsAll statements
  | conditional condition thenBranch elseBranch =>
      condition.steps ++ (thenBranch.steps ++ stepsPart elseBranch)
  | whileLoop condition body => condition.steps ++ body.steps
  | forLoop initializer condition increment body =>
      stepsPart initializer
        ++ (Expr.stepsPart condition ++ (Expr.stepsPart increment ++ body.steps))
  | breakLoop _ => []
  | continueLoop _ => []
  | returnValue _ value => Expr.stepsPart value
  | function decl =>
      .declare decl.name :: .bind (functionSymbol decl.name) :: stepsInside decl
  | classDecl name superclass methods =>
      superclass.toList.map .use
        ++ (.declare name :: .bind (classSymbol name) :: stepsInsideAll methods)
  | program statements => stepsAll statements

/-- The steps of some statements, one after the other. -/
def stepsAll : List Stmt → List Step
  | [] => []
  | s :: ss => s.steps ++ stepsAll ss

/-- The steps of an optional statement. -/
def stepsPart : Option Stmt → List Step
  | none => []
  | some s => s.steps

/-- The steps of the parameters and the body of a function or method. -/
def stepsInside : FunctionDecl Stmt → List Step
  | ⟨_, parameters, body⟩ => Step.ofParameters [] parameters ++ stepsAll body

/-- The steps of some methods, one after the other; their names are not bound. -/
def stepsInsideAll : List (FunctionDecl Stmt) → List Step
  | [] => []
  | f :: fs => stepsInside f ++ stepsInsideAll fs

end

end Stmt

/-- The steps of a program. -/
def Program.steps (p : Program) : List Step := Stmt.stepsAll p.statements

namespace Analysis

/-! ## Taking steps -/

/-- What a step does to the state. -/
def Step.pass (strict : Bool) : Step → Pass
  | .use name => requireKnown name
  | .declare name => requireNew name
  | .parameter earlier name =>
    .stopIf
      (fun s => (earlier.map Token.lexeme).contains name.lexeme || isTaken s.table name.lexeme)
      (.ofCause (.alreadyDeclared name.lexeme) name.position)
  | .annotate owner typeName => fun s =>
    if typeName.lexeme ∈ builtinTypes then (s, none)
    else if strict then (s, some (.ofCause (.unknownType typeName.lexeme) typeName.position))
    else
      ({ s with
         unresolved := s.unresolved ++ [⟨owner, typeName⟩]
         events := s.events ++ [.leftUnresolved typeName.lexeme] },
       none)
  | .bind symbol => define symbol

/-- Takes some steps, one after the other. -/
def perform (strict : Bool) : List Step → Pass
  | [] => .skip
  | step :: steps => (step.pass strict).andThen (perform strict steps)

namespace Pass

theorem andThen_of_none {a b : Pass} {s s' : State} (h : a s = (s', none)) :
    a.andThen b s = b s' := by
  rw [andThen, h]

theorem andThen_of_some {a b : Pass} {s s' : State} {p : Problem} (h : a s = (s', some p)) :
    a.andThen b s = (s', some p) := by
  rw [andThen, h]

theorem andThen_skip (a : Pass) : a.andThen skip = a := by
  funext s
  cases h : a s with
  | mk s' end' =>
      cases end' with
      | none => exact andThen_of_none h
      | some p => exact andThen_of_some h

theorem andThen_assoc (a b c : Pass) : (a.andThen b).andThen c = a.andThen (b.andThen c) := by
  funext s
  cases h : a s with
  | mk s' end' =>
      cases end' with
      | none =>
          rw [andThen_of_none h, andThen, andThen_of_none h]
          rfl
      | some p => rw [andThen_of_some h, andThen_of_some (andThen_of_some h)]

end Pass

theorem perform_append (strict : Bool) (xs ys : List Step) :
    perform strict (xs ++ ys) = (perform strict xs).andThen (perform strict ys) := by
  induction xs with
  | nil => rfl
  | cons x xs ih => rw [List.cons_append, perform, ih, perform, Pass.andThen_assoc]

theorem perform_singleton (strict : Bool) (step : Step) :
    perform strict [step] = step.pass strict :=
  Pass.andThen_skip _

/-- No step changes the builtin types. -/
theorem Step.pass_builtins (strict : Bool) (step : Step) (s : State) :
    (step.pass strict s).1.table.builtins = s.table.builtins := by
  cases step with
  | annotate owner typeName =>
      rw [pass]
      split
      · rfl
      · split
        · rfl
        · rfl
  | _ => rfl

theorem perform_builtins (strict : Bool) (steps : List Step) (s : State) :
    (perform strict steps s).1.table.builtins = s.table.builtins := by
  induction steps generalizing s with
  | nil => rfl
  | cons step steps ih =>
      have first := step.pass_builtins strict s
      rw [perform]
      cases h : step.pass strict s with
      | mk s' end' =>
          rw [h] at first
          cases end' with
          | none => rw [Pass.andThen_of_none h, ih s', first]
          | some p => rw [Pass.andThen_of_some h, first]

/-! ## Passes that take steps -/

/-- A pass takes some steps, whatever is bound and left unresolved before them. -/
def Pass.Takes (strict : Bool) (steps : List Step) (a : Pass) : Prop :=
  ∀ s, s.table.builtins = .ofNames builtinTypes → a s = perform strict steps s

namespace Pass.Takes

variable {strict : Bool} {a b : Pass} {xs ys : List Step}

theorem skip : Takes strict [] Pass.skip := fun _ _ => rfl

theorem step (step : Step) : Takes strict [step] (step.pass strict) := by
  intro s _
  rw [perform_singleton]

theorem andThen (ha : a.Takes strict xs) (hb : b.Takes strict ys) :
    (a.andThen b).Takes strict (xs ++ ys) := by
  intro s hs
  rw [perform_append]
  have kept := perform_builtins strict xs s
  cases h : perform strict xs s with
  | mk s' end' =>
      rw [h, hs] at kept
      have first := (ha s hs).trans h
      cases end' with
      | none => rw [andThen_of_none h, andThen_of_none first, hb s' kept]
      | some p => rw [andThen_of_some h, andThen_of_some first]

/-- The last of some passes. -/
theorem last (ha : a.Takes strict xs) : (a.andThen Pass.skip).Takes strict xs := by
  rw [andThen_skip]
  exact ha

/-- One look or binding and what comes behind it. -/
theorem cons {x : Step} (hb : b.Takes strict ys) :
    ((x.pass strict).andThen b).Takes strict (x :: ys) :=
  (step x).andThen hb

end Pass.Takes

/-! ## Names and types -/

theorem pass_annotate_of_builtin {t : Token} (h : t.lexeme ∈ builtinTypes) (strict : Bool)
    (owner : Token) (s : State) : (Step.annotate owner t).pass strict s = (s, none) :=
  if_pos h

theorem pass_annotate_of_strict {t : Token} (h : t.lexeme ∉ builtinTypes) (owner : Token)
    (s : State) :
    (Step.annotate owner t).pass true s
      = (s, some (.ofCause (.unknownType t.lexeme) t.position)) :=
  if_neg h

theorem pass_annotate_of_lenient {t : Token} (h : t.lexeme ∉ builtinTypes) (owner : Token)
    (s : State) :
    (Step.annotate owner t).pass false s
      = ({ s with
           unresolved := s.unresolved ++ [⟨owner, t⟩]
           events := s.events ++ [.leftUnresolved t.lexeme] },
         none) :=
  if_neg h

theorem variableSymbol_some (name t : Token) :
    variableSymbol name (some t)
      = { name := name.lexeme
          type := if t.lexeme ∈ builtinTypes then some t.lexeme else none } := by
  rw [variableSymbol, Option.map_some, Option.filter_some]
  simp only [decide_eq_true_eq]

theorem declareVariable_takes (strict : Bool) (name : Token) (typeName : Option Token) :
    (declareVariable strict name typeName).Takes strict
      (typeName.toList.map (.annotate name) ++ [.bind (variableSymbol name typeName)]) := by
  intro s hs
  cases typeName with
  | none => exact Pass.Takes.step (.bind (variableSymbol name none)) s hs
  | some t =>
      have found : s.table.builtin? t.lexeme
          = if t.lexeme ∈ builtinTypes then some t.lexeme else none := by
        rw [SymbolTable.builtin?, hs, Registry.get?_ofNames]
      show _ = ((Step.annotate name t).pass strict).andThen (perform strict [.bind _]) s
      rw [perform_singleton, variableSymbol_some, declareVariable]
      by_cases known : t.lexeme ∈ builtinTypes
      · rw [if_pos known] at found ⊢
        simp only [found]
        rw [Pass.andThen_of_none (pass_annotate_of_builtin known strict name s)]
        rfl
      · rw [if_neg known] at found ⊢
        simp only [found]
        cases strict with
        | true =>
            rw [Pass.andThen_of_some (pass_annotate_of_strict known name s)]
            rfl
        | false =>
            rw [Pass.andThen_of_none (pass_annotate_of_lenient known name s)]
            rfl

theorem declareParameters_takes (strict : Bool) (ps : List Token) :
    ∀ earlier, (declareParameters (earlier.map Token.lexeme) ps).Takes strict
      (Step.ofParameters earlier ps) := by
  induction ps with
  | nil =>
      intro earlier
      exact .skip
  | cons p ps ih =>
      intro earlier
      exact .cons (x := .parameter earlier p)
        (.cons (x := .bind (parameterSymbol p)) (ih (p :: earlier)).last)

/-! ## Trees -/

theorem checkAll_nil_takes (strict : Bool) : (checkAll strict []).Takes strict [] := by
  rw [checkAll]
  exact .skip

theorem checkAll_cons_takes {strict : Bool} {o : Outline} {os : List Outline}
    {xs ys : List Step} (h : (check strict o).Takes strict xs)
    (hs : (checkAll strict os).Takes strict ys) :
    (checkAll strict (o :: os)).Takes strict (xs ++ ys) := by
  rw [checkAll]
  exact h.andThen hs.last

/-- The last of some outlines. -/
theorem checkAll_last_takes {strict : Bool} {o : Outline} {xs : List Step}
    (h : (check strict o).Takes strict xs) : (checkAll strict [o]).Takes strict xs := by
  have last := checkAll_cons_takes h (checkAll_nil_takes strict)
  rwa [List.append_nil] at last

theorem check_absent_takes (strict : Bool) : (check strict .absent).Takes strict [] := by
  rw [check]
  exact .skip

/-- Whether a head neither declares nor uses a name. -/
def isPlain : Head → Bool
  | .assign _ | .var _ | .varDecl .. | .function .. | .classDecl _ => false
  | _ => true

/-- Of a plain node the children are checked, and nothing else. -/
theorem check_plain_takes {strict : Bool} {head : Head} {children : List Outline}
    {xs : List Step} (plain : isPlain head = true)
    (hs : (checkAll strict children).Takes strict xs) :
    (check strict (.node head children)).Takes strict xs := by
  cases head with
  | assign | var | varDecl | function | classDecl => cases plain
  | _ =>
      simp only [check]
      exact hs

end Analysis

open Analysis

namespace Expr

mutual

/-- To check an expression is to take its steps. -/
theorem check_takes (strict : Bool) :
    ∀ e : Expr, (check strict e.outline).Takes strict e.steps
  | assign name value => by
      rw [outline, steps, check]
      exact .cons (x := .use name) (checkAll_last_takes (check_takes strict value)).last
  | binary left operator right => by
      rw [outline, steps]
      exact check_plain_takes rfl (checkAll_cons_takes (check_takes strict left)
        (checkAll_last_takes (check_takes strict right)))
  | call callee paren arguments => by
      rw [outline, steps]
      exact check_plain_takes rfl (checkAll_cons_takes (check_takes strict callee)
        (checkAll_takes strict arguments))
  | get object name => by
      rw [outline, steps]
      exact check_plain_takes rfl (checkAll_last_takes (check_takes strict object))
  | grouping inner => by
      rw [outline, steps]
      exact check_plain_takes rfl (checkAll_last_takes (check_takes strict inner))
  | literal value => by
      rw [outline, steps]
      exact check_plain_takes rfl (checkAll_nil_takes strict)
  | logical left operator right => by
      rw [outline, steps]
      exact check_plain_takes rfl (checkAll_cons_takes (check_takes strict left)
        (checkAll_last_takes (check_takes strict right)))
  | set object name value => by
      rw [outline, steps]
      exact check_plain_takes rfl (checkAll_cons_takes (check_takes strict object)
        (checkAll_last_takes (check_takes strict value)))
  | super keyword method => by
      rw [outline, steps]
      exact check_plain_takes rfl (checkAll_nil_takes strict)
  | this keyword => by
      rw [outline, steps]
      exact check_plain_takes rfl (checkAll_nil_takes strict)
  | unary operator right => by
      rw [outline, steps]
      exact check_plain_takes rfl (checkAll_last_takes (check_takes strict right))
  | var name => by
      rw [outline, steps, check]
      exact .step (.use name)

/-- To check some expressions is to take their steps. -/
theorem checkAll_takes (strict : Bool) :
    ∀ es : List Expr, (checkAll strict (outlines es)).Takes strict (stepsAll es)
  | [] => by
      rw [outlines, stepsAll]
      exact checkAll_nil_takes strict
  | e :: es => by
      rw [outlines, stepsAll]
      exact checkAll_cons_takes (check_takes strict e) (checkAll_takes strict es)

end

/-- To check an optional expression is to take its steps. -/
theorem checkPart_takes (strict : Bool) (e : Option Expr) :
    (check strict (outlinePart e)).Takes strict (stepsPart e) := by
  cases e with
  | none => exact check_absent_takes strict
  | some e => exact check_takes strict e

end Expr

namespace Stmt

mutual

/-- To check a statement is to take its steps. -/
theorem check_takes (strict : Bool) :
    ∀ s : Stmt, (check strict s.outline).Takes strict s.steps
  | expression value => by
      rw [outline, steps]
      exact check_plain_takes rfl (checkAll_last_takes (value.check_takes strict))
  | print keyword value => by
      rw [outline, steps]
      exact check_plain_takes rfl (checkAll_last_takes (value.check_takes strict))
  | varDecl name typeName initializer => by
      rw [outline, steps, check]
      have value := checkAll_last_takes (Expr.checkPart_takes strict initializer)
      have declared := (declareVariable_takes strict name typeName).last
      exact .cons (x := .declare name) (value.andThen declared)
  | block statements => by
      rw [outline, steps]
      exact check_plain_takes rfl (checkAll_takes strict statements)
  | conditional condition thenBranch elseBranch => by
      rw [outline, steps]
      exact check_plain_takes rfl (checkAll_cons_takes (condition.check_takes strict)
        (checkAll_cons_takes (check_takes strict thenBranch)
          (checkAll_last_takes (checkPart_takes strict elseBranch))))
  | whileLoop condition body => by
      rw [outline, steps]
      exact check_plain_takes rfl (checkAll_cons_takes (condition.check_takes strict)
        (checkAll_last_takes (check_takes strict body)))
  | forLoop initializer condition increment body => by
      rw [outline, steps]
      exact check_plain_takes rfl (checkAll_cons_takes (checkPart_takes strict initializer)
        (checkAll_cons_takes (Expr.checkPart_takes strict condition)
          (checkAll_cons_takes (Expr.checkPart_takes strict increment)
            (checkAll_last_takes (check_takes strict body)))))
  | breakLoop keyword => by
      rw [outline, steps]
      exact check_plain_takes rfl (checkAll_nil_takes strict)
  | continueLoop keyword => by
      rw [outline, steps]
      exact check_plain_takes rfl (checkAll_nil_takes strict)
  | returnValue keyword value => by
      rw [outline, steps]
      exact check_plain_takes rfl (checkAll_last_takes (Expr.checkPart_takes strict value))
  | function ⟨name, parameters, body⟩ => by
      rw [outline, outlineFunction, steps, stepsInside, check]
      have inside := (declareParameters_takes strict parameters []).andThen
        (checkAll_takes strict body).last
      exact .cons (x := .declare name) (.cons (x := .bind (functionSymbol name)) inside)
  | classDecl name superclass methods => by
      rw [outline, steps, check]
      have inside := (checkMethods_takes strict methods).last
      have bound : Pass.Takes strict _ _ :=
        .cons (x := .declare name) (.cons (x := .bind (classSymbol name)) inside)
      cases superclass with
      | none => exact (check_absent_takes strict).andThen bound
      | some t => exact ((Expr.var t).check_takes strict).andThen bound
  | program statements => by
      rw [outline, steps]
      exact check_plain_takes rfl (checkAll_takes strict statements)

/-- To check some statements is to take their steps. -/
theorem checkAll_takes (strict : Bool) :
    ∀ ss : List Stmt, (checkAll strict (outlines ss)).Takes strict (stepsAll ss)
  | [] => by
      rw [outlines, stepsAll]
      exact checkAll_nil_takes strict
  | s :: ss => by
      rw [outlines, stepsAll]
      exact checkAll_cons_takes (check_takes strict s) (checkAll_takes strict ss)

/-- To check an optional statement is to take its steps. -/
theorem checkPart_takes (strict : Bool) :
    ∀ s : Option Stmt, (check strict (outlinePart s)).Takes strict (stepsPart s)
  | none => by
      rw [outlinePart, stepsPart]
      exact check_absent_takes strict
  | some s => by
      rw [outlinePart, stepsPart]
      exact check_takes strict s

/-- To check some methods is to take the steps inside them. -/
theorem checkMethods_takes (strict : Bool) :
    ∀ fs : List (FunctionDecl Stmt),
      (checkMethods strict (outlineFunctions fs)).Takes strict (stepsInsideAll fs)
  | [] => by
      rw [outlineFunctions, stepsInsideAll, checkMethods]
      exact .skip
  | ⟨name, parameters, body⟩ :: fs => by
      rw [outlineFunctions, outlineFunction, stepsInsideAll, stepsInside, checkMethods, checkMethod]
      have inside := (declareParameters_takes strict parameters []).andThen
        (checkAll_takes strict body).last
      exact inside.andThen (checkMethods_takes strict fs).last

end

end Stmt

namespace Analysis

/-- The analysis of a program takes the steps of the program, one after the other. -/
theorem analyze_eq_perform (strict : Bool) (p : Program) :
    analyze strict p = perform strict p.steps {} :=
  Stmt.checkAll_takes strict p.statements {} rfl

end Analysis

end ScriptFront
