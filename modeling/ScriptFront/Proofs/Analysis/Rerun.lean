import ScriptFront.Proofs.Analysis.Namespace

/-! # Rerun — an analysis that is run again stops at the first declaration

    The state outlives a run, wherever the run has ended.  A program begins with a use or with a
    declaration that looks at nothing but its own initializer before it binds its name
    (`begins_steps`).  So a run leaves no trace at all, or the first declaration is bound
    (`untouched_or_declared`): the next run does the same again, or it ends at that declaration
    before it changes anything (`later_runs_are_alike`). -/

namespace ScriptFront

open Analysis

namespace Analysis

/-! ## How steps begin -/

/-- Some steps begin with a use, or with a declaration: a look at the name, the uses of an
    initializer, the type if there is one, and the binding of the name. -/
inductive Begins : List Step → Prop
  | nothing : Begins []
  | use (name : Token) (rest : List Step) : Begins (.use name :: rest)
  | declaration {name : Token} {initial types rest : List Step} {symbol : Symbol}
      (uses : ∀ step ∈ initial, ∃ used, step = .use used)
      (typed : types = [] ∨ ∃ t, types = [.annotate name t]) (own : symbol.name = name.lexeme) :
      Begins (.declare name :: (initial ++ (types ++ .bind symbol :: rest)))

namespace Begins

theorem append {xs ys : List Step} (hx : Begins xs) (hy : Begins ys) : Begins (xs ++ ys) := by
  cases hx with
  | nothing => exact hy
  | use name rest => exact .use name (rest ++ ys)
  | declaration uses typed own =>
      rw [List.cons_append, List.append_assoc, List.append_assoc, List.cons_append]
      exact .declaration uses typed own

/-- A declaration that binds its name at once. -/
theorem direct {name : Token} {symbol : Symbol} (own : symbol.name = name.lexeme)
    (rest : List Step) : Begins (.declare name :: .bind symbol :: rest) := by
  have nothing : ∀ step ∈ ([] : List Step), ∃ used, step = .use used := List.forall_mem_nil _
  exact .declaration nothing (Or.inl rfl) own

theorem of_uses {steps : List Step} (uses : ∀ step ∈ steps, ∃ used, step = .use used) :
    Begins steps := by
  cases steps with
  | nil => exact .nothing
  | cons step rest =>
      obtain ⟨used, rfl⟩ := uses step List.mem_cons_self
      exact .use used rest

end Begins

end Analysis

namespace Expr

mutual

/-- An expression only uses names. -/
theorem uses_steps : ∀ e : Expr, ∀ step ∈ e.steps, ∃ used, step = .use used
  | assign name value => by
      rw [steps]
      exact List.forall_mem_cons.mpr ⟨⟨name, rfl⟩, uses_steps value⟩
  | binary left _ right => by
      rw [steps]
      exact List.forall_mem_append.mpr ⟨uses_steps left, uses_steps right⟩
  | call callee _ arguments => by
      rw [steps]
      exact List.forall_mem_append.mpr ⟨uses_steps callee, uses_stepsAll arguments⟩
  | get object _ => by
      rw [steps]
      exact uses_steps object
  | grouping inner => by
      rw [steps]
      exact uses_steps inner
  | literal _ => by
      rw [steps]
      exact List.forall_mem_nil _
  | logical left _ right => by
      rw [steps]
      exact List.forall_mem_append.mpr ⟨uses_steps left, uses_steps right⟩
  | set object _ value => by
      rw [steps]
      exact List.forall_mem_append.mpr ⟨uses_steps object, uses_steps value⟩
  | super _ _ => by
      rw [steps]
      exact List.forall_mem_nil _
  | this _ => by
      rw [steps]
      exact List.forall_mem_nil _
  | unary _ right => by
      rw [steps]
      exact uses_steps right
  | var name => by
      rw [steps]
      exact List.forall_mem_singleton.mpr ⟨name, rfl⟩

/-- Some expressions only use names. -/
theorem uses_stepsAll : ∀ es : List Expr, ∀ step ∈ stepsAll es, ∃ used, step = .use used
  | [] => by
      rw [stepsAll]
      exact List.forall_mem_nil _
  | e :: es => by
      rw [stepsAll]
      exact List.forall_mem_append.mpr ⟨uses_steps e, uses_stepsAll es⟩

end

theorem uses_stepsPart (e : Option Expr) : ∀ step ∈ stepsPart e, ∃ used, step = .use used := by
  cases e with
  | none => exact List.forall_mem_nil _
  | some e => exact e.uses_steps

theorem begins_steps (e : Expr) : Begins e.steps := .of_uses e.uses_steps

theorem begins_stepsPart (e : Option Expr) : Begins (stepsPart e) := .of_uses (uses_stepsPart e)

end Expr

namespace Stmt

mutual

/-- The steps of a statement begin with a use or with a declaration. -/
theorem begins_steps : ∀ s : Stmt, Begins s.steps
  | expression value => by
      rw [steps]
      exact value.begins_steps
  | print _ value => by
      rw [steps]
      exact value.begins_steps
  | varDecl name typeName initializer => by
      rw [steps]
      refine .declaration (Expr.uses_stepsPart initializer) ?_ rfl
      cases typeName with
      | none => exact Or.inl rfl
      | some t => exact Or.inr ⟨t, rfl⟩
  | block statements => by
      rw [steps]
      exact begins_stepsAll statements
  | conditional condition thenBranch elseBranch => by
      rw [steps]
      exact condition.begins_steps.append
        ((begins_steps thenBranch).append (begins_stepsPart elseBranch))
  | whileLoop condition body => by
      rw [steps]
      exact condition.begins_steps.append (begins_steps body)
  | forLoop initializer condition increment body => by
      rw [steps]
      exact (begins_stepsPart initializer).append
        ((Expr.begins_stepsPart condition).append
          ((Expr.begins_stepsPart increment).append (begins_steps body)))
  | breakLoop _ => by
      rw [steps]
      exact .nothing
  | continueLoop _ => by
      rw [steps]
      exact .nothing
  | returnValue _ value => by
      rw [steps]
      exact Expr.begins_stepsPart value
  | function decl => by
      rw [steps]
      exact .direct rfl _
  | classDecl name superclass methods => by
      rw [steps]
      cases superclass with
      | none => exact .direct rfl _
      | some t => exact .use t _
  | program statements => by
      rw [steps]
      exact begins_stepsAll statements

theorem begins_stepsAll : ∀ ss : List Stmt, Begins (stepsAll ss)
  | [] => by
      rw [stepsAll]
      exact .nothing
  | s :: ss => by
      rw [stepsAll]
      exact (begins_steps s).append (begins_stepsAll ss)

theorem begins_stepsPart : ∀ s : Option Stmt, Begins (stepsPart s)
  | none => by
      rw [stepsPart]
      exact .nothing
  | some s => by
      rw [stepsPart]
      exact begins_steps s

end

end Stmt

/-- The steps of a program begin with a use or with a declaration. -/
theorem Program.begins_steps (p : Program) : Begins p.steps := Stmt.begins_stepsAll p.statements

namespace Analysis

/-! ## The first run -/

/-- The name that is about to be bound, if a step is a look at such a name. -/
def Step.declared? : Step → Option Token
  | .declare name => some name
  | _ => none

end Analysis

/-- The names of the variables, functions and classes of a program, in the order in which the
    analysis comes to them. -/
def Program.declared (p : Program) : List Token := p.steps.filterMap Step.declared?

namespace Analysis

/-- What some steps have bound stays bound. -/
theorem contains_of_prefix {strict : Bool} {steps more : List Step} {name : String}
    (g : Guarded (steps ++ more))
    (h : (perform strict steps {}).1.table.contains name = true) :
    (perform strict (steps ++ more) {}).1.table.contains name = true := by
  obtain ⟨s, mem, same⟩ := contains_iff.mp h
  have kept : (perform strict steps {}).1.table.symbols
      <+: (perform strict (steps ++ more) {}).1.table.symbols := symbols_prefix g
  exact contains_iff.mpr ⟨s, kept.subset mem, same⟩

/-- Nothing can be used before something is bound. -/
theorem perform_use_fresh (strict : Bool) (name : Token) (rest : List Step) :
    (perform strict (.use name :: rest) {}).1 = {} := by
  rw [perform, Pass.andThen_of_some (p := .ofCause (.notDefined name.lexeme) name.position) rfl]

/-- The first declaration is bound if it comes to that. -/
theorem contains_of_bind {strict : Bool} {name : Token} {types rest : List Step} {symbol : Symbol}
    (g : Guarded (.declare name :: (types ++ .bind symbol :: rest)))
    (own : symbol.name = name.lexeme)
    (before : (perform strict (.declare name :: types) {}).2 = none) :
    (perform strict (.declare name :: (types ++ .bind symbol :: rest)) {}).1.table.contains
      name.lexeme = true := by
  have split : Step.declare name :: (types ++ .bind symbol :: rest)
      = ((Step.declare name :: types) ++ [.bind symbol]) ++ rest := by simp
  rw [split] at g ⊢
  refine contains_of_prefix g ?_
  have held := (perform_eq_none_iff g.of_append.of_append).mp before
  have all : AllHold strict (.declare name :: types ++ [.bind symbol]) :=
    allHold_concat.mpr ⟨held, trivial⟩
  rw [perform_of_allHold g.of_append all]
  refine contains_stateAfter.mpr ⟨symbol, ?_, own⟩
  rw [bindings_append]
  exact List.mem_append_right _ List.mem_cons_self

/-- A run leaves no trace, or it binds the first declaration, with which the steps begin. -/
theorem untouched_or_declared (strict : Bool) {steps : List Step} (g : Guarded steps)
    (begins : Begins steps) :
    (perform strict steps {}).1 = {}
    ∨ ∃ name rest, steps = .declare name :: rest
      ∧ (perform strict steps {}).1.table.contains name.lexeme = true := by
  cases begins with
  | nothing => exact Or.inl rfl
  | use name rest => exact Or.inl (perform_use_fresh strict name rest)
  | @declaration name initial types rest symbol uses typed own =>
      -- nothing is bound yet, so the look at the name finds nothing
      have look : (Step.declare name).pass strict {} = ({}, none) := rfl
      cases initial with
      | cons step initial =>
          obtain ⟨used, rfl⟩ := uses step List.mem_cons_self
          refine Or.inl ?_
          rw [perform, Pass.andThen_of_none look]
          exact perform_use_fresh strict used _
      | nil =>
          rw [List.nil_append] at g ⊢
          rcases typed with rfl | ⟨t, rfl⟩
          · exact Or.inr ⟨name, _, rfl, contains_of_bind g own rfl⟩
          · by_cases known : t.lexeme ∈ builtinTypes
            · refine Or.inr ⟨name, _, rfl, contains_of_bind g own ?_⟩
              rw [perform, Pass.andThen_of_none look, perform_singleton,
                pass_annotate_of_builtin known]
            · cases strict with
              | true =>
                  refine Or.inl ?_
                  rw [perform, Pass.andThen_of_none look, List.singleton_append, perform,
                    Pass.andThen_of_some (pass_annotate_of_strict known name {})]
              | false =>
                  refine Or.inr ⟨name, _, rfl, contains_of_bind g own ?_⟩
                  rw [perform, Pass.andThen_of_none look, perform_singleton,
                    pass_annotate_of_lenient known]

/-! ## Later runs -/

/-- Runs that change nothing are alike. -/
theorem executeTimes_of_fixed {strict : Bool} {statements : List Outline} {s : State}
    {ending : Option Problem} (fixed : execute strict statements s = (s, ending)) (n : Nat) :
    executeTimes strict statements n s = List.replicate n (s, ending) := by
  induction n with
  | zero => rfl
  | succ n ih => rw [executeTimes, fixed, ih, List.replicate_succ]

/-- An analysis that has begun to bind names stops at the first declaration when it is run again. -/
theorem execute_again {strict : Bool} {p : Program} {name : Token} {rest : List Step} {s : State}
    (first : p.steps = .declare name :: rest) (builtins : s.table.builtins = .ofNames builtinTypes)
    (bound : s.table.contains name.lexeme = true) :
    execute strict p.outlines s
      = (s, some (.ofCause (.alreadyDeclared name.lexeme) name.position)) := by
  have taken : execute strict p.outlines s = perform strict p.steps s :=
    Stmt.checkAll_takes strict p.statements s builtins
  have stopped : (Step.declare name).pass strict s
      = (s, some (.ofCause (.alreadyDeclared name.lexeme) name.position)) := by
    show (s, if s.table.contains name.lexeme = true then _ else none) = _
    rw [if_pos bound]
  rw [taken, first, perform, Pass.andThen_of_some stopped]

/-- All runs of an analysis after the first one are alike and leave the state as the first one left
    it, wherever that one ended.  If the table is empty, they end as the first run did; otherwise
    they end at the first declaration of the program, which is declared already. -/
theorem later_runs_are_alike (strict : Bool) (p : Program) (n : Nat) :
    ∃ ending,
      executeTimes strict p.outlines (n + 1) {}
        = analyze strict p :: List.replicate n ((analyze strict p).1, ending)
      ∧ ((analyze strict p).1.table.symbols = [] ∧ ending = (analyze strict p).2
        ∨ (analyze strict p).1.table.symbols ≠ []
          ∧ ∃ name, p.declared.head? = some name
            ∧ ending = some (.ofCause (.alreadyDeclared name.lexeme) name.position)) := by
  have run := analyze_eq_perform strict p
  rcases untouched_or_declared strict p.guarded_steps p.begins_steps with
    untouched | ⟨name, rest, first, bound⟩
  · rw [← run] at untouched
    refine ⟨(analyze strict p).2, ?_, Or.inl ⟨by rw [untouched], rfl⟩⟩
    have fixed : execute strict p.outlines (analyze strict p).1
        = ((analyze strict p).1, (analyze strict p).2) := by
      rw [untouched]
      exact Prod.ext untouched rfl
    rw [executeTimes]
    exact congrArg _ (executeTimes_of_fixed fixed n)
  · have builtins : (analyze strict p).1.table.builtins = .ofNames builtinTypes := by
      rw [run]
      exact perform_builtins strict p.steps {}
    rw [← run] at bound
    obtain ⟨s, mem, -⟩ := contains_iff.mp bound
    refine ⟨_, congrArg _ (executeTimes_of_fixed (execute_again first builtins bound) n),
      Or.inr ⟨List.ne_nil_of_mem mem, name, ?_, rfl⟩⟩
    rw [Program.declared, first]
    rfl

end Analysis

end ScriptFront
