import ScriptFront.Proofs.Analysis.Bindings

/-! # Meaning — the analysis finds the first step that does not hold

    As long as the steps of a program hold, the state tells exactly what they have bound and left
    unresolved (`perform_of_allHold`); the first step that does not hold is the problem, and the
    state is that of the steps before it (`perform_of_failure`).  So the recursion over the tree
    decides a condition on its row of steps (`analysis_finds_first_failure`). -/

namespace ScriptFront.Analysis

/-! ## States -/

/-- The variable that a step leaves without a type. -/
def Step.unresolved? : Step → Option Unresolved
  | .annotate owner typeName =>
    if typeName.lexeme ∈ builtinTypes then none else some ⟨owner, typeName⟩
  | _ => none

/-- What there is to tell about a step. -/
def Step.event? : Step → Option Event
  | .annotate _ typeName =>
    if typeName.lexeme ∈ builtinTypes then none else some (.leftUnresolved typeName.lexeme)
  | .bind symbol => some (.defined symbol)
  | _ => none

/-- The state that some steps leave: each symbol in the place of its first binding, and the
    variables whose types are unknown. -/
def stateAfter (done : List Step) : State where
  table := { symbols := (bindings done).eraseDups }
  unresolved := done.filterMap Step.unresolved?
  events := done.filterMap Step.event?

/-- The problem of a step that does not hold; it stands where the name does. -/
def Step.problem? : Step → Option Problem
  | .use name => some (.ofCause (.notDefined name.lexeme) name.position)
  | .declare name => some (.ofCause (.alreadyDeclared name.lexeme) name.position)
  | .parameter _ name => some (.ofCause (.alreadyDeclared name.lexeme) name.position)
  | .annotate _ typeName => some (.ofCause (.unknownType typeName.lexeme) typeName.position)
  | .bind _ => none

/-- A look leaves no trace. -/
theorem stateAfter_concat_of_silent (step : Step) (symbol : step.symbol? = none)
    (unresolved : step.unresolved? = none) (event : step.event? = none) (done : List Step) :
    stateAfter (done ++ [step]) = stateAfter done := by
  simp [stateAfter, bindings, List.filterMap_append, symbol, unresolved, event]

theorem stateAfter_concat_bind {done : List Step} {s : Symbol}
    (h : Coherent (bindings (done ++ [.bind s]))) :
    stateAfter (done ++ [.bind s]) = (define s (stateAfter done)).1 := by
  have table : (bindings (done ++ [.bind s])).eraseDups
      = SymbolTable.put s (bindings done).eraseDups := by
    rw [bindings_append] at h ⊢
    exact (put_eraseDups h).symm
  rw [stateAfter, table, List.filterMap_append, List.filterMap_append]
  simp [stateAfter, define, SymbolTable.define, Step.unresolved?, Step.event?]

theorem stateAfter_concat_annotate {owner t : Token} (h : t.lexeme ∉ builtinTypes)
    (done : List Step) :
    stateAfter (done ++ [.annotate owner t])
      = ((Step.annotate owner t).pass false (stateAfter done)).1 := by
  rw [pass_annotate_of_lenient h]
  simp [stateAfter, List.filterMap_append, Step.unresolved?, Step.event?, h]

/-! ## One step -/

theorem contains_stateAfter {done : List Step} {name : String} :
    (stateAfter done).table.contains name = true ↔ ∃ s ∈ bindings done, s.name = name := by
  rw [contains_iff]
  simp only [stateAfter, List.mem_eraseDups]

theorem isTaken_stateAfter {done : List Step} (h : Coherent (bindings done)) {name : String} :
    isTaken (stateAfter done).table name = true
      ↔ ∃ s ∈ bindings done, s.name = name ∧ s.kind ≠ .parameter := by
  rw [isTaken_iff]
  · simp only [stateAfter, List.mem_eraseDups]
  · intro a ha b hb same
    exact h.eq_of_name (List.mem_eraseDups.mp ha) (List.mem_eraseDups.mp hb) same

/-- What a step does behind the steps `done`: if it holds, it is taken and the state tells of it
    too; if not, the state is kept and the problem is that of the step. -/
structure Step.Runs (strict : Bool) (done : List Step) (step : Step) : Prop where
  taken : step.Holds strict done →
    step.pass strict (stateAfter done) = (stateAfter (done ++ [step]), none)
  stopped : ¬ step.Holds strict done →
    ∃ p, step.problem? = some p ∧ step.pass strict (stateAfter done) = (stateAfter done, some p)

/-- A look that stops on a condition, which is that it does not hold. -/
theorem runs_of_look {strict : Bool} {done : List Step} (step : Step) (condition : State → Bool)
    {p : Problem} (pass : step.pass strict = .stopIf condition p)
    (problem : step.problem? = some p) (silent : stateAfter (done ++ [step]) = stateAfter done)
    (stops : condition (stateAfter done) = true ↔ ¬ step.Holds strict done) :
    step.Runs strict done where
  taken holds := by
    have goesOn : ¬ condition (stateAfter done) = true := fun stop => stops.mp stop holds
    rw [pass, silent, Pass.stopIf, if_neg goesOn]
  stopped fails := by
    refine ⟨p, problem, ?_⟩
    rw [pass, Pass.stopIf, if_pos (stops.mpr fails)]

theorem runs_annotate {strict : Bool} {done : List Step} (owner t : Token) :
    (Step.annotate owner t).Runs strict done := by
  by_cases known : t.lexeme ∈ builtinTypes
  · have silent := stateAfter_concat_of_silent (.annotate owner t) rfl (if_pos known)
      (if_pos known) done
    refine ⟨fun _ => ?_, fun fails => absurd (fun _ => known) fails⟩
    rw [silent]
    exact pass_annotate_of_builtin known strict owner _
  · cases strict with
    | true =>
        refine ⟨fun holds => absurd (holds rfl) known, fun _ => ⟨_, rfl, ?_⟩⟩
        exact pass_annotate_of_strict known owner _
    | false =>
        refine ⟨fun _ => ?_, fun fails => absurd nofun fails⟩
        rw [stateAfter_concat_annotate known, pass_annotate_of_lenient known]

/-- What a step does behind steps that hold. -/
theorem runs_of_allHold {strict : Bool} {done : List Step} {step : Step}
    (g : Guarded (done ++ [step])) (h : AllHold strict done) : step.Runs strict done := by
  cases step with
  | use name =>
      refine runs_of_look (.use name) (fun s => !s.table.contains name.lexeme) rfl rfl
        (stateAfter_concat_of_silent _ rfl rfl rfl done) ?_
      rw [Step.Holds, ← contains_stateAfter, Bool.not_eq_true', Bool.not_eq_true]
  | declare name =>
      refine runs_of_look (.declare name) (fun s => s.table.contains name.lexeme) rfl rfl
        (stateAfter_concat_of_silent _ rfl rfl rfl done) ?_
      rw [Step.Holds, contains_stateAfter]
      push Not
      rfl
  | parameter earlier name =>
      refine runs_of_look (.parameter earlier name)
        (fun s => (earlier.map Token.lexeme).contains name.lexeme
          || isTaken s.table name.lexeme) rfl rfl
        (stateAfter_concat_of_silent _ rfl rfl rfl done) ?_
      have coherent := coherent_of_allHold g.of_append h
      rw [Step.Holds, Bool.or_eq_true, List.contains_iff_mem, isTaken_stateAfter coherent,
        List.mem_map, or_iff_not_imp_left]
      push Not
      rfl
  | annotate owner t => exact runs_annotate owner t
  | bind s =>
      -- a binding always holds, and then the names are still one each
      have held : AllHold strict (done ++ [.bind s]) := allHold_concat.mpr ⟨h, trivial⟩
      refine ⟨fun _ => ?_, fun fails => absurd trivial fails⟩
      rw [stateAfter_concat_bind (coherent_of_allHold g held)]
      rfl

/-! ## All steps -/

/-- Steps that hold are all taken. -/
theorem perform_of_allHold {strict : Bool} {steps : List Step} (g : Guarded steps)
    (h : AllHold strict steps) : perform strict steps {} = (stateAfter steps, none) := by
  induction steps using List.reverseRecOn with
  | nil => rfl
  | append_singleton steps step ih =>
      obtain ⟨before, holds⟩ := allHold_concat.mp h
      rw [perform_append, Pass.andThen_of_none (ih g.of_append before), perform_singleton]
      exact (runs_of_allHold g before).taken holds

/-- The first step that does not hold ends the analysis. -/
theorem perform_of_failure {strict : Bool} {done rest : List Step} {step : Step}
    (g : Guarded (done ++ step :: rest)) (h : AllHold strict done)
    (fails : ¬ step.Holds strict done) :
    ∃ p, step.problem? = some p
      ∧ perform strict (done ++ step :: rest) {} = (stateAfter done, some p) := by
  rw [List.append_cons] at g
  obtain ⟨p, problem, stopped⟩ := (runs_of_allHold g.of_append h).stopped fails
  refine ⟨p, problem, ?_⟩
  rw [perform_append, Pass.andThen_of_none (perform_of_allHold g.of_append.of_append h), perform]
  exact Pass.andThen_of_some stopped

/-- Guarded steps are taken as far as they hold. -/
theorem exists_held (strict : Bool) {steps : List Step} (g : Guarded steps) :
    ∃ done, done <+: steps ∧ AllHold strict done
      ∧ (perform strict steps {}).1 = stateAfter done := by
  by_cases h : AllHold strict steps
  · exact ⟨steps, List.prefix_refl steps, h, by rw [perform_of_allHold g h]⟩
  · obtain ⟨done, step, rest, rfl, held, fails⟩ := exists_first_failure h
    obtain ⟨p, -, ended⟩ := perform_of_failure g held fails
    exact ⟨done, List.prefix_append done _, held, by rw [ended]⟩

/-- Guarded steps are all taken exactly if they hold. -/
theorem perform_eq_none_iff {strict : Bool} {steps : List Step} (g : Guarded steps) :
    (perform strict steps {}).2 = none ↔ AllHold strict steps := by
  constructor
  · intro ended
    by_contra h
    obtain ⟨done, step, rest, rfl, held, fails⟩ := exists_first_failure h
    obtain ⟨p, -, failed⟩ := perform_of_failure g held fails
    rw [failed] at ended
    exact Option.some_ne_none p ended
  · intro h
    rw [perform_of_allHold g h]

/-- The analysis of a program has no problem exactly if all steps of the program hold, and then its
    state tells of all of them.  It has a problem exactly if some step is the first that does not
    hold; the problem is that of this step, and the state tells of the steps before it. -/
theorem analysis_finds_first_failure (strict : Bool) (p : Program) :
    ((analyze strict p).2 = none ↔ AllHold strict p.steps)
    ∧ (AllHold strict p.steps ↔ analyze strict p = (stateAfter p.steps, none))
    ∧ ∀ q, (analyze strict p).2 = some q
      ↔ ∃ done step rest, p.steps = done ++ step :: rest ∧ AllHold strict done
        ∧ ¬ step.Holds strict done ∧ step.problem? = some q
        ∧ (analyze strict p).1 = stateAfter done := by
  have g := p.guarded_steps
  have stopped : ∀ done step rest, p.steps = done ++ step :: rest → AllHold strict done →
      ¬ step.Holds strict done → ∃ q, step.problem? = some q
        ∧ perform strict p.steps {} = (stateAfter done, some q) := by
    intro done step rest split held fails
    rw [split] at g ⊢
    exact perform_of_failure g held fails
  rw [analyze_eq_perform]
  refine ⟨perform_eq_none_iff g, ⟨perform_of_allHold g, fun same => ?_⟩,
    fun q => ⟨fun found => ?_, ?_⟩⟩
  · exact (perform_eq_none_iff g).mp (congrArg Prod.snd same)
  · have h : ¬ AllHold strict p.steps := by
      rw [← perform_eq_none_iff g, found]
      exact Option.some_ne_none q
    obtain ⟨done, step, rest, split, held, fails⟩ := exists_first_failure h
    obtain ⟨problem, named, ended⟩ := stopped done step rest split held fails
    rw [ended] at found ⊢
    cases found
    exact ⟨done, step, rest, split, held, fails, named, rfl⟩
  · rintro ⟨done, step, rest, split, held, fails, named, -⟩
    obtain ⟨problem, named', ended⟩ := stopped done step rest split held fails
    rw [ended]
    exact named'.symm.trans named

end ScriptFront.Analysis
