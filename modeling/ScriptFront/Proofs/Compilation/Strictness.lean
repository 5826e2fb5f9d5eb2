import ScriptFront.Proofs.Analysis.Namespace
import ScriptFront.Proofs.Compilation.Places

/-! # Strictness — one program with lenient and with strict types

    The two modes demand the same of every step but of an annotation whose type is unknown
    (`holds_strict_iff`).  So they stay in the same state until there is one, and there the strict
    mode ends (`perform_strict_of_unresolved`); without one they are the same
    (`perform_strict_of_resolved`).  What is a warning about a text is then an error at the same
    place (`modes_agree_up_to_first_unknown_type`). -/

namespace ScriptFront

namespace Analysis

/-! ## What the modes demand -/

theorem unresolved?_annotate {owner t : Token} :
    (Step.annotate owner t).unresolved? = none ↔ t.lexeme ∈ builtinTypes := by
  rw [Step.unresolved?]
  split
  · rename_i known
    exact iff_of_true rfl known
  · rename_i unknown
    exact iff_of_false (Option.some_ne_none _) unknown

/-- Strict types demand besides that a step leaves nothing unresolved. -/
theorem holds_strict_iff {step : Step} {before : List Step} :
    step.Holds true before ↔ step.Holds false before ∧ step.unresolved? = none := by
  cases step with
  | annotate owner t =>
      rw [unresolved?_annotate]
      exact ⟨fun h => ⟨nofun, h rfl⟩, fun h _ => h.2⟩
  | _ => exact (and_iff_left rfl).symm

theorem allHold_strict_iff {steps : List Step} :
    AllHold true steps ↔ AllHold false steps ∧ ∀ step ∈ steps, step.unresolved? = none := by
  constructor
  · intro h
    refine ⟨fun done step rest split => (holds_strict_iff.mp (h done step rest split)).1, ?_⟩
    intro step mem
    obtain ⟨done, rest, split⟩ := List.append_of_mem mem
    exact (holds_strict_iff.mp (h done step rest split)).2
  · rintro ⟨lenient, resolved⟩ done step rest split
    refine holds_strict_iff.mpr ⟨lenient done step rest split, resolved step ?_⟩
    rw [split]
    exact List.mem_append_right _ List.mem_cons_self

/-- The first variable left without a type, and the steps before it. -/
theorem exists_first_unresolved {steps : List Step} {u : Unresolved} {us : List Unresolved}
    (h : steps.filterMap Step.unresolved? = u :: us) :
    ∃ front back, steps = front ++ .annotate u.name u.typeName :: back
      ∧ (∀ step ∈ front, step.unresolved? = none) ∧ u.typeName.lexeme ∉ builtinTypes := by
  obtain ⟨front, step, back, rfl, resolved, found, -⟩ := List.filterMap_eq_cons_iff.mp h
  cases step with
  | annotate owner t =>
      have unknown : t.lexeme ∉ builtinTypes := by
        intro known
        rw [unresolved?_annotate.mpr known] at found
        cases found
      rw [Step.unresolved?, if_neg unknown] at found
      cases found
      exact ⟨front, back, rfl, resolved, unknown⟩
  | _ => cases found

/-! ## Two runs -/

/-- Where a lenient run leaves nothing unresolved, the strict run is the same, in its
    problem too. -/
theorem perform_strict_of_resolved {steps : List Step} (g : Guarded steps)
    (h : (perform false steps {}).1.unresolved = []) :
    perform true steps {} = perform false steps {} := by
  by_cases lenient : AllHold false steps
  · rw [perform_of_allHold g lenient] at h ⊢
    have strict := allHold_strict_iff.mpr ⟨lenient, List.filterMap_eq_nil_iff.mp h⟩
    exact perform_of_allHold g strict
  · obtain ⟨done, step, rest, rfl, held, fails⟩ := exists_first_failure lenient
    obtain ⟨p, problem, ended⟩ := perform_of_failure g held fails
    rw [ended] at h ⊢
    -- the strict run comes to the same step, which fails there too
    have strict := allHold_strict_iff.mpr ⟨held, List.filterMap_eq_nil_iff.mp h⟩
    have fails' : ¬ step.Holds true done := fun holds => fails (holds_strict_iff.mp holds).1
    obtain ⟨p', problem', ended'⟩ := perform_of_failure g strict fails'
    rw [ended', Option.some.inj (problem'.symm.trans problem)]

/-- Where a lenient run leaves something unresolved, the strict run ends at the first of it, in the
    state that both have there. -/
theorem perform_strict_of_unresolved {steps : List Step} (g : Guarded steps) {u : Unresolved}
    {us : List Unresolved} (h : (perform false steps {}).1.unresolved = u :: us) :
    (perform true steps {}).2
      = some (.ofCause (.unknownType u.typeName.lexeme) u.typeName.position)
    ∧ (perform true steps {}).1.table.symbols <+: (perform false steps {}).1.table.symbols := by
  obtain ⟨done, ⟨rest, rfl⟩, held, state⟩ := exists_held false g
  rw [state] at h ⊢
  obtain ⟨front, back, rfl, resolved, unknown⟩ := exists_first_unresolved h
  have strict := allHold_strict_iff.mpr ⟨held.of_append, resolved⟩
  have fails : ¬ (Step.annotate u.name u.typeName).Holds true front :=
    fun holds => unknown (holds rfl)
  rw [List.append_assoc, List.cons_append] at g ⊢
  obtain ⟨p, problem, ended⟩ := perform_of_failure g strict fails
  rw [ended]
  exact ⟨problem.symm, stateAfter_prefix⟩

theorem analyze_strict_of_resolved {p : Program} (h : (analyze false p).1.unresolved = []) :
    analyze true p = analyze false p := by
  rw [analyze_eq_perform] at h
  rw [analyze_eq_perform, analyze_eq_perform]
  exact perform_strict_of_resolved p.guarded_steps h

theorem analyze_strict_of_unresolved {p : Program} {u : Unresolved} {us : List Unresolved}
    (h : (analyze false p).1.unresolved = u :: us) :
    (analyze true p).2
      = some (.ofCause (.unknownType u.typeName.lexeme) u.typeName.position)
    ∧ (analyze true p).1.table.symbols <+: (analyze false p).1.table.symbols := by
  rw [analyze_eq_perform] at h
  rw [analyze_eq_perform, analyze_eq_perform]
  exact perform_strict_of_unresolved p.guarded_steps h

end Analysis

/-! ## Two compilations -/

open Analysis

/-- A text that is read compiles as its program is analysed. -/
theorem compile_of_analysis {options : Options} {source : String} {tokens : List Token}
    {program : Program} {s : State} (scanned : scan source = .ok tokens)
    (parsed : parse tokens = .ok program)
    (analyzed : analyze options.strictTypes program = (s, none)) :
    compile options source = .ok ⟨tokens, program, s⟩ := by
  simp only [compile, scanned, parsed, analyzed]

theorem compile_of_problem {options : Options} {source : String} {tokens : List Token}
    {program : Program} {p : Problem} (scanned : scan source = .ok tokens)
    (parsed : parse tokens = .ok program)
    (ended : (analyze options.strictTypes program).2 = some p) :
    compile options source = .error p := by
  rcases analyzed : analyze options.strictTypes program with ⟨s, ending⟩
  rw [analyzed] at ended
  cases ended
  simp only [compile, scanned, parsed, analyzed]

/-- A text that compiles is read, and the analysis has no problem. -/
theorem reads_of_compile {options : Options} {source : String} {c : Compilation}
    (h : compile options source = .ok c) :
    scan source = .ok c.tokens ∧ parse c.tokens = .ok c.program
    ∧ analyze options.strictTypes c.program = (c.analysis, none) := by
  rcases compile_cases options source with
    ⟨p, -, failed⟩
      | ⟨tokens, scanned, ⟨p, -, failed⟩ | ⟨program, parsed, ⟨p, -, failed⟩ | compiled⟩⟩
  · cases h.symm.trans failed
  · cases h.symm.trans failed
  · cases h.symm.trans failed
  · cases h.symm.trans compiled
    refine ⟨scanned, parsed, ?_⟩
    cases ended : (analyze options.strictTypes program).2 with
    | none => exact Prod.ext rfl ended
    | some p => exact nomatch compiled.symm.trans (compile_of_problem scanned parsed ended)

/-- Warnings, or nothing at all, are said about a text that compiles. -/
theorem compile_of_no_error {options : Options} {file source : String}
    (h : ∀ d ∈ (validate options file source).head?, d.severity = .warning) :
    ∃ c, compile options source = .ok c := by
  cases compiled : compile options source with
  | ok c => exact ⟨c, rfl⟩
  | error p =>
      rw [validate, compiled] at h
      have warning : Severity.error = .warning := h _ rfl
      cases warning

/-- An unknown type that is an error is shown where it would be left with a warning. -/
theorem location_of_unresolved {u : Unresolved} {source : String} {tokens : List Token}
    (ok : scan source = .ok tokens) (kind : u.typeName.kind = .identifier)
    (mem : u.typeName ∈ tokens) (file : String) :
    let p := Problem.ofCause (.unknownType u.typeName.lexeme) u.typeName.position
    (p.toDiagnostic file p.markedLength).location = (u.toDiagnostic file).location := by
  intro p
  obtain ⟨rest, reaches⟩ := (stands_of_mem ok mem (by rw [kind]; decide)).reaches
  obtain ⟨above, front, here, below, -, place, -⟩ := reaches.exists_lines
  -- a token has a column, so the problem is not moved to the first one
  have column : u.typeName.position.column ≠ 0 := by
    rw [place]
    show (front.length : Int) + 1 ≠ 0
    omega
  have shown : p.shownColumn = u.typeName.position.column := if_neg column
  rw [Problem.toDiagnostic, shown]
  rfl

/-- Where nothing is said with lenient types, nothing is said with strict types. -/
theorem validate_strict_of_clean {debug : Bool} {file source : String}
    (clean : validate ⟨false, debug⟩ file source = []) :
    validate ⟨true, debug⟩ file source = [] := by
  obtain ⟨c, compiled⟩ := compile_of_no_error (by rw [clean]; exact nofun)
  obtain ⟨scanned, parsed, analyzed⟩ := reads_of_compile compiled
  rw [validate, compiled] at clean
  have resolved : (analyze false c.program).1.unresolved = [] := by
    rw [analyzed]
    exact List.map_eq_nil_iff.mp clean
  have same := (analyze_strict_of_resolved resolved).trans analyzed
  rw [validate, compile_of_analysis scanned parsed same]
  exact clean

/-- Where there are warnings with lenient types, there is one error with strict types, at the place
    of the first warning. -/
theorem validate_strict_of_warning {debug : Bool} {file source : String} {w : Diagnostic}
    {ws : List Diagnostic} (found : validate ⟨false, debug⟩ file source = w :: ws)
    (warning : w.severity = .warning) :
    ∃ e, validate ⟨true, debug⟩ file source = [e] ∧ e.severity = .error
      ∧ e.code.map ErrorCode.text = some "E0203" ∧ e.location = w.location := by
  obtain ⟨c, compiled⟩ := compile_of_no_error (by rw [found]; rintro d ⟨⟩; exact warning)
  obtain ⟨scanned, parsed, analyzed⟩ := reads_of_compile compiled
  rw [validate, compiled] at found
  obtain ⟨u, us, unresolved, rfl, -⟩ := List.map_eq_cons_iff.mp found
  have first : (analyze false c.program).1.unresolved = u :: us := by
    rw [analyzed]
    exact unresolved
  obtain ⟨ended, -⟩ := analyze_strict_of_unresolved first
  -- the type is a name of the program, which has been read from the text
  obtain ⟨unknown, -⟩ := analyze_names false (names_of_parse parsed)
  obtain ⟨kind, mem⟩ := unknown u (by rw [first]; exact List.mem_cons_self)
  refine ⟨_, ?_, rfl, rfl, location_of_unresolved scanned kind mem file⟩
  rw [validate, compile_of_problem scanned parsed ended]

/-- The analyses with lenient and with strict types are the same, in their problem too, if the
    lenient one leaves no variable without a type.  Otherwise the strict one ends with the unknown
    type of the first such variable, and what it has in its table the lenient one has at the same
    places.

    So a text of which nothing is said with lenient types is one of which nothing is said with
    strict types.  If there are warnings, there is one error with strict types; it says that a type
    is unknown, and its place is that of the first warning. -/
theorem modes_agree_up_to_first_unknown_type :
    (∀ p : Program,
      ((analyze false p).1.unresolved = [] → analyze true p = analyze false p)
      ∧ ∀ u us, (analyze false p).1.unresolved = u :: us →
        (analyze true p).2
          = some (.ofCause (.unknownType u.typeName.lexeme) u.typeName.position)
        ∧ (analyze true p).1.table.symbols <+: (analyze false p).1.table.symbols)
    ∧ ∀ (debug : Bool) (file source : String),
      (validate ⟨false, debug⟩ file source = [] → validate ⟨true, debug⟩ file source = [])
      ∧ ∀ w ws, validate ⟨false, debug⟩ file source = w :: ws → w.severity = .warning →
        ∃ e, validate ⟨true, debug⟩ file source = [e] ∧ e.severity = .error
          ∧ e.code.map ErrorCode.text = some "E0203" ∧ e.location = w.location := by
  constructor
  · intro p
    exact ⟨analyze_strict_of_resolved, fun u us => analyze_strict_of_unresolved⟩
  · intro debug file source
    exact ⟨validate_strict_of_clean, fun w ws => validate_strict_of_warning⟩

/-- An unknown type that is left with a warning is an error with strict types. -/
theorem unknown_type_is_warning_or_error :
    let x : Token := ⟨.identifier, "x", .null, ⟨1, 5⟩⟩
    let t : Token := ⟨.identifier, "T", .null, ⟨1, 7⟩⟩
    let typed : Program := ⟨[.varDecl x (some t) none]⟩
    let untyped : Program := ⟨[.varDecl x none none]⟩
    let w := (Unresolved.mk x t).toDiagnostic "f"
    analyze true untyped = analyze false untyped
    ∧ (analyze true typed).2 = some (.ofCause (.unknownType "T") ⟨1, 7⟩)
    ∧ validate ⟨true, false⟩ "f" "" = []
    ∧ validate ⟨false, false⟩ "f" "var x:T;" = [w]
    ∧ ∃ e, validate ⟨true, false⟩ "f" "var x:T;" = [e] ∧ e.location = ⟨"f", 1, 7, 1⟩ := by
  intro x t typed untyped w
  have nothing : validate ⟨false, false⟩ "f" "" = [] := by
    have scanned : scan "" = .ok [.endAt .origin] := by decide +kernel
    have read : parse [.endAt .origin] = .ok ⟨[]⟩ :=
      parse_of_writtenAs (List.forall_mem_nil _) .nil
    rw [validate, compile_of_analysis scanned read rfl]
    rfl
  have warned : validate ⟨false, false⟩ "f" "var x:T;" = [w] := by
    let tokens : List Token :=
      [⟨.kwVar, "var", .null, ⟨1, 1⟩⟩, x, ⟨.colon, ":", .null, ⟨1, 6⟩⟩, t,
       ⟨.semicolon, ";", .null, ⟨1, 8⟩⟩, .endAt ⟨1, 9⟩]
    have scanned : scan "var x:T;" = .ok tokens := by decide +kernel
    have canonical : typed.Canonical :=
      List.forall_mem_singleton.mpr (.varDecl rfl (by rintro _ ⟨⟩; rfl) nofun)
    have written : typed.WrittenAs (tokens.filter Token.isSignificant) :=
      .cons rfl (.cons rfl (.cons rfl (.cons rfl (.cons rfl .nil))))
    have read := parse_of_writtenAs canonical written
    rw [validate, compile_of_analysis scanned read rfl]
    rfl
  obtain ⟨programs, texts⟩ := modes_agree_up_to_first_unknown_type
  obtain ⟨ended, -⟩ := (programs typed).2 ⟨x, t⟩ [] rfl
  obtain ⟨e, only, -, -, location⟩ := (texts false "f" "var x:T;").2 w [] warned rfl
  refine ⟨(programs untyped).1 rfl, ended, (texts false "f" "").1 nothing, warned, e, only, ?_⟩
  exact location.trans (by decide)

end ScriptFront
