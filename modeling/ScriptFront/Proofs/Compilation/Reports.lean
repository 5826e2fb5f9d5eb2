import ScriptFront.Proofs.Analysis.Untyped
import ScriptFront.Proofs.Compilation.Endings
import ScriptFront.Proofs.Token.Offsets

/-! # Reports — validation says what compilation finds, and nothing else

    A problem of a compilation stands in its text (`exists_place_of_compile`), so the error that
    validation shows for it has its very line and column.  A text that compiles has one warning for
    each declaration of an untyped variable in its program, at any depth and in the order of the
    text (`forall₂_warnings`, `increasing_warnings`).  Whatever the options it compiles with, it
    compiles to the same program by default (`compile_default_of_compile`), and that is counted. -/

namespace ScriptFront

open Analysis

/-! ## Errors -/

/-- A diagnostic is the report of a problem of a file: it is an error with the message, the code,
    the help and the place of the problem.  A semantic problem is about a name, which is marked as a
    whole; any other problem has one character marked. -/
structure Diagnostic.Reports (d : Diagnostic) (file : String) (p : Problem) : Prop where
  severity : d.severity = .error
  message : d.message = p.cause.message
  code : d.code = p.cause.code
  help : d.help = p.cause.help
  file : d.location.file = file
  line : d.location.line = p.line
  column : some d.location.column = p.column
  marksName : .semantic ∈ p.cause.kind.lineage →
    ∃ name, p.cause.name? = some name ∧ d.location.length = name.length
  marksCharacter : .semantic ∉ p.cause.kind.lineage → d.location.length = 1
  unrelated : d.related = []

/-- A cause is about a name exactly if it is semantic. -/
theorem Cause.name?_eq_none_iff (cause : Cause) :
    cause.name? = none ↔ .semantic ∉ cause.kind.lineage := by
  cases cause with
  | named | alreadyDeclared | notDefined | unknownType =>
      exact iff_of_false nofun (not_not_intro (of_decide_eq_true rfl))
  | _ => exact iff_of_true rfl (of_decide_eq_true rfl)

theorem markedLength_of_named {cause : Cause} {name : String} (q : Position)
    (named : cause.name? = some name) : (Problem.ofCause cause q).markedLength = name.length := by
  simp only [Problem.markedLength, Problem.ofCause, named]

theorem markedLength_of_unnamed {cause : Cause} (q : Position) (unnamed : cause.name? = none) :
    (Problem.ofCause cause q).markedLength = 1 := by
  simp only [Problem.markedLength, Problem.ofCause, unnamed]

/-- A problem that stands in a text is reported by its diagnostic. -/
theorem reports_toDiagnostic {text rest : List Char} {q : Position} (cause : Cause)
    (reaches : Position.origin.Reaches text q rest) (file : String) :
    let p := Problem.ofCause cause q
    (p.toDiagnostic file p.markedLength).Reports file p := by
  intro p
  obtain ⟨above, front, here, below, -, place, -⟩ := reaches.exists_lines
  -- columns count from one, so none of them is taken for a missing one
  have column : p.shownColumn = q.column := by
    refine if_neg ?_
    rw [place]
    show (front.length : Int) + 1 ≠ 0
    omega
  refine ⟨rfl, rfl, rfl, rfl, rfl, rfl, congrArg some column, fun semantic => ?_, fun other => ?_,
    rfl⟩
  · obtain ⟨name, named⟩ := Option.ne_none_iff_exists'.mp
      fun none => cause.name?_eq_none_iff.mp none semantic
    refine ⟨name, named, ?_⟩
    exact congrArg Nat.cast (markedLength_of_named q named)
  · exact congrArg Nat.cast (markedLength_of_unnamed q (cause.name?_eq_none_iff.mpr other))

/-- A problem of a compilation is a cause at a place of the text. -/
theorem exists_place_of_compile {options : Options} {source : String} {p : Problem}
    (h : compile options source = .error p) :
    ∃ cause q rest, p = .ofCause cause q ∧ Position.origin.Reaches source.toList q rest := by
  have ends := compile_ends options source
  rw [h] at ends
  cases ends with
  | notScanned failed _ =>
      obtain ⟨c, cs, q, reaches, ⟨-, rfl⟩ | ⟨-, rfl⟩⟩ := (scan_reads source).problem failed
      · exact ⟨_, q, c :: cs, rfl, reaches⟩
      · exact ⟨_, q, c :: cs, rfl, reaches⟩
  | notParsed scanned failed _ =>
      cases complains_of_parse failed with
      | @refused t mem kind expected =>
          obtain ⟨rest, reaches⟩ := (stands_of_mem scanned mem kind).reaches
          exact ⟨_, t.position, _, rfl, reaches⟩
      | ended expected =>
          rw [endPosition_of_scan scanned]
          exact ⟨_, _, [], rfl, .last .origin source.toList⟩
      | @invalid t mem kind =>
          obtain ⟨rest, reaches⟩ := (stands_of_mem scanned mem (by rw [kind]; decide)).reaches
          exact ⟨_, t.position, _, rfl, reaches⟩
  | notAnalyzed scanned parsed failed _ =>
      obtain ⟨t, ⟨kind, mem⟩, cause, rfl, -⟩ :=
        (analyze_names options.strictTypes (names_of_parse parsed)).2 p failed
      obtain ⟨rest, reaches⟩ := (stands_of_mem scanned mem (by rw [kind]; decide)).reaches
      exact ⟨cause, t.position, _, rfl, reaches⟩

/-! ## Warnings -/

/-- Whether a statement gives a variable a type other than the two that there are. -/
def Stmt.isUntyped : Stmt → Bool
  | varDecl _ (some typeName) _ => typeName.lexeme ≠ "INTEGER" && typeName.lexeme ≠ "REAL"
  | _ => false

/-- A diagnostic warns that a statement leaves its variable without a type; it marks the name of the
    type. -/
def Diagnostic.WarnsOf (file : String) (d : Diagnostic) : Stmt → Prop
  | .varDecl name (some typeName) _ =>
      d.severity = .warning ∧ d.code.map ErrorCode.text = some "W0001"
      ∧ d.message = "unknown type '" ++ typeName.lexeme ++ "', variable '" ++ name.lexeme
        ++ "' is left untyped"
      ∧ d.location
        = ⟨file, typeName.position.line, typeName.position.column, typeName.lexeme.length⟩
      ∧ d.help = some "builtin types are: INTEGER, REAL" ∧ d.related = []
  | _ => False

/-- The place at which a diagnostic points. -/
def Diagnostic.position (d : Diagnostic) : Position := ⟨d.location.line, d.location.column⟩

theorem Stmt.isUntyped_varDecl (name typeName : Token) (initializer : Option Expr) :
    (varDecl name (some typeName) initializer).isUntyped = true
      ↔ typeName.lexeme ∉ builtinTypes := by
  simp [isUntyped, builtinTypes]

/-- A statement leaves its variable without a type exactly if it is untyped, and then it is warned
    of. -/
theorem Stmt.unresolved?_cases (file : String) (s : Stmt) :
    s.isUntyped = false ∧ s.unresolved? = none
    ∨ s.isUntyped = true
      ∧ ∃ u, s.unresolved? = some u ∧ (u.toDiagnostic file).WarnsOf file s := by
  cases s with
  | varDecl name typeName initializer =>
      cases typeName with
      | none => exact Or.inl ⟨rfl, rfl⟩
      | some t =>
          by_cases known : t.lexeme ∈ builtinTypes
          · refine Or.inl ⟨?_, if_pos known⟩
            rw [← Bool.not_eq_true, isUntyped_varDecl]
            exact not_not_intro known
          · refine Or.inr ⟨(isUntyped_varDecl name t initializer).mpr known, ⟨name, t⟩, ?_⟩
            exact ⟨if_neg known, rfl, rfl, rfl, rfl, rfl, rfl⟩
  | _ => exact Or.inl ⟨rfl, rfl⟩

/-- There is one warning for each untyped statement, in the same order. -/
theorem forall₂_warnings (file : String) (ss : List Stmt) :
    List.Forall₂ (Diagnostic.WarnsOf file)
      ((ss.filterMap Stmt.unresolved?).map fun u => u.toDiagnostic file)
      (ss.filter Stmt.isUntyped) := by
  induction ss with
  | nil => exact .nil
  | cons s ss ih =>
      rcases s.unresolved?_cases file with ⟨typed, none⟩ | ⟨untyped, u, some, warns⟩
      · rwa [List.filterMap_cons_none none, List.filter_cons_of_neg (Bool.not_eq_true _ ▸ typed)]
      · rw [List.filterMap_cons_some some, List.filter_cons_of_pos untyped, List.map_cons]
        exact .cons warns ih

/-- The unknown types are among the types that the statements give to variables. -/
theorem Stmt.unknownTypes_sublist (ss : List Stmt) :
    ((ss.filterMap Stmt.unresolved?).map Unresolved.typeName).Sublist (typeNames ss) := by
  induction ss with
  | nil => exact .slnil
  | cons s ss ih =>
      cases s with
      | varDecl name typeName initializer =>
          cases typeName with
          | none => exact ih
          | some t =>
              by_cases known : t.lexeme ∈ builtinTypes
              · have none : (varDecl name (some t) initializer).unresolved? = none := if_pos known
                rw [List.filterMap_cons_none none]
                exact ih.cons t
              · have left : (varDecl name (some t) initializer).unresolved? = some ⟨name, t⟩ :=
                  if_neg known
                rw [List.filterMap_cons_some left]
                exact ih.cons_cons t
      | _ => exact ih

/-- Warnings stand behind each other. -/
theorem increasing_warnings {source : String} {tokens : List Token} {program : Program}
    (scanned : scan source = .ok tokens) (parsed : parse tokens = .ok program) (file : String) :
    ((program.everyStatement.filterMap Stmt.unresolved?).map fun u => u.toDiagnostic file).Pairwise
      fun d e => d.position < e.position := by
  have sublist : ((program.everyStatement.filterMap Stmt.unresolved?).map
      Unresolved.typeName).Sublist tokens :=
    (Stmt.unknownTypes_sublist _).trans ((canonical_of_parse parsed).2.typeNames_sublist.trans
      (List.filter_sublist.trans List.filter_sublist))
  have increasing := List.pairwise_map.mp ((increasing_of_scan scanned).sublist sublist)
  exact List.pairwise_map.mpr increasing

/-- With strict types nothing is left without a type. -/
theorem Analysis.unresolved_of_strict {p : Program} {s : State} (h : analyze true p = (s, none)) :
    s.unresolved = [] := by
  rw [analyze_eq_perform] at h
  have held := (perform_eq_none_iff p.guarded_steps).mp (congrArg Prod.snd h)
  rw [perform_of_allHold p.guarded_steps held] at h
  cases h
  exact List.filterMap_eq_nil_iff.mpr (allHold_strict_iff.mp held).2

/-! ## Counts -/

/-- Whether a statement declares a function. -/
def Stmt.isFunction : Stmt → Bool
  | function _ => true
  | _ => false

/-- Whether a statement declares a class. -/
def Stmt.isClass : Stmt → Bool
  | classDecl .. => true
  | _ => false

/-- Whether a statement declares a variable. -/
def Stmt.isVariable : Stmt → Bool
  | varDecl .. => true
  | _ => false

theorem foldl_add (ss : List Stmt) :
    ∀ c : Counts, ss.foldl Counts.add c
      = ⟨c.functionCount + ss.countP Stmt.isFunction, c.classCount + ss.countP Stmt.isClass,
          c.variableCount + ss.countP Stmt.isVariable⟩ := by
  induction ss with
  | nil =>
      intro c
      rfl
  | cons s ss ih =>
      intro c
      rw [List.foldl_cons, ih, List.countP_cons, List.countP_cons, List.countP_cons]
      cases s <;> simp [Counts.add, Stmt.isFunction, Stmt.isClass, Stmt.isVariable] <;> omega

/-- The counts of a program are how many of its statements declare each kind of thing. -/
theorem Program.counts_eq (p : Program) :
    p.counts = ⟨p.statements.countP Stmt.isFunction, p.statements.countP Stmt.isClass,
      p.statements.countP Stmt.isVariable⟩ := by
  rw [counts, foldl_add, Nat.zero_add, Nat.zero_add, Nat.zero_add]

/-- An analysis without a problem has none with lenient types. -/
theorem Analysis.analyze_lenient {strict : Bool} {p : Program} {s : State}
    (h : analyze strict p = (s, none)) : ∃ s', analyze false p = (s', none) := by
  cases strict with
  | false => exact ⟨s, h⟩
  | true =>
      rw [analyze_eq_perform] at h ⊢
      have held := (perform_eq_none_iff p.guarded_steps).mp (congrArg Prod.snd h)
      exact ⟨_, perform_of_allHold p.guarded_steps (allHold_strict_iff.mp held).1⟩

/-- A text that compiles with some options compiles to the same program by default. -/
theorem compile_default_of_compile {options : Options} {source : String} {c : Compilation}
    (h : compile options source = .ok c) :
    ∃ c', compile .default source = .ok c' ∧ c'.program = c.program := by
  obtain ⟨scanned, parsed, analyzed⟩ := reads_of_compile h
  obtain ⟨s, lenient⟩ := analyze_lenient analyzed
  exact ⟨_, compile_of_analysis scanned parsed lenient, rfl⟩

/-! ## Validation -/

/-- Whatever the text, the file and the options: if the compilation ends with a problem, validation
    shows one error, which is the report of this problem.  If the text compiles, there is one
    warning for each untyped statement of its program at any depth, in the order of the text and
    each behind the one before; with strict types there is none.

    The counts are those of the statements at the top level of the program if the text compiles by
    default, and zero otherwise.  A text that compiles with other options compiles by default too,
    and to the same program. -/
theorem validation_reports_compilation (options : Options) (file source : String) :
    (∀ p, compile options source = .error p →
      ∃ d, validate options file source = [d] ∧ d.Reports file p)
    ∧ (∀ c, compile options source = .ok c →
      List.Forall₂ (Diagnostic.WarnsOf file) (validate options file source)
        (c.program.everyStatement.filter Stmt.isUntyped)
      ∧ ((validate options file source).Pairwise fun d e => d.position < e.position)
      ∧ (options.strictTypes = true → validate options file source = [])
      ∧ ∃ c', compile .default source = .ok c' ∧ c'.program = c.program)
    ∧ (∀ c, compile .default source = .ok c →
      sourceCounts source
        = ⟨c.program.statements.countP Stmt.isFunction, c.program.statements.countP Stmt.isClass,
            c.program.statements.countP Stmt.isVariable⟩)
    ∧ ∀ p, compile .default source = .error p → sourceCounts source = ⟨0, 0, 0⟩ := by
  refine ⟨fun p failed => ?_, fun c compiled => ?_, fun c compiled => ?_, fun p failed => ?_⟩
  · obtain ⟨cause, q, rest, rfl, reaches⟩ := exists_place_of_compile failed
    rw [validate, failed]
    exact ⟨_, rfl, reports_toDiagnostic cause reaches file⟩
  · obtain ⟨scanned, parsed, analyzed⟩ := reads_of_compile compiled
    have said : validate options file source
        = (c.program.everyStatement.filterMap Stmt.unresolved?).map
          fun u => u.toDiagnostic file := by
      rw [validate, compiled, ← unresolved_of_analyze analyzed]
    rw [said]
    refine ⟨forall₂_warnings file _, increasing_warnings scanned parsed file, fun strict => ?_,
      compile_default_of_compile compiled⟩
    rw [strict] at analyzed
    rw [← unresolved_of_analyze analyzed, unresolved_of_strict analyzed, List.map_nil]
  · rw [sourceCounts, compiled]
    exact c.program.counts_eq
  · rw [sourceCounts, failed]

/-- A variable inside a function is warned of, or its type is reported with strict types; only the
    function is counted. -/
theorem variable_inside_function_is_reported :
    let source := "def f()\x7bvar x:T;\x7d"
    let x : Token := ⟨.identifier, "x", .null, ⟨1, 13⟩⟩
    let t : Token := ⟨.identifier, "T", .null, ⟨1, 15⟩⟩
    let unknown := Problem.ofCause (.unknownType "T") ⟨1, 15⟩
    (∃ w, validate .default "f" source = [w] ∧ w.WarnsOf "f" (.varDecl x (some t) none))
    ∧ compile ⟨true, false⟩ source = .error unknown
    ∧ (∃ d, validate ⟨true, false⟩ "f" source = [d] ∧ d.Reports "f" unknown)
    ∧ sourceCounts source = ⟨1, 0, 0⟩
    ∧ sourceCounts "\"" = ⟨0, 0, 0⟩ := by
  intro source x t unknown
  let f : Token := ⟨.identifier, "f", .null, ⟨1, 5⟩⟩
  let tokens : List Token :=
    [⟨.kwDef, "def", .null, ⟨1, 1⟩⟩, f, ⟨.leftParen, "(", .null, ⟨1, 6⟩⟩,
     ⟨.rightParen, ")", .null, ⟨1, 7⟩⟩, ⟨.leftBrace, "\x7b", .null, ⟨1, 8⟩⟩,
     ⟨.kwVar, "var", .null, ⟨1, 9⟩⟩, x, ⟨.colon, ":", .null, ⟨1, 14⟩⟩, t,
     ⟨.semicolon, ";", .null, ⟨1, 16⟩⟩, ⟨.rightBrace, "\x7d", .null, ⟨1, 17⟩⟩, .endAt ⟨1, 18⟩]
  let program : Program := ⟨[.function ⟨f, [], [.varDecl x (some t) none]⟩]⟩
  have scanned : scan source = .ok tokens := by decide +kernel
  have canonical : program.Canonical := by
    refine List.forall_mem_singleton.mpr (.function ⟨rfl, List.forall_mem_nil _⟩ ?_)
    exact List.forall_mem_singleton.mpr (.varDecl rfl (by rintro _ ⟨⟩; rfl) nofun)
  have written : program.WrittenAs (tokens.filter Token.isSignificant) := by repeat' constructor
  have parsed : parse tokens = .ok program := parse_of_writtenAs canonical written
  have compiled : compile .default source = .ok ⟨tokens, program, _⟩ :=
    compile_of_analysis scanned parsed rfl
  have failed : compile ⟨true, false⟩ source = .error unknown :=
    compile_of_problem scanned parsed rfl
  have unread : compile .default "\"" = .error (.ofCause .unterminatedString ⟨1, 1⟩) := by
    have open' : scan "\"" = .error (.ofCause .unterminatedString ⟨1, 1⟩) := by decide +kernel
    rw [compile, open']
  obtain ⟨-, warned, counted, -⟩ := validation_reports_compilation .default "f" source
  obtain ⟨warnings, -⟩ := warned _ compiled
  obtain ⟨w, _, warns, none, said⟩ := List.forall₂_cons_right_iff.mp warnings
  refine ⟨⟨w, ?_, warns⟩, failed, ?_, counted _ compiled, ?_⟩
  · rw [said, List.forall₂_nil_right_iff.mp none]
  · exact (validation_reports_compilation ⟨true, false⟩ "f" source).1 _ failed
  · exact (validation_reports_compilation .default "f" "\"").2.2.2 _ unread

end ScriptFront
