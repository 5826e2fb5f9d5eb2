import ScriptFront.Proofs.Analysis.Annotations
import ScriptFront.Proofs.Compilation.Reports
import ScriptFront.Proofs.Text.Templates

/-! # Messages — what is quoted is what stands in the text

    A message is the template of its code with all holes filled at once, or the bare template.  The
    passes fill it with lexemes, which are parts of the text, so a message quotes the text character
    by character whatever the lexeme holds (`quotes_of_compile`, `quotes_of_unresolved`). -/

namespace ScriptFront

open Text.Template (Arguments Filling Names)

/-! ## Quoted text -/

/-- A token is taken from a text: it is one of those to which the text is scanned, and at its place
    the text goes on with its lexeme. -/
def Token.IsFrom (t : Token) (source : String) : Prop :=
  (∃ tokens, scan source = .ok tokens ∧ t ∈ tokens)
  ∧ ∃ rest, Position.origin.Reaches source.toList t.position (t.lexeme.toList ++ rest)

/-- A message quotes the token at a place of a text, between two fixed texts. -/
def QuotesToken (source : String) (place : Position) (lead trail message : String) : Prop :=
  ∃ t : Token, t.IsFrom source ∧ t.position = place ∧ message = lead ++ t.lexeme ++ trail

/-- A text is read to a program that somewhere declares a variable of a named type. -/
def Declares (source : String) (name typeName : Token) : Prop :=
  ∃ tokens program, scan source = .ok tokens ∧ parse tokens = .ok program
    ∧ Head.varDecl name (some typeName) ∈ program.heads

/-- What a message of a code says about a place of a text. -/
def Quotes (source : String) (place : Position) (message : String) : ErrorCode → Prop
  | .unexpectedCharacter =>
      ∃ c rest, Position.origin.Reaches source.toList place (c :: rest)
        ∧ message = "unexpected character '" ++ c.toString ++ "'"
  | .unterminatedString => message = "unterminated string"
  | .unexpectedToken =>
      QuotesToken source place "unexpected token '" "'" message
      ∨ place = Position.origin.after source.toList ∧ message = "unexpected end of input"
  | .invalidTarget => message = "invalid assignment target"
  | .alreadyDeclared => QuotesToken source place "variable '" "' is already declared" message
  | .notDefined => QuotesToken source place "variable '" "' is not defined" message
  | .unknownType => QuotesToken source place "unknown type '" "'" message
  | .untypedVariable =>
      ∃ name typeName : Token, Declares source name typeName
        ∧ name.IsFrom source ∧ typeName.IsFrom source ∧ typeName.position = place
        ∧ message = "unknown type '" ++ typeName.lexeme ++ "', variable '" ++ name.lexeme
          ++ "' is left untyped"

/-- A cause at a place is about that place of a text: it has a code, and its message quotes what the
    messages of this code do. -/
def Cause.QuotesAt (cause : Cause) (source : String) (place : Position) : Prop :=
  ∃ code, cause.code = some code ∧ Quotes source place cause.message code

/-- Every token of a scan but the last is taken from the text. -/
theorem isFrom_of_mem {source : String} {tokens : List Token} (ok : scan source = .ok tokens)
    {t : Token} (mem : t ∈ tokens) (kind : t.kind ≠ .eof) : t.IsFrom source :=
  ⟨⟨tokens, ok, mem⟩, (stands_of_mem ok mem kind).reaches⟩

/-! ## Problems -/

/-- The scanner quotes the character that begins nothing. -/
theorem quotes_of_scan {source : String} {p : Problem} (h : scan source = .error p) :
    ∃ cause place, p = .ofCause cause place ∧ cause.QuotesAt source place := by
  obtain ⟨c, cs, place, reaches, ⟨-, rfl⟩ | ⟨-, rfl⟩⟩ := (scan_reads source).problem h
  · exact ⟨_, place, rfl, .unexpectedCharacter, rfl, c, cs, reaches, rfl⟩
  · exact ⟨_, place, rfl, .unterminatedString, rfl, rfl⟩

/-- The parser quotes the token that it refuses. -/
theorem quotes_of_parse {source : String} {tokens : List Token} {p : Problem}
    (ok : scan source = .ok tokens) (h : parse tokens = .error p) :
    ∃ cause place, p = .ofCause cause place ∧ cause.QuotesAt source place := by
  cases complains_of_parse h with
  | @refused t mem kind expected =>
      have isFrom := isFrom_of_mem ok mem kind
      exact ⟨_, t.position, rfl, .unexpectedToken, rfl, Or.inl ⟨t, isFrom, rfl, rfl⟩⟩
  | ended expected =>
      have atEnd := endPosition_of_scan ok
      exact ⟨_, endPosition tokens, rfl, .unexpectedToken, rfl, Or.inr ⟨atEnd, rfl⟩⟩
  | @invalid t mem kind => exact ⟨_, t.position, rfl, .invalidTarget, rfl, rfl⟩

/-- The analysis quotes the name that it complains about. -/
theorem quotes_of_blames {source : String} {tokens : List Token} {p : Problem}
    (ok : scan source = .ok tokens)
    (h : Analysis.Blames (fun t => t.kind = .identifier ∧ t ∈ tokens) p) :
    ∃ cause place, p = .ofCause cause place ∧ cause.QuotesAt source place := by
  obtain ⟨t, ⟨kind, mem⟩, cause, rfl, sort⟩ := h
  have isFrom := isFrom_of_mem ok mem (by rw [kind]; decide)
  refine ⟨cause, t.position, rfl, ?_⟩
  rcases sort with rfl | rfl | rfl
  · exact ⟨.alreadyDeclared, rfl, t, isFrom, rfl, rfl⟩
  · exact ⟨.notDefined, rfl, t, isFrom, rfl, rfl⟩
  · exact ⟨.unknownType, rfl, t, isFrom, rfl, rfl⟩

/-- The problem that ends a compilation quotes what stands at its place. -/
theorem quotes_of_compile {options : Options} {source : String} {p : Problem}
    (h : compile options source = .error p) :
    ∃ cause place, p = .ofCause cause place ∧ cause.QuotesAt source place := by
  have ends := compile_ends options source
  rw [h] at ends
  cases ends with
  | notScanned failed _ => exact quotes_of_scan failed
  | notParsed scanned failed _ => exact quotes_of_parse scanned failed
  | notAnalyzed scanned parsed failed _ =>
      have blames := (Analysis.analyze_names options.strictTypes (names_of_parse parsed)).2
      exact quotes_of_blames scanned (blames p failed)

/-! ## Warnings -/

/-- What a head leaves without a type is what it declares. -/
theorem Head.eq_of_mem_untyped {h : Head} {u : Analysis.Unresolved} (mem : u ∈ h.untyped) :
    h = .varDecl u.name (some u.typeName) := by
  cases h with
  | varDecl name typeName =>
      cases typeName with
      | none => cases mem
      | some t =>
          have left : (Analysis.Step.annotate name t).unresolved? = some u :=
            Option.mem_toList.mp mem
          rw [Analysis.Step.unresolved?] at left
          split at left
          · cases left
          · cases left
            rfl
  | _ => cases mem

/-- A warning quotes the variable that is left without a type, and the type. -/
theorem quotes_of_unresolved {options : Options} {source : String} {c : Compilation}
    (h : compile options source = .ok c) {u : Analysis.Unresolved}
    (mem : u ∈ c.analysis.unresolved) (file : String) :
    Quotes source u.typeName.position (u.toDiagnostic file).message .untypedVariable := by
  obtain ⟨scanned, parsed, analyzed⟩ := reads_of_compile h
  have all := Analysis.unresolved_prefix options.strictTypes c.program
  rw [analyzed, c.program.map_snd_untyped] at all
  obtain ⟨head, inProgram, left⟩ := List.mem_flatMap.mp (all.subset mem)
  obtain rfl := Head.eq_of_mem_untyped left
  -- the root of a program names nothing, so the declaration is below it
  have below := (List.mem_cons.mp inProgram).resolve_left nofun
  have isFrom : ∀ t ∈ [u.name, u.typeName], t.IsFrom source := by
    intro t name
    obtain ⟨kind, isToken⟩ := names_of_parse parsed _ below t name
    exact isFrom_of_mem scanned isToken (by rw [kind]; decide)
  exact ⟨u.name, u.typeName, ⟨c.tokens, c.program, scanned, parsed, inProgram⟩,
    isFrom u.name (by simp), isFrom u.typeName (by simp), rfl, rfl⟩

/-! ## Every message -/

/-- A problem of a compilation is shown at its place. -/
theorem position_of_problem {options : Options} {source : String} {cause : Cause} {place : Position}
    (h : compile options source = .error (.ofCause cause place)) (file : String) :
    let p := Problem.ofCause cause place
    (p.toDiagnostic file p.markedLength).position = place := by
  intro p
  obtain ⟨cause', q, rest, same, reaches⟩ := exists_place_of_compile h
  have reports := reports_toDiagnostic cause' reaches file
  rw [← same] at reports
  have column := Option.some.inj reports.column
  rw [Diagnostic.position, reports.line, column]
  rfl

/-- What validation says quotes what stands where it points. -/
theorem quotes_of_validate {options : Options} {file source : String} {d : Diagnostic}
    (mem : d ∈ validate options file source) :
    ∃ code, d.code = some code ∧ Quotes source d.position d.message code := by
  rw [validate] at mem
  cases compiled : compile options source with
  | error p =>
      rw [compiled] at mem
      obtain rfl := List.mem_singleton.mp mem
      obtain ⟨cause, place, rfl, code, coded, quotes⟩ := quotes_of_compile compiled
      -- the message and the code are those of the cause, and so is the place
      rw [position_of_problem compiled file]
      exact ⟨code, coded, quotes⟩
  | ok c =>
      rw [compiled] at mem
      obtain ⟨u, left, rfl⟩ := List.mem_map.mp mem
      exact ⟨.untypedVariable, rfl, quotes_of_unresolved compiled left file⟩

/-- With an argument for every name in braces, the message of a code is its template filled from
    left to right, where the text of an argument is written down as it is; and this is the one way
    to fill it.  With an argument missing, the message is the bare template.  Arguments for other
    names do not matter.

    So the problem that ends a compilation, and every diagnostic that validation shows, quotes the
    character, the token or the names it is about exactly as they stand in the text. -/
theorem messages_are_verbatim :
    (∀ (code : ErrorCode) (args : Arguments),
      ((∀ name, Names code.template.raw.toList name → args.lookup name ≠ none) →
        ∀ text, Filling args code.template.raw.toList text ↔ text = (code.message args).toList)
      ∧ (∀ name, Names code.template.raw.toList name → args.lookup name = none →
        code.message args = code.template.raw)
      ∧ ∀ args' : Arguments,
        (∀ name, Names code.template.raw.toList name → args.lookup name = args'.lookup name) →
        code.message args = code.message args')
    ∧ ∀ (options : Options) (source : String),
      (∀ p, compile options source = .error p →
        ∃ cause place, p = .ofCause cause place ∧ cause.QuotesAt source place)
      ∧ ∀ file, ∀ d ∈ validate options file source,
        ∃ code, d.code = some code ∧ Quotes source d.position d.message code := by
  refine ⟨fun code args => ?_, fun options source => ⟨?_, ?_⟩⟩
  · have readable := code.readable_template
    refine ⟨fun given text => ?_, fun name shown missing => ?_, fun args' same => ?_⟩
    · have filled := Text.Template.filling_format readable given
      exact ⟨fun h => h.unique filled, fun h => h ▸ filled⟩
    · exact Text.Template.format_of_missing readable shown missing
    · exact Text.Template.format_congr fun name mem =>
        same name ((Text.Template.names_raw readable name).mpr mem)
  · exact fun p failed => quotes_of_compile failed
  · exact fun file d mem => quotes_of_validate mem

/-- The name of a type that looks like another hole is not filled again, an argument for no hole is
    left out, and a hole without an argument stays open.  A stray quote is quoted like any other
    character. -/
theorem holes_in_arguments_stay :
    let untyped := ErrorCode.untypedVariable
    let args : Arguments := [("variable", "x"), ("name", "\x7bvariable\x7d"), ("other", "y")]
    let stray := Problem.ofCause (.unexpectedCharacter "'") ⟨1, 1⟩
    let d := stray.toDiagnostic "f" 1
    Filling args untyped.template.raw.toList
      "unknown type '\x7bvariable\x7d', variable 'x' is left untyped".toList
    ∧ untyped.message args = untyped.message (args.take 2)
    ∧ untyped.message [("name", "T")]
      = "unknown type '\x7bname\x7d', variable '\x7bvariable\x7d' is left untyped"
    ∧ (∃ cause place, stray = .ofCause cause place ∧ cause.QuotesAt "'" place)
    ∧ ∃ code, d.code = some code ∧ Quotes "'" d.position d.message code := by
  intro untyped args stray d
  obtain ⟨templates, texts⟩ := messages_are_verbatim
  have holes : ∀ name,
      Names untyped.template.raw.toList name ↔ name = "name" ∨ name = "variable" := by
    intro name
    rw [Text.Template.names_raw untyped.readable_template]
    simp [untyped, ErrorCode.template]
  have given : ∀ name, Names untyped.template.raw.toList name → args.lookup name ≠ none := by
    intro name shown
    rcases (holes name).mp shown with rfl | rfl <;> decide
  have unread : scan "'" = .error stray := by decide +kernel
  have failed : compile .default "'" = .error stray := by rw [compile, unread]
  have said : d ∈ validate .default "f" "'" := by
    rw [validate, failed]
    exact List.mem_singleton.mpr rfl
  obtain ⟨problems, diagnostics⟩ := texts .default "'"
  refine ⟨((templates untyped args).1 given _).mpr (by decide), ?_, ?_, problems stray failed,
    diagnostics "f" d said⟩
  · refine (templates untyped args).2.2 _ fun name shown => ?_
    rcases (holes name).mp shown with rfl | rfl <;> decide
  · exact (templates untyped [("name", "T")]).2.1 _ ((holes _).mpr (Or.inr rfl)) (by decide)

end ScriptFront
