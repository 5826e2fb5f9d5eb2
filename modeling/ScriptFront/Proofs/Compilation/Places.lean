import ScriptFront.Compilation
import ScriptFront.Proofs.Program.Names
import ScriptFront.Proofs.Program.RoundTrip
import ScriptFront.Proofs.Token.Scanning

/-! # Places of diagnostics — what is said about a text points at it

    The passes keep the places of tokens, counted by the scanner; who reads a diagnostic looks for
    its place in the lines of the text.  There stands what the diagnostic is about, whichever pass
    it comes from (`diagnostics_point_at_their_text`). -/

namespace ScriptFront

open Text (Lines.split)

/-! ## One pass after the other -/

/-- A compilation ends with the problem of one pass, or with what all of them make. -/
theorem compile_cases (options : Options) (source : String) :
    (∃ p, scan source = .error p ∧ compile options source = .error p)
    ∨ ∃ tokens, scan source = .ok tokens
      ∧ ((∃ p, parse tokens = .error p ∧ compile options source = .error p)
        ∨ ∃ program, parse tokens = .ok program
          ∧ ((∃ p, (Analysis.analyze options.strictTypes program).2 = some p
              ∧ compile options source = .error p)
            ∨ compile options source
              = .ok ⟨tokens, program, (Analysis.analyze options.strictTypes program).1⟩)) := by
  unfold compile
  cases scan source with
  | error p => exact Or.inl ⟨p, rfl, rfl⟩
  | ok tokens =>
      refine Or.inr ⟨tokens, rfl, ?_⟩
      cases parsed : parse tokens with
      | error p =>
          refine Or.inl ⟨p, rfl, ?_⟩
          simp only [parsed]
      | ok program =>
          refine Or.inr ⟨program, rfl, ?_⟩
          simp only [parsed]
          rcases Analysis.analyze options.strictTypes program with ⟨s, none | p⟩
          · exact Or.inr rfl
          · exact Or.inl ⟨p, rfl, rfl⟩

/-! ## What is marked -/

/-- The characters that a diagnostic marks are a name. -/
def Diagnostic.MarksName (d : Diagnostic) (here : List Char) (name : String) : Prop :=
  d.location.length = name.length ∧ here.take d.location.length.toNat = name.toList

/-- What stands where a diagnostic of a code points: `here` is what its line holds from its column
    on, and `below` are the lines under it. -/
def Diagnostic.Marks (d : Diagnostic) (source : String) (here : List Char)
    (below : List (List Char)) : ErrorCode → Prop
  | .unexpectedCharacter =>
      ∃ c, here.head? = some c ∧ d.message = "unexpected character '" ++ c.toString ++ "'"
  | .unterminatedString => ∃ rest, here = '"' :: rest ∧ ∀ l ∈ rest :: below, '"' ∉ l
  | .unexpectedToken =>
      (∃ done t rest, scan source = .ok (done ++ t :: rest)
        ∧ Viable (significantKinds done) ∧ ¬ Viable (significantKinds (done ++ [t]))
        ∧ d.message = "unexpected token '" ++ t.lexeme ++ "'"
        ∧ t.lexeme.toList <+: Text.Lines.join (here :: below)
        ∧ ∀ first ∈ (Lines.split t.lexeme.toList).head?, first <+: here)
      ∨ d.message = "unexpected end of input" ∧ here = [] ∧ below = []
        ∧ ∃ tokens, scan source = .ok tokens ∧ Viable (significantKinds tokens)
          ∧ significantKinds tokens ∉ Grammar.sentences
  | .invalidTarget => here.head? = some '='
  | .alreadyDeclared =>
      ∃ name, d.message = "variable '" ++ name ++ "' is already declared" ∧ d.MarksName here name
  | .notDefined =>
      ∃ name, d.message = "variable '" ++ name ++ "' is not defined" ∧ d.MarksName here name
  | .unknownType => ∃ name, d.message = "unknown type '" ++ name ++ "'" ∧ d.MarksName here name
  | .untypedVariable =>
      ∃ name owner, d.message = "unknown type '" ++ name ++ "', variable '" ++ owner
        ++ "' is left untyped" ∧ d.MarksName here name

/-- A diagnostic points at the text it is about: its line is a line of the text, its column is in
    that line or just behind it, and what stands there is what it speaks of. -/
def Diagnostic.PointsInto (d : Diagnostic) (source : String) : Prop :=
  1 ≤ d.location.line ∧ d.location.line ≤ (Lines.split source.toList).length
  ∧ ∃ line, (Lines.split source.toList)[(d.location.line - 1).toNat]? = some line
    ∧ 1 ≤ d.location.column ∧ d.location.column ≤ line.length + 1
    ∧ ∃ code, d.code = some code
      ∧ d.Marks source (line.drop (d.location.column - 1).toNat)
        ((Lines.split source.toList).drop d.location.line.toNat) code

/-- The place is found by counting lines and characters: `above` are the lines above it, `front` and
    `here` what its line has before it and from it on. -/
theorem pointsInto_of_lines {d : Diagnostic} {source : String} {above below : List (List Char)}
    {front here : List Char} {code : ErrorCode}
    (lines : Lines.split source.toList = above ++ (front ++ here) :: below)
    (line : d.location.line = above.length + 1) (column : d.location.column = front.length + 1)
    (coded : d.code = some code) (marks : d.Marks source here below code) :
    d.PointsInto source := by
  have index : ((above.length : Int) + 1 - 1).toNat = above.length := by omega
  have offset : ((front.length : Int) + 1 - 1).toNat = front.length := by omega
  have next : ((above.length : Int) + 1).toNat = above.length + 1 := by omega
  rw [Diagnostic.PointsInto, lines, line, column, index, offset, next]
  refine ⟨by omega, ?_, front ++ here, ?_, by omega, ?_, code, coded, ?_⟩
  · rw [List.length_append, List.length_cons]
    omega
  · rw [List.getElem?_append_right (Nat.le_refl _), Nat.sub_self, List.getElem?_cons_zero]
  · rw [List.length_append]
    omega
  · have under : (above ++ (front ++ here) :: below).drop (above.length + 1) = below := by simp
    rwa [List.drop_left, under]

/-- A problem at a place of a text points at what stands there. -/
theorem pointsInto_of_reaches {source : String} {cause : Cause} {q : Position} {rest : List Char}
    (code : ErrorCode) (reaches : Position.origin.Reaches source.toList q rest)
    (coded : cause.code = some code) (file : String) (length : Nat)
    (marks : ∀ here below, Lines.split rest = here :: below →
      ((Problem.ofCause cause q).toDiagnostic file length).Marks source here below code) :
    ((Problem.ofCause cause q).toDiagnostic file length).PointsInto source := by
  obtain ⟨above, front, here, below, lines, rfl, begins⟩ := reaches.exists_lines
  refine pointsInto_of_lines lines rfl ?_ coded (marks here below begins)
  show (if (front.length : Int) + 1 = 0 then (1 : Int) else front.length + 1) = front.length + 1
  rw [if_neg (by omega)]

/-! ## Problems of the scanner -/

/-- A character that begins nothing is marked, and so is a quote without a second. -/
theorem pointsInto_of_scan {source file : String} {p : Problem} (h : scan source = .error p) :
    (p.toDiagnostic file p.markedLength).PointsInto source := by
  obtain ⟨c, cs, q, reaches, found⟩ := (scan_reads source).problem h
  have allowed := munch_allowed c cs
  rcases found with ⟨piece, rfl⟩ | ⟨piece, rfl⟩
  · rw [Munch.Allowed, piece] at allowed
    refine pointsInto_of_reaches .unexpectedCharacter reaches rfl file _ fun here below begins => ?_
    refine ⟨c, ?_, rfl⟩
    have noNewline : c ≠ '\n' := by
      rintro rfl
      exact absurd allowed.1 (by decide)
    obtain ⟨l, rfl, -⟩ := Text.Lines.first_cons noNewline begins
    rfl
  · rw [Munch.Allowed, piece] at allowed
    obtain ⟨rfl, closed⟩ := allowed
    refine pointsInto_of_reaches .unterminatedString reaches rfl file _ fun here below begins => ?_
    obtain ⟨l, rfl, lines⟩ := Text.Lines.first_cons (by decide) begins
    -- a quote on this line or on one below would be a quote of the text
    refine ⟨l, rfl, fun m mem quote => closed ?_⟩
    exact Text.Lines.mem_of_mem_split (lines ▸ mem) quote

/-! ## Problems of the parser -/

/-- The first significant token behind some others, in the text it is taken from. -/
theorem exists_split_of_significant {tokens done rest : List Token} {t : Token}
    (h : tokens.filter Token.isSignificant = done ++ t :: rest) :
    ∃ before after, tokens = before ++ t :: after ∧ before.filter Token.isSignificant = done
      ∧ (before ++ [t]).filter Token.isSignificant = done ++ [t] := by
  obtain ⟨before, others, rfl, front, back⟩ := List.filter_eq_append_iff.mp h
  obtain ⟨skipped, after, rfl, none, significant, -⟩ := List.filter_eq_cons_iff.mp back
  have nothing : skipped.filter Token.isSignificant = [] := List.filter_eq_nil_iff.mpr none
  refine ⟨before ++ skipped, after, (List.append_assoc _ _ _).symm, ?_, ?_⟩
  · rw [List.filter_append, front, nothing, List.append_nil]
  · rw [List.filter_append, List.filter_append, front, nothing, List.append_nil,
      List.filter_cons_of_pos significant, List.filter_nil]

/-- A token that is refused is marked: the text goes on with its lexeme, and the line with the first
    line of that. -/
theorem pointsInto_of_refused {source file : String} {done rest : List Token} {t : Token}
    {expected : List TokenKind} (ok : scan source = .ok (done ++ t :: rest)) (kind : t.kind ≠ .eof)
    (begun : Viable (significantKinds done))
    (hopeless : ¬ Viable (significantKinds (done ++ [t]))) :
    ((Problem.ofCause (.unexpectedToken t.lexeme expected) t.position).toDiagnostic file
      1).PointsInto source := by
  have mem : t ∈ done ++ t :: rest := List.mem_append_right _ List.mem_cons_self
  obtain ⟨more, reaches⟩ := (stands_of_mem ok mem kind).reaches
  refine pointsInto_of_reaches .unexpectedToken reaches rfl file 1 fun here below begins => ?_
  refine Or.inl ⟨done, t, rest, ok, begun, hopeless, rfl, ?_, ?_⟩
  · rw [← begins, Text.Lines.join_split]
    exact List.prefix_append _ _
  · intro first head
    obtain ⟨l, ls, lines⟩ := Text.Lines.exists_split t.lexeme.toList
    rw [lines] at head
    cases head
    exact Text.Lines.first_prefix lines begins

/-- The end token of a scan stands behind the text. -/
theorem endPosition_of_scan {source : String} {tokens : List Token}
    (ok : scan source = .ok tokens) :
    endPosition tokens = Position.origin.after source.toList := by
  obtain ⟨ts, rfl, -⟩ := (scan_reads source).tokens ok
  simp [endPosition, Token.endAt]

/-- An early end is marked behind the last line, for the end token stands there. -/
theorem pointsInto_of_early_end {source file : String} {tokens : List Token}
    {expected : List TokenKind} (ok : scan source = .ok tokens)
    (begun : Viable (significantKinds tokens)) (h : significantKinds tokens ∉ Grammar.sentences) :
    ((Problem.ofCause (.unexpectedEnd expected) (endPosition tokens)).toDiagnostic file
      1).PointsInto source := by
  rw [endPosition_of_scan ok]
  have reaches := Position.Reaches.last .origin source.toList
  refine pointsInto_of_reaches .unexpectedToken reaches rfl file 1 fun here below begins => ?_
  cases begins
  exact Or.inr ⟨rfl, rfl, rfl, _, ok, begun, h⟩

/-- An invalid target is marked at the sign of assignment. -/
theorem pointsInto_of_invalid_target {source file : String} {tokens : List Token} {t : Token}
    (ok : scan source = .ok tokens) (mem : t ∈ tokens) (kind : t.kind = .equal) :
    ((Problem.ofCause .invalidTarget t.position).toDiagnostic file 1).PointsInto source := by
  have stands := stands_of_mem ok mem (by rw [kind]; decide)
  obtain ⟨rest, reaches⟩ := stands.reaches
  have lexeme := stands.lexeme
  rw [kind] at lexeme
  rw [lexeme.eq_of_equal] at reaches
  refine pointsInto_of_reaches .invalidTarget reaches rfl file 1 fun here below begins => ?_
  obtain ⟨l, rfl, -⟩ := Text.Lines.first_cons (by decide) begins
  rfl

/-- What the parser complains about is marked. -/
theorem pointsInto_of_parse {source file : String} {tokens : List Token} {p : Problem}
    (ok : scan source = .ok tokens) (h : parse tokens = .error p) :
    (p.toDiagnostic file p.markedLength).PointsInto source := by
  by_cases sentence : significantKinds tokens ∈ Grammar.sentences
  · rcases parse_of_sentence sentence with ⟨program, parsed, -⟩ | ⟨t, mem, kind, invalid⟩
    · cases h.symm.trans parsed
    · cases h.symm.trans invalid
      exact pointsInto_of_invalid_target ok mem kind
  · rcases parse_of_not_sentence sentence with
      ⟨done, t, rest, expected, split, refused, begun, hopeless⟩ | ⟨expected, refused, begun⟩
    · cases h.symm.trans refused
      -- the parser sees the significant tokens only; the others stay where they are
      obtain ⟨before, after, rfl, same, upTo⟩ := exists_split_of_significant split
      have significant : t ∈ (before ++ t :: after).filter Token.isSignificant := by
        rw [split]
        exact List.mem_append_right _ List.mem_cons_self
      refine pointsInto_of_refused ok (kind_ne_eof_of_mem t significant) ?_ ?_
      · rwa [significantKinds, same]
      · rwa [significantKinds, upTo]
    · cases h.symm.trans refused
      exact pointsInto_of_early_end ok begun sentence

/-! ## Problems and warnings of the analysis -/

/-- The names of a program that is read are identifiers among the tokens. -/
theorem names_of_parse {tokens : List Token} {p : Program} (h : parse tokens = .ok p) :
    Outline.NamesAll (fun t => t.kind = .identifier ∧ t ∈ tokens) p.outlines := by
  obtain ⟨canonical, written⟩ := canonical_of_parse h
  refine canonical.names.imp fun t name => ⟨name.1, ?_⟩
  exact List.mem_of_mem_filter (List.mem_of_mem_filter (mem_of_token_mem written name.2))

/-- The characters at the place of an identifier are its lexeme. -/
theorem take_of_identifier {t : Token} {rest here : List Char} {below : List (List Char)}
    (lexeme : Lexeme t.kind t.lexeme.toList) (kind : t.kind = .identifier)
    (begins : Lines.split (t.lexeme.toList ++ rest) = here :: below) :
    here.take t.lexeme.length = t.lexeme.toList := by
  rw [kind] at lexeme
  have goesOn := Text.Lines.word_prefix lexeme.newline_not_mem begins
  rw [← String.length_toList]
  exact (List.prefix_iff_eq_take.mp goesOn).symm

/-- A name that the analysis complains about is marked. -/
theorem pointsInto_of_blames {source file : String} {tokens : List Token} {p : Problem}
    (ok : scan source = .ok tokens)
    (h : Analysis.Blames (fun t => t.kind = .identifier ∧ t ∈ tokens) p) :
    (p.toDiagnostic file p.markedLength).PointsInto source := by
  obtain ⟨t, ⟨kind, mem⟩, cause, rfl, sort⟩ := h
  have stands := stands_of_mem ok mem (by rw [kind]; decide)
  obtain ⟨rest, reaches⟩ := stands.reaches
  rcases sort with rfl | rfl | rfl
  · refine pointsInto_of_reaches .alreadyDeclared reaches rfl file _ fun here below begins => ?_
    exact ⟨t.lexeme, rfl, rfl, take_of_identifier stands.lexeme kind begins⟩
  · refine pointsInto_of_reaches .notDefined reaches rfl file _ fun here below begins => ?_
    exact ⟨t.lexeme, rfl, rfl, take_of_identifier stands.lexeme kind begins⟩
  · refine pointsInto_of_reaches .unknownType reaches rfl file _ fun here below begins => ?_
    exact ⟨t.lexeme, rfl, rfl, take_of_identifier stands.lexeme kind begins⟩

/-- A warning marks the type that is left unknown. -/
theorem pointsInto_of_unresolved {source file : String} {tokens : List Token}
    {u : Analysis.Unresolved} (ok : scan source = .ok tokens)
    (kind : u.typeName.kind = .identifier) (mem : u.typeName ∈ tokens) :
    (u.toDiagnostic file).PointsInto source := by
  have stands := stands_of_mem ok mem (by rw [kind]; decide)
  obtain ⟨rest, reaches⟩ := stands.reaches
  obtain ⟨above, front, here, below, lines, place, begins⟩ := reaches.exists_lines
  have coded : (u.toDiagnostic file).code = some .untypedVariable := rfl
  refine pointsInto_of_lines lines ?_ ?_ coded ?_
  · show u.typeName.position.line = _
    rw [place]
  · show u.typeName.position.column = _
    rw [place]
  · exact ⟨u.typeName.lexeme, u.name.lexeme, rfl, rfl,
      take_of_identifier stands.lexeme kind begins⟩

/-! ## Every diagnostic -/

/-- Every diagnostic has a place in the lines of its text, behind the end of a line at the latest,
    and there stands what it is about. -/
theorem diagnostics_point_at_their_text (options : Options) (file source : String) :
    ∀ d ∈ validate options file source, d.PointsInto source := by
  intro d h
  rw [validate] at h
  rcases compile_cases options source with
    ⟨p, unread, compiled⟩ | ⟨tokens, ok, ⟨p, refused, compiled⟩ | ⟨program, parsed, rest⟩⟩
  · rw [compiled] at h
    rw [List.mem_singleton.mp h]
    exact pointsInto_of_scan unread
  · rw [compiled] at h
    rw [List.mem_singleton.mp h]
    exact pointsInto_of_parse ok refused
  · -- what the analysis speaks of are names of the program, and these are tokens of the text
    obtain ⟨unknown, blames⟩ :=
      Analysis.analyze_names options.strictTypes (names_of_parse parsed)
    rcases rest with ⟨p, found, compiled⟩ | compiled
    · rw [compiled] at h
      rw [List.mem_singleton.mp h]
      exact pointsInto_of_blames ok (blames p found)
    · rw [compiled] at h
      obtain ⟨u, mem, rfl⟩ := List.mem_map.mp h
      obtain ⟨kind, isToken⟩ := unknown u mem
      exact pointsInto_of_unresolved ok kind isToken

/-- A stray character behind a tab is marked on its line. -/
theorem stray_character_is_marked :
    let source := String.ofList ['\n', '\t', '#']
    let d := (Problem.ofCause (.unexpectedCharacter "#") ⟨2, 2⟩).toDiagnostic "f" 1
    d ∈ validate .default "f" source ∧ d.PointsInto source := by
  intro source d
  have chars : source.toList = ['\n', '\t', '#'] := String.toList_ofList
  have unread : scan source = .error (.ofCause (.unexpectedCharacter "#") ⟨2, 2⟩) := by
    rw [scan, Scanner.scan, Scanner.ofSource, chars, Scanner.run_of_cons rfl]
    show (Scanner.run ⟨_, ['\t', '#'], ⟨2, 1⟩, ['\n'], ⟨1, 1⟩⟩).1 = _
    rw [Scanner.run_of_cons rfl]
    show (Scanner.run ⟨_, ['#'], ⟨2, 2⟩, ['\t'], ⟨2, 1⟩⟩).1 = _
    rw [Scanner.run_of_cons rfl]
    rfl
  have mem : d ∈ validate .default "f" source := by
    simp only [validate, compile, unread]
    exact List.mem_singleton.mpr rfl
  exact ⟨mem, diagnostics_point_at_their_text .default "f" source d mem⟩

end ScriptFront
