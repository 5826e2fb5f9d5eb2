import ScriptFront.Proofs.Analysis.Placeless
import ScriptFront.Proofs.Compilation.Strictness
import ScriptFront.Proofs.Program.Placeless

/-! # Layout — blanks, line breaks and comments do not matter

    The value of a token is decided by its kind and its lexeme, so two texts with the same lexemes
    have the same tokens but for their places and for comments (`significant_of_wording`).  From
    there on nothing looks at places: the texts form the same program, the analysis finds the same,
    and if something is wrong it is wrong for the same cause (`layout_does_not_matter`). -/

namespace ScriptFront

/-- The kinds and lexemes of some tokens in order, without comments. -/
def wording (tokens : List Token) : List (TokenKind × String) :=
  (tokens.filter fun t => t.kind ≠ .comment).map fun t => (t.kind, t.lexeme)

/-! ## Tokens of texts -/

/-- A token of a text is decided by its kind and its lexeme, but for its place. -/
theorem placeless_of_scan {source : String} {tokens : List Token}
    (scanned : scan source = .ok tokens) {t : Token} (mem : t ∈ tokens) (kind : t.kind ≠ .eof) :
    t.placeless = .ofLexeme t.kind t.lexeme.toList .origin := by
  obtain ⟨c, cs, -, -, same⟩ := stands_of_mem scanned mem kind
  rw [same]
  simp [Token.ofLexeme, Token.placeless, Token.move, Position.nowhere]

/-- The tokens that the grammar looks at are decided by the kinds and lexemes of a text, but for
    their places. -/
theorem significant_of_wording {source : String} {tokens : List Token}
    (scanned : scan source = .ok tokens) :
    (tokens.filter Token.isSignificant).map Token.placeless
      = ((wording tokens).filter fun word => word.1 ≠ .eof).map
          fun word => .ofLexeme word.1 word.2.toList .origin := by
  rw [wording, List.filter_map, List.map_map, List.filter_filter]
  have significant : tokens.filter Token.isSignificant
      = tokens.filter fun t => decide (t.kind ≠ .eof) && decide (t.kind ≠ .comment) :=
    List.filter_congr fun t _ => Bool.and_comm _ _
  rw [significant]
  refine List.map_congr_left fun t ht => ?_
  obtain ⟨mem, kinds⟩ := List.mem_filter.mp ht
  rw [Bool.and_eq_true, decide_eq_true_eq] at kinds
  exact placeless_of_scan scanned mem kinds.1

/-! ## The same but for places -/

open Analysis

/-- Two analyses have found the same: the same table, the same names left without a type, and a
    problem with the same cause, or none. -/
structure Analysis.SameFindings (x y : State × Option Problem) : Prop where
  table : x.1.table = y.1.table
  unresolved : x.1.unresolved.map (Unresolved.move Position.nowhere)
    = y.1.unresolved.map (Unresolved.move Position.nowhere)
  cause : x.2.map Problem.cause = y.2.map Problem.cause

/-- Two programs are the same but for places; their texts are the same, and so is what the analysis
    finds in them. -/
structure Program.SameButPlaces (p q : Program) : Prop where
  tokens : p.placeless = q.placeless
  text : p.printed = q.printed
  counts : p.counts = q.counts
  findings (strict : Bool) : SameFindings (analyze strict p) (analyze strict q)

theorem Counts.add_move (m : Position → Position) (c : Counts) (s : Stmt) :
    c.add (s.move m) = c.add s := by
  cases s with
  | _ => rfl

theorem Program.counts_move (m : Position → Position) (p : Program) :
    (p.move m).counts = p.counts := by
  have each : ∀ (ss : List Stmt) (c : Counts),
      (Stmt.moveAll m ss).foldl Counts.add c = ss.foldl Counts.add c := by
    intro ss
    induction ss with
    | nil => exact fun c => rfl
    | cons s ss ih =>
        intro c
        rw [Stmt.moveAll, List.foldl_cons, List.foldl_cons, Counts.add_move, ih]
  exact each p.statements {}

/-- Two runs that are followed by the same run have found the same. -/
theorem Analysis.Follows.sameFindings {run x y : State × Option Problem}
    (hx : Follows Position.nowhere run x) (hy : Follows Position.nowhere run y) :
    SameFindings x y := by
  have states : x.1.move Position.nowhere = y.1.move Position.nowhere :=
    hx.state.symm.trans hy.state
  have tables := congrArg State.table states
  have unresolved := congrArg State.unresolved states
  exact ⟨tables, unresolved, hx.cause.symm.trans hy.cause⟩

/-- Programs with the same tokens are the same in all that is said about them. -/
theorem Program.sameButPlaces {p q : Program} (same : p.placeless = q.placeless) :
    p.SameButPlaces q where
  tokens := same
  text := by
    rw [← p.printed_move Position.nowhere, ← q.printed_move Position.nowhere]
    exact congrArg Program.printed same
  counts := by
    rw [← p.counts_move Position.nowhere, ← q.counts_move Position.nowhere]
    exact congrArg Program.counts same
  findings strict := by
    have first := analyze_move Position.nowhere strict p
    have second := analyze_move Position.nowhere strict q
    rw [show p.move Position.nowhere = q.move Position.nowhere from same] at first
    exact first.sameFindings second

/-! ## Texts with the same lexemes -/

section

variable {source other : String} {tokens others : List Token} (scanned : scan source = .ok tokens)
  (scanned' : scan other = .ok others) (same : wording tokens = wording others)

include scanned scanned' same

theorem parse_sameButPlaces : Alike Program.SameButPlaces (parse tokens) (parse others) := by
  have significant : (tokens.filter Token.isSignificant).map Token.placeless
      = (others.filter Token.isSignificant).map Token.placeless := by
    rw [significant_of_wording scanned, significant_of_wording scanned', same]
  exact (parse_alike rfl significant).imp fun p q => Program.sameButPlaces

theorem compile_sameButPlaces (options : Options) :
    Alike (fun c d => c.program.SameButPlaces d.program
        ∧ SameFindings (c.analysis, none) (d.analysis, none))
      (compile options source) (compile options other) := by
  rcases alike_iff.mp (parse_sameButPlaces scanned scanned' same) with
    ⟨p, q, parsed, parsed', alike⟩ | ⟨e, e', parsed, parsed', cause⟩
  · have findings := alike.findings options.strictTypes
    rcases analyzed : analyze options.strictTypes p with ⟨s, ending⟩
    rcases analyzed' : analyze options.strictTypes q with ⟨s', ending'⟩
    rw [analyzed, analyzed'] at findings
    cases ending with
    | none =>
        cases ending' with
        | none =>
            rw [compile_of_analysis scanned parsed analyzed,
              compile_of_analysis scanned' parsed' analyzed']
            exact ⟨alike, findings⟩
        | some e => cases findings.cause
    | some e =>
        cases ending' with
        | none => cases findings.cause
        | some e' =>
            simp only [compile, scanned, scanned', parsed, parsed', analyzed, analyzed']
            exact Option.some.inj findings.cause
  · simp only [compile, scanned, scanned', parsed, parsed']
    exact cause

theorem sourceCounts_eq_of_wording : sourceCounts source = sourceCounts other := by
  rw [sourceCounts, sourceCounts]
  rcases alike_iff.mp (compile_sameButPlaces scanned scanned' same .default) with
    ⟨c, d, compiled, compiled', alike, -⟩ | ⟨e, e', compiled, compiled', -⟩
  · rw [compiled, compiled']
    exact alike.counts
  · rw [compiled, compiled']

/-- Two texts with the same kinds and lexemes in order, comments apart, compile to the same but for
    places, or do not compile for the same cause.  If they are programs, the programs are the same
    but for places: they have the same text, and the analysis leaves the same table and the same
    names without a type, also where it ends with a problem.  The same things are counted
    in them. -/
theorem layout_does_not_matter :
    Alike Program.SameButPlaces (parse tokens) (parse others)
    ∧ (∀ options, Alike (fun c d => c.program.SameButPlaces d.program
        ∧ SameFindings (c.analysis, none) (d.analysis, none))
      (compile options source) (compile options other))
    ∧ sourceCounts source = sourceCounts other :=
  ⟨parse_sameButPlaces scanned scanned' same, compile_sameButPlaces scanned scanned' same,
    sourceCounts_eq_of_wording scanned scanned' same⟩

end

/-- A comment and a line break between the tokens of a declaration are not noticed. -/
theorem commented_declaration_is_the_same :
    let tokens : List Token :=
      [⟨.kwVar, "var", .null, ⟨1, 1⟩⟩, ⟨.identifier, "x", .null, ⟨1, 5⟩⟩,
       ⟨.semicolon, ";", .null, ⟨1, 6⟩⟩, .endAt ⟨1, 7⟩]
    let others : List Token :=
      [⟨.kwVar, "var", .null, ⟨1, 1⟩⟩, ⟨.comment, "//", .null, ⟨1, 4⟩⟩,
       ⟨.identifier, "x", .null, ⟨2, 1⟩⟩, ⟨.semicolon, ";", .null, ⟨2, 2⟩⟩, .endAt ⟨2, 3⟩]
    scan "var x;" = .ok tokens ∧ scan "var//\nx;" = .ok others ∧ wording tokens = wording others
    ∧ Alike Program.SameButPlaces (parse tokens) (parse others)
    ∧ sourceCounts "var x;" = sourceCounts "var//\nx;" := by
  intro tokens others
  have scanned : scan "var x;" = .ok tokens := by decide +kernel
  have scanned' : scan "var//\nx;" = .ok others := by decide +kernel
  have same : wording tokens = wording others := rfl
  refine ⟨scanned, scanned', same, ?_⟩
  exact (layout_does_not_matter scanned scanned' same).imp_right And.right

end ScriptFront
