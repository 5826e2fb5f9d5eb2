import ScriptFront.Options
import ScriptFront.Program.Source
import ScriptFront.Proofs.Analysis.Steps
import ScriptFront.Proofs.Program.Declarations
import ScriptFront.Proofs.Program.Moved

/-! # Concatenation — programs compose

    Nothing is carried from one program into the next but what the analysis knows.  The tokens of
    two programs one behind the other form the statements of both (`parse_append`), wherever they
    stand (`parse_move`), and the scanner begins anew behind a newline; so two texts with a newline
    between them are the two programs in a row.  The analysis of a row goes on where that of its
    first part ended, or ends with it (`execute_append`). -/

namespace ScriptFront

/-! ## Texts -/

/-- A program has the same statements in other places. -/
theorem parse_move (m : Position → Position) {tokens : List Token} {p : Program}
    (ok : parse tokens = .ok p) : parse (tokens.map (Token.move m)) = .ok (p.move m) := by
  rw [parse_eq_ok_iff] at ok ⊢
  have significant : (tokens.map (Token.move m)).filter Token.isSignificant
      = (tokens.filter Token.isSignificant).map (Token.move m) := List.filter_map
  rw [significant]
  exact ok.move m (by decide)

/-- Two programs one behind the other are one program. -/
theorem parse_append {ts us : List Token} {p q : Program} (hp : parse ts = .ok p)
    (hq : parse us = .ok q) : parse (ts ++ us) = .ok ⟨p.statements ++ q.statements⟩ := by
  rw [parse_eq_ok_iff, Grammar.spelled_program_iff] at hp hq ⊢
  rw [List.filter_append]
  exact hp.append hq

/-- An end token is passed over. -/
theorem parse_dropLast_of_scan {source : String} {tokens : List Token} {p : Program}
    (scanned : scan source = .ok tokens) (ok : parse tokens = .ok p) :
    parse tokens.dropLast = .ok p := by
  obtain ⟨ts, rfl, -⟩ := (scan_reads source).tokens scanned
  have last : [Token.endAt (Position.origin.after source.toList)].filter Token.isSignificant = [] :=
    rfl
  rw [parse_eq_ok_iff, List.filter_append, last, List.append_nil] at ok
  rwa [List.dropLast_concat, parse_eq_ok_iff]

theorem ofSource_join {a b : String} {p q : Program} (ha : Program.ofSource a = .ok p)
    (hb : Program.ofSource b = .ok q) :
    Program.ofSource (a ++ "\n" ++ b)
      = .ok ⟨p.statements ++ (q.move (Position.lower (1 + a.toList.count '\n'))).statements⟩ := by
  obtain ⟨tokens, scanned, first⟩ := ofSource_eq_ok_iff.mp ha
  obtain ⟨others, scanned', second⟩ := ofSource_eq_ok_iff.mp hb
  refine ofSource_eq_ok_iff.mpr ⟨_, scan_join scanned scanned', ?_⟩
  exact parse_append (parse_dropLast_of_scan scanned first) (parse_move _ second)

/-! ## Analyses -/

namespace Analysis

theorem outlines_append (as bs : List Stmt) :
    Stmt.outlines (as ++ bs) = Stmt.outlines as ++ Stmt.outlines bs := by
  induction as with
  | nil => rfl
  | cons a as ih => rw [List.cons_append, Stmt.outlines, Stmt.outlines, ih, List.cons_append]

/-- A row is analysed part by part. -/
theorem execute_append (strict : Bool) (as bs : List Outline) :
    execute strict (as ++ bs) = (execute strict as).andThen (execute strict bs) := by
  induction as with
  | nil =>
      show checkAll strict bs = (checkAll strict []).andThen (checkAll strict bs)
      rw [checkAll]
      rfl
  | cons a as ih =>
      have each : ∀ os,
          execute strict (a :: os) = (check strict a).andThen (execute strict os) := by
        intro os
        rw [execute, checkAll]
        exact congrArg _ (Pass.andThen_skip _)
      rw [List.cons_append, each, each, ih, Pass.andThen_assoc]

theorem analyze_append (strict : Bool) (as bs : List Stmt) :
    analyze strict ⟨as ++ bs⟩
      = (execute strict (Program.outlines ⟨as⟩)).andThen
          (execute strict (Program.outlines ⟨bs⟩)) {} := by
  rw [← execute_append]
  exact congrArg (fun os => execute strict os {}) (outlines_append as bs)

end Analysis

open Analysis

/-- Two texts that are programs are one program with a newline between them: the statements of the
    first and behind them those of the second, whose tokens stand lower by one line and the lines of
    the first.

    The analysis of a row of statements is that of its first part, if that ends with a problem, and
    else goes on with the second part in the state the first has left. -/
theorem programs_compose :
    (∀ (a b : String) (p q : Program), Program.ofSource a = .ok p → Program.ofSource b = .ok q →
      (∃ tokens, scan (a ++ "\n" ++ b) = .ok tokens)
      ∧ Program.ofSource (a ++ "\n" ++ b)
        = .ok ⟨p.statements ++ (q.move (Position.lower (1 + a.toList.count '\n'))).statements⟩)
    ∧ ∀ (options : Options) (as bs : List Stmt) (s : State),
      (analyze options.strictTypes ⟨as⟩ = (s, none) →
        analyze options.strictTypes ⟨as ++ bs⟩
          = execute options.strictTypes (Program.outlines ⟨bs⟩) s)
      ∧ ∀ p, analyze options.strictTypes ⟨as⟩ = (s, some p) →
        analyze options.strictTypes ⟨as ++ bs⟩ = (s, some p) := by
  constructor
  · intro a b p q ha hb
    have whole := ofSource_join ha hb
    obtain ⟨tokens, scanned, -⟩ := ofSource_eq_ok_iff.mp whole
    exact ⟨⟨tokens, scanned⟩, whole⟩
  · intro options as bs s
    constructor
    · intro first
      rw [analyze_append, Pass.andThen_of_none first]
    · intro p first
      rw [analyze_append, Pass.andThen_of_some first]

/-- An `if` without `else` and a comment end before the next text begins. -/
theorem conditional_composes_with_declaration :
    let x : Token := ⟨.identifier, "x", .null, ⟨1, 4⟩⟩
    let y : Token := ⟨.identifier, "y", .null, ⟨1, 6⟩⟩
    let z : Token := ⟨.identifier, "z", .null, ⟨1, 5⟩⟩
    let conditional : Stmt := .conditional (.var x) (.expression (.var y)) none
    let declared : Stmt := .varDecl z none none
    let s : State := ⟨{ symbols := [{ name := "z" }] }, [], [.defined { name := "z" }]⟩
    Program.ofSource "if(x)y;//c" = .ok ⟨[conditional]⟩
    ∧ Program.ofSource "var z;" = .ok ⟨[declared]⟩
    ∧ Program.ofSource ("if(x)y;//c" ++ "\n" ++ "var z;")
      = .ok ⟨[conditional, .varDecl { z with position := ⟨2, 5⟩ } none none]⟩
    ∧ analyze false ⟨[declared]⟩ = (s, none)
    ∧ analyze false ⟨[declared, conditional]⟩ = execute false (Program.outlines ⟨[conditional]⟩) s
    ∧ analyze false ⟨[conditional]⟩ = ({}, some (.ofCause (.notDefined "x") ⟨1, 4⟩))
    ∧ analyze false ⟨[conditional, declared]⟩ = ({}, some (.ofCause (.notDefined "x") ⟨1, 4⟩)) := by
  intro x y z conditional declared s
  have first : Program.ofSource "if(x)y;//c" = .ok ⟨[conditional]⟩ := by
    let tokens : List Token :=
      [⟨.kwIf, "if", .null, ⟨1, 1⟩⟩, ⟨.leftParen, "(", .null, ⟨1, 3⟩⟩, x,
       ⟨.rightParen, ")", .null, ⟨1, 5⟩⟩, y, ⟨.semicolon, ";", .null, ⟨1, 7⟩⟩,
       ⟨.comment, "//c", .null, ⟨1, 8⟩⟩, .endAt ⟨1, 11⟩]
    have scanned : scan "if(x)y;//c" = .ok tokens := by decide +kernel
    have canonical : Program.Canonical ⟨[conditional]⟩ :=
      List.forall_mem_singleton.mpr (.short (.var rfl) (.expression (.var rfl)) rfl)
    have written : Program.WrittenAs ⟨[conditional]⟩ (tokens.filter Token.isSignificant) :=
      .cons rfl (.cons rfl (.cons rfl (.cons rfl (.cons rfl (.cons rfl .nil)))))
    exact ofSource_eq_ok_iff.mpr ⟨tokens, scanned, parse_of_writtenAs canonical written⟩
  have second : Program.ofSource "var z;" = .ok ⟨[declared]⟩ := by
    let tokens : List Token :=
      [⟨.kwVar, "var", .null, ⟨1, 1⟩⟩, z, ⟨.semicolon, ";", .null, ⟨1, 6⟩⟩, .endAt ⟨1, 7⟩]
    have scanned : scan "var z;" = .ok tokens := by decide +kernel
    have canonical : Program.Canonical ⟨[declared]⟩ :=
      List.forall_mem_singleton.mpr (.varDecl rfl nofun nofun)
    have written : Program.WrittenAs ⟨[declared]⟩ (tokens.filter Token.isSignificant) :=
      .cons rfl (.cons rfl (.cons rfl .nil))
    exact ofSource_eq_ok_iff.mpr ⟨tokens, scanned, parse_of_writtenAs canonical written⟩
  have declares : analyze false ⟨[declared]⟩ = (s, none) := rfl
  have fails : analyze false ⟨[conditional]⟩ = ({}, some (.ofCause (.notDefined "x") ⟨1, 4⟩)) := rfl
  obtain ⟨texts, analyses⟩ := programs_compose
  have goesOn := (analyses .default [declared] [conditional] s).1 declares
  have ends := (analyses .default [conditional] [declared] {}).2 _ fails
  exact ⟨first, second, (texts _ _ _ _ first second).2, declares, goesOn, fails, ends⟩

end ScriptFront
