import ScriptFront.Proofs.Compilation.Strictness
import ScriptFront.Proofs.Grammar.Progress
import ScriptFront.Proofs.Program.Unpacking

/-! # Endings — nothing gets stuck, and every problem is of a known kind

    The parser settles every token, builds every node from the children that its form asks for, and
    ends with a program, with a token that is refused, or with an invalid target (`parse_ends`).
    So a compilation ends with a result or with the first problem of one pass, and each pass has its
    own kinds of problems (`compile_ends`). -/

namespace ScriptFront

/-! ## Passes -/

/-- A text that is not scanned has a character that begins nothing, or an open string. -/
theorem kind_of_scan {source : String} {q : Problem} (h : scan source = .error q) :
    q.cause.kind = .unexpectedCharacter ∨ q.cause.kind = .unterminatedString := by
  obtain ⟨c, cs, place, -, found⟩ := (scan_reads source).problem h
  rcases found with ⟨-, rfl⟩ | ⟨-, rfl⟩
  · exact Or.inl rfl
  · exact Or.inr rfl

/-- Parsing ends with a program, a refused token or an early end, or an invalid target. -/
theorem parse_ends (tokens : List Token) :
    (∃ p, parse tokens = .ok p)
    ∨ ∃ q, parse tokens = .error q ∧ q.cause.kind = .grammatical
      ∧ (q.cause.code = some .unexpectedToken ∨ q.cause.code = some .invalidTarget) := by
  cases parsed : parse tokens with
  | ok p => exact Or.inl ⟨p, rfl⟩
  | error q =>
      refine Or.inr ⟨q, rfl, ?_⟩
      cases complains_of_parse parsed with
      | refused => exact ⟨rfl, Or.inl rfl⟩
      | ended => exact ⟨rfl, Or.inl rfl⟩
      | invalid => exact ⟨rfl, Or.inr rfl⟩

/-- The analysis finds a name that is declared already or not at all or, with strict types only, an
    unknown type. -/
theorem Analysis.kind_of_analyze {strict : Bool} {p : Program} {q : Problem}
    (h : (analyze strict p).2 = some q) :
    q.cause.kind = .alreadyDeclared ∨ q.cause.kind = .notDefined
    ∨ q.cause.kind = .unknownType ∧ strict = true := by
  rw [analyze_eq_perform] at h
  have fails : ¬ AllHold strict p.steps := by
    rw [← perform_eq_none_iff p.guarded_steps, h]
    exact Option.some_ne_none q
  obtain ⟨done, step, rest, split, held, failed⟩ := exists_first_failure fails
  have g := p.guarded_steps
  rw [split] at g h
  obtain ⟨q', problem, ended⟩ := perform_of_failure g held failed
  rw [ended] at h
  cases h
  cases step with
  | use name =>
      cases problem
      exact Or.inr (Or.inl rfl)
  | declare name | parameter earlier name =>
      cases problem
      exact Or.inl rfl
  | annotate owner typeName =>
      cases problem
      refine Or.inr (Or.inr ⟨rfl, ?_⟩)
      by_contra lenient
      exact failed fun strict => absurd strict lenient
  | bind symbol => cases problem

/-! ## Compilation -/

/-- How a compilation may end, and after which passes. -/
inductive CompilationEnds (options : Options) (source : String) :
    Except Problem Compilation → Prop
  | compiled {c : Compilation} (scanned : scan source = .ok c.tokens)
      (parsed : parse c.tokens = .ok c.program)
      (analyzed : Analysis.analyze options.strictTypes c.program = (c.analysis, none)) :
      CompilationEnds options source (.ok c)
  | notScanned {q : Problem} (failed : scan source = .error q)
      (kind : q.cause.kind = .unexpectedCharacter ∨ q.cause.kind = .unterminatedString) :
      CompilationEnds options source (.error q)
  | notParsed {q : Problem} {tokens : List Token} (scanned : scan source = .ok tokens)
      (failed : parse tokens = .error q) (kind : q.cause.kind = .grammatical) :
      CompilationEnds options source (.error q)
  | notAnalyzed {q : Problem} {tokens : List Token} {program : Program}
      (scanned : scan source = .ok tokens) (parsed : parse tokens = .ok program)
      (failed : (Analysis.analyze options.strictTypes program).2 = some q)
      (kind : q.cause.kind = .alreadyDeclared ∨ q.cause.kind = .notDefined
        ∨ q.cause.kind = .unknownType ∧ options.strictTypes = true) :
      CompilationEnds options source (.error q)

/-- A compilation ends with a result, or with the first problem that a pass has found. -/
theorem compile_ends (options : Options) (source : String) :
    CompilationEnds options source (compile options source) := by
  cases compiled : compile options source with
  | ok c =>
      obtain ⟨scanned, parsed, analyzed⟩ := reads_of_compile compiled
      exact .compiled scanned parsed analyzed
  | error q =>
      rcases compile_cases options source with
        ⟨q', failed, ended⟩ | ⟨tokens, scanned, ⟨q', failed, ended⟩ | ⟨program, parsed, rest⟩⟩
      · cases compiled.symm.trans ended
        exact .notScanned failed (kind_of_scan failed)
      · cases compiled.symm.trans ended
        rcases parse_ends tokens with ⟨p, ok⟩ | ⟨q', failed', kind, -⟩
        · exact nomatch ok.symm.trans failed
        · cases failed.symm.trans failed'
          exact .notParsed scanned failed kind
      · rcases rest with ⟨q', failed, ended⟩ | ended
        · cases compiled.symm.trans ended
          exact .notAnalyzed scanned parsed failed (Analysis.kind_of_analyze failed)
        · exact nomatch compiled.symm.trans ended

/-! ## Nothing gets stuck -/

/-- Every node of the tree that some tokens are read to has the children that its form unpacks. -/
theorem unpacks_of_read {tokens : List Token} {tree : Grammar.Tree}
    (accepted : automaton.read [] (tokens.filter Token.isSignificant) = .accepted tree) :
    ∀ node ∈ tree.nodes, Grammar.Unpacks node.1 node.2 := by
  rcases read_significant tokens with ⟨t, accepted', fits, root⟩ | ⟨_, _, refused⟩
  · cases accepted.symm.trans accepted'
    refine Grammar.unpacks_of_mem_nodes fits ?_
    rw [root]
    decide
  · exact nomatch accepted.symm.trans refused

/-- On no tokens is the machine stuck: a rule that is to be applied finds its right side and an
    edge, finitely many rules are applied before a token is shifted or the machine ends, and every
    node of what it reads has the children that its form unpacks.  So parsing ends with a program, a
    refused token or an invalid target; and a compilation ends with a result, or with a problem of
    the first pass that has one, which is of the kinds of that pass. -/
theorem nothing_gets_stuck :
    (∀ tokens : List Token,
      automaton.NeverStuck (tokens.filter Token.isSignificant)
      ∧ (∀ tree, automaton.read [] (tokens.filter Token.isSignificant) = .accepted tree →
        ∀ node ∈ tree.nodes, Grammar.Unpacks node.1 node.2)
      ∧ ((∃ p, parse tokens = .ok p)
        ∨ ∃ q, parse tokens = .error q ∧ q.cause.kind = .grammatical
          ∧ (q.cause.code = some .unexpectedToken ∨ q.cause.code = some .invalidTarget)))
    ∧ ∀ options source, CompilationEnds options source (compile options source) := by
  refine ⟨fun tokens => ⟨?_, ?_, parse_ends tokens⟩, compile_ends⟩
  · exact Grammar.Automaton.neverStuck_of_certified automaton_certified automaton_rules _
  · exact fun tree accepted => unpacks_of_read accepted

end ScriptFront
