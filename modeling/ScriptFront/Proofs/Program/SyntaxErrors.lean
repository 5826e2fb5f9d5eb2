import ScriptFront.Proofs.Grammar.Acceptance
import ScriptFront.Proofs.Grammar.Extended
import ScriptFront.Proofs.Program.Outcome

/-! # Syntax errors — which texts are refused, and where

    What the parser looks at are the kinds of the tokens without comments and end tokens.  If they
    are a sentence of the grammar, they form a program, unless something is assigned to that cannot
    be (`parse_of_sentence`); otherwise there is a first token by which they leave what may still
    become a sentence, and this one is blamed (`parse_of_not_sentence`). -/

namespace ScriptFront

open Grammar (sentences Expands)

/-- The kinds that the grammar looks at. -/
def significantKinds (tokens : List Token) : List TokenKind :=
  (tokens.filter Token.isSignificant).map Token.kind

/-- Some kinds with which a sentence can begin. -/
def Viable (ks : List TokenKind) : Prop := ∃ more, ks ++ more ∈ sentences

theorem automaton_rules : automaton.rules = grammar := rfl

theorem kind_ne_eof_of_mem {tokens : List Token} :
    ∀ t ∈ tokens.filter Token.isSignificant, t.kind ≠ .eof := by
  intro t ht
  have significant := (List.mem_filter.mp ht).2
  rw [Token.isSignificant, Bool.and_eq_true, decide_eq_true_eq, decide_eq_true_eq] at significant
  exact significant.2

/-- No rule but that of the whole text speaks of comments or of the end. -/
theorem isSignificant_of_mem_right : ∀ r ∈ grammar, r ≠ Grammar.textRule →
    ∀ x ∈ r.right, x ≠ .terminal .comment ∧ x ≠ .terminal .eof := by decide

/-- The tokens below a nonterminal are significant. -/
theorem isSignificant_of_fits {t : Grammar.Tree} (fits : t.Fits grammar)
    {n : Grammar.Nonterminal} (root : t.root = .nonterminal n) (notText : n ≠ .text) :
    ∀ token ∈ t.tokens, token.isSignificant = true := by
  intro token htoken
  obtain ⟨r, mem, other, inRule⟩ :=
    Grammar.exists_rule_of_mem_tokens fits root notText token htoken
  have kinds := isSignificant_of_mem_right r mem other _ inRule
  simpa [Token.isSignificant] using kinds

/-- The kinds in a sentence are kinds that the rules speak of. -/
theorem exists_rule_of_mem_sentence {ks : List TokenKind} (h : ks ∈ sentences) :
    ∀ k ∈ ks, ∃ r ∈ grammar, r ≠ Grammar.textRule ∧ .terminal k ∈ r.right := by
  rw [← Grammar.map_kind_map_tokenOf ks] at h
  obtain ⟨t, fits, root, leaves⟩ := Grammar.map_kind_mem_language_iff.mp h
  intro k hk
  refine Grammar.exists_rule_of_mem_tokens fits root (by decide) (Grammar.tokenOf k) ?_
  rw [leaves]
  exact List.mem_map_of_mem hk

/-- Tokens are read to the tree of a program, or one of them or the end is refused. -/
theorem read_significant (tokens : List Token) :
    (∃ tree, automaton.read [] (tokens.filter Token.isSignificant) = .accepted tree
      ∧ tree.Fits grammar ∧ tree.root = .nonterminal .program)
    ∨ ∃ rest expected,
      automaton.read [] (tokens.filter Token.isSignificant) = .refused rest expected := by
  rcases Grammar.Automaton.read_cases automaton_certified automaton_rules .nil _ kind_ne_eof_of_mem
    with ⟨tree, read, fits, root, -⟩ | ⟨_, rest, expected, _, -, -, -, read, -⟩
  · exact Or.inl ⟨tree, read, fits, root⟩
  · exact Or.inr ⟨rest, expected, read⟩

/-- No tokens at all are a program. -/
theorem nil_mem_sentences : [] ∈ sentences := by
  have empty : (Grammar.Tree.node ⟨.program, [], .emptyProgram⟩ []).Fits grammar :=
    .node (by decide) rfl (List.forall_mem_nil _)
  exact Grammar.map_kind_mem_language_iff.mpr ⟨_, empty, rfl, rfl⟩

/-- A sentence forms a canonical program written with its tokens, unless something is assigned to
    that cannot be. -/
theorem parse_of_sentence {tokens : List Token} (h : significantKinds tokens ∈ sentences) :
    (∃ p, parse tokens = .ok p ∧ p.Canonical
      ∧ p.WrittenAs ((tokens.filter Token.isSignificant).filter Token.isKept))
    ∨ ∃ t ∈ tokens, t.kind = .equal
      ∧ parse tokens = .error (.ofCause .invalidTarget t.position) := by
  obtain ⟨tree, read, fits, near, root, leaves⟩ :=
    Grammar.Automaton.exists_accepted_of_mem automaton_certified automaton_rules h
  have outcome := Grammar.outcome_of_fits fits near root (by decide)
  rw [leaves] at outcome
  cases value : tree.value with
  | ok v =>
      rw [value] at outcome
      obtain ⟨ss, rfl, canonical, fills⟩ := outcome
      refine Or.inl ⟨⟨ss⟩, ?_, canonical, fills⟩
      simp only [parse, read, Grammar.Tree.toProgram, value]
  | error misfit =>
      rw [value] at outcome
      cases misfit with
      | malformed => exact outcome.elim
      | invalidTarget t =>
          have mem : t ∈ tokens := List.mem_of_mem_filter (List.mem_of_mem_filter outcome.1)
          refine Or.inr ⟨t, mem, outcome.2, ?_⟩
          simp only [parse, read, Grammar.Tree.toProgram, value]

/-- What is no sentence is refused at the first token, or at the end, by which it leaves what a
    sentence can begin with. -/
theorem parse_of_not_sentence {tokens : List Token} (h : significantKinds tokens ∉ sentences) :
    (∃ done t rest expected, tokens.filter Token.isSignificant = done ++ t :: rest
      ∧ parse tokens = .error (.ofCause (.unexpectedToken t.lexeme expected) t.position)
      ∧ Viable (done.map Token.kind) ∧ ¬ Viable ((done ++ [t]).map Token.kind))
    ∨ ∃ expected,
      parse tokens = .error (.ofCause (.unexpectedEnd expected) (endPosition tokens))
      ∧ Viable (significantKinds tokens) := by
  have noEnd : ∀ t ∈ tokens.filter Token.isSignificant, t.kind ≠ .eof := kind_ne_eof_of_mem
  rcases Grammar.Automaton.read_cases automaton_certified automaton_rules .nil _ noEnd with
    ⟨tree, accepted, -⟩ | ⟨done, rest, expected, stack, split, path, leaves, read, always⟩
  · exact absurd ((Grammar.Automaton.accepts_iff automaton_certified automaton_rules noEnd).mp
      ⟨tree, accepted⟩) h
  · have begun : Viable (done.map Token.kind) := by
      have onStack : Grammar.Stack.tokens stack = done := leaves
      rw [← onStack]
      refine Grammar.Automaton.exists_sentence_of_path automaton_certified automaton_rules path ?_
      intro t ht
      refine noEnd t ?_
      rw [split]
      exact List.mem_append_left _ (onStack ▸ ht)
    cases rest with
    | nil =>
        refine Or.inr ⟨expected, ?_, ?_⟩
        · simp only [parse, read]
        · rw [List.append_nil] at split
          rwa [significantKinds, split]
    | cons t rest =>
        refine Or.inl ⟨done, t, rest, expected, split, ?_, begun, ?_⟩
        · simp only [parse, read]
        · -- a sentence that goes on with the token would be read in spite of it
          rintro ⟨more, sentence⟩
          have kinds : (done ++ t :: more.map Grammar.tokenOf).map Token.kind ∈ sentences := by
            rwa [List.map_append, List.map_cons, Grammar.map_kind_map_tokenOf,
              ← List.singleton_append, ← List.append_assoc, ← List.map_singleton,
              ← List.map_append]
          obtain ⟨tree, accepted, -⟩ :=
            Grammar.Automaton.exists_accepted_of_mem automaton_certified automaton_rules kinds
          exact nomatch accepted.symm.trans (always (t :: more.map Grammar.tokenOf) rfl)

/-- An unexpected end is reported where the last token stands. -/
theorem exists_last_of_not_sentence {tokens : List Token}
    (h : significantKinds tokens ∉ sentences) :
    ∃ last, tokens.getLast? = some last ∧ endPosition tokens = last.position := by
  rcases List.eq_nil_or_concat tokens with rfl | ⟨init, last, rfl⟩
  · exact absurd nil_mem_sentences h
  · refine ⟨last, ?_, ?_⟩
    · simp
    · simp [endPosition]

/-- What is no sentence is refused as such. -/
theorem exists_refused {tokens : List Token} (h : significantKinds tokens ∉ sentences) :
    ∃ p, parse tokens = .error p ∧ p.cause.code = some .unexpectedToken := by
  rcases parse_of_not_sentence h with ⟨_, t, _, expected, -, refused, -⟩ | ⟨expected, refused, -⟩
  · exact ⟨_, refused, rfl⟩
  · exact ⟨_, refused, rfl⟩

/-- What the parser may complain about: a token that it refuses, an early end, or an invalid
    target. -/
inductive Complains (tokens : List Token) : Problem → Prop
  | refused {t : Token} (mem : t ∈ tokens) (kind : t.kind ≠ .eof) (expected : List TokenKind) :
      Complains tokens (.ofCause (.unexpectedToken t.lexeme expected) t.position)
  | ended (expected : List TokenKind) :
      Complains tokens (.ofCause (.unexpectedEnd expected) (endPosition tokens))
  | invalid {t : Token} (mem : t ∈ tokens) (kind : t.kind = .equal) :
      Complains tokens (.ofCause .invalidTarget t.position)

/-- Tokens that form no program are complained about. -/
theorem complains_of_parse {tokens : List Token} {p : Problem} (h : parse tokens = .error p) :
    Complains tokens p := by
  by_cases sentence : significantKinds tokens ∈ sentences
  · rcases parse_of_sentence sentence with ⟨program, ok, -⟩ | ⟨t, mem, kind, invalid⟩
    · exact nomatch h.symm.trans ok
    · cases h.symm.trans invalid
      exact .invalid mem kind
  · rcases parse_of_not_sentence sentence with
      ⟨done, t, rest, expected, split, refused, -⟩ | ⟨expected, refused, -⟩
    · cases h.symm.trans refused
      have mem : t ∈ tokens.filter Token.isSignificant := by
        rw [split]
        exact List.mem_append_right _ List.mem_cons_self
      exact .refused (List.mem_of_mem_filter mem) (kind_ne_eof_of_mem t mem) expected
    · cases h.symm.trans refused
      exact .ended expected

/-! ## What is refused, and where -/

/-- Exactly the texts that are no sentence of the grammar, in its plain or its extended form, are
    refused as such; exactly the sentences are a program or have an invalid target. -/
theorem syntax_error_iff_not_sentence (tokens : List Token) :
    ((∃ p, parse tokens = .error p ∧ p.cause.code = some .unexpectedToken)
      ↔ significantKinds tokens ∉ sentences)
    ∧ (significantKinds tokens ∈ sentences
      ↔ Expands [.nonterminal .program] (significantKinds tokens))
    ∧ (significantKinds tokens ∈ sentences
      ↔ (∃ p, parse tokens = .ok p)
        ∨ ∃ t ∈ tokens, t.kind = .equal
          ∧ parse tokens = .error (.ofCause .invalidTarget t.position)) := by
  have answer : significantKinds tokens ∈ sentences → (∃ p, parse tokens = .ok p)
      ∨ ∃ t ∈ tokens, t.kind = .equal
        ∧ parse tokens = .error (.ofCause .invalidTarget t.position) := by
    intro sentence
    rcases parse_of_sentence sentence with ⟨p, ok, -⟩ | invalid
    · exact Or.inl ⟨p, ok⟩
    · exact Or.inr invalid
  -- an answer of the one kind is none of the other
  have apart : ∀ {p}, parse tokens = .error p → p.cause.code = some .unexpectedToken →
      ¬ ((∃ p, parse tokens = .ok p) ∨ ∃ t ∈ tokens, t.kind = .equal
        ∧ parse tokens = .error (.ofCause .invalidTarget t.position)) := by
    rintro p refused code (⟨p', ok⟩ | ⟨t, -, -, invalid⟩)
    · exact nomatch ok.symm.trans refused
    · cases refused.symm.trans invalid
      exact nomatch code
  refine ⟨⟨?_, exists_refused⟩, Grammar.mem_language_iff_expands, answer, ?_⟩
  · rintro ⟨p, refused, code⟩ sentence
    exact apart refused code (answer sentence)
  · intro answered
    by_contra h
    obtain ⟨p, refused, code⟩ := exists_refused h
    exact apart refused code answered

/-- The token that is blamed is the first by which the text leaves what a sentence can begin with,
    and the end is blamed only if it comes too early: for a token that is blamed, the kinds before
    it begin a sentence and those up to it begin none. -/
theorem earliest_token_is_blamed (tokens : List Token) :
    (significantKinds tokens ∈ sentences
      ∧ ((∃ p, parse tokens = .ok p)
        ∨ ∃ t ∈ tokens, parse tokens = .error (.ofCause .invalidTarget t.position)))
    ∨ (∃ done t rest expected, tokens.filter Token.isSignificant = done ++ t :: rest
      ∧ parse tokens = .error (.ofCause (.unexpectedToken t.lexeme expected) t.position)
      ∧ (Cause.unexpectedToken t.lexeme expected).message
        = "unexpected token '" ++ t.lexeme ++ "'"
      ∧ Viable (done.map Token.kind) ∧ ¬ Viable ((done ++ [t]).map Token.kind))
    ∨ ∃ last expected, tokens.getLast? = some last
      ∧ parse tokens = .error (.ofCause (.unexpectedEnd expected) last.position)
      ∧ (Cause.unexpectedEnd expected).message = "unexpected end of input"
      ∧ Viable (significantKinds tokens) ∧ significantKinds tokens ∉ sentences := by
  by_cases sentence : significantKinds tokens ∈ sentences
  · refine Or.inl ⟨sentence, ?_⟩
    rcases parse_of_sentence sentence with ⟨p, ok, -⟩ | ⟨t, mem, -, invalid⟩
    · exact Or.inl ⟨p, ok⟩
    · exact Or.inr ⟨t, mem, invalid⟩
  · rcases parse_of_not_sentence sentence with
      ⟨done, t, rest, expected, split, refused, begun, hopeless⟩ | ⟨expected, refused, begun⟩
    · exact Or.inr (Or.inl ⟨done, t, rest, expected, split, refused, rfl, begun, hopeless⟩)
    · obtain ⟨last, isLast, position⟩ := exists_last_of_not_sentence sentence
      exact Or.inr (Or.inr ⟨last, expected, isLast, position ▸ refused, rfl, begun, sentence⟩)

end ScriptFront
