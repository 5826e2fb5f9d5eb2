import ScriptFront.Proofs.Grammar.Continuations
import ScriptFront.Proofs.Program.SyntaxErrors

/-! # Expectations — what is listed when a text is refused

    A text is refused in a state that has no action on what comes next, and the help lists the
    terminals on which the state has one.  Before that, rules may have been applied for the sake of
    the refused token, and a state joins the contexts in which it occurs.  So a terminal that is
    listed for a rule may be impossible.  But one that would be shifted is not, nor is the end if it
    is listed for a rule of a program, and in every state something that is listed can really follow
    (`expected_terminals_are_honest`). -/

namespace ScriptFront

open Grammar (sentences look)

/-- Whether a terminal can follow some kinds: with it they are the beginning of a sentence, and the
    end follows what is a sentence. -/
def CanFollow (ks : List TokenKind) (k : TokenKind) : Prop :=
  if k = .eof then ks ∈ sentences else Viable (ks ++ [k])

theorem canFollow_eof {ks : List TokenKind} : CanFollow ks .eof ↔ ks ∈ sentences := by
  rw [CanFollow, if_pos rfl]

theorem canFollow_of_ne {ks : List TokenKind} {k : TokenKind} (notEnd : k ≠ .eof) :
    CanFollow ks k ↔ Viable (ks ++ [k]) := by
  rw [CanFollow, if_neg notEnd]

/-- Only the beginning of a sentence can be followed by something. -/
theorem viable_of_canFollow {ks : List TokenKind} {k : TokenKind} (h : CanFollow ks k) :
    Viable ks := by
  by_cases isEnd : k = .eof
  · subst isEnd
    exact ⟨[], by rw [List.append_nil]; exact canFollow_eof.mp h⟩
  · obtain ⟨more, sentence⟩ := (canFollow_of_ne isEnd).mp h
    exact ⟨k :: more, by rwa [List.append_assoc] at sentence⟩

/-- Neither comments nor the end are part of a sentence. -/
theorem isTerminal_of_mem_sentence {ks : List TokenKind} (h : ks ∈ sentences) :
    ∀ k ∈ ks, k ≠ .comment ∧ k ≠ .eof := by
  intro k hk
  obtain ⟨r, mem, other, inRule⟩ := exists_rule_of_mem_sentence h k hk
  have kinds := isSignificant_of_mem_right r mem other _ inRule
  simpa using kinds

/-- What can follow is a terminal. -/
theorem mem_terminals_of_canFollow {ks : List TokenKind} {k : TokenKind} (h : CanFollow ks k) :
    k ∈ TokenKind.terminals := by
  refine (List.mem_cons.mp (Grammar.mem_terminals k)).resolve_left ?_
  rintro rfl
  obtain ⟨more, sentence⟩ := (canFollow_of_ne (by decide)).mp h
  exact (isTerminal_of_mem_sentence sentence .comment (by simp)).1 rfl

/-! ## The terminals that a state expects -/

/-- The names of the terminals are listed in increasing order. -/
theorem terminalNames_increase :
    (TokenKind.terminals.map TokenKind.terminalName).Pairwise (· < ·) := by
  decide +kernel

namespace Grammar.Automaton

variable {a : Automaton} {name : Nat}

theorem expectedNames_increase :
    ((a.expected name).map TokenKind.terminalName).Pairwise (· < ·) :=
  terminalNames_increase.sublist (List.filter_sublist.map _)

theorem mem_expected_iff {k : TokenKind} :
    k ∈ a.expected name ↔ k ∈ TokenKind.terminals ∧ ∃ act, a.action? name k = some act := by
  rw [expected, List.mem_filter, Option.isSome_iff_exists]

variable {o : Outlook} (language : a.rules = grammar) {stack : Stack} (h : a.Path stack)
  (noEnd : ∀ t ∈ Stack.tokens stack, t.kind ≠ .eof)

include language h noEnd

/-- The first of the tokens that complete a text behind a stack can follow what lies on it. -/
theorem Path.canFollow_of_completes {ts : List Token}
    (completes : Completes (Stack.symbols stack) ts) :
    CanFollow ((Stack.tokens stack).map Token.kind) (look ts) := by
  obtain ⟨v, kinds, sentence⟩ := h.exists_sentence_of_completes language noEnd completes
  cases ts with
  | nil => cases v <;> cases kinds
  | cons t ts =>
      show CanFollow _ t.kind
      cases v with
      | nil =>
          have kind : t.kind = .eof := (List.cons.inj kinds).1
          rw [List.append_nil] at sentence
          rw [kind]
          exact canFollow_eof.mpr sentence
      | cons k v =>
          have kind : t.kind = k := (List.cons.inj kinds).1
          have notEnd := (isTerminal_of_mem_sentence sentence k (by simp)).2
          rw [kind]
          refine (canFollow_of_ne notEnd).mpr ⟨v, ?_⟩
          rwa [List.append_assoc]

variable (ok : a.certified o = true)

include ok

/-- Something that is expected can follow. -/
theorem Path.exists_expected_canFollow :
    ∃ k ∈ a.expected (a.top stack), CanFollow ((Stack.tokens stack).map Token.kind) k := by
  obtain ⟨ts, act, completes, action⟩ := h.exists_expected ok language noEnd
  have follows := h.canFollow_of_completes language noEnd completes
  exact ⟨_, mem_expected_iff.mpr ⟨mem_terminals_of_canFollow follows, act, action⟩, follows⟩

/-- Whatever would be shifted can follow. -/
theorem Path.canFollow_of_shift {k : TokenKind} {target : Nat}
    (action : a.action? (a.top stack) k = some (.shift target)) :
    CanFollow ((Stack.tokens stack).map Token.kind) k := by
  obtain ⟨ts, completes, rfl⟩ := h.exists_completed_of_shift ok language action
  exact h.canFollow_of_completes language noEnd completes

end Grammar.Automaton

/-! ## What is listed -/

/-- What is said when the machine refuses the first of some tokens, or the end if there are none. -/
def refusal (tokens rest : List Token) (expected : List TokenKind) : Problem :=
  match rest with
  | t :: _ => .ofCause (.unexpectedToken t.lexeme expected) t.position
  | [] => .ofCause (.unexpectedEnd expected) (endPosition tokens)

theorem help_refusal (tokens rest : List Token) {expected : List TokenKind} (some : expected ≠ []) :
    (refusal tokens rest expected).cause.help
      = .some ("expected one of: " ++ ", ".intercalate (expected.map TokenKind.terminalName)) := by
  have listed : Cause.expectation expected
      = .some ("expected one of: " ++ ", ".intercalate (expected.map TokenKind.terminalName)) := by
    rw [Cause.expectation, if_neg]
    rwa [List.isEmpty_iff]
  cases rest with
  | nil => exact listed
  | cons t rest => exact listed

/-- A text that is refused leads the machine to where it has no action on what comes next. -/
theorem exists_refusal {tokens : List Token} {p : Problem} (refused : parse tokens = .error p)
    (code : p.cause.code = some .unexpectedToken) :
    ∃ c, automaton.Reached (tokens.filter Token.isSignificant) c ∧ automaton.next? c = none
      ∧ p = refusal tokens c.rest (automaton.expected (automaton.top c.stack)) := by
  obtain ⟨c, reached, ends⟩ := (Grammar.Automaton.neverStuck_of_certified automaton_certified
    automaton_rules (tokens.filter Token.isSignificant)).ends
  refine ⟨c, reached, ?_⟩
  generalize read : automaton.read [] (tokens.filter Token.isSignificant) = reading at ends
  cases ends with
  | @accepts f name action root =>
      -- what is read to its end is refused for other reasons only
      simp only [parse, read] at refused
      cases program : f.tree.toProgram with
      | ok p =>
          simp only [program] at refused
          cases refused
      | error misfit =>
          cases misfit with
          | malformed =>
              simp only [program] at refused
              cases refused
              cases code
          | invalidTarget t =>
              simp only [program] at refused
              cases refused
              cases code
  | refuses action =>
      refine ⟨action, ?_⟩
      simp only [parse, read] at refused
      cases rest : c.rest with
      | nil =>
          simp only [rest] at refused
          exact (Except.error.inj refused).symm
      | cons t ts =>
          simp only [rest] at refused
          exact (Except.error.inj refused).symm

/-- The help of a text that is refused lists the names of some terminals in increasing order.  They
    are those on which the state that refuses has an action, and what is refused is not among them.
    One of them at least can follow what has been read, and so can all that would be shifted, and
    the end if a rule of a program would be applied before it, which is to say that what has been
    read is a sentence; a terminal that cannot follow is listed for a rule that would be applied
    before it. -/
theorem expected_terminals_are_honest {tokens : List Token} {p : Problem}
    (refused : parse tokens = .error p) (code : p.cause.code = some .unexpectedToken) :
    ∃ stack done rest expected,
      automaton.Reached (tokens.filter Token.isSignificant) ⟨stack, rest⟩
      ∧ automaton.next? ⟨stack, rest⟩ = none
      ∧ done = Grammar.Stack.tokens stack
      ∧ tokens.filter Token.isSignificant = done ++ rest
      ∧ expected = automaton.expected (automaton.top stack)
      ∧ p = refusal tokens rest expected
      ∧ p.cause.help
        = some ("expected one of: " ++ ", ".intercalate (expected.map TokenKind.terminalName))
      ∧ (expected.map TokenKind.terminalName).Pairwise (· < ·)
      ∧ look rest ∉ expected
      ∧ (∃ k ∈ expected, CanFollow (done.map Token.kind) k)
      ∧ (∀ k target, automaton.action? (automaton.top stack) k = some (.shift target) →
        CanFollow (done.map Token.kind) k)
      ∧ (∀ r, automaton.action? (automaton.top stack) .eof = some (.apply r) → r.left = .program →
        .eof ∈ expected ∧ done.map Token.kind ∈ sentences)
      ∧ ∀ k ∈ expected, ¬ CanFollow (done.map Token.kind) k →
        ∃ r, automaton.action? (automaton.top stack) k = some (.apply r) := by
  obtain ⟨⟨stack, rest⟩, reached, refuses, rfl⟩ := exists_refusal refused code
  have path : automaton.Path stack := reached.path automaton_certified
  have split : Grammar.Stack.tokens stack ++ rest = tokens.filter Token.isSignificant :=
    reached.tokens_eq
  have noEnd : ∀ t ∈ Grammar.Stack.tokens stack, t.kind ≠ .eof := by
    intro t ht
    have mem : t ∈ tokens.filter Token.isSignificant := split ▸ List.mem_append_left rest ht
    exact kind_ne_eof_of_mem t mem
  have follows := path.exists_expected_canFollow automaton_rules noEnd automaton_certified
  have shifted : ∀ k target, automaton.action? (automaton.top stack) k = some (.shift target) →
      CanFollow ((Grammar.Stack.tokens stack).map Token.kind) k := fun k target action =>
    path.canFollow_of_shift automaton_rules noEnd automaton_certified action
  refine ⟨stack, _, rest, _, reached, refuses, rfl, split.symm, rfl, rfl, help_refusal _ _ ?_,
    Grammar.Automaton.expectedNames_increase, ?_, follows, shifted, ?_, ?_⟩
  · obtain ⟨k, mem, -⟩ := follows
    exact List.ne_nil_of_mem mem
  · intro mem
    obtain ⟨-, act, action⟩ := Grammar.Automaton.mem_expected_iff.mp mem
    exact nomatch refuses.symm.trans action
  · intro r action left
    have isEnd : .eof ∈ TokenKind.terminals := by decide
    exact ⟨Grammar.Automaton.mem_expected_iff.mpr ⟨isEnd, _, action⟩,
      path.mem_sentences_of_apply automaton_certified automaton_rules action left⟩
  · intro k mem hopeless
    obtain ⟨-, act, action⟩ := Grammar.Automaton.mem_expected_iff.mp mem
    cases act with
    | shift target => exact absurd (shifted k target action) hopeless
    | apply r => exact ⟨r, action⟩

/-- A bracket is refused, and something else is expected that can stand in its place. -/
theorem bracket_is_refused :
    let bracket : Token := ⟨.rightBracket, "]", .null, ⟨1, 1⟩⟩
    ∃ expected, parse [bracket] = .error (.ofCause (.unexpectedToken "]" expected) ⟨1, 1⟩)
      ∧ .rightBracket ∉ expected ∧ ∃ k ∈ expected, CanFollow [] k := by
  intro bracket
  have unknown : ∀ ks ∈ sentences, .rightBracket ∉ ks := by
    intro ks sentence mem
    obtain ⟨r, rule, -, inRule⟩ := exists_rule_of_mem_sentence sentence .rightBracket mem
    exact absurd inRule ((by decide : ∀ r ∈ grammar, .terminal .rightBracket ∉ r.right) r rule)
  have noSentence : significantKinds [bracket] ∉ sentences := fun h => unknown _ h (by decide)
  obtain ⟨p, refused, code⟩ := exists_refused noSentence
  obtain ⟨stack, done, rest, expected, -, -, -, split, -, rfl, -, -, notListed, follows, -⟩ :=
    expected_terminals_are_honest refused code
  have split : [bracket] = done ++ rest := split
  cases done with
  | cons t done =>
      -- the bracket has not been read, for then nothing could follow
      obtain ⟨rfl, -⟩ := List.cons.inj split
      obtain ⟨k, -, canFollow⟩ := follows
      obtain ⟨more, sentence⟩ := viable_of_canFollow canFollow
      exact absurd (by simp [bracket]) (unknown _ sentence)
  | nil =>
      obtain rfl : rest = [bracket] := split.symm
      exact ⟨expected, refused, notListed, follows⟩

end ScriptFront
