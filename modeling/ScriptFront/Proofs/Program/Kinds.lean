import ScriptFront.Proofs.Program.Mapped
import ScriptFront.Proofs.Program.RoundTrip
import ScriptFront.Proofs.Program.Slots

/-! # Kinds — the parser looks at nothing but kinds

    Other tokens of the same kinds are read in the same way, and so they form a program where the
    tokens did, the same but for its tokens and values (`exists_parse_map`).  Where they do not form
    a program, what is wrong is told from the kinds alone, as a fault with the number of a token:
    the tokens only say how the fault is worded and where it stands (`exists_verdict`).

    For this all tokens of some kinds are seen as changes of the same few, which have nothing but
    their kind and their number (`map_restored`). -/

namespace ScriptFront

open Grammar

/-! ## Reading -/

section

variable {f f' : Token → Token}

mutual

/-- Only the leaves of a tree are changed. -/
theorem Grammar.Tree.map_congr :
    ∀ t : Tree, (∀ token ∈ t.tokens, f token = f' token) → t.map f = t.map f'
  | .leaf token, same => congrArg Tree.leaf (same token List.mem_cons_self)
  | .node r cs, same => by
      rw [Tree.tokens_node] at same
      exact congrArg (Tree.node r) (mapAll_congr cs same)

theorem Grammar.Tree.mapAll_congr :
    ∀ cs : List Tree, (∀ token ∈ Tree.tokensOf cs, f token = f' token) →
      Tree.mapAll f cs = Tree.mapAll f' cs
  | [], _ => rfl
  | c :: cs, same => by
      rw [Tree.tokensOf_cons, List.forall_mem_append] at same
      rw [Tree.mapAll, Tree.mapAll, map_congr c same.1, mapAll_congr cs same.2]

end

end

section

variable {f : Token → Token} (kinds : ∀ t, (f t).kind = t.kind)

include kinds

theorem isSignificant_map (t : Token) : (f t).isSignificant = t.isSignificant := by
  rw [Token.isSignificant, Token.isSignificant, kinds]

theorem significant_map (tokens : List Token) :
    (tokens.map f).filter Token.isSignificant = (tokens.filter Token.isSignificant).map f := by
  rw [List.filter_map]
  exact congrArg (List.map f) (List.filter_congr fun t _ => isSignificant_map kinds t)

/-- Other tokens of the same kinds are read in the same way. -/
theorem read_map_of_kinds {ts : List Token} (noEnd : ∀ t ∈ ts, t.kind ≠ .eof) :
    automaton.read [] (ts.map f) = (automaton.read [] ts).map f := by
  -- the end of the text is the one token that has to stay as it is
  let exceptEnd : Token → Token := fun t => if t.kind = .eof then t else f t
  have kept : ∀ t ∈ ts, exceptEnd t = f t := fun t ht => if_neg (noEnd t ht)
  have exceptKinds : ∀ t, (exceptEnd t).kind = t.kind := by
    intro t
    by_cases isEnd : t.kind = .eof
    · exact congrArg Token.kind (if_pos isEnd)
    · exact (congrArg Token.kind (if_neg isEnd)).trans (kinds t)
  have reads := automaton.read_map exceptKinds rfl ts []
  rw [List.map_congr_left kept] at reads
  refine Eq.trans reads ?_
  rcases Automaton.read_cases automaton_certified automaton_rules .nil ts noEnd with
    ⟨tree, read, -, -, leaves⟩ | ⟨done, rest, expected, _, split, -, -, read, -⟩
  · rw [read]
    refine congrArg Automaton.Reading.accepted (tree.map_congr fun t ht => kept t ?_)
    rw [leaves] at ht
    exact ht
  · rw [read]
    refine congrArg (Automaton.Reading.refused · expected) (List.map_congr_left fun t ht => ?_)
    rw [split] at kept
    exact kept t (List.mem_append_right done ht)

end

/-! ## Programs -/

/-- No value in particular. -/
def Literal.blank (_ : Literal) : Literal := .null

/-- A tree of a program with other leaves forms the same program but for its tokens and values, or
    it has the invalid target in the same place. -/
theorem toProgram_map (f : Token → Token) {tree : Tree} (fits : tree.Fits grammar)
    (root : tree.root = .nonterminal .program) :
    (∃ p p', tree.toProgram = .ok p ∧ (tree.map f).toProgram = .ok p'
      ∧ p'.map id Literal.blank = p.map f Literal.blank)
    ∨ ∃ equal, tree.value = .error (.invalidTarget equal)
      ∧ tree.toProgram = .error (.invalidTarget equal)
      ∧ (tree.map f).toProgram = .error (.invalidTarget (f equal)) := by
  have notText : tree.root ≠ .nonterminal .text := by rw [root]; decide
  have tokens : ∀ t, id (f t) = f t := fun _ => rfl
  have literals : ∀ t, Literal.blank (f t).literal = Literal.blank t.literal := fun _ => rfl
  have alike := Tree.value_map tokens literals fits notText
  rcases toProgram_of_fits fits root with ⟨ss, value, program⟩ | ⟨equal, value, program⟩
  · rw [value] at alike
    cases value' : (tree.map f).value with
    | error misfit =>
        rw [value'] at alike
        cases alike
    | ok v =>
        rw [value'] at alike
        cases v with
        | stmts ss' =>
            refine Or.inl ⟨⟨ss⟩, ⟨ss'⟩, program, ?_, ?_⟩
            · rw [Tree.toProgram, value']
            · exact congrArg Program.mk (Value.stmts.inj (Except.ok.inj alike))
        | _ => cases alike
  · rw [value] at alike
    refine Or.inr ⟨equal, value, program, ?_⟩
    cases value' : (tree.map f).value with
    | ok v =>
        rw [value'] at alike
        cases alike
    | error misfit =>
        rw [value'] at alike
        cases misfit with
        | malformed => cases alike
        | invalidTarget equal' =>
            have same : equal' = f equal := Misfit.invalidTarget.inj (Except.error.inj alike)
            rw [Tree.toProgram, value', same]

/-- The values of a program are those of the tokens it was read from. -/
theorem values_of_parse {tokens : List Token} {p : Program} (parsed : parse tokens = .ok p) :
    p.values = literals tokens := by
  obtain ⟨canonical, written⟩ := canonical_of_parse parsed
  rw [Program.values, ← literals_of_fills written canonical.plain, literals, literals,
    List.filter_filter, List.filter_filter]
  refine congrArg (List.map Token.literal) (List.filter_congr fun t _ => ?_)
  rw [Token.isKept, Token.isSignificant]
  generalize t.kind = k
  cases k with
  | _ => rfl

/-! ## Faults -/

/-- What is wrong with some kinds, by the number of a significant token: the token is not expected,
    the end is not expected, or what stands before the token cannot be assigned to. -/
inductive Fault
  | unexpectedToken (index : Nat) (expected : List TokenKind)
  | unexpectedEnd (expected : List TokenKind)
  | invalidTarget (index : Nat)

/-- A fault as it is reported of some tokens: the tokens give the wording and the place. -/
def Fault.problem? (tokens : List Token) : Fault → Option Problem
  | unexpectedToken index expected =>
      (tokens.filter Token.isSignificant)[index]?.map fun t =>
        .ofCause (.unexpectedToken t.lexeme expected) t.position
  | unexpectedEnd expected => some (.ofCause (.unexpectedEnd expected) (endPosition tokens))
  | invalidTarget index =>
      (tokens.filter Token.isSignificant)[index]?.map fun t => .ofCause .invalidTarget t.position

/-- A fault has the same code and the same help, whatever tokens it is reported of. -/
theorem Fault.same_code_and_help (fault : Fault) {tokens others : List Token} {p q : Problem}
    (hp : fault.problem? tokens = some p) (hq : fault.problem? others = some q) :
    q.cause.code = p.cause.code ∧ q.cause.help = p.cause.help := by
  cases fault with
  | unexpectedToken index expected =>
      obtain ⟨t, -, rfl⟩ := Option.map_eq_some_iff.mp hp
      obtain ⟨u, -, rfl⟩ := Option.map_eq_some_iff.mp hq
      exact ⟨rfl, rfl⟩
  | unexpectedEnd expected =>
      cases hp
      cases hq
      exact ⟨rfl, rfl⟩
  | invalidTarget index =>
      obtain ⟨t, -, rfl⟩ := Option.map_eq_some_iff.mp hp
      obtain ⟨u, -, rfl⟩ := Option.map_eq_some_iff.mp hq
      exact ⟨rfl, rfl⟩

/-- Every fault is an unexpected token or an invalid target. -/
theorem Fault.code_of_problem (fault : Fault) {tokens : List Token} {p : Problem}
    (h : fault.problem? tokens = some p) :
    p.cause.code = some .unexpectedToken ∨ p.cause.code = some .invalidTarget := by
  cases fault with
  | unexpectedToken index expected =>
      obtain ⟨t, -, rfl⟩ := Option.map_eq_some_iff.mp h
      exact Or.inl rfl
  | unexpectedEnd expected =>
      cases h
      exact Or.inl rfl
  | invalidTarget index =>
      obtain ⟨t, -, rfl⟩ := Option.map_eq_some_iff.mp h
      exact Or.inr rfl

/-! ## Tokens with numbers -/

/-- Tokens of some kinds that have nothing but their kind and their number. -/
def numbered (ks : List TokenKind) : List Token :=
  ks.zipIdx.map fun (k, i) => { kind := k, lexeme := "", position := ⟨i, 0⟩ }

/-- The token with the number of a numbered one. -/
def restored (ts : List Token) (t : Token) : Token :=
  match ts[t.position.line.toNat]? with
  | some u => if u.kind = t.kind then u else t
  | none => t

theorem kind_restored (ts : List Token) (t : Token) : (restored ts t).kind = t.kind := by
  rw [restored]
  split
  · split
    · assumption
    · rfl
  · rfl

/-- All tokens of some kinds are changes of the numbered ones. -/
theorem map_restored (ts : List Token) : (numbered (ts.map Token.kind)).map (restored ts) = ts := by
  refine List.ext_getElem (by simp [numbered]) fun i h h' => ?_
  simp [numbered, restored, h']

/-- The token with a number is the change of the numbered one. -/
theorem getElem?_of_numbered {ts : List Token} {i : Nat} {t : Token}
    (h : (numbered (ts.map Token.kind))[i]? = some t) : ts[i]? = some (restored ts t) := by
  have same := congrArg (·[i]?) (map_restored ts)
  simp only [List.getElem?_map, h] at same
  exact same.symm

theorem kind_numbered (ks : List TokenKind) : (numbered ks).map Token.kind = ks := by
  rw [numbered, List.map_map]
  exact List.zipIdx_map_fst 0 ks

/-! ## Verdicts -/

theorem kind_ne_eof_of_numbered (tokens : List Token) :
    ∀ t ∈ numbered (significantKinds tokens), t.kind ≠ .eof := by
  intro t ht
  have kind := List.mem_map_of_mem (f := Token.kind) ht
  rw [kind_numbered] at kind
  obtain ⟨u, hu, same⟩ := List.mem_map.mp kind
  rw [← same]
  exact kind_ne_eof_of_mem u hu

/-- What is read of any tokens is what is read of the numbered ones, changed. -/
theorem read_restored (tokens : List Token) :
    automaton.read [] (tokens.filter Token.isSignificant)
      = (automaton.read [] (numbered (significantKinds tokens))).map
          (restored (tokens.filter Token.isSignificant)) := by
  have read := read_map_of_kinds (kind_restored (tokens.filter Token.isSignificant))
    (kind_ne_eof_of_numbered tokens)
  rwa [significantKinds, map_restored] at read

/-- What is read of the numbered tokens of a sentence forms a program, whatever the tokens are, or
    an equals sign of the same number has an invalid target. -/
theorem verdict_of_sentence {ks : List TokenKind} (sentence : ks ∈ sentences) :
    (∀ tokens, significantKinds tokens = ks → ∃ p, parse tokens = .ok p)
    ∨ ∃ i, ∀ tokens, significantKinds tokens = ks →
        ∃ q, (Fault.invalidTarget i).problem? tokens = some q ∧ parse tokens = .error q := by
  rw [← kind_numbered ks] at sentence
  obtain ⟨tree, read, fits, near, root, leaves⟩ :=
    Automaton.exists_accepted_of_mem automaton_certified automaton_rules sentence
  have outcome := outcome_of_fits fits near root (by decide)
  rw [leaves] at outcome
  cases value : tree.value with
  | ok v =>
      refine Or.inl fun tokens same => ?_
      subst same
      have reads := read_restored tokens
      rw [read] at reads
      rcases toProgram_map (restored (tokens.filter Token.isSignificant)) fits root with
        ⟨_, p', -, program, -⟩ | ⟨_, invalid, -⟩
      · exact ⟨p', by simp only [parse, reads, Automaton.Reading.map, program]⟩
      · cases value.symm.trans invalid
  | error misfit =>
      rw [value] at outcome
      cases misfit with
      | malformed => exact outcome.elim
      | invalidTarget equal =>
          obtain ⟨i, at_i⟩ := List.mem_iff_getElem?.mp (List.mem_of_mem_filter outcome.1)
          refine Or.inr ⟨i, fun tokens same => ?_⟩
          subst same
          have reads := read_restored tokens
          rw [read] at reads
          refine ⟨_, congrArg (Option.map _) (getElem?_of_numbered at_i), ?_⟩
          rcases toProgram_map (restored (tokens.filter Token.isSignificant)) fits root with
            ⟨p, -, program, -⟩ | ⟨equal', invalid, -, program⟩
          · rw [Tree.toProgram, value] at program
            cases program
          · cases value.symm.trans invalid
            simp only [parse, reads, Automaton.Reading.map, program]

/-- What is no sentence is refused at the token of the same number, or at the end, whatever the
    tokens are. -/
theorem verdict_of_not_sentence {tokens : List Token} (h : significantKinds tokens ∉ sentences) :
    ∃ fault : Fault, ∀ others, significantKinds others = significantKinds tokens →
      ∃ q, fault.problem? others = some q ∧ parse others = .error q := by
  rcases Automaton.read_cases automaton_certified automaton_rules .nil
      (numbered (significantKinds tokens)) (kind_ne_eof_of_numbered tokens) with
    ⟨tree, -, fits, root, leaves⟩ | ⟨done, rest, expected, _, split, -, -, read, -⟩
  · have sentence : (numbered (significantKinds tokens)).map Token.kind ∈ sentences :=
      map_kind_mem_language_iff.mpr ⟨tree, fits, root, leaves⟩
    rw [kind_numbered] at sentence
    exact absurd sentence h
  · cases rest with
    | nil =>
        refine ⟨.unexpectedEnd expected, fun others same => ⟨_, rfl, ?_⟩⟩
        have reads := read_restored others
        rw [same, read] at reads
        simp only [parse, reads, Automaton.Reading.map, List.map_nil]
    | cons t rest =>
        have at_length : (numbered (significantKinds tokens))[done.length]? = some t := by
          rw [split, List.getElem?_append_right (Nat.le_refl _), Nat.sub_self]
          rfl
        refine ⟨.unexpectedToken done.length expected, fun others same => ?_⟩
        rw [← same] at at_length
        refine ⟨_, congrArg (Option.map _) (getElem?_of_numbered at_length), ?_⟩
        have reads := read_restored others
        rw [same, read] at reads
        simp only [parse, reads, Automaton.Reading.map, List.map_cons]

/-- Whether some tokens form a program, and what is wrong if they do not, is told from their
    kinds. -/
theorem exists_verdict (tokens : List Token) :
    (∀ others, significantKinds others = significantKinds tokens → ∃ p, parse others = .ok p)
    ∨ ∃ fault : Fault, ∀ others, significantKinds others = significantKinds tokens →
        ∃ q, fault.problem? others = some q ∧ parse others = .error q := by
  by_cases sentence : significantKinds tokens ∈ sentences
  · exact (verdict_of_sentence sentence).imp_right fun ⟨i, reported⟩ => ⟨_, reported⟩
  · exact Or.inr (verdict_of_not_sentence sentence)

/-- What tokens form a program of, other tokens of the same kinds form the same program of, but for
    its tokens and values. -/
theorem exists_parse_map {f : Token → Token} (kinds : ∀ t, (f t).kind = t.kind)
    {tokens : List Token} {p : Program} (parsed : parse tokens = .ok p) :
    ∃ p', parse (tokens.map f) = .ok p' ∧ p'.map id Literal.blank = p.map f Literal.blank := by
  have noEnd : ∀ t ∈ tokens.filter Token.isSignificant, t.kind ≠ .eof := kind_ne_eof_of_mem
  have reads := read_map_of_kinds kinds noEnd
  rw [← significant_map kinds] at reads
  rcases read_significant tokens with ⟨tree, read, fits, root⟩ | ⟨rest, expected, read⟩
  · rw [read] at reads
    rcases toProgram_map f fits root with ⟨q, q', program, program', alike⟩ | ⟨equal, -, invalid, -⟩
    · simp only [parse, read, program] at parsed
      cases parsed
      exact ⟨q', by simp only [parse, reads, Automaton.Reading.map, program'], alike⟩
    · simp only [parse, read, invalid] at parsed
      cases parsed
  · simp only [parse, read] at parsed
    cases rest with
    | nil => cases parsed
    | cons t rest => cases parsed

/-- Comments and end tokens make no difference, but that an unexpected end is reported where the
    last token stands. -/
theorem parse_of_same_significant {tokens others : List Token}
    (same : others.filter Token.isSignificant = tokens.filter Token.isSignificant) :
    parse others = parse tokens
    ∨ ∃ expected, parse tokens = .error (.ofCause (.unexpectedEnd expected) (endPosition tokens))
      ∧ parse others = .error (.ofCause (.unexpectedEnd expected) (endPosition others)) := by
  rcases read_significant tokens with ⟨tree, read, -, -⟩ | ⟨rest, expected, read⟩
  · simp only [parse, same, read, true_or]
  · cases rest with
    | nil => exact Or.inr ⟨expected, by simp only [parse, read], by simp only [parse, same, read]⟩
    | cons t rest => simp only [parse, same, read, true_or]

/-- The parser looks only at kinds.  With every token changed to one of the same kind, tokens that
    form a program form the same program but for its tokens and values: it keeps the changed token
    wherever it kept one, and its literals have the values of the changed tokens that denote values,
    one after the other.  Tokens that form no program have a fault that all tokens of the same
    significant kinds have: it is reported with the same code and help, of the significant token
    with the same number or of the end, and tokens decide only how it is worded and placed.  More
    or fewer comments and end tokens change nothing, but that an unexpected end is reported where
    the last token stands. -/
theorem parser_looks_only_at_kinds (tokens : List Token) :
    (∀ p, parse tokens = .ok p → ∀ f : Token → Token, (∀ t, (f t).kind = t.kind) →
      ∃ p', parse (tokens.map f) = .ok p'
        ∧ p'.map id Literal.blank = p.map f Literal.blank
        ∧ p.values = literals tokens ∧ p'.values = literals (tokens.map f))
    ∧ (∀ q, parse tokens = .error q →
      (q.cause.code = some .unexpectedToken ∨ q.cause.code = some .invalidTarget)
      ∧ ∃ fault : Fault, fault.problem? tokens = some q
        ∧ ∀ others, significantKinds others = significantKinds tokens →
          ∃ q', parse others = .error q' ∧ fault.problem? others = some q'
            ∧ q'.cause.code = q.cause.code ∧ q'.cause.help = q.cause.help)
    ∧ ∀ others, others.filter Token.isSignificant = tokens.filter Token.isSignificant →
      parse others = parse tokens
      ∨ ∃ expected,
        parse tokens = .error (.ofCause (.unexpectedEnd expected) (endPosition tokens))
        ∧ parse others = .error (.ofCause (.unexpectedEnd expected) (endPosition others)) := by
  refine ⟨fun p parsed f kinds => ?_, fun q refused => ?_, fun others => parse_of_same_significant⟩
  · obtain ⟨p', parsed', alike⟩ := exists_parse_map kinds parsed
    exact ⟨p', parsed', alike, values_of_parse parsed, values_of_parse parsed'⟩
  · rcases exists_verdict tokens with formed | ⟨fault, reported⟩
    · obtain ⟨p, parsed⟩ := formed tokens rfl
      cases refused.symm.trans parsed
    · obtain ⟨q', problem, refused'⟩ := reported tokens rfl
      cases refused.symm.trans refused'
      refine ⟨fault.code_of_problem problem, fault, problem, fun others same => ?_⟩
      obtain ⟨q', problem', refused'⟩ := reported others same
      exact ⟨q', refused', problem', fault.same_code_and_help problem problem'⟩

/-- A string without a lexeme and with a value that is no text is still a literal, and what is said
    of an arrow that no rule speaks of does not depend on its lexeme. -/
theorem empty_lexemes_are_parsed :
    let print : Token := ⟨.kwPrint, "print", .null, ⟨1, 1⟩⟩
    let string : Token := ⟨.string, "\"a\"", .text "a", ⟨1, 7⟩⟩
    let tokens := [print, string, .endAt ⟨2, 1⟩, tokenOf .semicolon]
    let arrow : Token := ⟨.arrow, "->", .null, ⟨1, 1⟩⟩
    let empty : Token → Token := fun t => ⟨t.kind, "", .null, ⟨0, 0⟩⟩
    (∃ p, parse (tokens.map empty) = .ok p ∧ p.values = [.null]
      ∧ p.map id Literal.blank = ⟨[.print (empty print) (.literal .null)]⟩)
    ∧ (∃ q q', parse [arrow] = .error q ∧ parse [tokenOf .comment, empty arrow] = .error q'
      ∧ q'.cause.code = q.cause.code ∧ q'.cause.help = q.cause.help)
    ∧ parse [tokenOf .comment, print, string, tokenOf .semicolon] = parse tokens := by
  intro print string tokens arrow empty
  have canonical : Program.Canonical ⟨[.print print (.literal (.text "a"))]⟩ :=
    List.forall_mem_singleton.mpr (.print rfl (.literal _))
  have written : Program.WrittenAs ⟨[.print print (.literal (.text "a"))]⟩
      (tokens.filter Token.isSignificant) := .cons rfl (.cons ⟨rfl, rfl⟩ (.cons rfl .nil))
  have parsed := parse_of_writtenAs canonical written
  obtain ⟨maps, -, same⟩ := parser_looks_only_at_kinds tokens
  refine ⟨?_, ?_, ?_⟩
  · obtain ⟨p, parsed', alike, -, values⟩ := maps _ parsed empty fun _ => rfl
    exact ⟨p, parsed', values, alike⟩
  · have unknown : significantKinds [arrow] ∉ sentences := by
      intro sentence
      obtain ⟨r, rule, -, inRule⟩ :=
        exists_rule_of_mem_sentence sentence .arrow List.mem_cons_self
      exact absurd inRule ((by decide : ∀ r ∈ grammar, .terminal .arrow ∉ r.right) r rule)
    obtain ⟨q, refused, -⟩ := exists_refused unknown
    obtain ⟨-, faults, -⟩ := parser_looks_only_at_kinds [arrow]
    obtain ⟨-, _, -, others⟩ := faults q refused
    obtain ⟨q', refused', -, code, help⟩ := others [tokenOf .comment, empty arrow] rfl
    exact ⟨q, q', refused, refused', code, help⟩
  · rcases same [tokenOf .comment, print, string, tokenOf .semicolon] rfl with equal | ⟨_, fails, -⟩
    · exact equal
    · cases parsed.symm.trans fails

end ScriptFront
