import ScriptFront.Proofs.Grammar.Reading
import ScriptFront.Proofs.Grammar.Viability

/-! # Acceptance — what the machine reads is a program, and what it refuses is hopeless

    Only the rule of the whole text speaks of the end of a text, so when the end has been shifted
    the one tree below it is that of a program.  A refused token is refused for what stands before
    it alone, and what stands before it is always the beginning of some program.

    * `read_of_nearest`: a tree of a program is read back from its tokens;
    * `read_cases`: the two ways in which reading can end;
    * `accepts_iff`: the sentences of the grammar are read, and nothing else;
    * `Path.exists_sentence_of_completes`, `exists_sentence_of_path`: whatever lies on a stack is
      the beginning of a sentence;
    * `Path.mem_sentences_of_apply`: it is one where a rule of a program is applied. -/

namespace ScriptFront.Grammar

/-! ## The end of a text -/

/-- The sentences of the language: the kinds of the tokens of programs. -/
abbrev sentences : Language TokenKind := (contextFree grammar .program).language

/-- A text is a program and its end. -/
theorem exists_program_of_text {w : List TokenKind}
    (h : (contextFree grammar .text).Derives [.nonterminal .text] (word w)) :
    ∃ v ∈ sentences, w = v ++ [.eof] := by
  have mem : (w.map tokenOf).map Token.kind ∈ (contextFree grammar .text).language := by
    rw [map_kind_map_tokenOf]
    exact h
  obtain ⟨t, fits, root, tokens⟩ := map_kind_mem_language_iff.mp mem
  cases fits with
  | leaf t => exact nomatch root
  | @node r cs hr roots children =>
      obtain rfl := eq_textRule_of_left r hr (Symbol.nonterminal.inj root)
      obtain ⟨p, rest, rfl, hp, hrest⟩ := List.map_eq_cons_iff.mp roots
      obtain ⟨e, rest, rfl, he, hrest⟩ := List.map_eq_cons_iff.mp hrest
      cases List.map_eq_nil_iff.mp hrest
      have fitsP : p.Fits grammar := children p List.mem_cons_self
      refine ⟨p.tokens.map Token.kind, map_kind_mem_language_iff.mpr ⟨p, fitsP, hp, rfl⟩, ?_⟩
      cases e with
      | node r cs => exact nomatch he
      | leaf e =>
          have kinds := congrArg (List.map Token.kind) tokens
          rw [map_kind_map_tokenOf] at kinds
          rw [← kinds]
          have kind : e.kind = .eof := Symbol.terminal.inj he
          simp [kind]

namespace Automaton

variable {a : Automaton} {o : Outlook} (ok : a.certified o = true) (language : a.rules = grammar)

include ok language

/-- The text as a whole never begins anew. -/
theorem Path.not_begins_text {stack : Stack} (h : a.Path stack) {s : State}
    (get : a.states.get? (a.top stack) = some s) : ¬ s.Begins a.rules .text := by
  intro begins
  cases begins with
  | kernel mem dot =>
      obtain ⟨r, frames, _, hr, -, right, -⟩ := h.exists_popped ok get mem
      refine text_not_mem_right r (language ▸ List.mem_of_getElem? hr) ?_
      rw [right, dot]
      simp
  | corner _ mem _ right =>
      refine text_not_mem_right _ (language ▸ mem) ?_
      rw [right]
      exact List.mem_cons_self

/-- What only the rule of the whole text speaks of is a program with nothing below it, or the end
    with a program and nothing else below it. -/
theorem Path.program_or_end {name : Nat} {t : Tree} {below : Stack}
    (h : a.Path (⟨name, t⟩ :: below)) (only : ∀ r ∈ grammar, t.root ∈ r.right → r = textRule) :
    t.root = .nonterminal .program ∧ below = []
    ∨ t.root = .terminal .eof ∧ ∃ f, below = [f] ∧ f.tree.root = .nonterminal .program := by
  obtain ⟨s, get⟩ := h.exists_state ok
  obtain ⟨i, hi⟩ := exists_mem_kernel ok get
  cases h with
  | push path edge _ =>
      obtain ⟨s', get', lookup⟩ := edge?_eq_some_iff.mp edge
      obtain ⟨t', ht, stems⟩ := stems_of_edge ok get' lookup
      cases ht.symm.trans get
      rcases stems i hi with ⟨j, hj, -, behind⟩ | ⟨r, hr, right, begins⟩
      · obtain ⟨r, frames, under, hr, rfl, right, bottom⟩ := path.exists_popped ok get' hj
        rw [behind] at right
        have mem : r ∈ grammar := language ▸ List.mem_of_getElem? hr
        obtain rfl : r = textRule := only r mem (by rw [right]; simp)
        rcases bottom with ⟨rfl, -⟩ | ⟨s₁, get₁, begins⟩
        · -- of the two symbols of the rule at most one lies below
          rw [List.append_nil]
          cases frames with
          | nil => exact Or.inl ⟨(List.cons.inj right).1.symm, rfl⟩
          | cons f rest =>
              have size := congrArg List.length right
              simp only [textRule, List.length_append, Stack.length_symbols, List.length_cons,
                List.length_nil] at size
              obtain rfl : rest = [] := List.eq_nil_of_length_eq_zero (by omega)
              obtain ⟨first, second⟩ := List.cons.inj right
              exact Or.inr ⟨(List.cons.inj second).1.symm, f, rfl, first.symm⟩
        · exact absurd begins (path.of_append.not_begins_text ok language get₁)
      · have mem : r ∈ grammar := language ▸ List.mem_of_getElem? hr
        obtain rfl : r = textRule := only r mem (by rw [right]; exact List.mem_cons_self)
        exact absurd begins (path.not_begins_text ok language get')

/-- Below the end of a text lies a program and nothing else. -/
theorem Path.eq_singleton_of_eof {name : Nat} {t : Token} {below : Stack}
    (h : a.Path (⟨name, .leaf t⟩ :: below)) (eof : t.kind = .eof) :
    ∃ f, below = [f] ∧ f.tree.root = .nonterminal .program := by
  have root : (Tree.leaf t).root = .terminal .eof := by rw [Tree.root_leaf, eof]
  rcases h.program_or_end ok language (root ▸ eq_textRule_of_eof_mem) with ⟨program, -⟩ | ⟨-, one⟩
  · exact nomatch program
  · exact one

/-- Below a program lies nothing. -/
theorem Path.eq_nil_of_program {name : Nat} {t : Tree} {below : Stack}
    (h : a.Path (⟨name, t⟩ :: below)) (root : t.root = .nonterminal .program) : below = [] := by
  rcases h.program_or_end ok language (root ▸ eq_textRule_of_program_mem) with ⟨-, none⟩ | ⟨eof, -⟩
  · exact none
  · exact nomatch root.symm.trans eof

/-! ## Reading to the end -/

/-- The tokens of a program are read to the tree of the program, provided that every `else` in it
    belongs to the nearest `if`. -/
theorem read_of_nearest {t : Tree} (fits : t.Fits grammar) (root : t.root = .nonterminal .program)
    (near : t.Nearest) : a.read [] t.tokens = .accepted t := by
  obtain ⟨s, r, rest, get, rules, start⟩ := exists_start ok
  obtain ⟨i, hi⟩ := exists_mem_kernel ok get
  have dot : i.behind = [.nonterminal .program, .terminal .eof] := by
    rw [(start i hi).2]
    rw [language] at rules
    cases rules
    rfl
  -- from the first state a program leads to the state that shifts the end
  obtain ⟨name, s', lookup, get', j, hj, -, dot', -⟩ := exists_advanced ok get hi dot
  obtain ⟨last, -, lookup', -⟩ := exists_advanced ok get' hj dot'
  have opened : ∀ n, t.root = .nonterminal n → s.Opened a.rules o n (look []) := by
    intro n hn
    cases root.symm.trans hn
    exact .kernel hi dot (KindSet.contains_self .eof)
  have reads : a.read [] (t.tokens ++ []) = a.read [⟨name, t⟩] [] :=
    reads_of_nearest ok (language ▸ fits) near .nil get (root ▸ lookup) opened
      fun _ (isElse : TokenKind.eof = .kwElse) => nomatch isElse
  have act : a.action? (a.top [⟨name, t⟩]) (Token.endAt .origin).kind = some (.shift last) :=
    action?_eq_some_iff.mpr ⟨s', get', action?_of_lookup lookup'⟩
  rw [List.append_nil] at reads
  rw [reads, read_nil, settle_of_shift act]

/-- Reading ends in one of two ways: all tokens are read to the tree of a program, or one token is
    refused for what stands before it, whatever comes behind. -/
theorem read_cases {stack : Stack} (h : a.Path stack) (ts : List Token)
    (noEnd : ∀ t ∈ ts, t.kind ≠ .eof) :
    (∃ t, a.read stack ts = .accepted t ∧ t.Fits grammar ∧ t.root = .nonterminal .program
      ∧ t.tokens = Stack.tokens stack ++ ts)
    ∨ ∃ done rest expected stack', ts = done ++ rest ∧ a.Path stack'
      ∧ Stack.tokens stack' = Stack.tokens stack ++ done
      ∧ a.read stack ts = .refused rest expected
      ∧ ∀ more : List Token, more.head? = rest.head? →
        a.read stack (done ++ more) = .refused more expected := by
  induction ts generalizing stack with
  | nil =>
      have proper := settle_proper ok (.endAt .origin) h
      cases settled : a.settle (.endAt .origin) stack with
      | shifted stack' =>
          rw [settled] at proper
          obtain ⟨path, name, below, rfl, tokens⟩ := proper
          obtain ⟨f, rfl, root⟩ := path.eq_singleton_of_eof ok language rfl
          have fits : f.tree.Fits a.rules := path.fits f (by simp)
          refine Or.inl ⟨f.tree, ?_, language ▸ fits, root, ?_⟩
          · rw [read_nil, settled]
          · rw [List.append_nil, ← tokens]
            rfl
      | refused name =>
          rw [settled] at proper
          obtain ⟨stack', path, -, tokens, -⟩ := proper
          have refused : a.read stack [] = .refused [] (a.expected name) := by
            rw [read_nil, settled]
          refine Or.inr ⟨[], [], a.expected name, stack', rfl, path, ?_, refused, ?_⟩
          · rw [tokens, List.append_nil]
          · intro more none
            rw [List.head?_eq_none_iff.mp none]
            exact refused
      | stuck =>
          rw [settled] at proper
          exact proper.elim
  | cons t ts ih =>
      have proper := settle_proper ok t h
      cases settled : a.settle t stack with
      | shifted stack' =>
          rw [settled] at proper
          obtain ⟨path, name, below, rfl, tokens⟩ := proper
          have onto : Stack.tokens (⟨name, .leaf t⟩ :: below) = Stack.tokens stack ++ [t] := by
            rw [Stack.tokens, tokens, Tree.tokens_leaf]
          have onward : ∀ more, a.read stack (t :: more)
              = a.read (⟨name, .leaf t⟩ :: below) more := by
            intro more
            rw [read_cons, settled]
          rcases ih path fun u hu => noEnd u (List.mem_cons_of_mem t hu) with
            ⟨tree, read, fits, root, leaves⟩ |
              ⟨done, rest, expected, top, rfl, pathTop, leaves, read, always⟩
          · refine Or.inl ⟨tree, (onward ts).trans read, fits, root, ?_⟩
            rw [leaves, onto, List.append_assoc]
            rfl
          · refine Or.inr ⟨t :: done, rest, expected, top, rfl, pathTop, ?_,
              (onward _).trans read, ?_⟩
            · rw [leaves, onto, List.append_assoc]
              rfl
            · intro more same
              exact (onward (done ++ more)).trans (always more same)
      | refused name =>
          rw [settled] at proper
          obtain ⟨stack', path, -, tokens, -⟩ := proper
          have refused : ∀ more, a.read stack (t :: more)
              = .refused (t :: more) (a.expected name) := by
            intro more
            rw [read_cons, settled]
          refine Or.inr ⟨[], t :: ts, a.expected name, stack', rfl, path, ?_, refused ts, ?_⟩
          · rw [tokens, List.append_nil]
          · intro more same
            obtain ⟨more, rfl⟩ := List.head?_eq_some_iff.mp same
            exact refused more
      | stuck =>
          rw [settled] at proper
          exact proper.elim

/-! ## Sentences -/

/-- The tokens of a sentence are read to a tree that has them as its leaves. -/
theorem exists_accepted_of_mem {ts : List Token} (h : ts.map Token.kind ∈ sentences) :
    ∃ t, a.read [] ts = .accepted t ∧ t.Fits grammar ∧ t.Nearest
      ∧ t.root = .nonterminal .program ∧ t.tokens = ts := by
  obtain ⟨t, fits, root, rfl⟩ := map_kind_mem_language_iff.mp h
  obtain ⟨t', fits', root', tokens, near⟩ := Tree.exists_nearest fits
  have read : a.read [] t'.tokens = .accepted t' :=
    read_of_nearest ok language fits' (root'.trans root) near
  exact ⟨t', tokens ▸ read, fits', near, root'.trans root, tokens⟩

/-- Exactly the sentences are read. -/
theorem accepts_iff {ts : List Token} (noEnd : ∀ t ∈ ts, t.kind ≠ .eof) :
    (∃ t, a.read [] ts = .accepted t) ↔ ts.map Token.kind ∈ sentences := by
  constructor
  · rintro ⟨t, accepted⟩
    rcases read_cases ok language .nil ts noEnd with
      ⟨t', _, fits, root, tokens⟩ | ⟨_, _, _, _, _, _, _, refused, _⟩
    · exact map_kind_mem_language_iff.mpr ⟨t', fits, root, tokens⟩
    · exact nomatch accepted.symm.trans refused
  · intro h
    obtain ⟨t, accepted, -⟩ := exists_accepted_of_mem ok language h
    exact ⟨t, accepted⟩

omit ok in
/-- What completes a text behind a stack, without the end of the text, completes a sentence and
    ends it. -/
theorem Path.exists_sentence_of_completes {stack : Stack} (h : a.Path stack)
    (noEnd : ∀ t ∈ Stack.tokens stack, t.kind ≠ .eof) {ts : List Token}
    (completes : Completes (Stack.symbols stack) ts) :
    ∃ v, ts.map Token.kind = v ++ [.eof]
      ∧ (Stack.tokens stack).map Token.kind ++ v ∈ sentences := by
  have derives : (contextFree grammar .text).Derives [.nonterminal .text]
      (word ((Stack.tokens stack ++ ts).map Token.kind)) := h.completes_tokens language completes
  obtain ⟨u, mem, eq⟩ := exists_program_of_text derives
  rw [List.map_append] at eq
  rcases List.eq_nil_or_concat (ts.map Token.kind) with none | ⟨v, k, some⟩
  · rw [none, List.append_nil] at eq
    have last : TokenKind.eof ∈ (Stack.tokens stack).map Token.kind := by simp [eq]
    obtain ⟨t, ht, kind⟩ := List.mem_map.mp last
    exact absurd kind (noEnd t ht)
  · -- the end is the last kind of a text, and without it the text is a sentence
    rw [some, List.concat_eq_append, ← List.append_assoc] at eq
    obtain ⟨init, last⟩ := List.append_inj' eq rfl
    exact ⟨v, by rw [some, List.concat_eq_append, last], init ▸ mem⟩

/-- Whatever lies on a stack, without the end of a text, is the beginning of a sentence. -/
theorem exists_sentence_of_path {stack : Stack} (h : a.Path stack)
    (noEnd : ∀ t ∈ Stack.tokens stack, t.kind ≠ .eof) :
    ∃ v, (Stack.tokens stack).map Token.kind ++ v ∈ sentences := by
  obtain ⟨ts, completes⟩ := h.exists_completed ok language
  obtain ⟨v, -, mem⟩ := h.exists_sentence_of_completes language noEnd completes
  exact ⟨v, mem⟩

/-- Where a rule of a program is applied, a sentence lies on the stack. -/
theorem Path.mem_sentences_of_apply {stack : Stack} (h : a.Path stack) {k : TokenKind} {r : Rule}
    (action : a.action? (a.top stack) k = some (.apply r)) (left : r.left = .program) :
    (Stack.tokens stack).map Token.kind ∈ sentences := by
  obtain ⟨frames, below, name, rfl, -, -, -, path, -⟩ := h.exists_reduced ok action
  have root : (Tree.node r (frames.map Frame.tree).reverse).root = .nonterminal .program := by
    rw [Tree.root_node, left]
  obtain rfl := path.eq_nil_of_program ok language root
  have fits : (Tree.node r (frames.map Frame.tree).reverse).Fits grammar :=
    language ▸ path.fits _ List.mem_cons_self
  refine map_kind_mem_language_iff.mpr ⟨_, fits, root, ?_⟩
  rw [Tree.tokens_node, Stack.tokens_append, Stack.tokens, List.nil_append]

end Automaton

end ScriptFront.Grammar
