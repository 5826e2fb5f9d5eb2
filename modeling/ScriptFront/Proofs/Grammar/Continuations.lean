import ScriptFront.Proofs.Grammar.Progress

/-! # Continuations — what a state expects, and what can really come

    When a token is refused, rules may have been applied for its sake that its state asks for, and
    the follow sets of the state are joined from all contexts.  So not everything that the state
    expects can come.  But a path through the automaton is a path, whatever was read to walk it:

    * `Path.exists_expected`: something that can come is expected;
    * `Path.exists_completed_of_shift`: whatever would be shifted can come. -/

namespace ScriptFront.Grammar.Automaton

variable {a : Automaton} {o : Outlook} (ok : a.certified o = true)

include ok

/-! ## Actions -/

/-- A state goes on with the first token of a tree that is opened in it, whatever comes behind. -/
theorem exists_action_of_opened {t : Tree} (fits : t.Fits a.rules) {name target : Nat} {s : State}
    (get : a.states.get? name = some s) (lookup : s.edges.lookup t.root = some target)
    {u : List Token} (opened : ∀ n, t.root = .nonterminal n → s.Opened a.rules o n (look u)) :
    ∃ act, s.action? a.rules (look (t.tokens ++ u)) = some act := by
  induction fits generalizing target u with
  | leaf t =>
      rw [Tree.tokens_leaf]
      exact ⟨_, action?_of_lookup lookup⟩
  | @node r cs mem roots fits ih =>
      replace opened := opened r.left rfl
      obtain ⟨j, hr⟩ := List.mem_iff_getElem?.mp mem
      rw [Tree.tokens_node]
      cases cs with
      | nil =>
          rcases applied_of_opened ok get opened hr rfl roots.symm with act | ⟨-, rfl⟩
          · exact ⟨_, act⟩
          · exact nomatch roots
      | cons c cs =>
          have right : r.right = c.root :: cs.map Tree.root := roots.symm
          obtain ⟨first, -, lookup', -⟩ := exists_begun_of_opened ok get opened hr rfl right
          rw [Tree.tokensOf_cons, List.append_assoc]
          refine ih c List.mem_cons_self lookup' fun n hn => ?_
          refine .corner opened mem rfl (by rw [right, hn]) ?_
          exact contains_ahead ok (fun d hd => fits d (List.mem_cons_of_mem c hd))
            (isSolid_of_mem_rest ok mem roots) fun _ => KindSet.contains_self _

variable (language : a.rules = grammar)

include language

/-- Where an `if` without `else` is read, one with an `else` is read as well. -/
theorem Path.exists_fullIf {stack : Stack} (h : a.Path stack) {s : State}
    (get : a.states.get? (a.top stack) = some s) {i : Item} (hi : i ∈ s.kernel)
    (isShort : a.rules[i.rule]? = some shortIf) :
    ∃ j ∈ s.kernel, a.rules[j.rule]? = some fullIf
      ∧ j.behind = i.behind ++ [.terminal .kwElse, .nonterminal .statement] := by
  induction h generalizing s i with
  | nil =>
      obtain ⟨s', r, rest, hs', rules, start⟩ := exists_start ok
      cases hs'.symm.trans get
      rw [(start i hi).1, language] at isShort
      exact nomatch isShort
  | push below edge _ ih =>
      obtain ⟨s', get', lookup⟩ := edge?_eq_some_iff.mp edge
      obtain ⟨t, ht, stems⟩ := stems_of_edge ok get' lookup
      cases ht.symm.trans get
      rcases stems i hi with ⟨j, hj, rule, behind⟩ | ⟨r, hr, right, begins⟩
      · obtain ⟨j', hj', isFull, behind'⟩ := ih get' hj (rule ▸ isShort)
        rw [behind, List.cons_append] at behind'
        obtain ⟨name', t', lookup', get'', k, hk, ruleK, behindK, -⟩ :=
          exists_advanced ok get' hj' behind'
        cases lookup.symm.trans lookup'
        cases ht.symm.trans get''
        exact ⟨k, hk, ruleK ▸ isFull, behindK⟩
      · -- both begin with the same symbols
        cases isShort.symm.trans hr
        obtain ⟨m, hm⟩ := List.mem_iff_getElem?.mp (language ▸ fullIf_mem : fullIf ∈ a.rules)
        have full : fullIf.right
            = _ :: (i.behind ++ [.terminal .kwElse, .nonterminal .statement]) :=
          congrArg (· ++ [Symbol.terminal .kwElse, .nonterminal .statement]) right
        obtain ⟨name', t', lookup', get'', k, hk, ruleK, behindK⟩ :=
          exists_begun_of_begins ok get' begins hm rfl full
        cases lookup.symm.trans lookup'
        cases ht.symm.trans get''
        exact ⟨k, hk, ruleK ▸ hm, behindK⟩

/-- Where the rule of an item is complete, something is done on each kind that may follow it. -/
theorem Path.exists_action_of_complete {stack : Stack} (h : a.Path stack) {s : State}
    (get : a.states.get? (a.top stack) = some s) {i : Item} (hi : i ∈ s.kernel)
    (complete : i.behind = []) {k : TokenKind} (next : i.follow.contains k = true) :
    ∃ act, s.action? a.rules k = some act := by
  obtain ⟨r, hr, act | ⟨rfl, rfl⟩⟩ := applied_of_complete ok get hi complete next
  · exact ⟨_, act⟩
  · -- the `if` that waits for its `else` is the one exception, and then the `else` is shifted
    obtain ⟨j, hj, -, behind⟩ := h.exists_fullIf ok language get hi hr
    rw [complete] at behind
    obtain ⟨target, -, lookup, -⟩ := exists_advanced ok get hj behind
    exact ⟨_, action?_of_lookup lookup⟩

/-- The rule of the whole text is complete only behind its end. -/
theorem Path.rule_ne_zero_of_complete {stack : Stack} (h : a.Path stack) {s : State}
    (get : a.states.get? (a.top stack) = some s) {i : Item} (hi : i ∈ s.kernel)
    (complete : i.behind = []) (noEnd : ∀ t ∈ Stack.tokens stack, t.kind ≠ .eof) : i.rule ≠ 0 := by
  intro zero
  obtain ⟨frames, below, rfl, text⟩ := h.exists_text ok get hi language zero
  rw [complete, List.append_nil] at text
  cases frames with
  | nil => exact nomatch text
  | cons f frames =>
      rw [Stack.symbols_cons] at text
      have last : Symbol.terminal .eof = f.tree.root :=
        (List.cons.inj (List.append_inj' text rfl).2).1
      cases tree : f.tree with
      | node r cs =>
          rw [tree] at last
          exact nomatch last
      | leaf t =>
          rw [tree] at last
          exact noEnd t (by simp [Stack.tokens, tree]) (Symbol.terminal.inj last).symm

/-! ## What is expected -/

variable {stack : Stack} (h : a.Path stack)

include h

/-- When the symbols behind a dot have been put for trees, the first token of these and of what may
    come behind the item is expected. -/
theorem Path.exists_action_of_sequel (noEnd : ∀ t ∈ Stack.tokens stack, t.kind ≠ .eof) {s : State}
    (get : a.states.get? (a.top stack) = some s) {i : Item} (hi : i ∈ s.kernel) {ts : List Token}
    (sequel : Sequel (Stack.symbols stack) i ts) {cs : List Tree}
    (roots : cs.map Tree.root = i.behind) (fits : ∀ c ∈ cs, c.Fits grammar) :
    ∃ act, s.action? a.rules (look (Tree.tokensOf cs ++ ts)) = some act := by
  cases cs with
  | nil =>
      have other := h.rule_ne_zero_of_complete ok language get hi roots.symm noEnd
      exact h.exists_action_of_complete ok language get hi roots.symm (sequel.next other)
  | cons c cs =>
      rw [List.map_cons] at roots
      obtain ⟨target, -, lookup, -⟩ := exists_advanced ok get hi roots.symm
      rw [Tree.tokensOf_cons, List.append_assoc]
      refine exists_action_of_opened ok (language ▸ fits c List.mem_cons_self) get lookup ?_
      intro n hn
      refine .kernel hi (by rw [← roots, hn]) ?_
      refine contains_ahead ok (fun d hd => language ▸ fits d (List.mem_cons_of_mem c hd)) ?_ ?_
      · intro d hd
        exact h.isSolid_behind ok get hi roots.symm _ (List.mem_map_of_mem hd)
      · rintro rfl
        have dot : i.behind = [.nonterminal n] := by rw [← roots, hn, List.map_nil]
        exact sequel.next (h.rule_ne_zero ok get hi language dot)

/-- Something that can come is expected, as long as the text has not come to its end. -/
theorem Path.exists_expected (noEnd : ∀ t ∈ Stack.tokens stack, t.kind ≠ .eof) :
    ∃ ts act, Completes (Stack.symbols stack) ts
      ∧ a.action? (a.top stack) (look ts) = some act := by
  obtain ⟨s, get⟩ := h.exists_state ok
  obtain ⟨i', hi'⟩ := exists_mem_kernel ok get
  obtain ⟨i, hi, -, -, ts, sequel⟩ := h.exists_sequel ok language get hi'
  obtain ⟨cs, roots, fits⟩ := exists_forest i.behind
  obtain ⟨act, action⟩ := h.exists_action_of_sequel ok language noEnd get hi sequel roots fits
  refine ⟨Tree.tokensOf cs ++ ts, act, .of_trees fits ?_, action?_eq_some_iff.mpr ⟨s, get, action⟩⟩
  rw [roots]
  exact sequel.completes

/-- Whatever would be shifted can come. -/
theorem Path.exists_completed_of_shift {k : TokenKind} {target : Nat}
    (action : a.action? (a.top stack) k = some (.shift target)) :
    ∃ ts, Completes (Stack.symbols stack) ts ∧ look ts = k := by
  have path : a.Path (⟨target, .leaf (tokenOf k)⟩ :: stack) :=
    .push h (edge_of_shift action) (.leaf _)
  obtain ⟨ts, completes⟩ := path.exists_completed ok language
  rw [Stack.symbols_cons] at completes
  have fits : ∀ c ∈ [Tree.leaf (tokenOf k)], c.Fits grammar :=
    List.forall_mem_singleton.mpr (.leaf _)
  exact ⟨_, .of_trees fits completes, rfl⟩

end ScriptFront.Grammar.Automaton
