import ScriptFront.Proofs.Grammar.Certificate

/-! # Items — what a certified automaton can rely on

    The checks of a certificate, read as statements about the states.  A nonterminal begins in a
    state if some item of the kernel has its dot before it, or before a nonterminal one of whose
    rules begins with it, and so on.  `Begins` says so, and `Opened` adds a kind that may stand
    behind it.

    * `exists_advanced`, `applied_of_complete`: a state goes on with every item of its kernel;
    * `exists_begun_of_begins`, `exists_begun_of_opened`, `applied_of_opened`: and with every rule
      of a nonterminal that begins or is opened;
    * `stems_of_edge`: no item comes from nowhere;
    * `exists_goto`: where a nonterminal begins, an edge waits for it. -/

namespace ScriptFront.Grammar

/-! ## Beginnings -/

/-- A nonterminal that begins in a state. -/
inductive State.Begins (rules : List Rule) (s : State) : Nonterminal → Prop
  | kernel {i : Item} {n : Nonterminal} {rest : List Symbol} (mem : i ∈ s.kernel)
      (dot : i.behind = .nonterminal n :: rest) : Begins rules s n
  | corner {m n : Nonterminal} {r : Rule} {rest : List Symbol} (outer : Begins rules s m)
      (mem : r ∈ rules) (left : r.left = m) (right : r.right = .nonterminal n :: rest) :
      Begins rules s n

/-- A nonterminal that begins in a state where a kind may stand behind it. -/
inductive State.Opened (rules : List Rule) (o : Outlook) (s : State) :
    Nonterminal → TokenKind → Prop
  | kernel {i : Item} {n : Nonterminal} {rest : List Symbol} {k : TokenKind} (mem : i ∈ s.kernel)
      (dot : i.behind = .nonterminal n :: rest)
      (next : (o.ahead i.follow rest).contains k = true) : Opened rules o s n k
  | corner {m n : Nonterminal} {r : Rule} {rest : List Symbol} {k k' : TokenKind}
      (outer : Opened rules o s m k) (mem : r ∈ rules) (left : r.left = m)
      (right : r.right = .nonterminal n :: rest)
      (next : (o.ahead (.singleton k) rest).contains k' = true) : Opened rules o s n k'

/-! ## Sets of kinds -/

theorem KindSet.contains_self (k : TokenKind) : (KindSet.singleton k).contains k = true := by
  rw [KindSet.contains_singleton, decide_eq_true_eq]

theorem Ahead.contains_resolve {h : Ahead} {follow : KindSet} {k : TokenKind} :
    (h.resolve follow).contains k = true
      ↔ h.kinds.contains k = true ∨ h.inherits = true ∧ follow.contains k = true := by
  rw [Ahead.resolve]
  cases h.inherits with
  | true => simp
  | false => simp

theorem Ahead.contains_resolve_of_le {h h' : Ahead} (le : h.le h' = true) {follow : KindSet}
    {k : TokenKind} (hk : (h.resolve follow).contains k = true) :
    (h'.resolve follow).contains k = true := by
  rw [Ahead.le, Bool.and_eq_true, Bool.or_eq_true, Bool.not_eq_true'] at le
  rw [contains_resolve] at hk ⊢
  rcases hk with hk | ⟨inherits, hk⟩
  · exact Or.inl (KindSet.contains_of_subset le.1 hk)
  · refine Or.inr ⟨le.2.resolve_left ?_, hk⟩
    rw [inherits]
    exact Bool.noConfusion

/-- Every kind but that of comments is among the terminals. -/
theorem mem_terminals (k : TokenKind) : k ∈ .comment :: TokenKind.terminals := by
  cases k <;> decide

variable {a : Automaton} {o : Outlook}

/-! ## Rules and corners -/

theorem exists_row_of_mem_cornersOf {n m : Nonterminal} {h : Ahead}
    (mem : (m, h) ∈ o.cornersOf n) :
    ∃ row, o.corners.get? n = some row ∧ o.cornersOf n = row := by
  rw [Outlook.cornersOf] at mem
  cases row : o.corners.get? n with
  | none =>
      rw [row] at mem
      exact nomatch mem
  | some r => exact ⟨r, rfl, by rw [Outlook.cornersOf, row, Option.getD_some]⟩

section Tables

variable {rules : List Rule} (ok : o.certified rules = true)

include ok

theorem admits_of_mem {r : Rule} {j : Nat} (h : rules[j]? = some r) :
    o.admits rules (j, r) = true := by
  simp only [Outlook.certified, Bool.and_eq_true] at ok
  exact List.all_eq_true.mp ok.1.1.1 (r, j) (List.mem_zipIdx_iff_getElem?.mpr h)

theorem mem_rulesOf {r : Rule} {j : Nat} (h : rules[j]? = some r) :
    (j, r) ∈ o.rulesOf r.left := by
  have admitted := admits_of_mem ok h
  simp only [Outlook.admits, Bool.and_eq_true] at admitted
  obtain ⟨e, he, heq⟩ := List.any_eq_true.mp admitted.1.1
  rwa [of_decide_eq_true heq] at he

theorem of_mem_rulesOf {r : Rule} {j : Nat} {n : Nonterminal} (h : (j, r) ∈ o.rulesOf n) :
    r.left = n ∧ rules[j]? = some r := by
  rw [Outlook.rulesOf] at h
  cases row : o.byLeft.get? n with
  | none =>
      rw [row] at h
      exact nomatch h
  | some es =>
      rw [row, Option.getD_some] at h
      simp only [Outlook.certified, Bool.and_eq_true] at ok
      have listed := List.all_eq_true.mp ok.1.2 (n, es) (Table.mem_of_get? row)
      have both := List.all_eq_true.mp listed (j, r) h
      rw [Bool.and_eq_true, decide_eq_true_eq, decide_eq_true_eq] at both
      exact both

/-- Behind the first symbol of a rule everything is solid. -/
theorem isSolid_of_mem_tail {r : Rule} (h : r ∈ rules) {x : Symbol} (hx : x ∈ r.right.tail) :
    x.isSolid = true := by
  obtain ⟨j, hj⟩ := List.mem_iff_getElem?.mp h
  have admitted := admits_of_mem ok hj
  simp only [Outlook.admits, Bool.and_eq_true] at admitted
  exact List.all_eq_true.mp admitted.1.2 x hx

/-- A rule of a solid nonterminal begins with a solid symbol, whose first kinds are first kinds of
    the nonterminal. -/
theorem exists_first_of_isSolid {r : Rule} (h : r ∈ rules)
    (solid : (Symbol.nonterminal r.left).isSolid = true) :
    ∃ x rest, r.right = x :: rest ∧ x.isSolid = true
      ∧ (firstOf o.first x).subset (firstOf o.first (.nonterminal r.left)) = true := by
  obtain ⟨j, hj⟩ := List.mem_iff_getElem?.mp h
  have admitted := admits_of_mem ok hj
  simp only [Outlook.admits, Bool.and_eq_true] at admitted
  replace admitted := admitted.2
  split at admitted
  · rw [solid] at admitted
    exact nomatch admitted
  · next x heq =>
      rw [solid, Bool.not_true, Bool.or_false, Bool.and_eq_true, Bool.and_eq_true] at admitted
      exact ⟨x, [], heq, admitted.1.2, admitted.1.1⟩
  · next x rest _ heq =>
      rw [solid, Bool.not_true, Bool.or_false, Bool.and_eq_true] at admitted
      exact ⟨x, rest, heq, admitted.2, admitted.1⟩

/-- The symbol of a rule with one symbol comes later in the order of rules. -/
theorem rank_lt_of_unit {r : Rule} (h : r ∈ rules) {x : Symbol} (hx : r.right = [x]) :
    Symbol.rank rules (.nonterminal r.left) < Symbol.rank rules x := by
  obtain ⟨j, hj⟩ := List.mem_iff_getElem?.mp h
  have admitted := admits_of_mem ok hj
  simp only [Outlook.admits, hx, Bool.and_eq_true, decide_eq_true_eq] at admitted
  exact admitted.2.2

/-- Nothing but the word itself begins with an `else`. -/
theorem not_contains_else (n : Nonterminal) :
    (firstOf o.first (.nonterminal n)).contains .kwElse = false := by
  rw [firstOf]
  cases row : o.first.get? n with
  | none => exact KindSet.contains_empty _
  | some kinds =>
      simp only [Outlook.certified, Bool.and_eq_true] at ok
      have h := List.all_eq_true.mp ok.1.1.2 (n, kinds) (Table.mem_of_get? row)
      rw [Bool.not_eq_true'] at h
      exact h

theorem corners_certified {n : Nonterminal} {row : Table Ahead}
    (h : o.corners.get? n = some row) : o.grounded n [] row = true ∧ o.closed row = true := by
  simp only [Outlook.certified, Bool.and_eq_true] at ok
  have both := List.all_eq_true.mp ok.2 (n, row) (Table.mem_of_get? h)
  rwa [Bool.and_eq_true] at both

/-- What begins a rule of a corner is a corner, with all that may stand behind it. -/
theorem exists_corner_of_rule {n m l : Nonterminal} {h : Ahead} (mem : (m, h) ∈ o.cornersOf n)
    {r : Rule} (hr : r ∈ rules) (left : r.left = m) {rest : List Symbol}
    (right : r.right = .nonterminal l :: rest) :
    ∃ h', (l, h') ∈ o.cornersOf n ∧ (o.beyond h rest).le h' = true := by
  obtain ⟨row, hrow, eq⟩ := exists_row_of_mem_cornersOf mem
  have closed := (corners_certified ok hrow).2
  rw [eq] at mem ⊢
  obtain ⟨j, hj⟩ := List.mem_iff_getElem?.mp hr
  have here := List.all_eq_true.mp (List.all_eq_true.mp closed (m, h) mem) (j, r)
    (left ▸ mem_rulesOf ok hj)
  simp only [right] at here
  obtain ⟨⟨l', h'⟩, mem', both⟩ := List.any_eq_true.mp here
  rw [Bool.and_eq_true, decide_eq_true_eq] at both
  exact ⟨h', both.1 ▸ mem', both.2⟩

/-- The corners of a grounded table begin wherever the nonterminal itself and those seen before
    begin. -/
private theorem begins_of_grounded {s : State} {n : Nonterminal} (outer : s.Begins rules n) :
    ∀ (row : Table Ahead) (seen : List Nonterminal), o.grounded n seen row = true →
      (∀ l ∈ seen, s.Begins rules l) → ∀ m h, (m, h) ∈ row → s.Begins rules m := by
  intro row
  induction row with
  | nil =>
      intro seen _ _ m h mem
      exact nomatch mem
  | cons entry row ih =>
      intro seen grounded before m h mem
      obtain ⟨l, hl⟩ := entry
      rw [Outlook.grounded, Bool.and_eq_true, Bool.or_eq_true, decide_eq_true_eq] at grounded
      -- the first corner of the row is the nonterminal, or begins a rule of one seen before
      have here : s.Begins rules l := by
        rcases grounded.1 with rfl | stem
        · exact outer
        · obtain ⟨l', hl', some⟩ := List.any_eq_true.mp stem
          obtain ⟨⟨j, r⟩, he, head⟩ := List.any_eq_true.mp some
          obtain ⟨left, hj⟩ := of_mem_rulesOf ok he
          obtain ⟨rest, right⟩ := List.head?_eq_some_iff.mp (of_decide_eq_true head)
          exact .corner (before l' hl') (List.mem_of_getElem? hj) left right
      cases mem with
      | head => exact here
      | tail _ mem =>
          exact ih (l :: seen) grounded.2 (List.forall_mem_cons.mpr ⟨here, before⟩) m h mem

/-- A corner begins where its nonterminal begins. -/
theorem begins_of_mem_cornersOf {s : State} {n m : Nonterminal} {h : Ahead}
    (outer : s.Begins rules n) (mem : (m, h) ∈ o.cornersOf n) : s.Begins rules m := by
  obtain ⟨row, hrow, eq⟩ := exists_row_of_mem_cornersOf mem
  exact begins_of_grounded ok outer row [] (corners_certified ok hrow).1 nofun m h (eq ▸ mem)

end Tables

/-! ## States -/

/-- A state has an edge for the symbol at a dot, to a state with the dot moved on. -/
private theorem exists_of_leads {s : State} {x : Symbol} {j : Nat} {behind : List Symbol}
    {follow : KindSet} (h : a.leads s x j behind follow = true) :
    ∃ n t, s.edges.lookup x = some n ∧ a.states.get? n = some t ∧ ∃ i ∈ t.kernel, i.rule = j
      ∧ i.behind = behind ∧ ∀ k, follow.contains k = true → i.follow.contains k = true := by
  rw [Automaton.leads] at h
  split at h
  · exact nomatch h
  · next n hn =>
      split at h
      · exact nomatch h
      · next t ht =>
          obtain ⟨i, hi, all⟩ := List.any_eq_true.mp h
          rw [Bool.and_eq_true, Bool.and_eq_true, decide_eq_true_eq] at all
          exact ⟨n, t, hn, ht, i, hi, Nat.eq_of_beq_eq_true all.1.1, all.1.2,
            fun k hk => KindSet.contains_of_subset all.2 hk⟩

private theorem action_of_applies {s : State} {r : Rule} {follow : KindSet}
    (h : a.applies s r follow = true) {k : TokenKind} (hk : follow.contains k = true) :
    s.action? a.rules k = some (.apply r) ∨ k = .kwElse ∧ r = shortIf := by
  have here := List.all_eq_true.mp h k (mem_terminals k)
  simp only [hk, Bool.or_eq_true, Bool.and_eq_true, decide_eq_true_eq] at here
  exact here

section States

variable (ok : a.certified o = true)

include ok

theorem outlook_certified : o.certified a.rules = true := by
  rw [Automaton.certified, Bool.and_eq_true, Bool.and_eq_true] at ok
  exact ok.1.1

/-- The rule of the whole text is the first one, and the first state holds nothing else. -/
theorem exists_start : ∃ s r rest, a.states.get? a.start = some s ∧ a.rules = r :: rest
    ∧ ∀ i ∈ s.kernel, i.rule = 0 ∧ i.behind = r.right := by
  rw [Automaton.certified, Bool.and_eq_true, Bool.and_eq_true] at ok
  have start := ok.1.2
  rw [Automaton.startsWell] at start
  split at start
  · next s r rest hs hr =>
      refine ⟨s, r, rest, hs, hr, fun i hi => ?_⟩
      have both := List.all_eq_true.mp start i hi
      rw [Bool.and_eq_true, decide_eq_true_eq] at both
      exact ⟨Nat.eq_of_beq_eq_true both.1, both.2⟩
  · exact nomatch start

variable {name : Nat} {s : State} (get : a.states.get? name = some s)

include get

theorem sound_of_get? : a.sound o s = true := by
  rw [Automaton.certified, Bool.and_eq_true] at ok
  exact List.all_eq_true.mp ok.2 (name, s) (Index.mem_toList_of_get? get)

theorem exists_mem_kernel : ∃ i, i ∈ s.kernel := by
  have sound := sound_of_get? ok get
  simp only [Automaton.sound, Bool.and_eq_true, Bool.not_eq_true'] at sound
  exact List.exists_mem_of_ne_nil _ (List.isEmpty_eq_false_iff.mp sound.1.1.1)

private theorem advances_of_mem {i : Item} (hi : i ∈ s.kernel) : a.advances s i = true := by
  have sound := sound_of_get? ok get
  simp only [Automaton.sound, Bool.and_eq_true] at sound
  have both := List.all_eq_true.mp sound.1.1.2 i hi
  rw [Bool.and_eq_true] at both
  exact both.1

/-- The dot of an item can be moved on. -/
theorem exists_advanced {i : Item} (hi : i ∈ s.kernel) {x : Symbol} {rest : List Symbol}
    (dot : i.behind = x :: rest) :
    ∃ n t, s.edges.lookup x = some n ∧ a.states.get? n = some t ∧ ∃ j ∈ t.kernel,
      j.rule = i.rule ∧ j.behind = rest
        ∧ ∀ k, i.follow.contains k = true → j.follow.contains k = true := by
  have advances := advances_of_mem ok get hi
  rw [Automaton.advances] at advances
  split at advances
  · exact nomatch advances
  · rw [dot, Automaton.proceeds] at advances
    exact exists_of_leads advances

/-- A complete rule is applied on the kinds that may follow it. -/
theorem applied_of_complete {i : Item} (hi : i ∈ s.kernel) (dot : i.behind = []) {k : TokenKind}
    (hk : i.follow.contains k = true) :
    ∃ r, a.rules[i.rule]? = some r
      ∧ (s.action? a.rules k = some (.apply r) ∨ k = .kwElse ∧ r = shortIf) := by
  have advances := advances_of_mem ok get hi
  rw [Automaton.advances] at advances
  split at advances
  · exact nomatch advances
  · next r hr =>
      rw [dot, Automaton.proceeds] at advances
      exact ⟨r, hr, action_of_applies advances hk⟩

omit get in
/-- What is opened is a corner of a nonterminal at a dot, with the kind behind it. -/
private theorem exists_corner_of_opened {s : State} {n : Nonterminal} {k : TokenKind}
    (selves : ∀ i ∈ s.kernel, a.opens o s i = true) (h : s.Opened a.rules o n k) :
    ∃ i ∈ s.kernel, ∃ m rest, i.behind = .nonterminal m :: rest ∧ ∃ c, (n, c) ∈ o.cornersOf m
      ∧ (c.resolve (o.ahead i.follow rest)).contains k = true := by
  induction h with
  | @kernel i n rest k mem dot next =>
      have opens := selves i mem
      simp only [Automaton.opens, dot, Bool.and_eq_true] at opens
      obtain ⟨⟨m, c⟩, hc, both⟩ := List.any_eq_true.mp opens.1
      rw [Bool.and_eq_true, decide_eq_true_eq] at both
      exact ⟨i, mem, n, rest, dot, c, both.1 ▸ hc,
        Ahead.contains_resolve.mpr (Or.inr ⟨both.2, next⟩)⟩
  | @corner m n r rest k k' _ mem left right next ih =>
      obtain ⟨i, hi, l, behind, dot, c, hc, hk⟩ := ih
      obtain ⟨c', hc', le⟩ := exists_corner_of_rule (outlook_certified ok) hc mem left right
      refine ⟨i, hi, l, behind, dot, c', hc', Ahead.contains_resolve_of_le le ?_⟩
      -- a corner at the end of its rule is followed by whatever follows the rule
      cases rest with
      | nil =>
          rw [Outlook.ahead, KindSet.contains_singleton, decide_eq_true_eq] at next
          exact next ▸ hk
      | cons x xs => exact Ahead.contains_resolve.mpr (Or.inl next)

private theorem opens_of_mem {i : Item} (hi : i ∈ s.kernel) : a.opens o s i = true := by
  have sound := sound_of_get? ok get
  simp only [Automaton.sound, Bool.and_eq_true] at sound
  have both := List.all_eq_true.mp sound.1.1.2 i hi
  rw [Bool.and_eq_true] at both
  exact both.2

/-- A state proceeds with every rule of a corner of a nonterminal at a dot. -/
private theorem proceeds_of_mem_cornersOf {i : Item} (hi : i ∈ s.kernel) {m n : Nonterminal}
    {rest : List Symbol} (dot : i.behind = .nonterminal m :: rest) {c : Ahead}
    (hc : (n, c) ∈ o.cornersOf m) {j : Nat} {r : Rule} (hr : a.rules[j]? = some r)
    (left : r.left = n) :
    a.proceeds s j r r.right (c.resolve (o.ahead i.follow rest)) = true := by
  have opens := opens_of_mem ok get hi
  simp only [Automaton.opens, dot, Bool.and_eq_true] at opens
  have rules := List.all_eq_true.mp opens.2 (n, c) hc
  exact List.all_eq_true.mp rules (j, r) (left ▸ mem_rulesOf (outlook_certified ok) hr)

/-- A state can begin every rule of a nonterminal that is opened in it. -/
theorem exists_begun_of_opened {n : Nonterminal} {k : TokenKind} (h : s.Opened a.rules o n k)
    {j : Nat} {r : Rule} (hr : a.rules[j]? = some r) (left : r.left = n) {x : Symbol}
    {rest : List Symbol} (right : r.right = x :: rest) :
    ∃ n t, s.edges.lookup x = some n ∧ a.states.get? n = some t ∧ ∃ i ∈ t.kernel, i.rule = j
      ∧ i.behind = rest ∧ i.follow.contains k = true := by
  obtain ⟨i, hi, m, behind, dot, c, hc, hk⟩ :=
    exists_corner_of_opened ok (fun i hi => opens_of_mem ok get hi) h
  have proceeds := proceeds_of_mem_cornersOf ok get hi dot hc hr left
  rw [right, Automaton.proceeds] at proceeds
  obtain ⟨n', t, hn, ht, i', hi', rule, behind', follow⟩ := exists_of_leads proceeds
  exact ⟨n', t, hn, ht, i', hi', rule, behind', follow k hk⟩

/-- The empty rule of a nonterminal that is opened is applied. -/
theorem applied_of_opened {n : Nonterminal} {k : TokenKind} (h : s.Opened a.rules o n k)
    {j : Nat} {r : Rule} (hr : a.rules[j]? = some r) (left : r.left = n) (right : r.right = []) :
    s.action? a.rules k = some (.apply r) ∨ k = .kwElse ∧ r = shortIf := by
  obtain ⟨i, hi, m, behind, dot, c, hc, hk⟩ :=
    exists_corner_of_opened ok (fun i hi => opens_of_mem ok get hi) h
  have proceeds := proceeds_of_mem_cornersOf ok get hi dot hc hr left
  rw [right, Automaton.proceeds] at proceeds
  exact action_of_applies proceeds hk

/-- What begins is a corner of a nonterminal at a dot. -/
private theorem exists_corner_of_begins {n : Nonterminal} (h : s.Begins a.rules n) :
    ∃ i ∈ s.kernel, ∃ m rest, i.behind = .nonterminal m :: rest
      ∧ ∃ c, (n, c) ∈ o.cornersOf m := by
  induction h with
  | @kernel i n rest mem dot =>
      have opens := opens_of_mem ok get mem
      simp only [Automaton.opens, dot, Bool.and_eq_true] at opens
      obtain ⟨⟨m, c⟩, hc, both⟩ := List.any_eq_true.mp opens.1
      rw [Bool.and_eq_true, decide_eq_true_eq] at both
      exact ⟨i, mem, n, rest, dot, c, both.1 ▸ hc⟩
  | corner _ mem left right ih =>
      obtain ⟨i, hi, l, behind, dot, c, hc⟩ := ih
      obtain ⟨c', hc', -⟩ := exists_corner_of_rule (outlook_certified ok) hc mem left right
      exact ⟨i, hi, l, behind, dot, c', hc'⟩

/-- A state begins every rule of a nonterminal that begins in it. -/
theorem exists_begun_of_begins {n : Nonterminal} (h : s.Begins a.rules n) {j : Nat} {r : Rule}
    (hr : a.rules[j]? = some r) (left : r.left = n) {x : Symbol} {rest : List Symbol}
    (right : r.right = x :: rest) :
    ∃ name t, s.edges.lookup x = some name ∧ a.states.get? name = some t
      ∧ ∃ i ∈ t.kernel, i.rule = j ∧ i.behind = rest := by
  obtain ⟨i, hi, m, behind, dot, c, hc⟩ := exists_corner_of_begins ok get h
  have proceeds := proceeds_of_mem_cornersOf ok get hi dot hc hr left
  rw [right, Automaton.proceeds] at proceeds
  obtain ⟨name, t, edge, get', i', hi', rule, behind', -⟩ := exists_of_leads proceeds
  exact ⟨name, t, edge, get', i', hi', rule, behind'⟩

/-- Where a nonterminal begins there is an edge for it. -/
theorem exists_goto {n : Nonterminal} (h : s.Begins a.rules n) :
    ∃ name', s.edges.lookup (.nonterminal n) = some name' := by
  cases h with
  | kernel mem dot =>
      obtain ⟨name', -, edge, -⟩ := exists_advanced ok get mem dot
      exact ⟨name', edge⟩
  | corner outer mem left right =>
      obtain ⟨j, hj⟩ := List.mem_iff_getElem?.mp mem
      obtain ⟨name', -, edge, -⟩ := exists_begun_of_begins ok get outer hj left right
      exact ⟨name', edge⟩

omit get in
private theorem begins_of_check {s : State} {n : Nonterminal}
    (h : Automaton.begins o s n = true) : s.Begins a.rules n := by
  obtain ⟨i, hi, some⟩ := List.any_eq_true.mp h
  split at some
  · next m rest dot =>
      obtain ⟨⟨l, c⟩, hc, eq⟩ := List.any_eq_true.mp some
      have eq : l = n := of_decide_eq_true eq
      subst eq
      exact begins_of_mem_cornersOf (outlook_certified ok) (.kernel hi dot) hc
  · exact nomatch some

/-- An item behind an edge has moved its dot over the symbol, either in an item of the kernel or at
    the beginning of a rule. -/
theorem stems_of_edge {x : Symbol} {name' : Nat} (edge : s.edges.lookup x = some name') :
    ∃ t, a.states.get? name' = some t ∧ ∀ i ∈ t.kernel,
      (∃ j ∈ s.kernel, j.rule = i.rule ∧ j.behind = x :: i.behind)
        ∨ ∃ r, a.rules[i.rule]? = some r ∧ r.right = x :: i.behind
          ∧ s.Begins a.rules r.left := by
  have sound := sound_of_get? ok get
  simp only [Automaton.sound, Bool.and_eq_true] at sound
  obtain ⟨front, back, split, -⟩ := List.lookup_eq_some_iff.mp edge
  have traced := List.all_eq_true.mp sound.1.2 (x, name') (by rw [split]; simp)
  rw [Automaton.traced] at traced
  split at traced
  · exact nomatch traced
  · next t ht =>
      refine ⟨t, ht, fun i hi => ?_⟩
      have stems := List.all_eq_true.mp traced i hi
      rw [Automaton.stems, Bool.or_eq_true] at stems
      rcases stems with inKernel | atStart
      · obtain ⟨j, hj, both⟩ := List.any_eq_true.mp inKernel
        rw [Bool.and_eq_true, decide_eq_true_eq] at both
        exact Or.inl ⟨j, hj, Nat.eq_of_beq_eq_true both.1, both.2⟩
      · split at atStart
        · exact nomatch atStart
        · next r hr =>
            rw [Bool.and_eq_true, decide_eq_true_eq] at atStart
            exact Or.inr ⟨r, hr, atStart.1, begins_of_check ok atStart.2⟩

/-- A rule is applied where its dot has reached the end, or where it is empty and begins. -/
theorem complete_of_action {k : TokenKind} {r : Rule}
    (h : s.action? a.rules k = some (.apply r)) :
    ∃ j, a.rules[j]? = some r ∧ j ≠ 0
      ∧ ((∃ i ∈ s.kernel, i.rule = j ∧ i.behind = []) ∨ r.right = [] ∧ s.Begins a.rules r.left
        ∧ ∃ name' t, s.edges.lookup (.nonterminal r.left) = some name'
          ∧ a.states.get? name' = some t ∧ t.complete = []) := by
  have sound := sound_of_get? ok get
  simp only [Automaton.sound, Bool.and_eq_true] at sound
  rw [State.action?] at h
  split at h
  · exact nomatch h
  · split at h
    · exact nomatch h
    · next j follow found =>
        obtain ⟨rule, hr, eq⟩ := Option.map_eq_some_iff.mp h
        cases eq
        have completes := List.all_eq_true.mp sound.2 (j, follow) (List.mem_of_find?_eq_some found)
        simp only [Automaton.completes, hr, Bool.and_eq_true, Bool.or_eq_true,
          decide_eq_true_eq] at completes
        refine ⟨j, hr, ?_, ?_⟩
        · -- the rule of the whole text is complete before no kind
          rintro rfl
          have nowhere : follow = .empty := completes.1.resolve_left Bool.noConfusion
          have contains : follow.contains k = true := by simpa using List.find?_some found
          rw [nowhere, KindSet.contains_empty] at contains
          exact nomatch contains
        · have last := completes.2
          split at last
          · next right =>
              rw [Bool.and_eq_true] at last
              refine Or.inr ⟨right, begins_of_check ok last.1, ?_⟩
              replace last := last.2
              split at last
              · exact nomatch last
              · next name' edge =>
                  split at last
                  · exact nomatch last
                  · next t ht => exact ⟨name', t, edge, ht, List.isEmpty_iff.mp last⟩
          · obtain ⟨i, hi, both⟩ := List.any_eq_true.mp last
            rw [Bool.and_eq_true] at both
            exact Or.inl ⟨i, hi, Nat.eq_of_beq_eq_true both.1, List.isEmpty_iff.mp both.2⟩

end States

end ScriptFront.Grammar
