import ScriptFront.Proofs.Grammar.Items

/-! # Stacks — what the machine keeps while it reads

    The frames of a stack are a path through the automaton: each state is reached from the one
    below by the root of its tree.  A complete rule therefore always finds its right side on top of
    the stack and an edge for its left side below it, and the tokens on the stack are those read so
    far.

    * `Path.exists_popped`: the symbols in front of a dot lie on the stack;
    * `Path.exists_reduced`: an applied rule never gets stuck;
    * `feed_proper`: a token is shifted or refused after finitely many rules. -/

namespace ScriptFront.Grammar

/-- The tokens below the trees of a stack, in the order in which they were read. -/
def Stack.tokens : Stack → List Token
  | [] => []
  | f :: below => Stack.tokens below ++ f.tree.tokens

theorem Stack.tokens_append (frames below : Stack) :
    Stack.tokens (frames ++ below)
      = Stack.tokens below ++ Tree.tokensOf (frames.map Frame.tree).reverse := by
  induction frames with
  | nil => simp
  | cons f frames ih =>
      rw [List.cons_append, Stack.tokens, ih]
      simp

/-- The symbols of some frames, the oldest first. -/
def Stack.symbols (frames : Stack) : List Symbol :=
  ((frames.map Frame.tree).reverse).map Tree.root

@[simp] theorem Stack.symbols_nil : Stack.symbols [] = [] := rfl

@[simp] theorem Stack.symbols_cons (f : Frame) (frames : Stack) :
    Stack.symbols (f :: frames) = Stack.symbols frames ++ [f.tree.root] := by
  simp [Stack.symbols]

@[simp] theorem Stack.symbols_append (frames below : Stack) :
    Stack.symbols (frames ++ below) = Stack.symbols below ++ Stack.symbols frames := by
  simp [Stack.symbols]

theorem Stack.length_symbols (frames : Stack) : (Stack.symbols frames).length = frames.length := by
  simp [Stack.symbols]

namespace Automaton

theorem edge?_eq_some_iff {a : Automaton} {name target : Nat} {x : Symbol} :
    a.edge? name x = some target
      ↔ ∃ s, a.states.get? name = some s ∧ s.edges.lookup x = some target := by
  rw [edge?, Option.bind_eq_some_iff]

theorem action?_eq_some_iff {a : Automaton} {name : Nat} {k : TokenKind} {act : Action} :
    a.action? name k = some act
      ↔ ∃ s, a.states.get? name = some s ∧ s.action? a.rules k = some act := by
  rw [action?, Option.bind_eq_some_iff]

/-- A token is shifted along the edge of its kind. -/
theorem edge_of_shift {a : Automaton} {name target : Nat} {k : TokenKind}
    (act : a.action? name k = some (.shift target)) : a.edge? name (.terminal k) = some target := by
  obtain ⟨s, get, act⟩ := action?_eq_some_iff.mp act
  rw [State.action?] at act
  split at act
  · next lookup =>
      cases act
      exact edge?_eq_some_iff.mpr ⟨s, get, lookup⟩
  · split at act
    · cases act
    · obtain ⟨_, -, eq⟩ := Option.map_eq_some_iff.mp act
      cases eq

/-- A stack whose states are reached one from the other by the roots of fitting trees. -/
inductive Path (a : Automaton) : Stack → Prop
  | nil : Path a []
  | push {stack : Stack} {name : Nat} {tree : Tree} (below : Path a stack)
      (edge : a.edge? (a.top stack) tree.root = some name) (fits : tree.Fits a.rules) :
      Path a (⟨name, tree⟩ :: stack)

variable {a : Automaton} {o : Outlook}

/-- A rule whose right side lies on the stack is applied to it. -/
theorem reduce?_append {r : Rule} {frames below : Stack} {name : Nat}
    (right : r.right = Stack.symbols frames)
    (edge : a.edge? (a.top below) (.nonterminal r.left) = some name) :
    a.reduce? r (frames ++ below)
      = some (⟨name, .node r (frames.map Frame.tree).reverse⟩ :: below) := by
  have size : r.right.length = frames.length := by
    rw [right, Stack.length_symbols]
  have enough : frames.length.ble (frames ++ below).length = true := by
    rw [Nat.ble_eq, List.length_append]
    exact Nat.le_add_right _ _
  simp only [reduce?, size, enough]
  rw [List.drop_left, List.take_left, edge, Option.map_some]

theorem Path.of_append {frames below : Stack} (h : a.Path (frames ++ below)) : a.Path below := by
  induction frames with
  | nil => exact h
  | cons f frames ih =>
      cases h with
      | push below => exact ih below

theorem Path.fits {stack : Stack} (h : a.Path stack) : ∀ f ∈ stack, f.tree.Fits a.rules := by
  induction h with
  | nil => exact nofun
  | push _ _ fits ih => exact List.forall_mem_cons.mpr ⟨fits, ih⟩

section Certified

variable (ok : a.certified o = true)

include ok

/-- The state on top of a path exists. -/
theorem Path.exists_state {stack : Stack} (h : a.Path stack) :
    ∃ s, a.states.get? (a.top stack) = some s := by
  cases h with
  | nil =>
      obtain ⟨s, _, _, hs, -⟩ := exists_start ok
      exact ⟨s, hs⟩
  | push _ edge _ =>
      obtain ⟨s, get, lookup⟩ := edge?_eq_some_iff.mp edge
      obtain ⟨t, ht, -⟩ := stems_of_edge ok get lookup
      exact ⟨t, ht⟩

/-- What stands before the dot of an item lies on the stack, and below it the rule begins, unless
    it is that of the whole text. -/
theorem Path.exists_popped {stack : Stack} (h : a.Path stack) {s : State}
    (get : a.states.get? (a.top stack) = some s) {i : Item} (hi : i ∈ s.kernel) :
    ∃ r frames below, a.rules[i.rule]? = some r ∧ stack = frames ++ below
      ∧ r.right = Stack.symbols frames ++ i.behind
      ∧ (below = [] ∧ i.rule = 0
        ∨ ∃ s', a.states.get? (a.top below) = some s' ∧ s'.Begins a.rules r.left) := by
  induction h generalizing s i with
  | nil =>
      -- nothing has been read, and the dot is at the beginning of the first rule
      obtain ⟨s', r, rest, hs', rules, start⟩ := exists_start ok
      cases hs'.symm.trans get
      obtain ⟨rule, behind⟩ := start i hi
      refine ⟨r, [], [], ?_, rfl, behind.symm, Or.inl ⟨rfl, rule⟩⟩
      rw [rules, rule]
      rfl
  | @push stack name tree below edge _ ih =>
      obtain ⟨s', get', lookup⟩ := edge?_eq_some_iff.mp edge
      obtain ⟨t, ht, stems⟩ := stems_of_edge ok get' lookup
      cases ht.symm.trans get
      -- the dot has come over the symbol in an item below, or at the beginning of a rule
      rcases stems i hi with ⟨j, hj, rule, behind⟩ | ⟨r, hr, right, begins⟩
      · obtain ⟨r, frames, under, hr, split, right, bottom⟩ := ih get' hj
        rw [rule] at hr bottom
        refine ⟨r, ⟨name, tree⟩ :: frames, under, hr, ?_, ?_, bottom⟩
        · rw [split, List.cons_append]
        · rw [right, behind, Stack.symbols_cons, List.append_assoc]
          rfl
      · exact ⟨r, [⟨name, tree⟩], stack, hr, rfl, right, Or.inr ⟨s', get', begins⟩⟩

/-- No kernel but the first has a dot at the end of an empty rule. -/
theorem Path.right_ne_nil {stack : Stack} (h : a.Path stack) {s : State}
    (get : a.states.get? (a.top stack) = some s) {i : Item} (hi : i ∈ s.kernel)
    (notText : i.rule ≠ 0) {r : Rule} (hr : a.rules[i.rule]? = some r) : r.right ≠ [] := by
  intro empty
  cases h with
  | nil =>
      obtain ⟨s', r', rest, hs', -, start⟩ := exists_start ok
      cases hs'.symm.trans get
      exact notText (start i hi).1
  | push below edge _ =>
      obtain ⟨s', get', lookup⟩ := edge?_eq_some_iff.mp edge
      obtain ⟨t, ht, stems⟩ := stems_of_edge ok get' lookup
      cases ht.symm.trans get
      -- the symbol of the edge stands before the dot
      rcases stems i hi with ⟨j, hj, rule, behind⟩ | ⟨r', hr', right, -⟩
      · obtain ⟨r', frames, _, hr', -, right, -⟩ := below.exists_popped ok get' hj
        rw [rule] at hr'
        cases hr.symm.trans hr'
        rw [empty, behind] at right
        simp at right
      · cases hr.symm.trans hr'
        rw [empty] at right
        cases right

/-- A rule that is applied finds its right side on the stack and an edge below it; behind an empty
    rule no other one is applied. -/
theorem Path.exists_reduced {stack : Stack} (h : a.Path stack) {k : TokenKind} {r : Rule}
    (act : a.action? (a.top stack) k = some (.apply r)) :
    ∃ frames below name, stack = frames ++ below ∧ r ∈ a.rules
      ∧ r.right = Stack.symbols frames
      ∧ a.reduce? r stack = some (⟨name, .node r (frames.map Frame.tree).reverse⟩ :: below)
      ∧ a.Path (⟨name, .node r (frames.map Frame.tree).reverse⟩ :: below)
      ∧ (frames = [] → ∃ t, a.states.get? name = some t ∧ t.complete = []) := by
  obtain ⟨s, get, act⟩ := action?_eq_some_iff.mp act
  obtain ⟨j, hr, hj, how⟩ := complete_of_action ok get act
  have mem : r ∈ a.rules := List.mem_of_getElem? hr
  -- where the rule ends, and that its left side begins below
  obtain ⟨frames, below, s', split, right, get', begins, empty⟩ :
      ∃ frames below s', stack = frames ++ below ∧ r.right = Stack.symbols frames
        ∧ a.states.get? (a.top below) = some s' ∧ s'.Begins a.rules r.left
        ∧ (frames = [] → ∃ name t, s'.edges.lookup (.nonterminal r.left) = some name
          ∧ a.states.get? name = some t ∧ t.complete = []) := by
    rcases how with ⟨i, hi, rule, behind⟩ | ⟨right, begins, target⟩
    · obtain ⟨r', frames, below, hr', split, right, bottom⟩ := h.exists_popped ok get hi
      rw [rule] at hr' bottom
      cases hr.symm.trans hr'
      rcases bottom with ⟨-, zero⟩ | ⟨s', get', begins⟩
      · exact absurd zero hj
      · rw [behind, List.append_nil] at right
        refine ⟨frames, below, s', split, right, get', begins, ?_⟩
        rintro rfl
        rw [← rule] at hj hr
        exact absurd right (h.right_ne_nil ok get hi hj hr)
    · exact ⟨[], stack, s, rfl, right, get, begins, fun _ => target⟩
  obtain ⟨name, goto⟩ := exists_goto ok get' begins
  have edge : a.edge? (a.top below) (.nonterminal r.left) = some name :=
    edge?_eq_some_iff.mpr ⟨s', get', goto⟩
  refine ⟨frames, below, name, split, mem, right, ?_, ?_, ?_⟩
  · rw [split]
    exact reduce?_append right edge
  · refine .push (split ▸ h).of_append edge (.node mem right.symm ?_)
    intro c hc
    obtain ⟨f, hf, rfl⟩ := List.mem_map.mp (List.mem_reverse.mp hc)
    exact h.fits f (by rw [split]; exact List.mem_append_left _ hf)
  · intro none
    obtain ⟨name', t, lookup, get, complete⟩ := empty none
    cases goto.symm.trans lookup
    exact ⟨t, get, complete⟩

/-! ## Every token is settled -/

/-- What bounds the number of rules applied to a stack: its height first, and then the place of its
    top in the order of rules. -/
def weight (a : Automaton) : Stack → Nat
  | [] => 0
  | f :: below => (below.length + 1) * (a.rules.length + 1) + f.tree.root.rank a.rules

omit ok in
theorem rank_le (x : Symbol) : x.rank a.rules ≤ a.rules.length := by
  cases x with
  | terminal k => exact Nat.le_refl _
  | nonterminal n => exact List.findIdx_le_length

omit ok in
theorem weight_add_two_le_patience (stack : Stack) : a.weight stack + 2 ≤ a.patience stack := by
  cases stack with
  | nil =>
      rw [weight, patience, List.length_nil]
      omega
  | cons f below =>
      have rank := rank_le (a := a) f.tree.root
      have split : (below.length + 1 + 2) * (a.rules.length + 1)
          = (below.length + 1) * (a.rules.length + 1) + 2 * (a.rules.length + 1) :=
        Nat.add_mul ..
      rw [weight, patience, List.length_cons, split]
      omega

/-- A rule that is not empty makes the stack lighter. -/
theorem weight_lt_of_reduced {frames below : Stack} {name : Nat} {r : Rule} {cs : List Tree}
    (mem : r ∈ a.rules) (right : r.right = Stack.symbols frames) (some : frames ≠ []) :
    a.weight (⟨name, .node r cs⟩ :: below) < a.weight (frames ++ below) := by
  have rank := rank_le (a := a) (.nonterminal r.left)
  match frames, some with
  | [f], _ =>
      -- the height stays, but the left side of such a rule comes before its symbol
      have unit := rank_lt_of_unit (outlook_certified ok) mem right
      simp only [weight, Tree.root_node, List.cons_append, List.nil_append]
      omega
  | f :: g :: frames, _ =>
      have more : (below.length + 1 + 1) * (a.rules.length + 1)
          ≤ ((g :: frames ++ below).length + 1) * (a.rules.length + 1) := by
        refine Nat.mul_le_mul_right _ ?_
        simp only [List.cons_append, List.length_cons, List.length_append]
        omega
      rw [Nat.succ_mul] at more
      simp only [weight, Tree.root_node, List.cons_append] at more ⊢
      omega

/-- What may become of a token: it is on top of a longer path, or a state that the same tokens lead
    to refuses it. -/
def Proper (a : Automaton) (t : Token) (stack : Stack) : Fed → Prop
  | .shifted stack' => a.Path stack' ∧ ∃ name below, stack' = ⟨name, .leaf t⟩ :: below
      ∧ Stack.tokens below = Stack.tokens stack
  | .refused name => ∃ stack', a.Path stack' ∧ a.top stack' = name
      ∧ Stack.tokens stack' = Stack.tokens stack ∧ a.action? name t.kind = none
  | .stuck => False

omit ok in
/-- What becomes of a token depends on the tokens of a stack only. -/
theorem Proper.of_tokens_eq {t : Token} {stack stack' : Stack}
    (same : Stack.tokens stack' = Stack.tokens stack) {fed : Fed} (h : a.Proper t stack' fed) :
    a.Proper t stack fed := by
  cases fed with
  | shifted _ => rwa [Proper, same] at h
  | refused _ => rwa [Proper, same] at h
  | stuck => exact h

omit ok in
theorem feed_of_apply {t : Token} {stack stack' : Stack} {r : Rule} (fuel : Nat)
    (act : a.action? (a.top stack) t.kind = some (.apply r))
    (reduced : a.reduce? r stack = some stack') :
    a.feed t (fuel + 1) stack = a.feed t fuel stack' := by
  rw [feed, act]
  simp only [reduced]

omit ok in
private theorem proper_of_not_apply {t : Token} {stack : Stack} (h : a.Path stack)
    (no : ∀ r, a.action? (a.top stack) t.kind ≠ some (.apply r)) (fuel : Nat) :
    a.Proper t stack (a.feed t (fuel + 1) stack) := by
  rw [feed]
  split
  · next refused => exact ⟨stack, h, rfl, rfl, refused⟩
  · next name shift =>
      exact ⟨.push h (edge_of_shift shift) (.leaf t), name, stack, rfl, rfl⟩
  · next r act => exact absurd act (no r)

/-- With enough fuel a token is shifted or refused. -/
theorem feed_proper (t : Token) (fuel : Nat) {stack : Stack} (h : a.Path stack)
    (enough : a.weight stack + 2 ≤ fuel) : a.Proper t stack (a.feed t fuel stack) := by
  induction fuel generalizing stack with
  | zero => exact absurd enough (by omega)
  | succ fuel ih =>
      by_cases applied : ∃ r, a.action? (a.top stack) t.kind = some (.apply r)
      · obtain ⟨r, act⟩ := applied
        obtain ⟨frames, below, name, split, mem, right, reduced, path, empty⟩ :=
          h.exists_reduced ok act
        have tokens : Stack.tokens (⟨name, .node r (frames.map Frame.tree).reverse⟩ :: below)
            = Stack.tokens stack := by
          rw [split, Stack.tokens_append, Stack.tokens, Tree.tokens_node]
        rw [feed_of_apply fuel act reduced]
        refine .of_tokens_eq tokens ?_
        by_cases none : frames = []
        · -- an empty rule makes the stack heavier, but then no rule follows
          obtain ⟨s, get, complete⟩ := empty none
          obtain ⟨fuel, rfl⟩ : ∃ n, fuel = n + 1 := ⟨fuel - 1, by omega⟩
          refine proper_of_not_apply path (fun r' act' => ?_) fuel
          obtain ⟨s', get', act'⟩ := action?_eq_some_iff.mp act'
          cases get.symm.trans get'
          rw [State.action?, complete] at act'
          split at act' <;> cases act'
        · have lighter :
              a.weight (⟨name, .node r (frames.map Frame.tree).reverse⟩ :: below)
                < a.weight (frames ++ below) := weight_lt_of_reduced ok mem right none
          rw [split] at enough
          exact ih path (by omega)
      · exact proper_of_not_apply h (fun r act => applied ⟨r, act⟩) fuel

omit ok in
/-- More fuel changes nothing once a token is settled. -/
theorem feed_of_le (t : Token) {fuel fuel' : Nat} (le : fuel ≤ fuel') {stack : Stack}
    (settled : a.feed t fuel stack ≠ .stuck) : a.feed t fuel' stack = a.feed t fuel stack := by
  induction fuel generalizing fuel' stack with
  | zero => exact absurd rfl settled
  | succ fuel ih =>
      obtain ⟨fuel', rfl⟩ : ∃ n, fuel' = n + 1 := ⟨fuel' - 1, by omega⟩
      rw [feed] at settled ⊢
      rw [feed]
      split
      · rfl
      · rfl
      · next r act =>
          simp only [act] at settled
          cases reduced : a.reduce? r stack with
          | none => rfl
          | some stack' =>
              rw [reduced] at settled
              exact ih (by omega) settled

/-- What becomes of a token, with as much fuel as the machine allows for it. -/
def settle (a : Automaton) (t : Token) (stack : Stack) : Fed :=
  a.feed t (a.patience stack) stack

theorem settle_proper (t : Token) {stack : Stack} (h : a.Path stack) :
    a.Proper t stack (a.settle t stack) :=
  feed_proper ok t _ h (weight_add_two_le_patience stack)

theorem feed_eq_settle (t : Token) {fuel : Nat} {stack : Stack} (h : a.Path stack)
    (enough : a.patience stack ≤ fuel) : a.feed t fuel stack = a.settle t stack := by
  refine feed_of_le t enough fun stuck => ?_
  have proper := settle_proper ok t h
  rw [settle, stuck] at proper
  exact proper

/-- A rule may be applied before a token is settled. -/
theorem settle_of_apply {t : Token} {stack stack' : Stack} (h : a.Path stack) {r : Rule}
    (act : a.action? (a.top stack) t.kind = some (.apply r))
    (reduced : a.reduce? r stack = some stack') : a.settle t stack = a.settle t stack' := by
  have path : a.Path stack' := by
    obtain ⟨frames, below, name, -, -, -, reduced', path, -⟩ := h.exists_reduced ok act
    rwa [Option.some.inj (reduced.symm.trans reduced')]
  -- fuel for both stacks and for the one step between them
  calc a.settle t stack
      = a.feed t (a.patience stack + a.patience stack' + 1) stack :=
        (feed_eq_settle ok t h (by omega)).symm
    _ = a.feed t (a.patience stack + a.patience stack') stack' := feed_of_apply _ act reduced
    _ = a.settle t stack' := feed_eq_settle ok t path (Nat.le_add_left _ _)

end Certified

/-- There is fuel for at least one step. -/
theorem exists_settle_eq (a : Automaton) (t : Token) (stack : Stack) :
    ∃ fuel, a.settle t stack = a.feed t (fuel + 1) stack := by
  have enough := weight_add_two_le_patience (a := a) stack
  refine ⟨a.patience stack - 1, ?_⟩
  rw [settle, Nat.sub_add_cancel (by omega)]

theorem settle_of_shift {t : Token} {stack : Stack} {name : Nat}
    (act : a.action? (a.top stack) t.kind = some (.shift name)) :
    a.settle t stack = .shifted (⟨name, .leaf t⟩ :: stack) := by
  obtain ⟨fuel, settled⟩ := a.exists_settle_eq t stack
  rw [settled, feed, act]

theorem settle_of_none {t : Token} {stack : Stack}
    (act : a.action? (a.top stack) t.kind = none) :
    a.settle t stack = .refused (a.top stack) := by
  obtain ⟨fuel, settled⟩ := a.exists_settle_eq t stack
  rw [settled, feed, act]

end Automaton

end ScriptFront.Grammar
