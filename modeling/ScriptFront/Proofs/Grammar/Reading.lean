import ScriptFront.Proofs.Grammar.Stack

/-! # Reading — the machine reads every tree

    From a state in which a nonterminal is opened, the machine reads the tokens of any of its trees
    and ends with that tree on the stack, provided that every `else` of the tree belongs to the
    nearest `if` (`reads_of_nearest`).  The proof goes down the tree: a child is read from where
    the children before it have led, and what comes next is always among the kinds that the items
    expect. -/

namespace ScriptFront.Grammar

/-- The kind that comes next; behind all tokens comes the end of the text. -/
def look (ts : List Token) : TokenKind := (ts.head?.map Token.kind).getD .eof

namespace Automaton

variable {a : Automaton} {o : Outlook}

theorem read_nil (stack : Stack) :
    a.read stack [] = match a.settle (.endAt .origin) stack with
      | .shifted [_, program] => .accepted program.tree
      | .shifted _ => .stuck
      | .refused state => .refused [] (a.expected state)
      | .stuck => .stuck := by
  rw [read]
  rfl

theorem read_cons (stack : Stack) (t : Token) (ts : List Token) :
    a.read stack (t :: ts) = match a.settle t stack with
      | .shifted stack => a.read stack ts
      | .refused state => .refused (t :: ts) (a.expected state)
      | .stuck => .stuck := by
  rw [read]
  rfl

theorem action?_of_lookup {rules : List Rule} {s : State} {k : TokenKind} {name : Nat}
    (h : s.edges.lookup (.terminal k) = some name) :
    s.action? rules k = some (.shift name) := by
  rw [State.action?, h]

theorem read_of_shift {stack : Stack} {t : Token} {ts : List Token} {name : Nat}
    (act : a.action? (a.top stack) t.kind = some (.shift name)) :
    a.read stack (t :: ts) = a.read (⟨name, .leaf t⟩ :: stack) ts := by
  rw [read_cons, settle_of_shift act]

section Certified

variable (ok : a.certified o = true)

include ok

theorem read_of_apply {stack stack' : Stack} (h : a.Path stack) {ts : List Token} {r : Rule}
    (act : a.action? (a.top stack) (look ts) = some (.apply r))
    (reduced : a.reduce? r stack = some stack') : a.read stack ts = a.read stack' ts := by
  cases ts with
  | nil =>
      have act : a.action? (a.top stack) .eof = some (.apply r) := act
      rw [read_nil, read_nil, settle_of_apply ok (t := .endAt .origin) h act reduced]
  | cons t ts =>
      rw [read_cons, read_cons, settle_of_apply ok (t := t) h act reduced]

/-! ## What comes next -/

/-- A tree of a solid symbol has a first token, whose kind the symbol begins with. -/
theorem exists_first_token {t : Tree} (fits : t.Fits a.rules) (solid : t.root.isSolid = true) :
    ∃ first rest, t.tokens = first :: rest
      ∧ (firstOf o.first t.root).contains first.kind = true := by
  induction fits with
  | leaf t => exact ⟨t, [], Tree.tokens_leaf t, KindSet.contains_self t.kind⟩
  | @node r cs mem roots _ ih =>
      obtain ⟨x, rest, right, solidX, subset⟩ :=
        exists_first_of_isSolid (outlook_certified ok) mem solid
      rw [right] at roots
      obtain ⟨c, cs, rfl, rfl, -⟩ := List.map_eq_cons_iff.mp roots
      obtain ⟨first, tail, tokens, contains⟩ := ih c List.mem_cons_self solidX
      refine ⟨first, tail ++ Tree.tokensOf cs, ?_, KindSet.contains_of_subset subset contains⟩
      rw [Tree.tokens_node, Tree.tokensOf_cons, tokens, List.cons_append]

/-- The children of a node but the first one are solid. -/
theorem isSolid_of_mem_rest {r : Rule} (mem : r ∈ a.rules) {c : Tree} {cs : List Tree}
    (roots : (c :: cs).map Tree.root = r.right) : ∀ d ∈ cs, d.root.isSolid = true := by
  intro d hd
  refine isSolid_of_mem_tail (outlook_certified ok) mem ?_
  rw [← roots]
  exact List.mem_map_of_mem hd

section Next

variable {cs : List Tree} (fits : ∀ c ∈ cs, c.Fits a.rules)
  (solid : ∀ c ∈ cs, c.root.isSolid = true) {u : List Token}

include fits solid

/-- What comes behind a symbol is among the kinds that may stand there. -/
theorem contains_ahead {follow : KindSet} (next : cs = [] → follow.contains (look u) = true) :
    (o.ahead follow (cs.map Tree.root)).contains (look (Tree.tokensOf cs ++ u)) = true := by
  cases cs with
  | nil => exact next rfl
  | cons c cs =>
      obtain ⟨first, rest, tokens, contains⟩ :=
        exists_first_token ok (fits c List.mem_cons_self) (solid c List.mem_cons_self)
      rw [Tree.tokensOf_cons, tokens]
      exact contains

/-- No `else` comes behind a tree that ends with an `if` without one. -/
theorem look_ne_else {c : Tree} (isOpen : c.EndsOpen)
    (apart : (c :: cs).IsChain fun c d => d.root = .terminal .kwElse → ¬ c.EndsOpen)
    (last : cs = [] → look u ≠ .kwElse) : look (Tree.tokensOf cs ++ u) ≠ .kwElse := by
  cases cs with
  | nil => exact last rfl
  | cons d cs =>
      obtain ⟨first, rest, tokens, contains⟩ :=
        exists_first_token ok (fits d List.mem_cons_self) (solid d List.mem_cons_self)
      rw [Tree.tokensOf_cons, tokens]
      intro (isElse : first.kind = .kwElse)
      rw [isElse] at contains
      -- it would be a child itself, for nothing else begins with one
      cases hd : d.root with
      | terminal k =>
          rw [hd, firstOf, KindSet.contains_singleton, decide_eq_true_eq] at contains
          exact apart.rel (contains ▸ hd) isOpen
      | nonterminal n =>
          rw [hd, not_contains_else (outlook_certified ok)] at contains
          exact absurd contains Bool.false_ne_true

end Next

/-! ## Trees -/

/-- The machine reads the tokens of a tree from wherever its root is opened. -/
def Reads (a : Automaton) (o : Outlook) (t : Tree) : Prop :=
  ∀ ⦃stack : Stack⦄ ⦃u : List Token⦄ ⦃s : State⦄ ⦃name : Nat⦄, a.Path stack →
    a.states.get? (a.top stack) = some s → s.edges.lookup t.root = some name →
    (∀ n, t.root = .nonterminal n → s.Opened a.rules o n (look u)) →
    (t.EndsOpen → look u ≠ .kwElse) →
    a.read stack (t.tokens ++ u) = a.read (⟨name, t⟩ :: stack) u

/-- The trees behind a dot are read one after the other, and the dot moves to the end. -/
private theorem read_forest {cs : List Tree} (fits : ∀ c ∈ cs, c.Fits a.rules)
    (reads : ∀ c ∈ cs, a.Reads o c) (solid : ∀ c ∈ cs, c.root.isSolid = true)
    (apart : cs.IsChain fun c d => d.root = .terminal .kwElse → ¬ c.EndsOpen)
    {stack : Stack} {u : List Token} (path : a.Path stack) {s : State}
    (get : a.states.get? (a.top stack) = some s) {i : Item} (hi : i ∈ s.kernel)
    (dot : i.behind = cs.map Tree.root) (next : i.follow.contains (look u) = true)
    (last : ∀ init c, cs = init ++ [c] → c.EndsOpen → look u ≠ .kwElse) :
    ∃ frames t j, (frames.map Frame.tree).reverse = cs ∧ a.Path (frames ++ stack)
      ∧ a.states.get? (a.top (frames ++ stack)) = some t ∧ j ∈ t.kernel ∧ j.rule = i.rule
      ∧ j.behind = [] ∧ j.follow.contains (look u) = true
      ∧ a.read stack (Tree.tokensOf cs ++ u) = a.read (frames ++ stack) u := by
  induction cs generalizing stack s i with
  | nil => exact ⟨[], s, i, rfl, path, get, hi, rfl, dot, next, rfl⟩
  | cons c cs ih =>
      have fitsCs := fun d hd => fits d (List.mem_cons_of_mem c hd)
      have solidCs := fun d hd => solid d (List.mem_cons_of_mem c hd)
      obtain ⟨name, t, lookup, get', j, hj, rule, behind, follow⟩ := exists_advanced ok get hi dot
      have opened : ∀ n, c.root = .nonterminal n →
          s.Opened a.rules o n (look (Tree.tokensOf cs ++ u)) := by
        intro n hn
        refine .kernel hi ?_ (contains_ahead ok fitsCs solidCs fun _ => next)
        rw [dot, List.map_cons, hn]
      have notElse : c.EndsOpen → look (Tree.tokensOf cs ++ u) ≠ .kwElse := by
        intro isOpen
        refine look_ne_else ok fitsCs solidCs isOpen apart ?_
        rintro rfl
        exact last [] c rfl isOpen
      have first := reads c List.mem_cons_self path get lookup opened notElse
      have path' : a.Path (⟨name, c⟩ :: stack) :=
        .push path (edge?_eq_some_iff.mpr ⟨s, get, lookup⟩) (fits c List.mem_cons_self)
      obtain ⟨frames, t', j', trees, path'', get'', hj', rule', behind', next', rest⟩ :=
        ih fitsCs (fun d hd => reads d (List.mem_cons_of_mem c hd)) solidCs
          apart.of_cons path' get' hj behind (follow _ next)
          (fun init d hd => last (c :: init) d (by rw [hd]; rfl))
      refine ⟨frames ++ [⟨name, c⟩], t', j', ?_, ?_, ?_, hj', rule'.trans rule, behind', next', ?_⟩
      · rw [List.map_append, List.reverse_append, trees]
        rfl
      · rw [List.append_assoc]
        exact path''
      · rw [List.append_assoc]
        exact get''
      · rw [Tree.tokensOf_cons, List.append_assoc, first, rest, List.append_assoc]
        rfl

/-- The children of a node are read where its rule is opened, and then the rule is applied, unless
    it waits for an `else`. -/
private theorem read_children {r : Rule} (mem : r ∈ a.rules) {cs : List Tree}
    (roots : cs.map Tree.root = r.right) (fits : ∀ c ∈ cs, c.Fits a.rules)
    (reads : ∀ c ∈ cs, a.Reads o c)
    (apart : cs.IsChain fun c d => d.root = .terminal .kwElse → ¬ c.EndsOpen)
    {stack : Stack} {u : List Token} (path : a.Path stack) {s : State}
    (get : a.states.get? (a.top stack) = some s) (opened : s.Opened a.rules o r.left (look u))
    (notElse : (Tree.node r cs).EndsOpen → look u ≠ .kwElse) :
    ∃ frames : Stack, (frames.map Frame.tree).reverse = cs ∧ a.Path (frames ++ stack)
      ∧ (a.action? (a.top (frames ++ stack)) (look u) = some (.apply r)
        ∨ look u = .kwElse ∧ r = shortIf)
      ∧ a.read stack (Tree.tokensOf cs ++ u) = a.read (frames ++ stack) u := by
  obtain ⟨j, hr⟩ := List.mem_iff_getElem?.mp mem
  cases cs with
  | nil =>
      refine ⟨[], rfl, path, ?_, rfl⟩
      rcases applied_of_opened ok get opened hr rfl roots.symm with act | other
      · exact Or.inl (action?_eq_some_iff.mpr ⟨s, get, act⟩)
      · exact Or.inr other
  | cons c cs =>
      have right : r.right = c.root :: cs.map Tree.root := roots.symm
      have fitsCs := fun d hd => fits d (List.mem_cons_of_mem c hd)
      have readsCs := fun d hd => reads d (List.mem_cons_of_mem c hd)
      have solidCs := isSolid_of_mem_rest ok mem roots
      -- the first child is read where the rule is opened, the others by the item it leads to
      obtain ⟨first, t, lookup, get', i, hi, rule, behind, next⟩ :=
        exists_begun_of_opened ok get opened hr rfl right
      have openedFirst : ∀ n, c.root = .nonterminal n →
          s.Opened a.rules o n (look (Tree.tokensOf cs ++ u)) := by
        intro n hn
        refine .corner opened mem rfl (by rw [right, hn]) ?_
        exact contains_ahead ok fitsCs solidCs fun _ => KindSet.contains_self _
      have notElseFirst : c.EndsOpen → look (Tree.tokensOf cs ++ u) ≠ .kwElse := by
        intro isOpen
        refine look_ne_else ok fitsCs solidCs isOpen apart ?_
        rintro rfl
        exact notElse (Tree.EndsOpen.last isOpen : (Tree.node r ([] ++ [c])).EndsOpen)
      have readFirst := reads c List.mem_cons_self path get lookup openedFirst notElseFirst
      have path' : a.Path (⟨first, c⟩ :: stack) :=
        .push path (edge?_eq_some_iff.mpr ⟨s, get, lookup⟩) (fits c List.mem_cons_self)
      have last : ∀ init d, cs = init ++ [d] → d.EndsOpen → look u ≠ .kwElse := by
        rintro init d rfl isOpen
        exact notElse (Tree.EndsOpen.last isOpen : (Tree.node r ((c :: init) ++ [d])).EndsOpen)
      obtain ⟨frames, t', i', trees, path'', get'', hi', rule', behind', next', rest⟩ :=
        read_forest ok fitsCs readsCs solidCs apart.of_cons path' get' hi behind next last
      have assoc : (frames ++ [⟨first, c⟩]) ++ stack = frames ++ ⟨first, c⟩ :: stack := by
        rw [List.append_assoc]
        rfl
      refine ⟨frames ++ [⟨first, c⟩], ?_, ?_, ?_, ?_⟩
      · rw [List.map_append, List.reverse_append, trees]
        rfl
      · rwa [assoc]
      · rw [assoc]
        obtain ⟨r', hr', act⟩ := applied_of_complete ok get'' hi' behind' next'
        rw [rule', rule, hr] at hr'
        cases hr'
        rcases act with act | other
        · exact Or.inl (action?_eq_some_iff.mpr ⟨t', get'', act⟩)
        · exact Or.inr other
      · rw [assoc, Tree.tokensOf_cons, List.append_assoc, readFirst, rest]

/-- Every fitting tree whose `else`s belong to the nearest `if`s is read. -/
theorem reads_of_nearest {t : Tree} (fits : t.Fits a.rules) (near : t.Nearest) :
    a.Reads o t := by
  induction fits with
  | leaf t =>
      intro stack u s name _ get lookup _ _
      have act : a.action? (a.top stack) t.kind = some (.shift name) :=
        action?_eq_some_iff.mpr ⟨s, get, action?_of_lookup lookup⟩
      rw [Tree.tokens_leaf, List.singleton_append, read_of_shift act]
  | @node r cs mem roots fits ih =>
      intro stack u s name path get lookup opened notElse
      cases near with
      | node children apart =>
        have goto : a.edge? (a.top stack) (.nonterminal r.left) = some name :=
          edge?_eq_some_iff.mpr ⟨s, get, lookup⟩
        have reads : ∀ c ∈ cs, a.Reads o c := fun c hc => ih c hc (children c hc)
        obtain ⟨frames, rfl, path', applied, rest⟩ :=
          read_children ok mem roots fits reads apart path get (opened r.left rfl) notElse
        rw [Tree.tokens_node, rest]
        rcases applied with act | ⟨isElse, rfl⟩
        · exact read_of_apply ok path' act (reduce?_append roots.symm goto)
        · exact absurd isElse (notElse (.short _))

end Certified

end Automaton

end ScriptFront.Grammar
