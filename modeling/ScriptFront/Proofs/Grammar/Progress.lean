import ScriptFront.Proofs.Grammar.Acceptance

/-! # Progress — the machine is never stuck

    The machine goes from one configuration to the next: it applies a rule to the top of its stack,
    or shifts the next token onto it.  Nothing bounds these steps from outside.

    * `Path.exists_reduces`: a rule that is to be applied finds its right side and an edge;
    * `Path.applies_lt`: only so many rules are applied before a token is settled;
    * `Reached.exists_settled`: then the token is shifted, or the machine ends;
    * `neverStuck_of_certified`: so it goes wherever the machine comes to, and `read` tells how it
      ends. -/

namespace ScriptFront.Grammar.Automaton

/-! ## Configurations -/

/-- Where the machine is: what it has read lies on the stack, and the rest is not read yet. -/
structure Configuration where
  stack : Stack
  rest : List Token

variable (a : Automaton)

/-- What the machine does in a configuration, where it looks at the next token or at the end. -/
def next? (c : Configuration) : Option Action := a.action? (a.top c.stack) (look c.rest)

/-- A rule is applied: its whole right side lies on top of the stack, and the state below has an
    edge for its left side. -/
inductive Reduces (r : Rule) : Configuration → Configuration → Prop
  | apply {frames below : Stack} {rest : List Token} {name : Nat}
      (action : a.next? ⟨frames ++ below, rest⟩ = some (.apply r))
      (right : r.right = Stack.symbols frames)
      (edge : a.edge? (a.top below) (.nonterminal r.left) = some name) :
      Reduces r ⟨frames ++ below, rest⟩
        ⟨⟨name, .node r (frames.map Frame.tree).reverse⟩ :: below, rest⟩

/-- The next token is shifted. -/
inductive Shifts : Configuration → Configuration → Prop
  | shift {stack : Stack} {t : Token} {rest : List Token} {name : Nat}
      (action : a.next? ⟨stack, t :: rest⟩ = some (.shift name)) :
      Shifts ⟨stack, t :: rest⟩ ⟨⟨name, .leaf t⟩ :: stack, rest⟩

/-- So many rules are applied one after the other. -/
inductive Applies : Nat → Configuration → Configuration → Prop
  | none {c : Configuration} : Applies 0 c c
  | more {n : Nat} {r : Rule} {c d e : Configuration} (first : a.Reduces r c d)
      (others : Applies n d e) : Applies (n + 1) c e

/-- The configurations that the machine comes to when it is given some tokens. -/
inductive Reached (ts : List Token) : Configuration → Prop
  | start : Reached ts ⟨[], ts⟩
  | reduced {r : Rule} {c d : Configuration} (before : Reached ts c) (step : a.Reduces r c d) :
      Reached ts d
  | shifted {c d : Configuration} (before : Reached ts c) (step : a.Shifts c d) : Reached ts d

/-- The machine ends: it is about to shift the end behind a single program, or it refuses what
    comes next. -/
inductive Ends : Configuration → Reading → Prop
  | accepts {f : Frame} {name : Nat} (action : a.next? ⟨[f], []⟩ = some (.shift name))
      (root : f.tree.root = .nonterminal .program) : Ends ⟨[f], []⟩ (.accepted f.tree)
  | refuses {c : Configuration} (action : a.next? c = none) :
      Ends c (.refused c.rest (a.expected (a.top c.stack)))

/-- The machine is never stuck on some tokens. -/
structure NeverStuck (ts : List Token) : Prop where
  /-- A rule that is to be applied finds its right side on the stack and an edge below it. -/
  reduces : ∀ c, a.Reached ts c → ∀ r, a.next? c = some (.apply r) → ∃ d, a.Reduces r c d
  /-- Only so many rules are applied before a token is settled. -/
  bounded : ∀ c, a.Reached ts c → ∀ n d, a.Applies n c d → n < a.patience c.stack
  /-- After some rules the token is shifted, or the machine ends. -/
  settles : ∀ c, a.Reached ts c → ∃ n d, a.Applies n c d
    ∧ ((∃ e, a.Shifts d e) ∨ a.Ends d (a.read [] ts))
  /-- The machine comes to an end, and this is how the tokens are read. -/
  ends : ∃ c, a.Reached ts c ∧ a.Ends c (a.read [] ts)

variable {a : Automaton} {o : Outlook} {c d : Configuration} {r : Rule}

theorem Reduces.reduce?_eq (h : a.Reduces r c d) : a.reduce? r c.stack = some d.stack := by
  cases h with
  | apply action right edge => exact reduce?_append right edge

theorem Reduces.next?_eq (h : a.Reduces r c d) : a.next? c = some (.apply r) := by
  cases h with
  | apply action right edge => exact action

theorem Reduces.rest_eq (h : a.Reduces r c d) : d.rest = c.rest := by
  cases h with
  | apply action right edge => rfl

theorem Reached.applies {ts : List Token} {n : Nat} (h : a.Reached ts c) (steps : a.Applies n c d) :
    a.Reached ts d := by
  induction steps with
  | none => exact h
  | more first _ ih => exact ih (h.reduced first)

theorem Applies.rest_eq {n : Nat} (h : a.Applies n c d) : d.rest = c.rest := by
  induction h with
  | none => rfl
  | more first _ ih => rw [ih, first.rest_eq]

section Certified

variable (ok : a.certified o = true)

include ok

/-! ## Rules -/

/-- A rule that is to be applied finds its right side on the stack and an edge below it. -/
theorem Path.exists_reduces (h : a.Path c.stack) (action : a.next? c = some (.apply r)) :
    ∃ d, a.Reduces r c d := by
  obtain ⟨stack, rest⟩ := c
  obtain ⟨frames, below, name, rfl, -, right, -, path, -⟩ := h.exists_reduced ok action
  cases path with
  | push _ edge _ => exact ⟨_, .apply action right edge⟩

/-- An applied rule leaves a path, and makes the stack lighter or is the last one. -/
theorem Reduces.path (h : a.Path c.stack) (step : a.Reduces r c d) :
    a.Path d.stack
    ∧ (a.weight d.stack < a.weight c.stack ∨ ∀ r', a.next? d ≠ some (.apply r')) := by
  obtain ⟨frames, below, name, split, mem, right, reduced, path, empty⟩ :=
    h.exists_reduced ok step.next?_eq
  have stack : ⟨name, .node r (frames.map Frame.tree).reverse⟩ :: below = d.stack :=
    Option.some.inj (reduced.symm.trans step.reduce?_eq)
  rw [← stack]
  refine ⟨path, ?_⟩
  by_cases none : frames = []
  · -- an empty rule makes the stack heavier, but leads to a state without complete rules
    refine Or.inr fun r' action => ?_
    obtain ⟨s, get, complete⟩ := empty none
    rw [next?, ← stack] at action
    obtain ⟨s', get', action⟩ := action?_eq_some_iff.mp action
    cases get.symm.trans get'
    rw [State.action?, complete] at action
    split at action <;> cases action
  · rw [split]
    exact Or.inl (weight_lt_of_reduced ok mem right none)

/-- Only so many rules are applied to a stack. -/
theorem Path.applies_lt {n : Nat} (h : a.Path c.stack) (steps : a.Applies n c d) :
    n < a.patience c.stack := by
  have bound : n ≤ a.weight c.stack + 1 := by
    induction steps with
    | none => exact Nat.zero_le _
    | @more n r c d e first others ih =>
        obtain ⟨path, lighter | last⟩ := first.path ok h
        · have := ih path
          omega
        · cases others with
          | none => exact Nat.le_add_left 1 _
          | more second _ => exact absurd second.next?_eq (last _)
  have := weight_add_two_le_patience (a := a) c.stack
  omega

/-- After some rules there is none left to apply. -/
theorem Path.exists_applied {bound : Nat} (h : a.Path c.stack)
    (few : ∀ n d, a.Applies n c d → n ≤ bound) :
    ∃ n d, a.Applies n c d ∧ a.Path d.stack ∧ ∀ r, a.next? d ≠ some (.apply r) := by
  induction bound generalizing c with
  | zero =>
      refine ⟨0, c, .none, h, fun r action => ?_⟩
      obtain ⟨d, step⟩ := h.exists_reduces ok action
      exact absurd (few 1 d (.more step .none)) (by omega)
  | succ bound ih =>
      by_cases applied : ∃ r, a.next? c = some (.apply r)
      · obtain ⟨r, action⟩ := applied
        obtain ⟨d, step⟩ := h.exists_reduces ok action
        have fewer : ∀ n e, a.Applies n d e → n ≤ bound := by
          intro n e steps
          exact Nat.le_of_succ_le_succ (few (n + 1) e (.more step steps))
        obtain ⟨n, e, steps, last⟩ := ih (step.path ok h).1 fewer
        exact ⟨n + 1, e, .more step steps, last⟩
      · exact ⟨0, c, .none, h, fun r action => applied ⟨r, action⟩⟩

theorem Reached.path {ts : List Token} (h : a.Reached ts c) : a.Path c.stack := by
  induction h with
  | start => exact .nil
  | reduced _ step ih => exact (step.path ok ih).1
  | shifted _ step ih =>
      cases step with
      | @shift _ t _ _ action => exact .push ih (edge_of_shift action) (.leaf t)

omit ok in
/-- An applied rule keeps the tokens on the stack. -/
theorem Reduces.tokens_eq (step : a.Reduces r c d) :
    Stack.tokens d.stack = Stack.tokens c.stack := by
  cases step with
  | apply => rw [Stack.tokens_append, Stack.tokens, Tree.tokens_node]

omit ok in
/-- The tokens that the machine is given are those on the stack and those not read yet. -/
theorem Reached.tokens_eq {ts : List Token} (h : a.Reached ts c) :
    Stack.tokens c.stack ++ c.rest = ts := by
  induction h with
  | start => rfl
  | reduced _ step ih => rw [step.tokens_eq, step.rest_eq, ih]
  | shifted _ step ih =>
      cases step with
      | shift => rw [← ih, Stack.tokens, Tree.tokens_leaf, List.append_assoc, List.singleton_append]

/-! ## Reading -/

/-- Wherever the machine comes to, what it goes on to read is what it was given. -/
theorem Reached.read_eq {ts : List Token} (h : a.Reached ts c) :
    a.read c.stack c.rest = a.read [] ts := by
  induction h with
  | start => rfl
  | @reduced r c d before step ih =>
      rw [← ih, step.rest_eq]
      exact (read_of_apply ok (before.path ok) step.next?_eq step.reduce?_eq).symm
  | shifted before step ih =>
      cases step with
      | shift action =>
          rw [← ih]
          exact (read_of_shift action).symm

variable (language : a.rules = grammar)

include language

/-- Where there is no rule to apply, the next token is shifted or the machine ends. -/
theorem Path.shifts_or_ends (h : a.Path c.stack) (last : ∀ r, a.next? c ≠ some (.apply r)) :
    (∃ d, a.Shifts c d) ∨ a.Ends c (a.read c.stack c.rest) := by
  obtain ⟨stack, rest⟩ := c
  cases action : a.next? ⟨stack, rest⟩ with
  | none =>
      refine Or.inr ?_
      cases rest with
      | nil =>
          rw [read_nil, settle_of_none (t := .endAt .origin) action]
          exact .refuses action
      | cons t ts =>
          rw [read_cons, settle_of_none (t := t) action]
          exact .refuses action
  | some act =>
      cases act with
      | apply r => exact absurd action (last r)
      | shift name =>
          cases rest with
          | cons t ts => exact Or.inl ⟨_, .shift action⟩
          | nil =>
              have path : a.Path (⟨name, .leaf (.endAt .origin)⟩ :: stack) :=
                .push h (edge_of_shift action) (.leaf _)
              obtain ⟨f, rfl, root⟩ := path.eq_singleton_of_eof ok language rfl
              have settled : a.settle (.endAt .origin) [f]
                  = .shifted [⟨name, .leaf (.endAt .origin)⟩, f] := settle_of_shift action
              refine Or.inr ?_
              rw [read_nil, settled]
              exact .accepts action root

/-- From every configuration that the machine comes to, some rules lead to where the next token is
    shifted or the machine ends. -/
theorem Reached.exists_settled {ts : List Token} (h : a.Reached ts c) :
    ∃ n d, a.Applies n c d ∧ ((∃ e, a.Shifts d e) ∨ a.Ends d (a.read [] ts)) := by
  have path := h.path ok
  obtain ⟨n, d, steps, path', last⟩ :=
    path.exists_applied ok fun n d steps => Nat.le_of_lt (path.applies_lt ok steps)
  refine ⟨n, d, steps, ?_⟩
  rw [← (h.applies steps).read_eq ok]
  exact path'.shifts_or_ends ok language last

/-- Each token that is shifted leaves fewer of them, so the machine ends. -/
theorem Reached.exists_end {ts rest : List Token} (h : a.Reached ts c) (left : c.rest = rest) :
    ∃ d, a.Reached ts d ∧ a.Ends d (a.read [] ts) := by
  induction rest generalizing c with
  | nil =>
      obtain ⟨n, d, steps, ⟨e, shift⟩ | ends⟩ := h.exists_settled ok language
      · have none := steps.rest_eq.trans left
        cases shift with
        | shift _ => cases none
      · exact ⟨d, h.applies steps, ends⟩
  | cons t rest ih =>
      obtain ⟨n, d, steps, ⟨e, shift⟩ | ends⟩ := h.exists_settled ok language
      · have there := (h.applies steps).shifted shift
        have next := steps.rest_eq.trans left
        cases shift with
        | shift _ => exact ih there (List.cons.inj next).2
      · exact ⟨d, h.applies steps, ends⟩

/-- The machine is never stuck. -/
theorem neverStuck_of_certified (ts : List Token) : a.NeverStuck ts where
  reduces _ h _ action := (h.path ok).exists_reduces ok action
  bounded _ h _ _ steps := (h.path ok).applies_lt ok steps
  settles _ h := h.exists_settled ok language
  ends := Reached.start.exists_end ok language rfl

end Certified

end ScriptFront.Grammar.Automaton
