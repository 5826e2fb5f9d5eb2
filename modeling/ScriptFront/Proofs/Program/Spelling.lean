import ScriptFront.Proofs.Program.Outcome

/-! # Spelling — canonical expressions have trees

    Tokens that fill the slots of a canonical expression are the tokens of a tree which has this
    expression for its value.  The tree is built along the expression: an operand that is tighter
    than it need be is wrapped in rules of one symbol (`spelled_looser`), and a row grows by its
    last element (`spelled_row`). -/

namespace ScriptFront

namespace Grammar

open Nonterminal TokenKind

/-- Some tokens are those of a tree for a symbol with a value. -/
def Spelled (x : Symbol) (v : Value) (ts : List Token) : Prop :=
  ∃ t : Tree, t.Fits grammar ∧ t.Nearest ∧ t.root = x ∧ t.tokens = ts ∧ t.value = .ok v

/-- Some tokens are those of trees for a row of symbols with some values. -/
inductive SpelledRow : List Symbol → List Value → List Token → Prop
  | nil : SpelledRow [] [] []
  | token {t : Token} {k : TokenKind} {xs : List Symbol} {vs : List Value} {ts : List Token}
      (kind : t.kind = k) (rest : SpelledRow xs vs ts) :
      SpelledRow (.terminal k :: xs) (.token t :: vs) (t :: ts)
  | cons {x : Symbol} {v : Value} {us : List Token} {xs : List Symbol} {vs : List Value}
      {ts : List Token} (first : Spelled x v us) (rest : SpelledRow xs vs ts) :
      SpelledRow (x :: xs) (v :: vs) (us ++ ts)

theorem SpelledRow.last {x : Symbol} {v : Value} {us : List Token} (h : Spelled x v us) :
    SpelledRow [x] [v] us := by
  have row : SpelledRow [x] [v] (us ++ []) := .cons h .nil
  rwa [List.append_nil] at row

/-- The trees of a row. -/
private theorem SpelledRow.exists_trees {xs : List Symbol} {vs : List Value} {ts : List Token}
    (h : SpelledRow xs vs ts) :
    ∃ cs : List Tree, (∀ c ∈ cs, c.Fits grammar) ∧ (∀ c ∈ cs, c.Nearest) ∧ cs.map Tree.root = xs
      ∧ Tree.tokensOf cs = ts ∧ Tree.values cs = .ok vs := by
  induction h with
  | nil =>
      refine ⟨[], List.forall_mem_nil _, List.forall_mem_nil _, rfl, Tree.tokensOf_nil, ?_⟩
      rw [Tree.values]
  | @token t k xs vs ts kind _ ih =>
      obtain ⟨cs, fits, near, roots, tokens, values⟩ := ih
      refine ⟨.leaf t :: cs, List.forall_mem_cons.mpr ⟨.leaf t, fits⟩,
        List.forall_mem_cons.mpr ⟨.leaf t, near⟩, ?_, ?_, ?_⟩
      · rw [List.map_cons, Tree.root_leaf, kind, roots]
      · rw [Tree.tokensOf_cons, Tree.tokens_leaf, tokens]
        rfl
      · rw [Tree.values, Tree.value]
        simp only [values]
  | @cons x v us xs vs ts first _ ih =>
      obtain ⟨c, fitsC, nearC, root, tokensC, value⟩ := first
      obtain ⟨cs, fits, near, roots, tokens, values⟩ := ih
      refine ⟨c :: cs, List.forall_mem_cons.mpr ⟨fitsC, fits⟩,
        List.forall_mem_cons.mpr ⟨nearC, near⟩, ?_, ?_, ?_⟩
      · rw [List.map_cons, root, roots]
      · rw [Tree.tokensOf_cons, tokensC, tokens]
      · rw [Tree.values, value]
        simp only [values]

/-- A rule other than that of the conditional with `else` makes a tree of those of its
    right side. -/
theorem spelled_of_rule {r : Rule} (rule : r ∈ grammar ∧ r ≠ fullIf) {vs : List Value}
    {ts : List Token} (row : SpelledRow r.right vs ts) {v : Value}
    (build : r.form.build vs = .ok v) : Spelled (.nonterminal r.left) v ts := by
  obtain ⟨mem, plain⟩ := rule
  obtain ⟨cs, fits, near, roots, tokens, values⟩ := row.exists_trees
  refine ⟨.node r cs, .node mem roots fits, Tree.nearest_node mem plain roots near, rfl, ?_, ?_⟩
  · rw [Tree.tokens_node, tokens]
  · rw [Tree.value, values]
    exact build

/-- The value of a tree for a statement ends open if and only if the tree does. -/
private theorem not_endsOpen_of_closed {t : Tree} (fits : t.Fits grammar) (near : t.Nearest)
    (root : t.root = .nonterminal statement) {s : Stmt} (value : t.value = .ok (.stmt s))
    (closed : s.endsOpen = false) : ¬ t.EndsOpen := by
  have outcome := outcome_of_fits fits near root (by decide)
  rw [value] at outcome
  obtain ⟨_, ⟨⟩, -, -, -, ends⟩ := outcome
  intro isOpen
  rw [ends.mp isOpen] at closed
  exact nomatch closed

/-- A conditional with an `else` whose first branch is closed. -/
theorem spelled_fullIf {t l r m : Token} {us vs ws : List Token} {c : Expr} {s s' : Stmt}
    (kind : t.kind = kwIf) (kindL : l.kind = leftParen)
    (condition : Spelled expression (.expr c) us) (kindR : r.kind = rightParen)
    (branch : Spelled statement (.stmt s) vs) (closed : s.endsOpen = false)
    (kindM : m.kind = kwElse) (other : Spelled statement (.stmt s') ws) :
    Spelled ifStmt (.stmt (.conditional c s (some s')))
      (t :: l :: (us ++ r :: (vs ++ m :: ws))) := by
  obtain ⟨e, fitsE, nearE, rootE, rfl, valueE⟩ := condition
  obtain ⟨b, fitsB, nearB, rootB, rfl, valueB⟩ := branch
  obtain ⟨d, fitsD, nearD, rootD, rfl, valueD⟩ := other
  have roots : [Tree.leaf t, .leaf l, e, .leaf r, b, .leaf m, d].map Tree.root = fullIf.right := by
    simp only [List.map_cons, List.map_nil, Tree.root_leaf, kind, kindL, kindR, kindM, rootE,
      rootB, rootD]
    rfl
  have fits : ∀ x ∈ [Tree.leaf t, .leaf l, e, .leaf r, b, .leaf m, d], x.Fits grammar := by
    simp [Tree.Fits.leaf, fitsE, fitsB, fitsD]
  have near : ∀ x ∈ [Tree.leaf t, .leaf l, e, .leaf r, b, .leaf m, d], x.Nearest := by
    simp [Tree.Nearest.leaf, nearE, nearB, nearD]
  refine ⟨.node fullIf _, .node fullIf_mem roots fits,
    Tree.nearest_fullIf roots near (not_endsOpen_of_closed fitsB nearB rootB valueB closed), rfl,
    ?_, ?_⟩
  · simp
  · simp only [Tree.value, Tree.values, valueE, valueB, valueD]
    rfl

/-- A row that grows by its last element, whose slots are those of its elements. -/
theorem spelled_row {α : Type} {x : Symbol} {whole : List α → Value} {slots : List α → List Slot}
    {element : α → List Slot} (empty : slots [] = [])
    (append : ∀ as a, slots (as ++ [a]) = slots as ++ element a) {row : List α}
    (one : ∀ a ∈ row, ∀ ts, Fills (element a) ts → Spelled x (whole [a]) ts)
    (more : ∀ as, ∀ a ∈ row, ∀ us vs, Spelled x (whole as) us → Fills (element a) vs →
      Spelled x (whole (as ++ [a])) (us ++ vs))
    (some : row ≠ []) {ts : List Token} (fills : Fills (slots row) ts) :
    Spelled x (whole row) ts := by
  induction row using List.reverseRecOn generalizing ts with
  | nil => exact absurd rfl some
  | append_singleton as a ih =>
      rw [append] at fills
      obtain ⟨us, vs, rfl, fillsAs, fillsA⟩ := fills.exists_of_append
      by_cases none : as = []
      · subst none
        rw [empty] at fillsAs
        cases fillsAs
        exact one a (by simp) vs fillsA
      · refine more as a (by simp) us vs (ih ?_ ?_ none fillsAs) fillsA
        · exact fun b hb => one b (List.mem_append_left _ hb)
        · exact fun bs b hb => more bs b (List.mem_append_left _ hb)

/-! ## Expressions -/

/-- What is spelled at a level is spelled at the next looser one. -/
theorem spelled_same {n m : Nonterminal} {v : Value} {ts : List Token}
    (mem : (⟨n, [m], .same⟩ : Rule) ∈ grammar) (h : Spelled m v ts) : Spelled n v ts := by
  have plain : (⟨n, [m], .same⟩ : Rule) ≠ fullIf := by simp [fullIf]
  exact spelled_of_rule ⟨mem, plain⟩ (.last h) rfl

/-- What is spelled at a level is spelled at every looser one. -/
theorem spelled_looser {l m : Level} (le : l ≤ m) {v : Value} {ts : List Token}
    (h : Spelled m.nonterminal v ts) : Spelled l.nonterminal v ts := by
  -- down from `m`, one level at a time
  have step : ∀ m : Level, Spelled m.nonterminal v ts → Spelled m.looser.nonterminal v ts := by
    intro m h
    cases m with
    | assignment => exact h
    | _ => exact spelled_same (by decide) h
  obtain ⟨n, hn⟩ : ∃ n, m.ctorIdx = l.ctorIdx + n := Nat.exists_eq_add_of_le le
  induction n generalizing m with
  | zero => rwa [Level.eq_of_ctorIdx_eq hn] at h
  | succ n ih =>
      have one : m.looser.ctorIdx = l.ctorIdx + n := by
        rw [Level.ctorIdx_looser, hn]
        omega
      exact ih (Nat.le.intro one.symm) (step m h) one

/-- An expression of any level where the grammar has an expression. -/
theorem spelled_expression {l : Level} {v : Value} {ts : List Token}
    (h : Spelled l.nonterminal v ts) : Spelled expression v ts :=
  spelled_same (by decide) (spelled_looser (Level.assignment_le l) h)

private theorem spelled_primary {v : Value} {ts : List Token} (h : Spelled primary v ts) :
    Spelled Level.call.nonterminal v ts :=
  spelled_same (by decide) h

private theorem binary_rule {k : TokenKind} {o : Operator} (h : k.binary? = some o) :
    (⟨o.level.nonterminal, [o.left.nonterminal, k, o.right.nonterminal], .binary⟩ : Rule)
      ∈ grammar := by
  cases k with
  | bangEqual | equalEqual | greater | greaterEqual | less | lessEqual | minus | plus | slash
  | star | starStar =>
      cases h
      decide
  | _ => exact nomatch h

private theorem logical_rule {k : TokenKind} {o : Operator} (h : k.logical? = some o) :
    (⟨o.level.nonterminal, [o.left.nonterminal, k, o.right.nonterminal], .logical⟩ : Rule)
      ∈ grammar := by
  cases k with
  | kwOr | kwAnd =>
      cases h
      decide
  | _ => exact nomatch h

private theorem unary_rule {k : TokenKind} (h : k.isUnary = true) :
    (⟨unary, [k, unary], .unary⟩ : Rule) ∈ grammar := by
  cases k with
  | bang | minus | plusPlus | minusMinus => decide
  | _ => exact nomatch h

private theorem literal_rule {k : TokenKind} (h : k.isLiteral = true) :
    (⟨primary, [k], .literal⟩ : Rule) ∈ grammar := by
  cases k with
  | boolean | kwNull | number | string => decide
  | _ => exact nomatch h

/-- Arguments of which each is spelled. -/
private theorem spelled_arguments {es : List Expr}
    (each : ∀ e ∈ es, ∀ ts, Fills e.slots ts → Spelled expression (.expr e) ts) (some : es ≠ [])
    {ts : List Token} (fills : Fills (Expr.argumentSlots es) ts) :
    Spelled arguments (.exprs es) ts := by
  obtain ⟨e, es, rfl⟩ := List.exists_cons_of_ne_nil some
  rw [Expr.argumentSlots] at fills
  obtain ⟨us, vs, rfl, fillsE, fillsEs⟩ := fills.exists_of_append
  have first := each e List.mem_cons_self us fillsE
  by_cases none : es = []
  · subst none
    rw [Expr.moreSlots] at fillsEs
    cases fillsEs
    exact spelled_of_rule (r := ⟨arguments, [expression], .values⟩) (by decide)
      (.cons first .nil) rfl
  · have rest : Spelled moreArguments (.exprs es) vs := by
      refine spelled_row (by rw [Expr.moreSlots]) moreSlots_append ?_ ?_ none fillsEs
      · rintro a ha _ (_ | ⟨kind, fillsA⟩)
        have value := each a (List.mem_cons_of_mem e ha) _ fillsA
        exact spelled_of_rule (r := ⟨moreArguments, [comma, expression], .values⟩) (by decide)
          (.token kind (.last value)) rfl
      · rintro as a ha us _ before (_ | ⟨kind, fillsA⟩)
        have value := each a (List.mem_cons_of_mem e ha) _ fillsA
        exact spelled_of_rule (r := ⟨moreArguments, [moreArguments, comma, expression], .values⟩)
          (by decide) (.cons before (.token kind (.last value))) rfl
    exact spelled_of_rule (r := ⟨arguments, [expression, moreArguments], .values⟩) (by decide)
      (.cons first (.last rest)) rfl

/-- An operator between two operands. -/
private theorem spelled_between {o : Operator} {k : TokenKind} {f : Form}
    (mem : (⟨o.level.nonterminal, [o.left.nonterminal, k, o.right.nonterminal], f⟩ : Rule)
      ∈ grammar)
    {l r e : Expr} {t : Token} (kind : t.kind = k)
    (build : f.build [.expr l, .token t, .expr r] = .ok (.expr e)) {us vs : List Token}
    (left : Spelled o.left.nonterminal (.expr l) us)
    (right : Spelled o.right.nonterminal (.expr r) vs) :
    Spelled o.level.nonterminal (.expr e) (us ++ t :: vs) := by
  refine spelled_of_rule ⟨mem, ?_⟩ (.cons left (.token kind (.last right))) build
  simp [fullIf]

private theorem spelled_unary {t : Token} {e : Expr} {us : List Token}
    (kind : t.kind.isUnary = true) (right : Spelled unary (.expr e) us) :
    Spelled unary (.expr (.unary t e)) (t :: us) := by
  refine spelled_of_rule ⟨unary_rule kind, ?_⟩ (.token rfl (.last right)) rfl
  simp [fullIf]

private theorem spelled_literal {t : Token} (kind : t.kind.isLiteral = true) :
    Spelled primary (.expr (.literal t.literal)) [t] := by
  refine spelled_of_rule ⟨literal_rule kind, ?_⟩ (.token rfl .nil) rfl
  simp [fullIf]

private theorem spelled_var {t : Token} (kind : t.kind = identifier) :
    Spelled primary (.expr (.var t)) [t] :=
  spelled_of_rule (r := ⟨primary, [identifier], .var⟩) (by decide) (.token kind .nil)
    rfl

private theorem spelled_this {t : Token} (kind : t.kind = kwThis) :
    Spelled primary (.expr (.this t)) [t] :=
  spelled_of_rule (r := ⟨primary, [kwThis], .this⟩) (by decide) (.token kind .nil) rfl

private theorem spelled_super {t m name : Token} (kind : t.kind = kwSuper) (kindM : m.kind = dot)
    (nameKind : name.kind = identifier) :
    Spelled primary (.expr (.super t name)) [t, m, name] :=
  spelled_of_rule (r := ⟨primary, [kwSuper, dot, identifier], .super⟩) (by decide)
    (.token kind (.token kindM (.token nameKind .nil))) rfl

private theorem spelled_grouping {t r : Token} {e : Expr} {us : List Token}
    (kind : t.kind = leftParen) (inner : Spelled expression (.expr e) us)
    (kindR : r.kind = rightParen) :
    Spelled primary (.expr (.grouping e)) (t :: (us ++ [r])) :=
  spelled_of_rule (r := ⟨primary, [leftParen, expression, rightParen], .grouping⟩) (by decide)
    (.token kind (.cons inner (.token kindR .nil))) rfl

private theorem spelled_get {e : Expr} {us : List Token} {m name : Token}
    (object : Spelled call (.expr e) us) (kindM : m.kind = dot)
    (nameKind : name.kind = identifier) :
    Spelled call (.expr (.get e name)) (us ++ [m, name]) :=
  spelled_of_rule (r := ⟨call, [call, dot, identifier], .get⟩) (by decide)
    (.cons object (.token kindM (.token nameKind .nil))) rfl

private theorem spelled_call {e : Expr} {es : List Expr} {us vs : List Token} {t paren : Token}
    (callee : Spelled call (.expr e) us) (kind : t.kind = leftParen)
    (each : ∀ e ∈ es, ∀ ts, Fills e.slots ts → Spelled expression (.expr e) ts)
    (fills : Fills (Expr.argumentSlots es) vs) (parenKind : paren.kind = rightParen) :
    Spelled call (.expr (.call e paren es)) (us ++ t :: (vs ++ [paren])) := by
  by_cases none : es = []
  · subst none
    rw [Expr.argumentSlots] at fills
    cases fills
    exact spelled_of_rule (r := ⟨call, [call, leftParen, rightParen], .call⟩) (by decide)
      (.cons callee (.token kind (.token parenKind .nil))) rfl
  · have arguments := spelled_arguments each none fills
    exact spelled_of_rule (r := ⟨call, [call, leftParen, Nonterminal.arguments, rightParen], .call⟩)
      (by decide)
      (.cons callee (.token kind (.cons arguments (.token parenKind .nil)))) rfl

/-- An assignment to whatever may be assigned to. -/
private theorem spelled_assignment {e v whole : Expr} {us vs : List Token} {t : Token}
    (target : Spelled call (.expr e) us) (kind : t.kind = equal)
    (value : Spelled assignment (.expr v) vs)
    (build : Form.assign.build [.expr e, .token t, .expr v] = .ok (.expr whole)) :
    Spelled assignment (.expr whole) (us ++ t :: vs) :=
  spelled_of_rule (r := ⟨assignment, [call, equal, assignment], .assign⟩) (by decide)
    (.cons target (.token kind (.last value))) build

end Grammar

open Grammar in
/-- A canonical expression is spelled at its own level. -/
private theorem Expr.Canonical.spelled_level {e : Expr} (h : e.Canonical) :
    ∀ ts, Fills e.slots ts → Spelled e.level.nonterminal (.expr e) ts := by
  induction h with
  | assign kind _ ih =>
      intro ts fills
      rw [slots] at fills
      obtain _ | ⟨rfl, _ | ⟨kindE, fillsV⟩⟩ := fills
      exact spelled_assignment (spelled_primary (spelled_var kind)) kindE
        (spelled_looser (Level.assignment_le _) (ih _ fillsV)) rfl
  | binary kind _ _ tightL tightR ihL ihR =>
      intro ts fills
      rw [slots] at fills
      obtain ⟨us, _, rfl, fillsL, _ | ⟨rfl, fillsR⟩⟩ := fills.exists_of_append
      simp only [level, kind, Option.map_some, Option.getD_some]
      exact spelled_between (binary_rule kind) rfl rfl (spelled_looser tightL (ihL us fillsL))
        (spelled_looser tightR (ihR _ fillsR))
  | logical kind _ _ tightL tightR ihL ihR =>
      intro ts fills
      rw [slots] at fills
      obtain ⟨us, _, rfl, fillsL, _ | ⟨rfl, fillsR⟩⟩ := fills.exists_of_append
      simp only [level, kind, Option.map_some, Option.getD_some]
      exact spelled_between (logical_rule kind) rfl rfl (spelled_looser tightL (ihL us fillsL))
        (spelled_looser tightR (ihR _ fillsR))
  | call _ tight kind _ ih ihs =>
      intro ts fills
      rw [slots] at fills
      obtain ⟨us, _, rfl, fillsC, _ | ⟨kindL, rest⟩⟩ := fills.exists_of_append
      obtain ⟨vs, _, rfl, fillsA, _ | ⟨rfl, ⟨⟩⟩⟩ := Fills.exists_of_append rest
      exact spelled_call (spelled_looser tight (ih us fillsC)) kindL
        (fun e he ts fills => spelled_expression (ihs e he ts fills)) fillsA kind
  | get _ tight kind ih =>
      intro ts fills
      rw [slots] at fills
      obtain ⟨us, _, rfl, fillsO, _ | ⟨kindM, _ | ⟨rfl, ⟨⟩⟩⟩⟩ := fills.exists_of_append
      exact spelled_get (spelled_looser tight (ih us fillsO)) kindM kind
  | grouping _ ih =>
      intro ts fills
      rw [slots] at fills
      obtain _ | ⟨kind, rest⟩ := fills
      obtain ⟨us, _, rfl, fillsE, _ | ⟨kindR, ⟨⟩⟩⟩ := Fills.exists_of_append rest
      exact spelled_primary (spelled_grouping kind (spelled_expression (ih us fillsE)) kindR)
  | literal v =>
      intro ts fills
      rw [slots] at fills
      obtain _ | ⟨⟨kind, rfl⟩, ⟨⟩⟩ := fills
      exact spelled_primary (spelled_literal kind)
  | set _ tight kind _ ih ihV =>
      intro ts fills
      rw [slots] at fills
      obtain ⟨us, _, rfl, fillsO, _ | ⟨kindM, _ | ⟨rfl, _ | ⟨kindE, fillsV⟩⟩⟩⟩ :=
        fills.exists_of_append
      have target := spelled_get (spelled_looser tight (ih us fillsO)) kindM kind
      have whole := spelled_assignment target kindE
        (spelled_looser (Level.assignment_le _) (ihV _ fillsV)) rfl
      rwa [List.append_assoc] at whole
  | super kind methodKind =>
      intro ts fills
      rw [slots] at fills
      obtain _ | ⟨rfl, _ | ⟨kindM, _ | ⟨rfl, ⟨⟩⟩⟩⟩ := fills
      exact spelled_primary (spelled_super kind kindM methodKind)
  | this kind =>
      intro ts fills
      rw [slots] at fills
      obtain _ | ⟨rfl, ⟨⟩⟩ := fills
      exact spelled_primary (spelled_this kind)
  | unary kind _ tight ih =>
      intro ts fills
      rw [slots] at fills
      obtain _ | ⟨rfl, fillsE⟩ := fills
      exact spelled_unary kind (spelled_looser tight (ih _ fillsE))
  | var kind =>
      intro ts fills
      rw [slots] at fills
      obtain _ | ⟨rfl, ⟨⟩⟩ := fills
      exact spelled_primary (spelled_var kind)

/-- A canonical expression is spelled wherever the grammar has an expression. -/
theorem Expr.Canonical.spelled {e : Expr} (h : e.Canonical) {ts : List Token}
    (fills : Fills e.slots ts) : Grammar.Spelled Grammar.Nonterminal.expression (.expr e) ts :=
  Grammar.spelled_expression (h.spelled_level ts fills)

end ScriptFront
