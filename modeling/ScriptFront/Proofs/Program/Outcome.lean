import ScriptFront.Proofs.Program.Expressions
import ScriptFront.Proofs.Program.Statements

/-! # Outcomes — what becomes of a tree of the grammar

    The rules are sound one by one (`sound_of_mem`), and so every tree in which each `else` belongs
    to the nearest `if` has the value that its root asks for, unless something is assigned to that
    cannot be (`outcome_of_fits`). -/

namespace ScriptFront.Grammar

open Nonterminal TokenKind

/-! ## All rules -/

/-- The kinds of statements are statements, and all statements are declarations. -/
private theorem StandsStmt.of_imp {p q : Stmt → Bool} (h : ∀ s, p s = true → q s = true) :
    ∀ v ts o, StandsStmt p v ts o → StandsStmt q v ts o := by
  rintro _ ts o ⟨s, rfl, canonical, kind, fills, ends⟩
  exact ⟨s, rfl, canonical, h s kind, fills, ends⟩

private theorem isStatement_of_exprStmt (s : Stmt)
    (h : (s.isStatement && s.isInitializer) = true) : s.isStatement = true :=
  (Bool.and_eq_true_iff.mp h).1

private theorem isInitializer_of_exprStmt (s : Stmt)
    (h : (s.isStatement && s.isInitializer) = true) : s.isInitializer = true :=
  (Bool.and_eq_true_iff.mp h).2

/-- The rules of the grammar make canonical values of canonical ones.  The rule of the whole text
    makes none, and those of the conditional have more to see to. -/
theorem sound_of_mem : ∀ r ∈ grammar, r ∉ [textRule, shortIf, fullIf] → r.Sound := by
  have special : ∀ {r : Rule} {p : Prop}, r ∈ [textRule, shortIf, fullIf] →
      r ∉ [textRule, shortIf, fullIf] → p := fun mem not => absurd mem not
  simp only [grammar, List.forall_mem_cons]
  exact ⟨special (by simp [textRule]),
    -- programs and declarations
    fun _ => sound_emptyProgram,
    fun _ => sound_same fun _ _ _ => id,
    fun _ => sound_oneStatement,
    fun _ => sound_moreStatements,
    fun _ => sound_same fun _ _ _ => id,
    fun _ => sound_functionStmt,
    fun _ => sound_same (.of_imp fun _ _ => rfl),
    fun _ => sound_same (.of_imp fun _ _ => rfl),
    fun _ => sound_bareClass,
    fun _ => sound_class,
    fun _ => sound_bareSubclass,
    fun _ => sound_subclass,
    fun _ => sound_oneFunction,
    fun _ => sound_moreFunctions,
    fun _ => sound_bareFunction,
    fun _ => sound_function,
    fun _ => sound_name,
    fun _ => sound_names,
    fun _ => sound_firstName,
    fun _ => sound_moreNames,
    -- statements
    fun _ => sound_same (.of_imp isStatement_of_exprStmt),
    fun _ => sound_same fun _ _ _ => id,
    fun _ => sound_same fun _ _ _ => id,
    fun _ => sound_same fun _ _ _ => id,
    fun _ => sound_same fun _ _ _ => id,
    fun _ => sound_same fun _ _ _ => id,
    fun _ => sound_same fun _ _ _ => id,
    fun _ => sound_same fun _ _ _ => id,
    fun _ => sound_blockStmt,
    special (by simp [shortIf]),
    special (by simp [fullIf]),
    fun _ => sound_while,
    fun _ => sound_for,
    fun _ => sound_forWhile,
    fun _ => sound_forStep,
    fun _ => sound_forWhileStep,
    fun _ => sound_someInit (fun _ _ _ => id) fun _ => id,
    fun _ => sound_someInit (fun _ _ _ => id) isInitializer_of_exprStmt,
    fun _ => sound_noInit,
    fun _ => sound_emptyInit,
    fun _ => sound_bareVar,
    fun _ => sound_varType,
    fun _ => sound_varValue,
    fun _ => sound_varTypeValue,
    fun _ => sound_exprStmt,
    fun _ => sound_print,
    fun _ => sound_break,
    fun _ => sound_continue,
    fun _ => sound_bareReturn,
    fun _ => sound_return,
    fun _ => sound_emptyBlock,
    fun _ => sound_block,
    -- expressions
    fun _ => sound_argument,
    fun _ => sound_arguments,
    fun _ => sound_firstMore,
    fun _ => sound_more,
    fun _ => sound_same fun _ _ _ => id,
    fun _ => sound_assign,
    fun _ => sound_tighter (show Level.assignment ≤ .logicOr by decide),
    fun _ => sound_tighter (show Level.logicOr ≤ .logicAnd by decide),
    fun _ => sound_logical (show kwOr.logical? = some _ from rfl),
    fun _ => sound_tighter (show Level.logicAnd ≤ .equality by decide),
    fun _ => sound_logical (show kwAnd.logical? = some _ from rfl),
    fun _ => sound_tighter (show Level.equality ≤ .comparison by decide),
    fun _ => sound_binary (show bangEqual.binary? = some _ from rfl),
    fun _ => sound_binary (show equalEqual.binary? = some _ from rfl),
    fun _ => sound_tighter (show Level.comparison ≤ .term by decide),
    fun _ => sound_binary (show greater.binary? = some _ from rfl),
    fun _ => sound_binary (show greaterEqual.binary? = some _ from rfl),
    fun _ => sound_binary (show less.binary? = some _ from rfl),
    fun _ => sound_binary (show lessEqual.binary? = some _ from rfl),
    fun _ => sound_tighter (show Level.term ≤ .factor by decide),
    fun _ => sound_binary (show minus.binary? = some _ from rfl),
    fun _ => sound_binary (show plus.binary? = some _ from rfl),
    fun _ => sound_tighter (show Level.factor ≤ .unary by decide),
    fun _ => sound_binary (show slash.binary? = some _ from rfl),
    fun _ => sound_binary (show star.binary? = some _ from rfl),
    fun _ => sound_unary (show bang.isUnary = true from rfl),
    fun _ => sound_unary (show minus.isUnary = true from rfl),
    fun _ => sound_unary (show plusPlus.isUnary = true from rfl),
    fun _ => sound_unary (show minusMinus.isUnary = true from rfl),
    fun _ => sound_tighter (show Level.unary ≤ .power by decide),
    fun _ => sound_tighter (show Level.power ≤ .call by decide),
    fun _ => sound_binary (show starStar.binary? = some _ from rfl),
    fun _ => sound_same fun _ _ _ => id,
    fun _ => sound_bareCall,
    fun _ => sound_call,
    fun _ => sound_get,
    fun _ => sound_literal (show boolean.isLiteral = true from rfl),
    fun _ => sound_literal (show kwNull.isLiteral = true from rfl),
    fun _ => sound_literal (show number.isLiteral = true from rfl),
    fun _ => sound_literal (show string.isLiteral = true from rfl),
    fun _ => sound_this,
    fun _ => sound_var,
    fun _ => sound_grouping,
    fun _ => sound_super,
    fun _ => sound_bareNew,
    fun _ => sound_new,
    List.forall_mem_nil _⟩

/-! ## Trees -/

/-- How the last of some trees ends. -/
def LastOpen : Prop → List Tree → Prop
  | isOpen, [] => isOpen
  | _, c :: cs => LastOpen c.EndsOpen cs

theorem lastOpen_append {o : Prop} (init : List Tree) (c : Tree) :
    LastOpen o (init ++ [c]) = c.EndsOpen := by
  induction init generalizing o with
  | nil => rfl
  | cons d init ih => exact ih

theorem endsOpen_node {r : Rule} (long : r ≠ shortIf) {cs : List Tree} :
    (Tree.node r cs).EndsOpen ↔ LastOpen False cs := by
  rw [Tree.endsOpen_node_iff]
  rcases List.eq_nil_or_concat cs with rfl | ⟨init, c, rfl⟩
  · constructor
    · rintro (short | ⟨init, c, eq, -⟩)
      · exact long short
      · exact absurd eq (by simp)
    · exact False.elim
  · rw [List.concat_eq_append, lastOpen_append]
    constructor
    · rintro (short | ⟨init', c', eq, isOpen⟩)
      · exact absurd short long
      · obtain ⟨-, eq⟩ := List.append_inj' eq rfl
        rwa [List.singleton_inj.mp eq]
    · exact fun isOpen => Or.inr ⟨init, c, rfl, isOpen⟩

/-- The values of some trees, each of which has the outcome its root asks for, meet the demands of
    their roots, or the first that has no value has an invalid target. -/
theorem demands_children {cs : List Tree}
    (h : ∀ c ∈ cs, ∀ n, c.root = .nonterminal n →
      n.Outcome (c.tokens.filter Token.isKept) c.EndsOpen c.value)
    {o : Prop} {p : List Value → List Token → Prop → Prop}
    (demands : Demands (cs.map Tree.root) o p) :
    (∃ vs, Tree.values cs = .ok vs ∧ p vs ((Tree.tokensOf cs).filter Token.isKept) (LastOpen o cs))
    ∨ ∃ t ∈ (Tree.tokensOf cs).filter Token.isKept, t.kind = equal
      ∧ Tree.values cs = .error (.invalidTarget t) := by
  induction cs generalizing o p with
  | nil =>
      refine Or.inl ⟨[], ?_, demands⟩
      rw [Tree.values]
  | cons c cs ih =>
      have rest := fun d hd => h d (List.mem_cons_of_mem c hd)
      have filtered : (Tree.tokensOf (c :: cs)).filter Token.isKept
          = c.tokens.filter Token.isKept ++ (Tree.tokensOf cs).filter Token.isKept := by
        rw [Tree.tokensOf_cons, List.filter_append]
      rw [filtered]
      cases value : c.value with
      | error misfit =>
          cases c with
          | leaf t =>
              rw [Tree.value] at value
              exact nomatch value
          | node r ds =>
              have outcome := h _ List.mem_cons_self r.left rfl
              rw [value] at outcome
              cases misfit with
              | malformed => exact outcome.elim
              | invalidTarget t =>
                  refine Or.inr ⟨t, List.mem_append_left _ outcome.1, outcome.2, ?_⟩
                  rw [Tree.values, value]
      | ok v =>
          -- what the first tree leaves to be demanded of the others
          have next : Demands (cs.map Tree.root) c.EndsOpen
              fun vs ts o => p (v :: vs) (c.tokens.filter Token.isKept ++ ts) o := by
            cases c with
            | leaf t =>
                rw [Tree.value] at value
                cases value
                have closed : (Tree.leaf t).EndsOpen = False :=
                  propext ⟨Tree.not_endsOpen_leaf t, False.elim⟩
                rw [Tree.tokens_leaf, closed]
                by_cases new : t.kind = kwNew
                · rw [List.map_cons, Tree.root_leaf, new] at demands
                  rw [List.filter_singleton, Token.isKept, new]
                  exact demands t new
                · rw [List.map_cons, Tree.root_leaf, demands_terminal new] at demands
                  rw [List.filter_singleton, Token.isKept, decide_eq_true new]
                  exact demands t rfl
            | node r ds =>
                have outcome := h _ List.mem_cons_self r.left rfl
                rw [value] at outcome
                exact demands v _ _ outcome
          rcases ih rest next with ⟨vs, values, holds⟩ | ⟨t, mem, kind, values⟩
          · refine Or.inl ⟨v :: vs, ?_, holds⟩
            rw [Tree.values, value]
            simp only [values]
          · refine Or.inr ⟨t, List.mem_append_right _ mem, kind, ?_⟩
            rw [Tree.values, value]
            simp only [values]

/-- The values of some trees have the values one by one. -/
theorem exists_value_of_values {cs : List Tree} {vs : List Value}
    (h : Tree.values cs = .ok vs) {i : Nat} {v : Value} (hv : vs[i]? = some v) :
    ∃ c, cs[i]? = some c ∧ c.value = .ok v := by
  induction cs generalizing vs i with
  | nil =>
      rw [Tree.values] at h
      cases h
      exact nomatch hv
  | cons c cs ih =>
      rw [Tree.values] at h
      split at h
      · exact nomatch h
      · next w value =>
          split at h
          · exact nomatch h
          · next ws values =>
              cases h
              cases i with
              | zero =>
                  cases hv
                  exact ⟨c, rfl, value⟩
              | succ i => exact ih values hv

/-- The first branch of a conditional with `else` is closed. -/
private theorem branch_closed {cs : List Tree} (roots : cs.map Tree.root = fullIf.right)
    (apart : cs.IsChain fun c d => d.root = .terminal kwElse → ¬ c.EndsOpen)
    (h : ∀ c ∈ cs, ∀ n, c.root = .nonterminal n →
      n.Outcome (c.tokens.filter Token.isKept) c.EndsOpen c.value)
    {vs : List Value} (values : Tree.values cs = .ok vs) {s : Stmt}
    (branch : vs[4]? = some (.stmt s)) : s.endsOpen = false := by
  obtain ⟨i, l, e, p, c, el, b, rfl⟩ := Tree.exists_children_fullIf roots
  obtain ⟨_, ⟨⟩, value⟩ := exists_value_of_values values branch
  simp only [List.map_cons, List.map_nil, fullIf, List.cons.injEq, and_true] at roots
  obtain ⟨-, -, -, -, root, rootElse, -⟩ := roots
  simp only [List.isChain_cons_cons] at apart
  have closed : ¬ c.EndsOpen := apart.2.2.2.2.1 rootElse
  have outcome := h c (by simp) statement root
  rw [value] at outcome
  obtain ⟨_, ⟨⟩, -, -, -, ends⟩ := outcome
  rw [← Bool.not_eq_true]
  exact fun isOpen => closed (ends.mpr isOpen)

/-- A node has the outcome its rule asks for if its rule makes this of whatever its children meet;
    an invalid target below is one of the whole. -/
private theorem outcome_node {r : Rule} {cs : List Tree} (roots : cs.map Tree.root = r.right)
    (children : ∀ c ∈ cs, ∀ n, c.root = .nonterminal n →
      n.Outcome (c.tokens.filter Token.isKept) c.EndsOpen c.value)
    {p : List Value → List Token → Prop → Prop} (demands : Demands r.right False p)
    (built : ∀ vs, Tree.values cs = .ok vs →
      p vs ((Tree.tokensOf cs).filter Token.isKept) (LastOpen False cs) →
      r.left.Outcome ((Tree.tokensOf cs).filter Token.isKept) (Tree.node r cs).EndsOpen
        (r.form.build vs)) :
    r.left.Outcome ((Tree.node r cs).tokens.filter Token.isKept) (Tree.node r cs).EndsOpen
      (Tree.node r cs).value := by
  rw [Tree.tokens_node, Tree.value]
  rw [← roots] at demands
  rcases demands_children children demands with ⟨vs, values, holds⟩ | ⟨t, mem, kind, values⟩
  · rw [values]
    exact built vs values holds
  · rw [values]
    exact ⟨mem, kind⟩

/-- A tree of the grammar in which every `else` belongs to the nearest `if` has the outcome that its
    root asks for. -/
theorem outcome_of_fits {t : Tree} (fits : t.Fits grammar) (near : t.Nearest) {n : Nonterminal}
    (root : t.root = .nonterminal n) (notText : n ≠ text) :
    n.Outcome (t.tokens.filter Token.isKept) t.EndsOpen t.value := by
  induction fits generalizing n with
  | leaf t => exact nomatch root
  | @node r cs mem roots _ ih =>
      cases near with
      | node nearChildren apart =>
        cases root
        have children : ∀ c ∈ cs, ∀ n, c.root = .nonterminal n →
            n.Outcome (c.tokens.filter Token.isKept) c.EndsOpen c.value := by
          intro c hc n hn
          refine ih c hc (nearChildren c hc) hn ?_
          rintro rfl
          exact text_not_mem_right r mem (roots ▸ hn ▸ List.mem_map_of_mem hc)
        by_cases special : r ∈ [textRule, shortIf, fullIf]
        · simp only [List.mem_cons, List.not_mem_nil, or_false] at special
          rcases special with rfl | rfl | rfl
          · exact absurd rfl notText
          · refine outcome_node roots children sound_shortIf fun vs _ holds => ?_
            have isOpen : (Tree.node shortIf cs).EndsOpen = True := eq_true (.short cs)
            rw [isOpen]
            exact holds
          · refine outcome_node roots children sound_fullIf fun vs values holds => ?_
            rw [propext (endsOpen_node (show fullIf ≠ shortIf by decide))]
            -- no `else` follows an open branch, so the branch that has one is closed
            exact holds fun s branch => branch_closed roots apart children values branch
        · refine outcome_node roots children (sound_of_mem r mem special) fun vs _ holds => ?_
          have long : r ≠ shortIf := fun short => special (by simp [short])
          rw [propext (endsOpen_node long)]
          exact holds

end ScriptFront.Grammar
