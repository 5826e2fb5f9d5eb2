import ScriptFront.Proofs.Program.Declarations

/-! # Targets — what may be assigned to, and which assignment is blamed

    The grammar lets whatever can be called stand before an equals sign, and leaves it to the
    evaluation of the tree to refuse what is neither a variable nor a property.  A tree is evaluated
    from the leaves up, and no node but that of an assignment ever fails (`plain_of_mem_rows`).  So
    the assignments in the order of evaluation tell what becomes of a tree: the first one with an
    invalid target is blamed (`settled_of_fits`).

    A text may have several trees, but they differ in no assignment, and so the one that is read
    speaks for all of them (`assignments_byParts`). -/

namespace ScriptFront

open Grammar

/-- Whether an expression is a variable or a property. -/
def Expr.isTarget : Expr → Bool
  | .var _ | .get .. => true
  | _ => false

namespace Grammar

/-! ## Assignments -/

/-- A tree of a variable or of a property, and not of more than that: parentheses, calls and
    operators make it something else. -/
inductive Tree.Assignable : Tree → Prop
  | var {r : Rule} {cs : List Tree} (form : r.form = .var) : Assignable (.node r cs)
  | get {r : Rule} {cs : List Tree} (form : r.form = .get) : Assignable (.node r cs)
  | same {r : Rule} {c : Tree} (form : r.form = .same) (inner : Assignable c) :
      Assignable (.node r [c])

/-- An assignment: the tree that stands before its equals sign, and the sign. -/
structure Assignment where
  target : Tree
  equal : Token

/-- The assignment at a node, if it is one. -/
def assignment? : Rule × List Tree → Option Assignment
  | (⟨_, _, .assign⟩, [target, .leaf equal, _]) => some ⟨target, equal⟩
  | _ => none

/-- The assignments in a tree from left to right, those inside another one before it. -/
def Tree.assignments (t : Tree) : List Assignment := t.nodes.filterMap assignment?

theorem assignments_leaf (t : Token) : (Tree.leaf t).assignments = [] := rfl

theorem filterMap_nodesOf (cs : List Tree) :
    (Tree.nodesOf cs).filterMap assignment? = cs.flatMap Tree.assignments := by
  induction cs with
  | nil => rfl
  | cons c cs ih =>
      rw [Tree.nodesOf, List.filterMap_append, ih, List.flatMap_cons, Tree.assignments]

theorem assignments_node (r : Rule) (cs : List Tree) :
    (Tree.node r cs).assignments
      = cs.flatMap Tree.assignments ++ (assignment? (r, cs)).toList := by
  rw [Tree.assignments, Tree.nodes, List.filterMap_append, filterMap_nodesOf]
  cases own : assignment? (r, cs) with
  | none => simp [own]
  | some s => simp [own]

/-- What is no assignment by its form is none. -/
theorem assignment?_of_ne {r : Rule} (form : r.form ≠ .assign) (cs : List Tree) :
    assignment? (r, cs) = none := by
  rw [assignment?]
  rintro _ _ _ _ _ same
  cases same
  exact form rfl

/-- An assignment is an expression. -/
theorem isInner_of_assign : ∀ r ∈ grammar, r.form = .assign →
    (Symbol.nonterminal r.left).isInner = true := by decide

/-- All trees of a text have the same assignments. -/
theorem assignments_byParts : Tree.ByParts Tree.assignments := by
  intro r mem outer cs
  have other : r.form ≠ .assign := by
    intro form
    exact nomatch outer.symm.trans (isInner_of_assign r mem form)
  rw [assignments_node, assignment?_of_ne other, Option.toList_none, List.append_nil]

/-! ## Forms -/

/-- Whether a form makes a variable or a property. -/
def Form.isTarget : Form → Bool
  | .var | .get => true
  | _ => false

theorem Form.isTarget_iff (f : Form) : f.isTarget = true ↔ f = .var ∨ f = .get := by
  cases f <;> decide

/-- A form that is no assignment makes something of every row that it unpacks: a variable or a
    property if it is one of these forms, and else none, unless it hands on its child. -/
theorem plain_of_mem_rows {f : Form} (changes : f ≠ .same) (plain : f ≠ .assign) :
    ∀ row ∈ f.rows, ForRow row.1 fun vs =>
      ∃ v, f.build vs = .ok v ∧ ∀ e, v = .expr e → e.isTarget = f.isTarget := by
  cases f with
  | same => exact absurd rfl changes
  | assign => exact absurd rfl plain
  | _ =>
      simp only [Form.rows, Form.layouts, filled, List.flatMap_cons, List.flatMap_nil,
        List.map_cons, List.map_nil, List.cons_append, List.nil_append, List.append_nil,
        List.forall_mem_cons, List.not_mem_nil, IsEmpty.forall_iff, implies_true, and_true, ForRow]
      and_intros
      all_goals
        intros
        exact ⟨_, rfl, fun e made => by cases made <;> rfl⟩

/-- An assignment is made of a variable or a property, and of nothing else. -/
theorem build_assign (target : Expr) (equal : Token) (value : Expr) :
    (target.isTarget = true ∧ ∃ e, e.isTarget = false
      ∧ Form.assign.build [.expr target, .token equal, .expr value] = .ok (.expr e))
    ∨ target.isTarget = false ∧ Form.assign.build [.expr target, .token equal, .expr value]
      = .error (.invalidTarget equal) := by
  cases target with
  | var name => exact Or.inl ⟨rfl, _, rfl, rfl⟩
  | get object name => exact Or.inl ⟨rfl, _, rfl, rfl⟩
  | _ => exact Or.inr ⟨rfl, rfl⟩

/-! ## Values -/

theorem right_of_assign : ∀ r ∈ grammar, r.form = .assign →
    r.right = [.nonterminal .call, .terminal .equal, .nonterminal .assignment] := by decide

theorem length_right_of_same : ∀ r ∈ grammar, r ≠ textRule → r.form = .same →
    r.right.length = 1 := by decide

section Node

variable {r : Rule} (mem : r ∈ grammar) {cs : List Tree} (roots : cs.map Tree.root = r.right)

include mem roots

/-- The node of an assignment has the tree of its target, its equals sign and the tree of what is
    assigned. -/
theorem exists_children_assign (form : r.form = .assign) :
    ∃ target equal value, cs = [target, .leaf equal, value] ∧ equal.kind = .equal
      ∧ assignment? (r, cs) = some ⟨target, equal⟩ := by
  rw [right_of_assign r mem form] at roots
  obtain ⟨target, cs, rfl, -, roots⟩ := List.map_eq_cons_iff.mp roots
  obtain ⟨sign, cs, rfl, root, roots⟩ := List.map_eq_cons_iff.mp roots
  obtain ⟨value, cs, rfl, -, roots⟩ := List.map_eq_cons_iff.mp roots
  cases List.map_eq_nil_iff.mp roots
  cases sign with
  | node r cs => exact nomatch root
  | leaf equal =>
      refine ⟨target, equal, value, rfl, Symbol.terminal.inj root, ?_⟩
      obtain ⟨left, right, form'⟩ := r
      cases form
      rfl

/-- A node that hands on its child has only one. -/
theorem exists_child_same (other : r ≠ textRule) (form : r.form = .same) : ∃ c, cs = [c] := by
  refine List.length_eq_one_iff.mp ?_
  rw [← length_right_of_same r mem other form, ← roots, List.length_map]

end Node

/-- The values from which an assignment is made. -/
theorem exists_values_assign {target value : Tree} {equal : Token} {vs : List Value}
    (values : Tree.values [target, .leaf equal, value] = .ok vs)
    (kinds : vs.map Value.kind = [.expr, .token, .expr]) :
    ∃ e e', vs = [.expr e, .token equal, .expr e'] ∧ target.value = .ok (.expr e) := by
  obtain ⟨v, _, first, behind, rfl⟩ := Tree.values_cons_eq_ok.mp values
  obtain ⟨w, _, sign, last, rfl⟩ := Tree.values_cons_eq_ok.mp behind
  obtain ⟨u, -, rfl⟩ := Tree.values_singleton_eq_ok.mp last
  rw [Tree.value] at sign
  cases sign
  cases v with
  | expr e =>
      cases u with
      | expr e' => exact ⟨e, e', rfl, first⟩
      | _ => simp [Value.kind] at kinds
  | _ => simp [Value.kind] at kinds

/-- Values of the kinds that the right side of a rule asks for are built, if it is the rule of no
    assignment. -/
theorem plain_of_mem {r : Rule} (mem : r ∈ grammar) (other : r ≠ textRule)
    (changes : r.form ≠ .same) (plain : r.form ≠ .assign) {vs : List Value}
    (kinds : vs.map Value.kind = r.right.map Symbol.valueKind) :
    ∃ v, r.form.build vs = .ok v ∧ ∀ e, v = .expr e → e.isTarget = r.form.isTarget := by
  have row := plain_of_mem_rows changes plain _ (row_of_mem r mem other)
  rw [← kinds] at row
  exact row.apply

theorem assignable_node_iff {r : Rule} (changes : r.form ≠ .same) (cs : List Tree) :
    (Tree.node r cs).Assignable ↔ r.form.isTarget = true := by
  rw [Form.isTarget_iff]
  constructor
  · intro h
    cases h with
    | var form => exact Or.inl form
    | get form => exact Or.inr form
    | same form => exact absurd form changes
  · rintro (form | form)
    · exact .var form
    · exact .get form

theorem assignable_same_iff {r : Rule} (same : r.form = .same) (c : Tree) :
    (Tree.node r [c]).Assignable ↔ c.Assignable := by
  refine ⟨fun h => ?_, .same same⟩
  cases h with
  | var form => exact nomatch same.symm.trans form
  | get form => exact nomatch same.symm.trans form
  | same _ inner => exact inner

/-- A tree is one of a variable or a property exactly if its value is. -/
theorem assignable_iff {t : Tree} (fits : t.Fits grammar) (notText : t.root ≠ .nonterminal .text)
    {e : Expr} (value : t.value = .ok (.expr e)) : t.Assignable ↔ e.isTarget = true := by
  induction fits generalizing e with
  | leaf t =>
      rw [Tree.value] at value
      cases value
  | @node r cs mem roots fits ih =>
      obtain ⟨vs, values, built⟩ := Tree.value_node_eq_ok.mp value
      have other := ne_textRule notText
      have kinds := (unpacks_of_fits mem other roots fits).kinds vs values
      by_cases same : r.form = .same
      · obtain ⟨c, rfl⟩ := exists_child_same mem roots other same
        obtain ⟨v, first, rfl⟩ := Tree.values_singleton_eq_ok.mp values
        rw [same] at built
        cases built
        rw [assignable_same_iff same]
        exact ih c List.mem_cons_self (root_ne_text_of_mem mem roots c List.mem_cons_self) first
      rw [assignable_node_iff same]
      by_cases assign : r.form = .assign
      · obtain ⟨target, equal, value, rfl, -, -⟩ := exists_children_assign mem roots assign
        rw [right_of_assign r mem assign] at kinds
        obtain ⟨f, f', rfl, -⟩ := exists_values_assign values kinds
        rw [assign] at built ⊢
        rcases build_assign f equal f' with ⟨-, g, no, made⟩ | ⟨-, failed⟩
        · cases made.symm.trans built
          rw [no]
          rfl
        · cases failed.symm.trans built
      · obtain ⟨v, made, target⟩ := plain_of_mem mem other same assign kinds
        cases made.symm.trans built
        rw [target e rfl]

/-! ## What becomes of a tree -/

/-- What the assignments of a tree make of it: it has a value if all of them have valid targets, and
    otherwise the first that has none is blamed. -/
inductive Settled {α : Type} : List Assignment → Except Misfit α → Prop
  | valid {as : List Assignment} {x : α} (all : ∀ s ∈ as, s.target.Assignable) :
      Settled as (.ok x)
  | invalid {before after : List Assignment} {s : Assignment} {e : Expr}
      (front : ∀ b ∈ before, b.target.Assignable) (sign : s.equal.kind = .equal)
      (value : s.target.value = .ok (.expr e)) (noTarget : e.isTarget = false)
      (fails : ¬ s.target.Assignable) :
      Settled (before ++ s :: after) (.error (.invalidTarget s.equal))

namespace Settled

variable {α β : Type} {as bs : List Assignment}

theorem valid_of_ok {x : α} (h : Settled as (.ok x)) : ∀ s ∈ as, s.target.Assignable := by
  cases h with
  | valid all => exact all

theorem exists_of_error {m : Misfit} (h : Settled as (.error m : Except Misfit α)) :
    ∃ s ∈ as, ¬ s.target.Assignable := by
  cases h with
  | invalid _ _ _ _ fails => exact ⟨_, by simp, fails⟩

/-- The assignment that is blamed is the first one that fails. -/
theorem blames {result : Except Misfit α} (h : Settled as result) {before after : List Assignment}
    {s : Assignment} (split : as = before ++ s :: after)
    (front : ∀ b ∈ before, b.target.Assignable) (fails : ¬ s.target.Assignable) :
    result = .error (.invalidTarget s.equal) ∧ s.equal.kind = .equal
      ∧ ∃ e, s.target.value = .ok (.expr e) ∧ e.isTarget = false := by
  cases h with
  | valid all => exact absurd (all s (by simp [split])) fails
  | @invalid before' after' s' e front' sign value noTarget fails' =>
      obtain rfl : s' = s := by
        rcases List.append_eq_append_iff.mp split with ⟨between, eq, behind⟩ | ⟨between, eq, behind⟩
        · cases between with
          | nil => exact (List.cons.inj behind).1
          | cons b between =>
              obtain ⟨rfl, -⟩ := List.cons.inj behind
              exact absurd (front s' (by simp [eq])) fails'
        · cases between with
          | nil => exact (List.cons.inj behind).1.symm
          | cons b between =>
              obtain ⟨rfl, -⟩ := List.cons.inj behind
              exact absurd (front' s (by simp [eq])) fails
      exact ⟨rfl, sign, e, value, noTarget⟩

/-- What is blamed stays blamed with more assignments behind it. -/
theorem append_of_error {m : Misfit} (h : Settled as (.error m : Except Misfit α))
    (bs : List Assignment) : Settled (as ++ bs) (.error m : Except Misfit β) := by
  cases h with
  | invalid front sign value noTarget fails =>
      rw [List.append_assoc]
      exact .invalid front sign value noTarget fails

/-- Valid assignments in front leave the rest as it is. -/
theorem append_of_valid (all : ∀ s ∈ as, s.target.Assignable) {result : Except Misfit α}
    (h : Settled bs result) (f : α → β) : Settled (as ++ bs) (result.map f) := by
  cases h with
  | valid rest => exact .valid (List.forall_mem_append.mpr ⟨all, rest⟩)
  | invalid front sign value noTarget fails =>
      rw [← List.append_assoc]
      exact .invalid (List.forall_mem_append.mpr ⟨all, front⟩) sign value noTarget fails

end Settled

/-- Children that are settled one by one are settled together. -/
theorem settled_values {cs : List Tree} (h : ∀ c ∈ cs, Settled c.assignments c.value) :
    Settled (cs.flatMap Tree.assignments) (Tree.values cs) := by
  induction cs with
  | nil =>
      rw [Tree.values]
      exact .valid (List.forall_mem_nil _)
  | cons c cs ih =>
      obtain ⟨first, rest⟩ := List.forall_mem_cons.mp h
      rw [List.flatMap_cons, Tree.values]
      cases value : c.value with
      | error m =>
          rw [value] at first
          exact first.append_of_error _
      | ok v =>
          rw [value] at first
          have both := (ih rest).append_of_valid first.valid_of_ok (v :: ·)
          cases values : Tree.values cs with
          | error m => rwa [values] at both
          | ok vs => rwa [values] at both

/-- An assignment whose parts hold valid ones only has a value if its target is valid as well. -/
theorem settled_assign {as : List Assignment} (all : ∀ s ∈ as, s.target.Assignable) {target : Tree}
    {equal : Token} (sign : equal.kind = .equal) {e : Expr} (value : target.value = .ok (.expr e))
    (iff : target.Assignable ↔ e.isTarget = true) (assigned : Expr) :
    Settled (as ++ [⟨target, equal⟩])
      (Form.assign.build [.expr e, .token equal, .expr assigned]) := by
  rcases build_assign e equal assigned with ⟨isTarget, _, -, made⟩ | ⟨noTarget, failed⟩
  · rw [made]
    refine .valid (List.forall_mem_append.mpr ⟨all, ?_⟩)
    exact List.forall_mem_singleton.mpr (iff.mpr isTarget)
  · rw [failed]
    refine .invalid (s := ⟨target, equal⟩) all sign value noTarget fun h => ?_
    exact nomatch noTarget.symm.trans (iff.mp h)

/-- The assignments of a tree in the order of evaluation decide what becomes of it. -/
theorem settled_of_fits {t : Tree} (fits : t.Fits grammar)
    (notText : t.root ≠ .nonterminal .text) : Settled t.assignments t.value := by
  induction fits with
  | leaf t =>
      rw [Tree.value]
      exact .valid (List.forall_mem_nil _)
  | @node r cs mem roots fits ih =>
      have other := ne_textRule notText
      have unpacks := unpacks_of_fits mem other roots fits
      have children := settled_values fun c hc => ih c hc (root_ne_text_of_mem mem roots c hc)
      rw [assignments_node, Tree.value]
      cases values : Tree.values cs with
      | error m =>
          rw [values] at children
          exact children.append_of_error _
      | ok vs =>
          rw [values] at children
          have all := children.valid_of_ok
          have kinds := unpacks.kinds vs values
          by_cases assign : r.form = .assign
          · -- the only node that can fail
            obtain ⟨target, equal, value, rfl, sign, own⟩ := exists_children_assign mem roots assign
            rw [right_of_assign r mem assign] at kinds
            obtain ⟨e, e', rfl, first⟩ := exists_values_assign values kinds
            have iff := assignable_iff (fits target List.mem_cons_self)
              (root_ne_text_of_mem mem roots target List.mem_cons_self) first
            rw [own, assign]
            exact settled_assign all sign first iff e'
          · rw [assignment?_of_ne assign, Option.toList_none, List.append_nil]
            by_cases same : r.form = .same
            · obtain ⟨c, rfl⟩ := exists_child_same mem roots other same
              obtain ⟨v, -, rfl⟩ := Tree.values_singleton_eq_ok.mp values
              rw [same]
              exact .valid all
            · obtain ⟨v, made, -⟩ := plain_of_mem mem other same assign kinds
              simp only [made]
              exact .valid all

end Grammar

/-! ## Texts -/

/-- Any tree of the tokens decides what becomes of them. -/
theorem settled_of_tree {tokens : List Token} {tree : Grammar.Tree} (fits : tree.Fits grammar)
    (root : tree.root = .nonterminal .program)
    (leaves : tree.tokens = tokens.filter Token.isSignificant) :
    ∃ result : Except Misfit Value, Settled tree.assignments result
      ∧ ((∃ v p, result = .ok v ∧ parse tokens = .ok p)
        ∨ ∃ equal : Token, result = .error (.invalidTarget equal)
          ∧ parse tokens = .error (.ofCause .invalidTarget equal.position)) := by
  obtain ⟨tree', fits', root', near, same⟩ := Grammar.Tree.exists_rearranged fits
  rw [root] at root'
  have read : automaton.read [] (tokens.filter Token.isSignificant) = .accepted tree' := by
    rw [← leaves, ← same Grammar.Tree.tokens Grammar.Tree.byParts_tokens]
    exact Automaton.read_of_nearest automaton_certified automaton_rules fits' root' near
  have settled := settled_of_fits fits' (by rw [root']; decide)
  rw [same Grammar.Tree.assignments assignments_byParts] at settled
  refine ⟨tree'.value, settled, ?_⟩
  rcases toProgram_of_fits fits' root' with ⟨ss, value, program⟩ | ⟨equal, value, program⟩
  · refine Or.inl ⟨_, ⟨ss⟩, value, ?_⟩
    simp only [parse, read, program]
  · refine Or.inr ⟨equal, value, ?_⟩
    simp only [parse, read, program]

/-- What is no sentence is refused as such, whatever is assigned to in it.  A sentence has a tree,
    and whichever of its trees is taken, it is refused exactly if something in the tree is assigned
    to that is neither a variable nor a property, and the equals sign that is reported is that of
    the first such assignment, where those inside another one come before it. -/
theorem first_invalid_target_is_blamed (tokens : List Token) :
    (significantKinds tokens ∉ sentences →
      ∃ p, parse tokens = .error p ∧ p.cause.code = some .unexpectedToken)
    ∧ (significantKinds tokens ∈ sentences → ∃ tree : Grammar.Tree, tree.Fits grammar
      ∧ tree.root = .nonterminal .program ∧ tree.tokens = tokens.filter Token.isSignificant)
    ∧ ∀ tree : Grammar.Tree, tree.Fits grammar → tree.root = .nonterminal .program →
      tree.tokens = tokens.filter Token.isSignificant →
      ((∃ p, parse tokens = .error p ∧ p.cause.code = some .invalidTarget)
        ↔ ∃ s ∈ tree.assignments, ¬ s.target.Assignable)
      ∧ ∀ before s after, tree.assignments = before ++ s :: after →
        (∀ b ∈ before, b.target.Assignable) → ¬ s.target.Assignable →
        parse tokens = .error (.ofCause .invalidTarget s.equal.position) ∧ s.equal.kind = .equal
          ∧ ∃ e, s.target.value = .ok (.expr e) ∧ e.isTarget = false := by
  refine ⟨exists_refused, map_kind_mem_language_iff.mp, fun tree fits root leaves => ?_⟩
  obtain ⟨result, settled, parsed⟩ := settled_of_tree fits root leaves
  constructor
  · rcases parsed with ⟨v, p, rfl, ok⟩ | ⟨equal, rfl, refused⟩
    · constructor
      · rintro ⟨q, refused, -⟩
        exact nomatch ok.symm.trans refused
      · rintro ⟨s, mem, fails⟩
        exact absurd (settled.valid_of_ok s mem) fails
    · exact ⟨fun _ => settled.exists_of_error, fun _ => ⟨_, refused, rfl⟩⟩
  · intro before s after split front fails
    obtain ⟨rfl, sign, value⟩ := settled.blames split front fails
    rcases parsed with ⟨v, p, ok, -⟩ | ⟨equal, same, refused⟩
    · exact nomatch ok
    · cases same
      exact ⟨refused, sign, value⟩

namespace Grammar.Tree

/-- A tree under nonterminals, the outermost first, each of which stands for the next one. -/
def climb (t : Grammar.Tree) (ns : List Nonterminal) : Grammar.Tree :=
  ns.foldr (fun n t => .node ⟨n, [t.root], .same⟩ [t]) t

/-- The tree of an assignment. -/
def assigning (target : Grammar.Tree) (equal : Token) (value : Grammar.Tree) : Grammar.Tree :=
  .node ⟨.assignment, [.nonterminal .call, .terminal .equal, .nonterminal .assignment], .assign⟩
    [target, .leaf equal, value]

/-- The tree of a program that is one assignment. -/
def evaluating (t : Grammar.Tree) : Grammar.Tree :=
  let statement : Grammar.Tree :=
    .node ⟨.exprStmt, [.nonterminal .expression, .terminal .semicolon], .exprStmt⟩
      [t.climb [.expression], .leaf (tokenOf .semicolon)]
  let declarations : Grammar.Tree :=
    .node ⟨.declarations, [.nonterminal .declaration], .oneStatement⟩
      [statement.climb [.declaration, .statement]]
  declarations.climb [.program]

end Grammar.Tree

/-- Of the two invalid targets in `this = this = a;` the inner one is blamed. -/
theorem inner_target_is_blamed :
    let this : Token := ⟨.kwThis, "this", .null, ⟨1, 1⟩⟩
    let outer : Token := ⟨.equal, "=", .null, ⟨1, 6⟩⟩
    let inner : Token := ⟨.equal, "=", .null, ⟨1, 13⟩⟩
    let tokens := [this, outer, this, inner, tokenOf .identifier, tokenOf .semicolon]
    significantKinds tokens ∈ sentences
      ∧ parse tokens = .error (.ofCause .invalidTarget inner.position) := by
  intro this outer inner tokens
  let self : Grammar.Tree := .node ⟨.primary, [.terminal .kwThis], .this⟩ [.leaf this]
  let a : Grammar.Tree :=
    .node ⟨.primary, [.terminal .identifier], .var⟩ [.leaf (tokenOf .identifier)]
  let target := self.climb [.call]
  let value := a.climb [.assignment, .logicOr, .logicAnd, .equality, .comparison, .term, .factor,
    .unary, .power, .call]
  let tree := (target.assigning outer (target.assigning inner value)).evaluating
  have fits : tree.Fits grammar := by decide +kernel
  have leaves : tree.tokens = tokens := by decide +kernel
  have split : tree.assignments = [] ++ ⟨target, inner⟩ :: [⟨target, outer⟩] := by
    simp [tree, value, a, target, self, Grammar.Tree.evaluating, Grammar.Tree.assigning,
      Grammar.Tree.climb, assignments_node, assignments_leaf, assignment?]
  have invalid : ¬ target.Assignable := by
    rw [show target = .node ⟨.call, [.nonterminal .primary], .same⟩ [self] from rfl,
      assignable_same_iff rfl, assignable_node_iff (by decide)]
    decide
  refine ⟨map_kind_mem_language_iff.mpr ⟨tree, fits, rfl, leaves⟩, ?_⟩
  obtain ⟨-, -, trees⟩ := first_invalid_target_is_blamed tokens
  exact ((trees tree fits rfl leaves).2 [] _ _ split (List.forall_mem_nil _) invalid).1

end ScriptFront
