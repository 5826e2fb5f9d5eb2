import ScriptFront.Proofs.Program.RoundTrip
import ScriptFront.Proofs.Program.Unpacking

/-! # Declarations — a program is its declarations one after the other

    Some tokens form a program exactly if they spell it (`parse_eq_ok_iff`), and they spell it
    exactly if they can be cut into pieces of which each spells one of its statements
    (`spelled_program_iff`).  Nothing is said about where a piece ends: an `if` without `else` may
    be the last statement before any other. -/

namespace ScriptFront

open Grammar

theorem Grammar.Tree.toProgram_eq_ok {t : Tree} {p : Program} :
    t.toProgram = .ok p ↔ t.value = .ok (.stmts p.statements) := by
  rw [toProgram]
  cases t.value with
  | error misfit => simp
  | ok v =>
      cases v with
      | stmts ss =>
          constructor
          · intro h
            cases h
            rfl
          · intro h
            cases h
            rfl
      | _ => simp

/-- Exactly the tokens that spell a program form it. -/
theorem parse_eq_ok_iff {tokens : List Token} {p : Program} :
    parse tokens = .ok p
      ↔ Spelled Nonterminal.program (.stmts p.statements) (tokens.filter Token.isSignificant) := by
  constructor
  · intro ok
    by_cases sentence : significantKinds tokens ∈ sentences
    · obtain ⟨tree, read, fits, near, root, leaves⟩ :=
        Automaton.exists_accepted_of_mem automaton_certified automaton_rules sentence
      refine ⟨tree, fits, near, root, leaves, Tree.toProgram_eq_ok.mp ?_⟩
      simp only [parse, read] at ok
      split at ok
      · rename_i q found
        cases ok
        exact found
      · cases ok
      · cases ok
    · obtain ⟨_, refused, -⟩ := exists_refused sentence
      cases ok.symm.trans refused
  · rintro ⟨tree, fits, near, root, leaves, value⟩
    have read : automaton.read [] tree.tokens = .accepted tree :=
      Automaton.read_of_nearest automaton_certified automaton_rules fits root near
    rw [leaves] at read
    simp only [parse, read, Tree.toProgram_eq_ok.mpr value]

namespace Grammar

/-! ## Values of nodes -/

theorem Tree.value_node_eq_ok {r : Rule} {cs : List Tree} {v : Value} :
    (Tree.node r cs).value = .ok v ↔ ∃ vs, values cs = .ok vs ∧ r.form.build vs = .ok v := by
  rw [value]
  cases values cs with
  | error misfit => simp
  | ok vs => simp

theorem Tree.values_cons_eq_ok {c : Tree} {cs : List Tree} {vs : List Value} :
    values (c :: cs) = .ok vs ↔ ∃ w ws, c.value = .ok w ∧ values cs = .ok ws ∧ vs = w :: ws := by
  rw [values]
  cases c.value with
  | error misfit => simp
  | ok w =>
      cases values cs with
      | error misfit => simp
      | ok ws => simp [eq_comm]

theorem Tree.values_singleton_eq_ok {c : Tree} {vs : List Value} :
    values [c] = .ok vs ↔ ∃ w, c.value = .ok w ∧ vs = [w] := by
  rw [values_cons_eq_ok]
  simp [values, eq_comm]

/-- A tree for a declaration stands for a statement. -/
theorem exists_stmt_of_value {t : Tree} (fits : t.Fits grammar)
    (root : t.root = .nonterminal .declaration) {v : Value} (value : t.value = .ok v) :
    ∃ s, v = .stmt s := by
  have kind := kind_of_value fits root (by decide) value
  cases v with
  | stmt s => exact ⟨s, rfl⟩
  | _ => cases kind

/-! ## Rows of declarations -/

open Nonterminal

/-- Some tokens spell some statements, one after the other. -/
inductive SpelledEach : List Stmt → List Token → Prop
  | nil : SpelledEach [] []
  | concat {ss : List Stmt} {ts us : List Token} {s : Stmt} (before : SpelledEach ss ts)
      (last : Spelled declaration (.stmt s) us) : SpelledEach (ss ++ [s]) (ts ++ us)

namespace SpelledEach

theorem singleton {s : Stmt} {ts : List Token} (h : Spelled declaration (.stmt s) ts) :
    SpelledEach [s] ts :=
  nil.concat h

theorem append {as bs : List Stmt} {us vs : List Token} (ha : SpelledEach as us)
    (hb : SpelledEach bs vs) : SpelledEach (as ++ bs) (us ++ vs) := by
  induction hb with
  | nil => rwa [List.append_nil, List.append_nil]
  | concat _ last ih =>
      rw [← List.append_assoc, ← List.append_assoc]
      exact ih.concat last

/-- Statements that are spelled one after the other are declarations, if there are any. -/
theorem nothing_or_declarations {ss : List Stmt} {ts : List Token} (h : SpelledEach ss ts) :
    ss = [] ∧ ts = [] ∨ Spelled declarations (.stmts ss) ts := by
  induction h with
  | nil => exact Or.inl ⟨rfl, rfl⟩
  | @concat ss ts us s _ last ih =>
      refine Or.inr ?_
      rcases ih with ⟨rfl, rfl⟩ | before
      · exact spelled_of_rule (r := ⟨.declarations, [declaration], .oneStatement⟩) (by decide)
          (.last last) rfl
      · exact spelled_of_rule
          (r := ⟨.declarations, [Nonterminal.declarations, declaration], .moreStatements⟩)
          (by decide) (.cons before (.last last)) rfl

end SpelledEach

/-- There are two rules for rows of declarations. -/
theorem rule_of_declarations : ∀ r ∈ grammar, r.left = declarations →
    r = ⟨declarations, [declaration], .oneStatement⟩
    ∨ r = ⟨declarations, [declarations, declaration], .moreStatements⟩ := by decide

/-- There are two rules for programs. -/
theorem rule_of_program : ∀ r ∈ grammar, r.left = program →
    r = ⟨program, [], .emptyProgram⟩ ∨ r = ⟨program, [declarations], .same⟩ := by decide

/-- The tokens of a row of declarations spell its statements one after the other. -/
theorem spelledEach_of_fits {t : Tree} (fits : t.Fits grammar) (near : t.Nearest)
    (root : t.root = .nonterminal declarations) {ss : List Stmt}
    (value : t.value = .ok (.stmts ss)) : SpelledEach ss t.tokens := by
  induction fits generalizing ss with
  | leaf t => exact nomatch root
  | @node r cs mem roots children ih =>
      cases near with
      | node nearChildren _ =>
        rw [Tree.tokens_node]
        obtain ⟨vs, values, build⟩ := Tree.value_node_eq_ok.mp value
        rcases rule_of_declarations r mem (Symbol.nonterminal.inj root) with rfl | rfl
        · obtain ⟨c, rfl, rootC⟩ := List.map_eq_singleton_iff.mp roots
          obtain ⟨w, valueC, rfl⟩ := Tree.values_singleton_eq_ok.mp values
          have fitsC := children c List.mem_cons_self
          obtain ⟨s, rfl⟩ := exists_stmt_of_value fitsC rootC valueC
          cases build
          rw [Tree.tokensOf_cons, Tree.tokensOf_nil, List.append_nil]
          exact .singleton ⟨c, fitsC, nearChildren c List.mem_cons_self, rootC, rfl, valueC⟩
        · obtain ⟨b, cs, rfl, rootB, rest⟩ := List.map_eq_cons_iff.mp roots
          obtain ⟨c, rfl, rootC⟩ := List.map_eq_singleton_iff.mp rest
          obtain ⟨v, ws, valueB, last, rfl⟩ := Tree.values_cons_eq_ok.mp values
          obtain ⟨w, valueC, rfl⟩ := Tree.values_singleton_eq_ok.mp last
          have memB : b ∈ [b, c] := List.mem_cons_self
          have memC : c ∈ [b, c] := List.mem_cons_of_mem b List.mem_cons_self
          obtain ⟨s, rfl⟩ := exists_stmt_of_value (children c memC) rootC valueC
          have kind := kind_of_value (children b memB) rootB (by decide) valueB
          cases v with
          | stmts before =>
              cases build
              have first := ih b memB (nearChildren b memB) rootB valueB
              rw [Tree.tokensOf_cons, Tree.tokensOf_cons, Tree.tokensOf_nil, List.append_nil]
              exact first.concat ⟨c, children c memC, nearChildren c memC, rootC, rfl, valueC⟩
          | _ => cases kind

/-- Some tokens spell a program exactly if they spell its statements one after the other. -/
theorem spelled_program_iff {ss : List Stmt} {ts : List Token} :
    Spelled program (.stmts ss) ts ↔ SpelledEach ss ts := by
  constructor
  · rintro ⟨t, fits, near, root, rfl, value⟩
    cases fits with
    | leaf t => exact nomatch root
    | @node r cs mem roots children =>
        cases near with
        | node nearChildren _ =>
          rw [Tree.tokens_node]
          obtain ⟨vs, values, build⟩ := Tree.value_node_eq_ok.mp value
          rcases rule_of_program r mem (Symbol.nonterminal.inj root) with rfl | rfl
          · cases List.map_eq_nil_iff.mp roots
            rw [Tree.values] at values
            cases values
            cases build
            exact .nil
          · obtain ⟨c, rfl, rootC⟩ := List.map_eq_singleton_iff.mp roots
            obtain ⟨w, valueC, rfl⟩ := Tree.values_singleton_eq_ok.mp values
            cases build
            rw [Tree.tokensOf_cons, Tree.tokensOf_nil, List.append_nil]
            exact spelledEach_of_fits (children c List.mem_cons_self)
              (nearChildren c List.mem_cons_self) rootC valueC
  · intro each
    rcases each.nothing_or_declarations with ⟨rfl, rfl⟩ | row
    · exact spelled_of_rule (r := ⟨program, [], .emptyProgram⟩) (by decide) .nil rfl
    · exact spelled_same (by decide) row

end Grammar

end ScriptFront
