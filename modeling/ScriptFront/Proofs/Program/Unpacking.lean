import ScriptFront.Program.Building
import ScriptFront.Proofs.Grammar.NearestElse

/-! # Unpacking — every rule is built from children of the number and kinds it asks for

    A form takes its children in one of a few layouts, some parts of which may be absent as a whole.
    The rules of the grammar hand over just these rows (`row_of_mem`), and on them no form gives up
    (`built_of_mem_rows`).  So each node of a tree has children as its form unpacks them, and the
    tree stands for a value of the kind that its root asks for or has an invalid target
    (`built_of_fits`). -/

namespace ScriptFront.Grammar

/-! ## Kinds of values -/

namespace Value

/-- The kind of a value. -/
def kind : Value → Kind
  | token _ => .token
  | expr _ => .expr
  | stmt _ => .stmt
  | stmts _ => .stmts
  | function _ => .function
  | functions _ => .functions
  | names _ => .names
  | exprs _ => .exprs
  | init _ => .init

namespace Kind

/-- What a value of a kind holds. -/
def Content : Kind → Type
  | token => Token
  | expr => Expr
  | stmt => Stmt
  | stmts => List Stmt
  | function => FunctionDecl Stmt
  | functions => List (FunctionDecl Stmt)
  | names => List Token
  | exprs => List Expr
  | init => Option Stmt

/-- The value of a kind that holds something. -/
def value : (k : Kind) → k.Content → Value
  | token => Value.token
  | expr => Value.expr
  | stmt => Value.stmt
  | stmts => Value.stmts
  | function => Value.function
  | functions => Value.functions
  | names => Value.names
  | exprs => Value.exprs
  | init => Value.init

end Kind

theorem exists_content (v : Value) : ∃ x : v.kind.Content, v = v.kind.value x := by
  cases v with
  | token x | expr x | stmt x | stmts x | function x | functions x | names x | exprs x | init x =>
      exact ⟨x, rfl⟩

end Value

/-- A statement about all values of a row of kinds. -/
def ForRow : List Value.Kind → (List Value → Prop) → Prop
  | [], p => p []
  | k :: ks, p => ∀ x : k.Content, ForRow ks fun vs => p (k.value x :: vs)

theorem ForRow.apply {vs : List Value} {p : List Value → Prop}
    (h : ForRow (vs.map Value.kind) p) : p vs := by
  induction vs generalizing p with
  | nil => exact h
  | cons v vs ih =>
      obtain ⟨x, same⟩ := v.exists_content
      rw [same]
      exact ih (h x)

/-! ## Layouts -/

/-- The rows of children that fill a layout, each with its places.  Nothing stands in the place of
    an optional child that is absent; where no child is repeated, there is no place. -/
def filled : List Part → List (List Value.Kind × List (Option Value.Kind))
  | [] => [([], [])]
  | .child k :: parts => (filled parts).map fun (row, places) => (k :: row, some k :: places)
  | .optional ks :: parts =>
    (filled parts).map (fun (row, places) => (ks ++ row, ks.map some ++ places))
      ++ (filled parts).map fun (row, places) => (row, ks.map (fun _ => none) ++ places)
  | .repeated k :: parts =>
    (filled parts).map (fun (row, places) => (k :: row, some k :: places)) ++ filled parts

/-- The places that a part has at least. -/
def Part.width : Part → Nat
  | .child _ => 1
  | .optional ks => ks.length
  | .repeated _ => 0

/-- The places that a layout has at least. -/
def width : List Part → Nat
  | [] => 0
  | part :: parts => part.width + width parts

section

variable {parts : List Part} {row : List Value.Kind} {places : List (Option Value.Kind)}

/-- A row is filled part by part: what a part gives stands in places of its own. -/
theorem exists_of_mem_filled {part : Part} (h : (row, places) ∈ filled (part :: parts)) :
    ∃ own ownPlaces row' places', (row', places') ∈ filled parts ∧ row = own ++ row'
      ∧ places = ownPlaces ++ places' ∧ ownPlaces.filterMap id = own
      ∧ ((∀ k, part ≠ .repeated k) → ownPlaces.length = part.width) := by
  cases part with
  | child k =>
      obtain ⟨⟨row, places⟩, rest, same⟩ := List.mem_map.mp h
      cases same
      exact ⟨[k], [some k], row, places, rest, rfl, rfl, rfl, fun _ => rfl⟩
  | optional ks =>
      rcases List.mem_append.mp h with there | absent
      · obtain ⟨⟨row, places⟩, rest, same⟩ := List.mem_map.mp there
        cases same
        refine ⟨ks, ks.map some, row, places, rest, rfl, rfl, ?_, fun _ => List.length_map ..⟩
        rw [List.filterMap_map]
        exact List.filterMap_some
      · obtain ⟨⟨row, places⟩, rest, same⟩ := List.mem_map.mp absent
        cases same
        refine ⟨[], ks.map fun _ => none, row, places, rest, rfl, rfl, ?_,
          fun _ => List.length_map ..⟩
        rw [List.filterMap_map]
        exact List.filterMap_eq_nil_iff.mpr fun _ _ => rfl
  | repeated k =>
      have none : (∀ k', Part.repeated k ≠ .repeated k') → False := fun fixed => fixed k rfl
      rcases List.mem_append.mp h with there | absent
      · obtain ⟨⟨row, places⟩, rest, same⟩ := List.mem_map.mp there
        cases same
        exact ⟨[k], [some k], row, places, rest, rfl, rfl, rfl, fun fixed => (none fixed).elim⟩
      · exact ⟨[], [], row, places, absent, rfl, rfl, rfl, fun fixed => (none fixed).elim⟩

/-- The children of a row stand in their places, in order. -/
theorem filterMap_of_mem_filled (h : (row, places) ∈ filled parts) :
    places.filterMap id = row := by
  induction parts generalizing row places with
  | nil =>
      cases List.mem_singleton.mp h
      rfl
  | cons part parts ih =>
      obtain ⟨own, ownPlaces, row, places, rest, rfl, rfl, there, -⟩ := exists_of_mem_filled h
      rw [List.filterMap_append, there, ih rest]

/-- Where no child is repeated, every row has the same number of places. -/
theorem length_of_mem_filled (h : (row, places) ∈ filled parts) (fixed : ∀ k, .repeated k ∉ parts) :
    places.length = width parts := by
  induction parts generalizing row places with
  | nil =>
      cases List.mem_singleton.mp h
      rfl
  | cons part parts ih =>
      obtain ⟨_, ownPlaces, row, places, rest, rfl, rfl, -, own⟩ := exists_of_mem_filled h
      have single : ∀ k, part ≠ .repeated k := by
        rintro k rfl
        exact fixed k List.mem_cons_self
      rw [List.length_append, own single, ih rest fun k hk => fixed k (List.mem_cons_of_mem _ hk),
        width]

end

/-- The rows of children that a form unpacks, with what it makes of them. -/
def Form.rows (f : Form) : List (List Value.Kind × Value.Kind) :=
  f.layouts.flatMap fun (parts, made) => (filled parts).map fun (row, _) => (row, made)

/-- What is made is of a kind, or an equals sign has nothing before it that can be assigned to. -/
def Built (k : Value.Kind) : Except Misfit Value → Prop
  | .ok v => v.kind = k
  | .error (.invalidTarget _) => True
  | .error .malformed => False

/-- No form gives up on a row that it unpacks. -/
theorem built_of_mem_rows (f : Form) :
    ∀ row ∈ f.rows, ForRow row.1 fun vs => Built row.2 (f.build vs) := by
  cases f with
  | assign =>
      refine List.forall_mem_singleton.mpr fun target equal value => ?_
      cases target with
      | var name | get object name => rfl
      | _ => trivial
  | _ =>
      simp only [Form.rows, Form.layouts, Value.Kind.all, filled, List.flatMap_cons,
        List.flatMap_nil, List.map_cons, List.map_nil, List.cons_append, List.nil_append,
        List.append_nil, List.forall_mem_cons, List.not_mem_nil, IsEmpty.forall_iff, implies_true,
        and_true, ForRow]
      and_intros
      all_goals
        intros
        rfl

/-! ## Rules and trees -/

/-- The kind of the values of a nonterminal. -/
def Nonterminal.valueKind : Nonterminal → Value.Kind
  | text | program | declarations | block => .stmts
  | declaration | classDecl | statement | ifStmt | whileStmt | forStmt | varDecl | exprStmt
  | printStmt | breakStmt | continueStmt | returnStmt => .stmt
  | functions => .functions
  | funDecl => .function
  | parameters | moreParameters => .names
  | forInit => .init
  | emptyInit => .token
  | arguments | moreArguments => .exprs
  | expression | assignment | logicOr | logicAnd | equality | comparison | term | factor | unary
  | power | call | primary => .expr

/-- The kind of the values of a symbol. -/
def Symbol.valueKind : Symbol → Value.Kind
  | terminal _ => .token
  | nonterminal n => n.valueKind

/-- The form of a rule unpacks the right side and makes a value for the left side.  The rule of the
    whole text is not built. -/
theorem row_of_mem : ∀ r ∈ grammar, r ≠ textRule →
    (r.right.map Symbol.valueKind, r.left.valueKind) ∈ r.form.rows := by decide

/-- Values of the kinds that the right side of a rule asks for are built. -/
theorem built_of_mem {r : Rule} (mem : r ∈ grammar) (other : r ≠ textRule) {vs : List Value}
    (kinds : vs.map Value.kind = r.right.map Symbol.valueKind) :
    Built r.left.valueKind (r.form.build vs) := by
  have row := built_of_mem_rows r.form _ (row_of_mem r mem other)
  rw [← kinds] at row
  exact row.apply

/-- Children that are built have values of their kinds, or one of them has an invalid target. -/
theorem values_of_built {cs : List Tree} (h : ∀ c ∈ cs, Built c.root.valueKind c.value) :
    (∃ vs, Tree.values cs = .ok vs
      ∧ vs.map Value.kind = (cs.map Tree.root).map Symbol.valueKind)
    ∨ ∃ t, Tree.values cs = .error (.invalidTarget t) := by
  induction cs with
  | nil => exact Or.inl ⟨[], by rw [Tree.values], rfl⟩
  | cons c cs ih =>
      obtain ⟨first, rest⟩ := List.forall_mem_cons.mp h
      rw [Tree.values]
      cases value : c.value with
      | error misfit =>
          rw [value] at first
          cases misfit with
          | invalidTarget t => exact Or.inr ⟨t, rfl⟩
          | malformed => exact first.elim
      | ok v =>
          rw [value] at first
          rcases ih rest with ⟨vs, values, kinds⟩ | ⟨t, invalid⟩
          · refine Or.inl ⟨v :: vs, by rw [values], ?_⟩
            have own : v.kind = c.root.valueKind := first
            rw [List.map_cons, own, kinds]
            rfl
          · exact Or.inr ⟨t, by rw [invalid]⟩

/-- The children of a node other than that of the whole text are not whole texts. -/
theorem root_ne_text_of_mem {r : Rule} (mem : r ∈ grammar) {cs : List Tree}
    (roots : cs.map Tree.root = r.right) : ∀ c ∈ cs, c.root ≠ .nonterminal .text := by
  intro c hc root
  refine text_not_mem_right r mem ?_
  rw [← roots, ← root]
  exact List.mem_map_of_mem hc

theorem ne_textRule {r : Rule} {cs : List Tree}
    (notText : (Tree.node r cs).root ≠ .nonterminal .text) : r ≠ textRule := by
  rintro rfl
  exact notText rfl

/-- A tree stands for a value of the kind that its root asks for, or has an invalid target. -/
theorem built_of_fits {t : Tree} (fits : t.Fits grammar)
    (notText : t.root ≠ .nonterminal .text) : Built t.root.valueKind t.value := by
  induction fits with
  | leaf t =>
      rw [Tree.value]
      rfl
  | @node r cs mem roots _ ih =>
      have children := fun c hc => ih c hc (root_ne_text_of_mem mem roots c hc)
      rw [Tree.value]
      rcases values_of_built children with ⟨vs, values, kinds⟩ | ⟨t, invalid⟩
      · rw [values]
        rw [roots] at kinds
        exact built_of_mem mem (ne_textRule notText) kinds
      · rw [invalid]
        trivial

/-- The kind of what a tree stands for is that of its root. -/
theorem kind_of_value {t : Tree} {n : Nonterminal} {v : Value} (fits : t.Fits grammar)
    (root : t.root = .nonterminal n) (notText : n ≠ .text) (value : t.value = .ok v) :
    v.kind = n.valueKind := by
  have other : t.root ≠ .nonterminal .text := by
    rw [root]
    exact fun same => notText (Symbol.nonterminal.inj same)
  have built := built_of_fits fits other
  rwa [root, value] at built

/-- A tree of a program stands for one, or has an invalid target. -/
theorem toProgram_of_fits {t : Tree} (fits : t.Fits grammar)
    (root : t.root = .nonterminal .program) :
    (∃ ss, t.value = .ok (.stmts ss) ∧ t.toProgram = .ok ⟨ss⟩)
    ∨ ∃ equal, t.value = .error (.invalidTarget equal)
      ∧ t.toProgram = .error (.invalidTarget equal) := by
  rw [Tree.toProgram]
  cases value : t.value with
  | ok v =>
      have kind := kind_of_value fits root (by decide) value
      cases v with
      | stmts ss => exact Or.inl ⟨ss, rfl, rfl⟩
      | _ => cases kind
  | error misfit =>
      have built := built_of_fits fits (by rw [root]; decide)
      rw [value] at built
      cases misfit with
      | invalidTarget equal => exact Or.inr ⟨equal, rfl, rfl⟩
      | malformed => exact built.elim

/-! ## Nodes -/

mutual

/-- The nodes of a tree, in the order in which they are built. -/
def Tree.nodes : Tree → List (Rule × List Tree)
  | .leaf _ => []
  | .node r cs => Tree.nodesOf cs ++ [(r, cs)]

/-- The nodes of some trees, from left to right. -/
def Tree.nodesOf : List Tree → List (Rule × List Tree)
  | [] => []
  | c :: cs => c.nodes ++ Tree.nodesOf cs

end

theorem Tree.mem_nodesOf {n : Rule × List Tree} {cs : List Tree} :
    n ∈ Tree.nodesOf cs ↔ ∃ c ∈ cs, n ∈ c.nodes := by
  induction cs with
  | nil => simp [Tree.nodesOf]
  | cons c cs ih => simp [Tree.nodesOf, ih]

/-- A node has the children that its form unpacks: their row fills a layout of the form, with as
    many places as the layout has, and once they are built their values are of the kinds of that
    row and are built to a value for the left side. -/
structure Unpacks (r : Rule) (cs : List Tree) : Prop where
  roots : cs.map Tree.root = r.right
  layout : ∃ parts places, (parts, r.left.valueKind) ∈ r.form.layouts
    ∧ (r.right.map Symbol.valueKind, places) ∈ filled parts
    ∧ places.filterMap id = r.right.map Symbol.valueKind
    ∧ ((∀ k, .repeated k ∉ parts) → places.length = width parts)
  kinds : ∀ vs, Tree.values cs = .ok vs → vs.map Value.kind = r.right.map Symbol.valueKind
  built : ∀ vs, Tree.values cs = .ok vs → Built r.left.valueKind (r.form.build vs)

/-- The children of a node of the grammar are what its form unpacks. -/
theorem unpacks_of_fits {r : Rule} {cs : List Tree} (mem : r ∈ grammar) (other : r ≠ textRule)
    (roots : cs.map Tree.root = r.right) (fits : ∀ c ∈ cs, c.Fits grammar) : Unpacks r cs := by
  have kinds : ∀ vs, Tree.values cs = .ok vs →
      vs.map Value.kind = r.right.map Symbol.valueKind := by
    intro vs values
    have children : ∀ c ∈ cs, Built c.root.valueKind c.value := fun c hc =>
      built_of_fits (fits c hc) (root_ne_text_of_mem mem roots c hc)
    rcases values_of_built children with ⟨vs', values', kinds⟩ | ⟨t, invalid⟩
    · cases values.symm.trans values'
      rw [kinds, roots]
    · cases values.symm.trans invalid
  have row := row_of_mem r mem other
  rw [Form.rows, List.mem_flatMap] at row
  obtain ⟨⟨parts, made⟩, layout, row⟩ := row
  obtain ⟨⟨row, places⟩, filling, same⟩ := List.mem_map.mp row
  cases same
  exact ⟨roots, ⟨parts, places, layout, filling, filterMap_of_mem_filled filling,
    length_of_mem_filled filling⟩, kinds, fun vs values => built_of_mem mem other (kinds vs values)⟩

/-- Every node of a tree of the grammar has the children that its form unpacks. -/
theorem unpacks_of_mem_nodes {t : Tree} (fits : t.Fits grammar)
    (notText : t.root ≠ .nonterminal .text) : ∀ n ∈ t.nodes, Unpacks n.1 n.2 := by
  induction fits with
  | leaf t => exact fun n hn => nomatch hn
  | @node r cs mem roots fits ih =>
      intro n hn
      rcases List.mem_append.mp hn with below | own
      · obtain ⟨c, hc, hn⟩ := Tree.mem_nodesOf.mp below
        exact ih c hc (root_ne_text_of_mem mem roots c hc) n hn
      · rw [List.mem_singleton.mp own]
        exact unpacks_of_fits mem (ne_textRule notText) roots fits

end ScriptFront.Grammar
