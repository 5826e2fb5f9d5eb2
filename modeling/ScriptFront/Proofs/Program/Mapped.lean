import ScriptFront.Proofs.Program.Unpacking

/-! # Mapped programs — other tokens and other values in the same trees

    A change of tokens goes through every tree.  In a program it changes each token that is kept,
    and a change of values each value (`Expr.map`, `Stmt.map`); in a parse tree it changes the
    leaves (`Tree.map`).  A form looks into none of its tokens, but for the value of a literal, and
    so what a changed tree stands for is what the tree stood for, changed alike (`Tree.value_map`).

    The machine looks at the kinds of the tokens only: with other tokens of the same kinds it takes
    the same steps, on the same stack with other tokens (`feed_map`, `read_map`). -/

namespace ScriptFront

/-! ## Programs -/

namespace Expr

mutual

/-- An expression with other tokens and values. -/
def map (f : Token → Token) (g : Literal → Literal) : Expr → Expr
  | assign name value => assign (f name) (value.map f g)
  | binary left operator right => binary (left.map f g) (f operator) (right.map f g)
  | call callee paren arguments => call (callee.map f g) (f paren) (mapAll f g arguments)
  | get object name => get (object.map f g) (f name)
  | grouping inner => grouping (inner.map f g)
  | literal value => literal (g value)
  | logical left operator right => logical (left.map f g) (f operator) (right.map f g)
  | set object name value => set (object.map f g) (f name) (value.map f g)
  | super keyword method => super (f keyword) (f method)
  | this keyword => this (f keyword)
  | unary operator right => unary (f operator) (right.map f g)
  | var name => var (f name)

/-- Some expressions with other tokens and values. -/
def mapAll (f : Token → Token) (g : Literal → Literal) : List Expr → List Expr
  | [] => []
  | e :: es => e.map f g :: mapAll f g es

end

theorem mapAll_concat (f : Token → Token) (g : Literal → Literal) (as : List Expr) (a : Expr) :
    mapAll f g (as ++ [a]) = mapAll f g as ++ [a.map f g] := by
  induction as with
  | nil => rfl
  | cons b as ih => rw [List.cons_append, mapAll, mapAll, ih, List.cons_append]

mutual

/-- An expression with its own tokens and values is itself. -/
theorem map_id : ∀ e : Expr, e.map id id = e
  | assign _ e | get e _ | grouping e | unary _ e => by simp only [map, map_id e, id_eq]
  | binary l _ r | logical l _ r | set l _ r => by simp only [map, map_id l, map_id r, id_eq]
  | call callee _ arguments => by simp only [map, map_id callee, mapAll_id arguments, id_eq]
  | literal _ | super _ _ | this _ | var _ => rfl

theorem mapAll_id : ∀ es : List Expr, mapAll id id es = es
  | [] => rfl
  | e :: es => by rw [mapAll, map_id e, mapAll_id es]

end

end Expr

namespace Stmt

mutual

/-- A statement with other tokens and values. -/
def map (f : Token → Token) (g : Literal → Literal) : Stmt → Stmt
  | expression value => expression (value.map f g)
  | print keyword value => print (f keyword) (value.map f g)
  | varDecl name typeName initializer =>
      varDecl (f name) (typeName.map f) (initializer.map (Expr.map f g))
  | block statements => block (mapAll f g statements)
  | conditional condition thenBranch elseBranch =>
      conditional (condition.map f g) (thenBranch.map f g) (mapPart f g elseBranch)
  | whileLoop condition body => whileLoop (condition.map f g) (body.map f g)
  | forLoop initializer condition increment body =>
      forLoop (mapPart f g initializer) (condition.map (Expr.map f g))
        (increment.map (Expr.map f g)) (body.map f g)
  | breakLoop keyword => breakLoop (f keyword)
  | continueLoop keyword => continueLoop (f keyword)
  | returnValue keyword value => returnValue (f keyword) (value.map (Expr.map f g))
  | function decl => function (mapFunction f g decl)
  | classDecl name superclass methods =>
      classDecl (f name) (superclass.map f) (mapFunctions f g methods)
  | program statements => program (mapAll f g statements)

/-- Some statements with other tokens and values. -/
def mapAll (f : Token → Token) (g : Literal → Literal) : List Stmt → List Stmt
  | [] => []
  | s :: ss => s.map f g :: mapAll f g ss

/-- An optional statement with other tokens and values. -/
def mapPart (f : Token → Token) (g : Literal → Literal) : Option Stmt → Option Stmt
  | none => none
  | some s => some (s.map f g)

/-- A function with other tokens and values. -/
def mapFunction (f : Token → Token) (g : Literal → Literal) :
    FunctionDecl Stmt → FunctionDecl Stmt
  | ⟨name, parameters, body⟩ => ⟨f name, parameters.map f, mapAll f g body⟩

/-- Some functions with other tokens and values. -/
def mapFunctions (f : Token → Token) (g : Literal → Literal) :
    List (FunctionDecl Stmt) → List (FunctionDecl Stmt)
  | [] => []
  | fn :: fns => mapFunction f g fn :: mapFunctions f g fns

end

theorem mapAll_concat (f : Token → Token) (g : Literal → Literal) (as : List Stmt) (a : Stmt) :
    mapAll f g (as ++ [a]) = mapAll f g as ++ [a.map f g] := by
  induction as with
  | nil => rfl
  | cons b as ih => rw [List.cons_append, mapAll, mapAll, ih, List.cons_append]

theorem mapFunctions_concat (f : Token → Token) (g : Literal → Literal)
    (as : List (FunctionDecl Stmt)) (a : FunctionDecl Stmt) :
    mapFunctions f g (as ++ [a]) = mapFunctions f g as ++ [mapFunction f g a] := by
  induction as with
  | nil => rfl
  | cons b as ih => rw [List.cons_append, mapFunctions, mapFunctions, ih, List.cons_append]

theorem mapExpr_id (e : Option Expr) : e.map (Expr.map id id) = e := by
  cases e with
  | none => rfl
  | some e => exact congrArg some e.map_id

mutual

/-- A statement with its own tokens and values is itself. -/
theorem map_id : ∀ s : Stmt, s.map id id = s
  | expression e | print _ e => by simp only [map, e.map_id, id_eq]
  | varDecl _ _ e => by simp only [map, mapExpr_id e, Option.map_id, id_eq]
  | block ss | program ss => by simp only [map, mapAll_id ss]
  | conditional c s s' => by simp only [map, c.map_id, map_id s, mapPart_id s']
  | whileLoop c s => by simp only [map, c.map_id, map_id s]
  | forLoop i c e s => by
      simp only [map, mapPart_id i, mapExpr_id c, mapExpr_id e, map_id s]
  | breakLoop _ | continueLoop _ => rfl
  | returnValue _ e => by simp only [map, mapExpr_id e, id_eq]
  | function decl => by simp only [map, mapFunction_id decl]
  | classDecl _ _ methods => by simp only [map, mapFunctions_id methods, Option.map_id, id_eq]

theorem mapAll_id : ∀ ss : List Stmt, mapAll id id ss = ss
  | [] => rfl
  | s :: ss => by rw [mapAll, map_id s, mapAll_id ss]

theorem mapPart_id : ∀ s : Option Stmt, mapPart id id s = s
  | none => rfl
  | some s => by rw [mapPart, map_id s]

theorem mapFunction_id : ∀ fn : FunctionDecl Stmt, mapFunction id id fn = fn
  | ⟨name, parameters, body⟩ => by simp only [mapFunction, mapAll_id body, List.map_id, id_eq]

theorem mapFunctions_id : ∀ fns : List (FunctionDecl Stmt), mapFunctions id id fns = fns
  | [] => rfl
  | fn :: fns => by rw [mapFunctions, mapFunction_id fn, mapFunctions_id fns]

end

end Stmt

/-- A program with other tokens and values. -/
def Program.map (f : Token → Token) (g : Literal → Literal) (p : Program) : Program :=
  ⟨Stmt.mapAll f g p.statements⟩

namespace Grammar

/-! ## Values -/

/-- A value with other tokens and values of literals. -/
def Value.map (f : Token → Token) (g : Literal → Literal) : Value → Value
  | token t => token (f t)
  | expr e => expr (e.map f g)
  | stmt s => stmt (s.map f g)
  | stmts ss => stmts (Stmt.mapAll f g ss)
  | function fn => function (Stmt.mapFunction f g fn)
  | functions fns => functions (Stmt.mapFunctions f g fns)
  | names ts => names (ts.map f)
  | exprs es => exprs (Expr.mapAll f g es)
  | init s => init (Stmt.mapPart f g s)

@[simp] theorem Value.kind_map (f : Token → Token) (g : Literal → Literal) (v : Value) :
    (v.map f g).kind = v.kind := by
  cases v with
  | _ => rfl

theorem Value.map_id (v : Value) : v.map id id = v := by
  cases v with
  | token t => rfl
  | expr e => exact congrArg expr e.map_id
  | stmt s => exact congrArg stmt s.map_id
  | stmts ss => exact congrArg stmts (Stmt.mapAll_id ss)
  | function fn => exact congrArg function (Stmt.mapFunction_id fn)
  | functions fns => exact congrArg functions (Stmt.mapFunctions_id fns)
  | names ts => exact congrArg names (List.map_id ts)
  | exprs es => exact congrArg exprs (Expr.mapAll_id es)
  | init s => exact congrArg init (Stmt.mapPart_id s)

/-- The reason why there is no value, with another token. -/
def Misfit.map (f : Token → Token) : Misfit → Misfit
  | invalidTarget equal => invalidTarget (f equal)
  | malformed => malformed

/-- What is made of a tree, with other tokens and values. -/
def mapBuilt (f : Token → Token) (g : Literal → Literal) : Except Misfit Value → Except Misfit Value
  | .ok v => .ok (v.map f g)
  | .error misfit => .error (misfit.map f)

theorem mapBuilt_id (built : Except Misfit Value) : mapBuilt id id built = built := by
  cases built with
  | ok v => exact congrArg Except.ok v.map_id
  | error misfit =>
      cases misfit with
      | invalidTarget equal => rfl
      | malformed => rfl

/-- What is made of a row of trees, with other tokens and values. -/
def mapRow (f : Token → Token) (g : Literal → Literal) :
    Except Misfit (List Value) → Except Misfit (List Value)
  | .ok vs => .ok (vs.map (Value.map f g))
  | .error misfit => .error (misfit.map f)

/-- A first value and the others, if both are there. -/
def joined : Except Misfit Value → Except Misfit (List Value) → Except Misfit (List Value)
  | .error misfit, _ => .error misfit
  | .ok _, .error misfit => .error misfit
  | .ok v, .ok vs => .ok (v :: vs)

theorem mapRow_joined (f : Token → Token) (g : Literal → Literal) (first : Except Misfit Value)
    (others : Except Misfit (List Value)) :
    mapRow f g (joined first others) = joined (mapBuilt f g first) (mapRow f g others) := by
  cases first with
  | error misfit => rfl
  | ok v =>
      cases others with
      | error misfit => rfl
      | ok vs => rfl

section

variable {f f' : Token → Token} {g g' : Literal → Literal} {row : Except Misfit (List Value)}

/-- A row that looks like one that is there is there. -/
theorem exists_of_mapRow_eq_ok {vs : List Value} (h : mapRow f' g' row = mapRow f g (.ok vs)) :
    ∃ vs', row = .ok vs' ∧ vs'.map (Value.map f' g') = vs.map (Value.map f g) := by
  cases row with
  | error misfit => cases h
  | ok vs' => exact ⟨vs', rfl, Except.ok.inj h⟩

/-- A row that looks like one that is not there is not there for the same reason. -/
theorem exists_of_mapRow_eq_error {misfit : Misfit}
    (h : mapRow f' g' row = mapRow f g (.error misfit)) :
    ∃ misfit', row = .error misfit' ∧ misfit'.map f' = misfit.map f := by
  cases row with
  | error misfit' => exact ⟨misfit', rfl, Except.error.inj h⟩
  | ok vs => cases h

end

/-- But for the value of a literal, a form makes of changed parts a whole that is changed alike. -/
theorem build_map_of_mem_rows (f : Token → Token) (g : Literal → Literal) {form : Form}
    (plain : form ≠ .literal) :
    ∀ row ∈ form.rows, ForRow row.1 fun vs =>
      form.build (vs.map (Value.map f g)) = mapBuilt f g (form.build vs) := by
  have namesConcat : ∀ (ts : List Token) (t : Token), (ts ++ [t]).map f = ts.map f ++ [f t] :=
    fun _ _ => List.map_append
  cases form with
  | literal => exact absurd rfl plain
  | assign =>
      refine List.forall_mem_singleton.mpr fun target equal value => ?_
      cases target with
      | _ => rfl
  | _ =>
      simp only [Form.rows, Form.layouts, Value.Kind.all, filled, List.flatMap_cons,
        List.flatMap_nil, List.map_cons, List.map_nil, List.cons_append, List.nil_append,
        List.append_nil, List.forall_mem_cons, List.not_mem_nil, IsEmpty.forall_iff, implies_true,
        and_true, ForRow]
      and_intros
      all_goals
        intros
        -- a row that grows by its last element is changed part by part
        first
          | rfl
          | exact congrArg (fun ss => Except.ok (Value.stmts ss)) (Stmt.mapAll_concat ..).symm
          | exact congrArg (fun fns => Except.ok (Value.functions fns))
              (Stmt.mapFunctions_concat ..).symm
          | exact congrArg (fun ts => Except.ok (Value.names ts)) (namesConcat ..).symm
          | exact congrArg (fun es => Except.ok (Value.exprs es)) (Expr.mapAll_concat ..).symm

/-- Changed children of the right side of a rule make a changed value. -/
theorem build_map (f : Token → Token) (g : Literal → Literal) {r : Rule} (mem : r ∈ grammar)
    (other : r ≠ textRule) (plain : r.form ≠ .literal) {vs : List Value}
    (kinds : vs.map Value.kind = r.right.map Symbol.valueKind) :
    r.form.build (vs.map (Value.map f g)) = mapBuilt f g (r.form.build vs) := by
  have row := build_map_of_mem_rows f g plain _ (row_of_mem r mem other)
  rw [← kinds] at row
  exact row.apply

/-- A literal is one token. -/
theorem right_of_literal : ∀ r ∈ grammar, r.form = .literal →
    ∃ k ∈ [TokenKind.boolean, .kwNull, .number, .string], r.right = [.terminal k] := by decide

namespace Tree

/-! ## Trees -/

mutual

/-- A tree with other leaves. -/
def map (f : Token → Token) : Tree → Tree
  | leaf t => leaf (f t)
  | node r cs => node r (mapAll f cs)

/-- Some trees with other leaves. -/
def mapAll (f : Token → Token) : List Tree → List Tree
  | [] => []
  | t :: ts => t.map f :: mapAll f ts

end

theorem mapAll_eq_map (f : Token → Token) (cs : List Tree) : mapAll f cs = cs.map (map f) := by
  induction cs with
  | nil => rfl
  | cons c cs ih => rw [mapAll, ih, List.map_cons]

theorem map_node (f : Token → Token) (r : Rule) (cs : List Tree) :
    (node r cs).map f = node r (cs.map (map f)) := by
  rw [map, mapAll_eq_map]

theorem values_cons (c : Tree) (cs : List Tree) :
    values (c :: cs) = joined c.value (values cs) := by
  rw [values]
  cases c.value with
  | error misfit => rfl
  | ok v =>
      cases values cs with
      | error misfit => rfl
      | ok vs => rfl

/-- A tree whose root is a terminal is a leaf. -/
theorem eq_leaf_of_root {t : Tree} {k : TokenKind} (root : t.root = .terminal k) :
    ∃ token, t = leaf token := by
  cases t with
  | leaf token => exact ⟨token, rfl⟩
  | node r cs => exact nomatch root

section

variable {h f f' : Token → Token} {g g' : Literal → Literal}

/-- Children that stand for values that look alike stand for rows that look alike. -/
private theorem values_map {cs : List Tree}
    (each : ∀ c ∈ cs, mapBuilt f' g' (c.map h).value = mapBuilt f g c.value) :
    mapRow f' g' (values (cs.map (map h))) = mapRow f g (values cs) := by
  induction cs with
  | nil => rfl
  | cons c cs ih =>
      obtain ⟨first, rest⟩ := List.forall_mem_cons.mp each
      rw [List.map_cons, values_cons, values_cons, mapRow_joined, mapRow_joined, first, ih rest]

/-- A literal whose token is changed has the value of the new token. -/
private theorem value_map_literal {r : Rule} (mem : r ∈ grammar) (form : r.form = .literal)
    (literals : ∀ t, g' (h t).literal = g t.literal) {cs : List Tree}
    (roots : cs.map root = r.right) :
    mapBuilt f' g' (node r (cs.map (map h))).value = mapBuilt f g (node r cs).value := by
  obtain ⟨k, -, right⟩ := right_of_literal r mem form
  rw [right] at roots
  obtain ⟨c, rfl, root⟩ := List.map_eq_singleton_iff.mp roots
  obtain ⟨t, rfl⟩ := eq_leaf_of_root root
  show mapBuilt f' g' (r.form.build [.token (h t)]) = mapBuilt f g (r.form.build [.token t])
  rw [form]
  exact congrArg (fun v => Except.ok (Value.expr (.literal v))) (literals t)

/-- A tree with other leaves stands for the same but for its tokens and values: where two changes
    make up for the change of the leaves, what it stands for looks like what the tree stood for. -/
theorem value_map (tokens : ∀ t, f' (h t) = f t) (literals : ∀ t, g' (h t).literal = g t.literal)
    {t : Tree} (fits : t.Fits grammar) (notText : t.root ≠ .nonterminal .text) :
    mapBuilt f' g' (t.map h).value = mapBuilt f g t.value := by
  induction fits with
  | leaf t => exact congrArg (fun t => Except.ok (Value.token t)) (tokens t)
  | @node r cs mem roots children ih =>
      rw [map_node]
      by_cases form : r.form = .literal
      · exact value_map_literal mem form literals roots
      have notTexts := root_ne_text_of_mem mem roots
      have alike := values_map fun c hc => ih c hc (notTexts c hc)
      have built := fun c hc => built_of_fits (children c hc) (notTexts c hc)
      rw [value, value]
      rcases values_of_built built with ⟨vs, row, kinds⟩ | ⟨t, invalid⟩
      · rw [row] at alike ⊢
        rw [roots] at kinds
        obtain ⟨vs', row', same⟩ := exists_of_mapRow_eq_ok alike
        -- both rows are of the kinds that the right side asks for
        have kinds' : vs'.map Value.kind = r.right.map Symbol.valueKind := by
          have both := congrArg (List.map Value.kind) same
          simp only [List.map_map, Function.comp_def, Value.kind_map] at both
          rw [both, kinds]
        have other := ne_textRule notText
        have ahead := build_map f' g' mem other form kinds'
        have back := build_map f g mem other form kinds
        rw [same] at ahead
        rw [row']
        exact ahead.symm.trans back
      · rw [invalid] at alike ⊢
        obtain ⟨misfit, row', same⟩ := exists_of_mapRow_eq_error alike
        rw [row']
        exact congrArg Except.error same

end

end Tree

/-! ## The machine -/

/-- A frame with other tokens. -/
def Frame.map (f : Token → Token) (frame : Frame) : Frame := ⟨frame.state, frame.tree.map f⟩

/-- A stack with other tokens. -/
def Stack.map (f : Token → Token) (stack : Stack) : Stack := List.map (Frame.map f) stack

namespace Automaton

/-- What became of a token, with other tokens. -/
def Fed.map (f : Token → Token) : Fed → Fed
  | shifted stack => shifted (stack.map f)
  | refused state => refused state
  | stuck => stuck

/-- What became of a text, with other tokens. -/
def Reading.map (f : Token → Token) : Reading → Reading
  | accepted tree => accepted (tree.map f)
  | refused rest expected => refused (rest.map f) expected
  | stuck => stuck

variable (f : Token → Token) (a : Automaton)

theorem top_map (stack : Stack) : a.top (stack.map f) = a.top stack := by
  cases stack with
  | nil => rfl
  | cons frame below => rfl

theorem patience_map (stack : Stack) : a.patience (stack.map f) = a.patience stack := by
  rw [patience, Stack.map, List.length_map, patience]

theorem reduce?_map (r : Rule) (stack : Stack) :
    a.reduce? r (stack.map f) = (a.reduce? r stack).map (Stack.map f) := by
  have below : (stack.map f).drop r.right.length = Stack.map f (stack.drop r.right.length) :=
    List.map_drop.symm
  have trees : (((stack.map f).take r.right.length).map Frame.tree).reverse
      = Tree.mapAll f ((stack.take r.right.length).map Frame.tree).reverse := by
    rw [Tree.mapAll_eq_map, List.map_reverse, Stack.map, ← List.map_take, List.map_map,
      List.map_map]
    rfl
  simp only [reduce?]
  rw [below, trees, top_map, Stack.map, List.length_map]
  split
  · rfl
  · rw [Option.map_map]
    rfl

variable {f} (kinds : ∀ t, (f t).kind = t.kind)

include kinds

/-- Another token of the same kind is fed in the same steps. -/
theorem feed_map (t : Token) (fuel : Nat) (stack : Stack) :
    a.feed (f t) fuel (stack.map f) = (a.feed t fuel stack).map f := by
  induction fuel generalizing stack with
  | zero => rfl
  | succ fuel ih =>
      rw [feed, feed, top_map, kinds]
      cases a.action? (a.top stack) t.kind with
      | none => rfl
      | some action =>
          cases action with
          | shift target => rfl
          | apply rule =>
              simp only
              rw [reduce?_map]
              cases a.reduce? rule stack with
              | none => rfl
              | some stack => exact ih stack

/-- Other tokens of the same kinds are read in the same way. -/
theorem read_map (fixed : f (.endAt .origin) = .endAt .origin) (ts : List Token) (stack : Stack) :
    a.read (stack.map f) (ts.map f) = (a.read stack ts).map f := by
  induction ts generalizing stack with
  | nil =>
      have fed := a.feed_map kinds (.endAt .origin) (a.patience stack) stack
      rw [fixed] at fed
      rw [List.map_nil, read, read, patience_map, fed]
      cases a.feed (.endAt .origin) (a.patience stack) stack with
      | shifted stack =>
          rcases stack with _ | ⟨f, _ | ⟨g, _ | ⟨h, below⟩⟩⟩
          · rfl
          · rfl
          · rfl
          · rfl
      | refused state => rfl
      | stuck => rfl
  | cons t ts ih =>
      rw [List.map_cons, read, read, patience_map, a.feed_map kinds]
      cases a.feed t (a.patience stack) stack with
      | shifted stack => exact ih stack
      | refused state => rfl
      | stuck => rfl

end Automaton

end Grammar

end ScriptFront
