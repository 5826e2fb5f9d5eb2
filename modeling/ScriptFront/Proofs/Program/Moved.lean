import ScriptFront.Proofs.Program.Mapped
import ScriptFront.Proofs.Program.Spelling
import ScriptFront.Proofs.Token.Joining

/-! # Moved programs — the same tokens in other places

    A change of places goes through every tree: `Expr.move`, `Stmt.move` and `Tree.move` move each
    token and keep all else.  To move is to change the tokens in a way that keeps their kinds and
    values, and so what a tree stands for moves with its tokens (`Tree.value_move`), and what some
    tokens spell moves too (`Grammar.Spelled.move`). -/

namespace ScriptFront

/-! ## Programs -/

namespace Expr

mutual

/-- An expression with its tokens in other places. -/
def move (m : Position → Position) : Expr → Expr
  | assign name value => assign (name.move m) (value.move m)
  | binary left operator right => binary (left.move m) (operator.move m) (right.move m)
  | call callee paren arguments => call (callee.move m) (paren.move m) (moveAll m arguments)
  | get object name => get (object.move m) (name.move m)
  | grouping inner => grouping (inner.move m)
  | literal value => literal value
  | logical left operator right => logical (left.move m) (operator.move m) (right.move m)
  | set object name value => set (object.move m) (name.move m) (value.move m)
  | super keyword method => super (keyword.move m) (method.move m)
  | this keyword => this (keyword.move m)
  | unary operator right => unary (operator.move m) (right.move m)
  | var name => var (name.move m)

/-- Some expressions with their tokens in other places. -/
def moveAll (m : Position → Position) : List Expr → List Expr
  | [] => []
  | e :: es => e.move m :: moveAll m es

end

mutual

theorem move_eq_map (m : Position → Position) : ∀ e : Expr, e.move m = e.map (Token.move m) id
  | assign _ e | get e _ | grouping e | unary _ e => by simp only [move, map, move_eq_map m e]
  | binary l _ r | logical l _ r | set l _ r => by
      simp only [move, map, move_eq_map m l, move_eq_map m r]
  | call callee _ arguments => by
      simp only [move, map, move_eq_map m callee, moveAll_eq_mapAll m arguments]
  | literal _ | super _ _ | this _ | var _ => rfl

theorem moveAll_eq_mapAll (m : Position → Position) :
    ∀ es : List Expr, moveAll m es = mapAll (Token.move m) id es
  | [] => rfl
  | e :: es => by rw [moveAll, mapAll, move_eq_map m e, moveAll_eq_mapAll m es]

end

end Expr

namespace Stmt

mutual

/-- A statement with its tokens in other places. -/
def move (m : Position → Position) : Stmt → Stmt
  | expression value => expression (value.move m)
  | print keyword value => print (keyword.move m) (value.move m)
  | varDecl name typeName initializer =>
      varDecl (name.move m) (typeName.map (Token.move m)) (initializer.map (Expr.move m))
  | block statements => block (moveAll m statements)
  | conditional condition thenBranch elseBranch =>
      conditional (condition.move m) (thenBranch.move m) (movePart m elseBranch)
  | whileLoop condition body => whileLoop (condition.move m) (body.move m)
  | forLoop initializer condition increment body =>
      forLoop (movePart m initializer) (condition.map (Expr.move m)) (increment.map (Expr.move m))
        (body.move m)
  | breakLoop keyword => breakLoop (keyword.move m)
  | continueLoop keyword => continueLoop (keyword.move m)
  | returnValue keyword value => returnValue (keyword.move m) (value.map (Expr.move m))
  | function decl => function (moveFunction m decl)
  | classDecl name superclass methods =>
      classDecl (name.move m) (superclass.map (Token.move m)) (moveFunctions m methods)
  | program statements => program (moveAll m statements)

/-- Some statements with their tokens in other places. -/
def moveAll (m : Position → Position) : List Stmt → List Stmt
  | [] => []
  | s :: ss => s.move m :: moveAll m ss

/-- An optional statement with its tokens in other places. -/
def movePart (m : Position → Position) : Option Stmt → Option Stmt
  | none => none
  | some s => some (s.move m)

/-- A function with its tokens in other places. -/
def moveFunction (m : Position → Position) : FunctionDecl Stmt → FunctionDecl Stmt
  | ⟨name, parameters, body⟩ =>
      ⟨name.move m, parameters.map (Token.move m), moveAll m body⟩

/-- Some functions with their tokens in other places. -/
def moveFunctions (m : Position → Position) : List (FunctionDecl Stmt) → List (FunctionDecl Stmt)
  | [] => []
  | f :: fs => moveFunction m f :: moveFunctions m fs

end

theorem moveExpr_eq_map (m : Position → Position) (e : Option Expr) :
    e.map (Expr.move m) = e.map (Expr.map (Token.move m) id) := by
  cases e with
  | none => rfl
  | some e => exact congrArg some (e.move_eq_map m)

mutual

theorem move_eq_map (m : Position → Position) : ∀ s : Stmt, s.move m = s.map (Token.move m) id
  | expression e | print _ e => by simp only [move, map, e.move_eq_map m]
  | varDecl _ _ e => by simp only [move, map, moveExpr_eq_map m e]
  | block ss | program ss => by simp only [move, map, moveAll_eq_mapAll m ss]
  | conditional c s s' => by
      simp only [move, map, c.move_eq_map m, move_eq_map m s, movePart_eq_mapPart m s']
  | whileLoop c s => by simp only [move, map, c.move_eq_map m, move_eq_map m s]
  | forLoop i c e s => by
      simp only [move, map, movePart_eq_mapPart m i, moveExpr_eq_map m c, moveExpr_eq_map m e,
        move_eq_map m s]
  | breakLoop _ | continueLoop _ => rfl
  | returnValue _ e => by simp only [move, map, moveExpr_eq_map m e]
  | function decl => by simp only [move, map, moveFunction_eq_map m decl]
  | classDecl _ _ methods => by simp only [move, map, moveFunctions_eq_map m methods]

theorem moveAll_eq_mapAll (m : Position → Position) :
    ∀ ss : List Stmt, moveAll m ss = mapAll (Token.move m) id ss
  | [] => rfl
  | s :: ss => by rw [moveAll, mapAll, move_eq_map m s, moveAll_eq_mapAll m ss]

theorem movePart_eq_mapPart (m : Position → Position) :
    ∀ s : Option Stmt, movePart m s = mapPart (Token.move m) id s
  | none => rfl
  | some s => by rw [movePart, mapPart, move_eq_map m s]

theorem moveFunction_eq_map (m : Position → Position) :
    ∀ f : FunctionDecl Stmt, moveFunction m f = mapFunction (Token.move m) id f
  | ⟨name, parameters, body⟩ => by rw [moveFunction, mapFunction, moveAll_eq_mapAll m body]

theorem moveFunctions_eq_map (m : Position → Position) :
    ∀ fs : List (FunctionDecl Stmt), moveFunctions m fs = mapFunctions (Token.move m) id fs
  | [] => rfl
  | f :: fs => by
      rw [moveFunctions, mapFunctions, moveFunction_eq_map m f, moveFunctions_eq_map m fs]

end

end Stmt

/-- A program with its tokens in other places. -/
def Program.move (m : Position → Position) (p : Program) : Program := ⟨Stmt.moveAll m p.statements⟩

namespace Grammar

/-! ## Trees and their values -/

/-- A value with its tokens in other places. -/
def Value.move (m : Position → Position) : Value → Value
  | token t => token (t.move m)
  | expr e => expr (e.move m)
  | stmt s => stmt (s.move m)
  | stmts ss => stmts (Stmt.moveAll m ss)
  | function f => function (Stmt.moveFunction m f)
  | functions fs => functions (Stmt.moveFunctions m fs)
  | names ts => names (ts.map (Token.move m))
  | exprs es => exprs (Expr.moveAll m es)
  | init s => init (Stmt.movePart m s)

/-- The reason why there is no value, in its other place. -/
def Misfit.move (m : Position → Position) : Misfit → Misfit
  | invalidTarget equal => invalidTarget (equal.move m)
  | malformed => malformed

/-- What is made of a tree, in its other place. -/
def moveBuilt (m : Position → Position) : Except Misfit Value → Except Misfit Value
  | .ok v => .ok (v.move m)
  | .error misfit => .error (misfit.move m)

theorem Value.move_eq_map (m : Position → Position) (v : Value) :
    v.move m = v.map (Token.move m) id := by
  cases v with
  | token t | names ts => rfl
  | expr e => exact congrArg expr (e.move_eq_map m)
  | stmt s => exact congrArg stmt (s.move_eq_map m)
  | stmts ss => exact congrArg stmts (Stmt.moveAll_eq_mapAll m ss)
  | function f => exact congrArg function (Stmt.moveFunction_eq_map m f)
  | functions fs => exact congrArg functions (Stmt.moveFunctions_eq_map m fs)
  | exprs es => exact congrArg exprs (Expr.moveAll_eq_mapAll m es)
  | init s => exact congrArg init (Stmt.movePart_eq_mapPart m s)

theorem moveBuilt_eq_map (m : Position → Position) (built : Except Misfit Value) :
    moveBuilt m built = mapBuilt (Token.move m) id built := by
  cases built with
  | ok v => exact congrArg Except.ok (v.move_eq_map m)
  | error misfit =>
      cases misfit with
      | invalidTarget equal => rfl
      | malformed => rfl

namespace Tree

mutual

/-- A tree with its tokens in other places. -/
def move (m : Position → Position) : Tree → Tree
  | leaf t => leaf (t.move m)
  | node r cs => node r (moveAll m cs)

/-- Some trees with their tokens in other places. -/
def moveAll (m : Position → Position) : List Tree → List Tree
  | [] => []
  | t :: ts => t.move m :: moveAll m ts

end

section

variable (m : Position → Position)

theorem moveAll_eq_map (cs : List Tree) : moveAll m cs = cs.map (move m) := by
  induction cs with
  | nil => rfl
  | cons c cs ih => rw [moveAll, ih, List.map_cons]

theorem move_node (r : Rule) (cs : List Tree) : (node r cs).move m = node r (cs.map (move m)) := by
  rw [move, moveAll_eq_map]

mutual

theorem move_eq_map : ∀ t : Tree, t.move m = t.map (Token.move m)
  | leaf _ => rfl
  | node r cs => by rw [move, map, moveAll_eq_mapAll cs]

theorem moveAll_eq_mapAll : ∀ cs : List Tree, moveAll m cs = mapAll (Token.move m) cs
  | [] => rfl
  | c :: cs => by rw [moveAll, mapAll, move_eq_map c, moveAll_eq_mapAll cs]

end

@[simp] theorem root_move (t : Tree) : (t.move m).root = t.root := by
  cases t with
  | leaf t => rfl
  | node r cs => rfl

theorem map_root_move (cs : List Tree) : (cs.map (move m)).map root = cs.map root := by
  rw [List.map_map]
  exact List.map_congr_left fun c _ => root_move m c

mutual

theorem tokens_move : ∀ t : Tree, (t.move m).tokens = t.tokens.map (Token.move m)
  | leaf t => rfl
  | node r cs => by rw [move, tokens_node, tokens_node, tokensOf_moveAll cs]

theorem tokensOf_moveAll :
    ∀ cs : List Tree, tokensOf (moveAll m cs) = (tokensOf cs).map (Token.move m)
  | [] => rfl
  | c :: cs => by
      rw [moveAll, tokensOf_cons, tokensOf_cons, tokens_move c, tokensOf_moveAll cs,
        List.map_append]

end

end

variable {m : Position → Position}

theorem Fits.move {rules : List Rule} {t : Tree} (h : t.Fits rules) : (t.move m).Fits rules := by
  induction h with
  | leaf t => exact .leaf (t.move m)
  | @node r cs mem roots _ ih =>
      rw [move_node]
      exact .node mem ((map_root_move m cs).trans roots) (List.forall_mem_map.mpr ih)

/-- Whether a tree ends with an `if` without `else` does not depend on places. -/
theorem EndsOpen.of_move {t' : Tree} (h : t'.EndsOpen) {t : Tree} (moved : t.move m = t') :
    t.EndsOpen := by
  induction h generalizing t with
  | short cs =>
      cases t with
      | leaf t => cases moved
      | node r ds =>
          cases moved
          exact .short ds
  | @last r cs c _ ih =>
      cases t with
      | leaf t => cases moved
      | node r' ds =>
          rw [move_node] at moved
          obtain ⟨rfl, children⟩ := node.inj moved
          obtain ⟨init, last, rfl, -, one⟩ := List.map_eq_append_iff.mp children
          obtain ⟨d, rfl, own⟩ := List.map_eq_singleton_iff.mp one
          exact .last (ih own)

theorem Nearest.move {t : Tree} (h : t.Nearest) : (t.move m).Nearest := by
  induction h with
  | leaf t => exact .leaf (t.move m)
  | @node r cs _ apart ih =>
      rw [move_node]
      refine .node (List.forall_mem_map.mpr ih) ?_
      rw [List.isChain_map]
      refine apart.imp fun c d closed isElse isOpen => ?_
      exact closed ((root_move m d).symm.trans isElse) (isOpen.of_move rfl)

/-- What a tree stands for moves with its tokens. -/
theorem value_move {t : Tree} (fits : t.Fits grammar) (notText : t.root ≠ .nonterminal .text) :
    (t.move m).value = moveBuilt m t.value := by
  have tokens : ∀ t, id (Token.move m t) = Token.move m t := fun _ => rfl
  have literals : ∀ t, id (Token.move m t).literal = id t.literal := fun _ => rfl
  have mapped := value_map tokens literals fits notText
  rwa [mapBuilt_id, ← moveBuilt_eq_map, ← move_eq_map] at mapped

end Tree

/-- What some tokens spell they spell in other places too. -/
theorem Spelled.move (m : Position → Position) {x : Symbol} {v : Value} {ts : List Token}
    (h : Spelled x v ts) (notText : x ≠ .nonterminal .text) :
    Spelled x (v.move m) (ts.map (Token.move m)) := by
  obtain ⟨t, fits, near, root, rfl, value⟩ := h
  refine ⟨t.move m, fits.move, near.move, ?_, t.tokens_move m, ?_⟩
  · rw [Tree.root_move, root]
  · rw [Tree.value_move fits (by rwa [root]), value]
    rfl

end Grammar

end ScriptFront
