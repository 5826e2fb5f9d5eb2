import ScriptFront.Options
import ScriptFront.Program.Source
import ScriptFront.Proofs.Program.Revalued
import ScriptFront.Proofs.Token.Agreement

/-! # Agreement of programs — the same trees, but for one and zero

    Trees of genuine tokens and values agree exactly if they are the same once one and zero are put
    down as truth values (`Expr.agrees_iff`, `Stmt.agrees_iff`).  So do programs of texts
    (`agrees_iff_asTruths`), and all that looks at no value does the same with programs that
    agree: agreement is an equivalence that the walk and the analysis respect
    (`agreement_is_a_congruence`).  The texts of the programs may differ
    (`truth_and_one_are_printed_apart`). -/

namespace ScriptFront

open Analysis

/-! ## Parts and rows -/

/-- Optional things agree if those that are there do. -/
theorem agreePart_iff {α β : Type} {agree : α → α → Bool} {f : α → β} {a b : Option α}
    (h : ∀ x ∈ a, ∀ y ∈ b, (agree x y = true ↔ f x = f y)) :
    agreePart agree a b = true ↔ a.map f = b.map f := by
  cases a with
  | none =>
      cases b with
      | none => exact iff_of_true rfl rfl
      | some y => exact iff_of_false nofun nofun
  | some x =>
      cases b with
      | none => exact iff_of_false nofun nofun
      | some y => rw [agreePart, h x rfl y rfl, Option.map_some, Option.map_some, Option.some_inj]

/-- Rows agree if their items do. -/
theorem agreeAll_iff {α β : Type} {agree : α → α → Bool} {f : α → β} :
    ∀ {as bs : List α}, (∀ x ∈ as, ∀ y ∈ bs, (agree x y = true ↔ f x = f y)) →
      (agreeAll agree as bs = true ↔ as.map f = bs.map f)
  | [], [], _ => iff_of_true rfl rfl
  | [], _ :: _, _ | _ :: _, [], _ => iff_of_false nofun nofun
  | a :: as, b :: bs, h => by
      have rest := agreeAll_iff fun x mem y mem' =>
        h x (List.mem_cons_of_mem a mem) y (List.mem_cons_of_mem b mem')
      rw [agreeAll, Bool.and_eq_true, h a List.mem_cons_self b List.mem_cons_self, rest,
        List.map_cons, List.map_cons, List.cons.injEq]

/-! ## Genuine slots -/

namespace Slot

/-- All of some slots are genuine. -/
def AllGenuine (slots : List Slot) : Prop := ∀ s ∈ slots, s.Genuine

@[simp] theorem allGenuine_nil : AllGenuine [] := List.forall_mem_nil _

@[simp] theorem allGenuine_append {as bs : List Slot} :
    AllGenuine (as ++ bs) ↔ AllGenuine as ∧ AllGenuine bs := List.forall_mem_append

@[simp] theorem allGenuine_mark {k : TokenKind} {slots : List Slot} :
    AllGenuine (.mark k :: slots) ↔ AllGenuine slots :=
  List.forall_mem_cons.trans (and_iff_right trivial)

@[simp] theorem allGenuine_token {t : Token} {slots : List Slot} :
    AllGenuine (.token t :: slots) ↔ t.Genuine ∧ AllGenuine slots := List.forall_mem_cons

@[simp] theorem allGenuine_value {v : Literal} {slots : List Slot} :
    AllGenuine (.value v :: slots) ↔ v.Genuine ∧ AllGenuine slots := List.forall_mem_cons

@[simp] theorem allGenuine_ofMore {ts : List Token} :
    AllGenuine (ofMore ts) ↔ ∀ t ∈ ts, t.Genuine := by
  induction ts with
  | nil => simp [ofMore]
  | cons t ts ih => simp [ofMore, ih]

@[simp] theorem allGenuine_ofNames {ts : List Token} :
    AllGenuine (ofNames ts) ↔ ∀ t ∈ ts, t.Genuine := by
  cases ts with
  | nil => simp [ofNames]
  | cons t ts => simp [ofNames]

end Slot

open Slot (AllGenuine)

namespace Expr

@[simp] theorem allGenuine_moreSlots {es : List Expr} :
    AllGenuine (moreSlots es) ↔ ∀ e ∈ es, AllGenuine e.slots := by
  induction es with
  | nil => simp
  | cons e es ih => simp [ih]

@[simp] theorem allGenuine_argumentSlots {es : List Expr} :
    AllGenuine (argumentSlots es) ↔ ∀ e ∈ es, AllGenuine e.slots := by
  cases es with
  | nil => simp
  | cons e es => simp

@[simp] theorem allGenuine_slotsPart {e : Option Expr} :
    AllGenuine (slotsPart e) ↔ ∀ x ∈ e, AllGenuine x.slots := by
  cases e with
  | none => simp [slotsPart]
  | some x => simp [slotsPart]

end Expr

namespace Stmt

@[simp] theorem allGenuine_nameSlots {k : TokenKind} {name : Option Token} :
    AllGenuine (nameSlots k name) ↔ ∀ t ∈ name, t.Genuine := by
  cases name with
  | none => simp [nameSlots]
  | some t => simp [nameSlots]

@[simp] theorem allGenuine_initialSlots {e : Option Expr} :
    AllGenuine (initialSlots e) ↔ ∀ x ∈ e, AllGenuine x.slots := by
  cases e with
  | none => simp [initialSlots]
  | some x => simp [initialSlots]

@[simp] theorem allGenuine_elseSlots {s : Option Stmt} :
    AllGenuine (elseSlots s) ↔ ∀ x ∈ s, AllGenuine x.slots := by
  cases s with
  | none => simp
  | some x => simp

@[simp] theorem allGenuine_initializerSlots {s : Option Stmt} :
    AllGenuine (initializerSlots s) ↔ ∀ x ∈ s, AllGenuine x.slots := by
  cases s with
  | none => simp
  | some x => simp

end Stmt

/-! ## Trees -/

namespace Expr

/-- An expression, with one and zero put down as truth values. -/
def asTruths : Expr → Expr := map id Literal.asTruth

/-- Some expressions, with one and zero put down as truth values. -/
def asTruthsAll : List Expr → List Expr := mapAll id Literal.asTruth

mutual

/-- Genuine expressions agree exactly if they are the same with one and zero as truth values. -/
theorem agrees_iff : ∀ {e e' : Expr}, AllGenuine e.slots → AllGenuine e'.slots →
    (e.agrees e' = true ↔ e.asTruths = e'.asTruths)
  | assign n v, e', h, h' => by
      cases e' with
      | assign n' v' =>
          obtain ⟨name, value⟩ : n.Genuine ∧ AllGenuine v.slots := by
            simpa using h
          obtain ⟨name', value'⟩ : n'.Genuine ∧ AllGenuine v'.slots := by
            simpa using h'
          simp [agrees, asTruths, map, name.agrees_iff name', agrees_iff value value']
      | _ => exact iff_of_false nofun nofun
  | binary l o r, e', h, h' => by
      cases e' with
      | binary l' o' r' =>
          obtain ⟨left, operator, right⟩ :
              AllGenuine l.slots ∧ o.Genuine ∧ AllGenuine r.slots := by
            simpa using h
          obtain ⟨left', operator', right'⟩ :
              AllGenuine l'.slots ∧ o'.Genuine ∧ AllGenuine r'.slots := by
            simpa using h'
          simp [agrees, asTruths, map, agrees_iff left left', operator.agrees_iff operator',
            agrees_iff right right', and_assoc]
      | _ => exact iff_of_false nofun nofun
  | call c p as, e', h, h' => by
      cases e' with
      | call c' p' as' =>
          obtain ⟨callee, arguments, paren⟩ :
              AllGenuine c.slots ∧ (∀ e ∈ as, AllGenuine e.slots) ∧ p.Genuine := by
            simpa using h
          obtain ⟨callee', arguments', paren'⟩ :
              AllGenuine c'.slots ∧ (∀ e ∈ as', AllGenuine e.slots) ∧ p'.Genuine := by
            simpa using h'
          simp [agrees, asTruths, map, agrees_iff callee callee', paren.agrees_iff paren',
            agreesAll_iff arguments arguments', asTruthsAll, and_assoc]
      | _ => exact iff_of_false nofun nofun
  | get o n, e', h, h' => by
      cases e' with
      | get o' n' =>
          obtain ⟨object, name⟩ : AllGenuine o.slots ∧ n.Genuine := by
            simpa using h
          obtain ⟨object', name'⟩ : AllGenuine o'.slots ∧ n'.Genuine := by
            simpa using h'
          simp [agrees, asTruths, map, agrees_iff object object', name.agrees_iff name']
      | _ => exact iff_of_false nofun nofun
  | grouping x, e', h, h' => by
      cases e' with
      | grouping x' =>
          have inner : AllGenuine x.slots := by simpa using h
          have inner' : AllGenuine x'.slots := by simpa using h'
          simp [agrees, asTruths, map, agrees_iff inner inner']
      | _ => exact iff_of_false nofun nofun
  | literal v, e', h, h' => by
      cases e' with
      | literal v' =>
          have value : v.Genuine := by simpa using h
          have value' : v'.Genuine := by simpa using h'
          simp [agrees, asTruths, map, value.agrees_iff value']
      | _ => exact iff_of_false nofun nofun
  | logical l o r, e', h, h' => by
      cases e' with
      | logical l' o' r' =>
          obtain ⟨left, operator, right⟩ :
              AllGenuine l.slots ∧ o.Genuine ∧ AllGenuine r.slots := by
            simpa using h
          obtain ⟨left', operator', right'⟩ :
              AllGenuine l'.slots ∧ o'.Genuine ∧ AllGenuine r'.slots := by
            simpa using h'
          simp [agrees, asTruths, map, agrees_iff left left', operator.agrees_iff operator',
            agrees_iff right right', and_assoc]
      | _ => exact iff_of_false nofun nofun
  | set o n v, e', h, h' => by
      cases e' with
      | set o' n' v' =>
          obtain ⟨object, name, value⟩ : AllGenuine o.slots ∧ n.Genuine ∧ AllGenuine v.slots := by
            simpa using h
          obtain ⟨object', name', value'⟩ :
              AllGenuine o'.slots ∧ n'.Genuine ∧ AllGenuine v'.slots := by
            simpa using h'
          simp [agrees, asTruths, map, agrees_iff object object', name.agrees_iff name',
            agrees_iff value value', and_assoc]
      | _ => exact iff_of_false nofun nofun
  | super k m, e', h, h' => by
      cases e' with
      | super k' m' =>
          obtain ⟨keyword, method⟩ : k.Genuine ∧ m.Genuine := by
            simpa using h
          obtain ⟨keyword', method'⟩ : k'.Genuine ∧ m'.Genuine := by
            simpa using h'
          simp [agrees, asTruths, map, keyword.agrees_iff keyword', method.agrees_iff method']
      | _ => exact iff_of_false nofun nofun
  | this k, e', h, h' => by
      cases e' with
      | this k' =>
          have keyword : k.Genuine := by simpa using h
          have keyword' : k'.Genuine := by simpa using h'
          simp [agrees, asTruths, map, keyword.agrees_iff keyword']
      | _ => exact iff_of_false nofun nofun
  | unary o r, e', h, h' => by
      cases e' with
      | unary o' r' =>
          obtain ⟨operator, right⟩ : o.Genuine ∧ AllGenuine r.slots := by
            simpa using h
          obtain ⟨operator', right'⟩ : o'.Genuine ∧ AllGenuine r'.slots := by
            simpa using h'
          simp [agrees, asTruths, map, operator.agrees_iff operator', agrees_iff right right']
      | _ => exact iff_of_false nofun nofun
  | var n, e', h, h' => by
      cases e' with
      | var n' =>
          have name : n.Genuine := by simpa using h
          have name' : n'.Genuine := by simpa using h'
          simp [agrees, asTruths, map, name.agrees_iff name']
      | _ => exact iff_of_false nofun nofun

theorem agreesAll_iff : ∀ {es es' : List Expr}, (∀ e ∈ es, AllGenuine e.slots) →
    (∀ e ∈ es', AllGenuine e.slots) →
    (agreesAll es es' = true ↔ asTruthsAll es = asTruthsAll es')
  | [], [], _, _ => iff_of_true rfl rfl
  | [], _ :: _, _, _ | _ :: _, [], _, _ => iff_of_false nofun nofun
  | e :: es, e' :: es', h, h' => by
      obtain ⟨first, rest⟩ := List.forall_mem_cons.mp h
      obtain ⟨first', rest'⟩ := List.forall_mem_cons.mp h'
      rw [agreesAll, Bool.and_eq_true, agrees_iff first first', agreesAll_iff rest rest']
      simp [asTruths, asTruthsAll, mapAll]

end

/-- Optional expressions agree if they are the same with one and zero as truth values. -/
theorem agreesPart_iff {e e' : Option Expr} (h : ∀ x ∈ e, AllGenuine x.slots)
    (h' : ∀ x ∈ e', AllGenuine x.slots) :
    agreePart agrees e e' = true ↔ e.map asTruths = e'.map asTruths :=
  agreePart_iff fun x mem y mem' => agrees_iff (h x mem) (h' y mem')

end Expr

namespace Token

variable {t t' : Option Token} {ts ts' : List Token}

/-- Optional tokens of a text agree if they are the same. -/
theorem agreesPart_iff (h : ∀ x ∈ t, x.Genuine) (h' : ∀ x ∈ t', x.Genuine) :
    agreePart agrees t t' = true ↔ t.map id = t'.map id :=
  agreePart_iff fun x mem y mem' => (h x mem).agrees_iff (h' y mem')

/-- Rows of tokens of a text agree if they are the same. -/
theorem agreesAll_iff (h : ∀ x ∈ ts, x.Genuine) (h' : ∀ x ∈ ts', x.Genuine) :
    agreeAll agrees ts ts' = true ↔ ts.map id = ts'.map id :=
  agreeAll_iff fun x mem y mem' => (h x mem).agrees_iff (h' y mem')

end Token

namespace Stmt

/-- A statement, with one and zero put down as truth values. -/
def asTruths : Stmt → Stmt := map id Literal.asTruth

/-- Some statements, with one and zero put down as truth values. -/
def asTruthsAll : List Stmt → List Stmt := mapAll id Literal.asTruth

/-- An optional statement, with one and zero put down as truth values. -/
def asTruthsPart : Option Stmt → Option Stmt := mapPart id Literal.asTruth

/-- A function, with one and zero put down as truth values. -/
def functionAsTruths : FunctionDecl Stmt → FunctionDecl Stmt := mapFunction id Literal.asTruth

/-- Some functions, with one and zero put down as truth values. -/
def functionsAsTruths : List (FunctionDecl Stmt) → List (FunctionDecl Stmt) :=
  mapFunctions id Literal.asTruth

mutual

/-- Genuine statements agree exactly if they are the same with one and zero as truth values. -/
theorem agrees_iff : ∀ {s s' : Stmt}, AllGenuine s.slots → AllGenuine s'.slots →
    (s.agrees s' = true ↔ s.asTruths = s'.asTruths)
  | expression e, s', h, h' => by
      cases s' with
      | expression e' =>
          have value : AllGenuine e.slots := by simpa using h
          have value' : AllGenuine e'.slots := by simpa using h'
          simp [agrees, asTruths, map, Expr.agrees_iff value value', Expr.asTruths]
      | _ => simp [agrees, asTruths, map]
  | print k e, s', h, h' => by
      cases s' with
      | print k' e' =>
          obtain ⟨keyword, value⟩ : k.Genuine ∧ AllGenuine e.slots := by simpa using h
          obtain ⟨keyword', value'⟩ : k'.Genuine ∧ AllGenuine e'.slots := by simpa using h'
          simp [agrees, asTruths, map, keyword.agrees_iff keyword', Expr.agrees_iff value value',
            Expr.asTruths]
      | _ => simp [agrees, asTruths, map]
  | varDecl n t i, s', h, h' => by
      cases s' with
      | varDecl n' t' i' =>
          obtain ⟨name, type, initializer⟩ :
              n.Genuine ∧ (∀ x ∈ t, x.Genuine) ∧ ∀ x ∈ i, AllGenuine x.slots := by
            simpa using h
          obtain ⟨name', type', initializer'⟩ :
              n'.Genuine ∧ (∀ x ∈ t', x.Genuine) ∧ ∀ x ∈ i', AllGenuine x.slots := by
            simpa using h'
          rw [agrees, Bool.and_eq_true, Bool.and_eq_true, name.agrees_iff name',
            Token.agreesPart_iff type type', Expr.agreesPart_iff initializer initializer']
          simp [asTruths, map, Expr.asTruths, and_assoc]
      | _ => simp [agrees, asTruths, map]
  | block ss, s', h, h' => by
      cases s' with
      | block ss' =>
          have statements : AllGenuine (slotsAll ss) := by simpa using h
          have statements' : AllGenuine (slotsAll ss') := by simpa using h'
          simp [agrees, asTruths, map, agreesAll_iff statements statements', asTruthsAll]
      | _ => simp [agrees, asTruths, map]
  | conditional c s t, s', h, h' => by
      cases s' with
      | conditional c' s' t' =>
          obtain ⟨condition, branch, other⟩ :
              AllGenuine c.slots ∧ AllGenuine s.slots ∧ ∀ x ∈ t, AllGenuine x.slots := by
            simpa using h
          obtain ⟨condition', branch', other'⟩ :
              AllGenuine c'.slots ∧ AllGenuine s'.slots ∧ ∀ x ∈ t', AllGenuine x.slots := by
            simpa using h'
          simp [agrees, asTruths, map, Expr.agrees_iff condition condition', Expr.asTruths,
            agrees_iff branch branch', agreesPart_iff other other', asTruthsPart, and_assoc]
      | _ => simp [agrees, asTruths, map]
  | whileLoop c s, s', h, h' => by
      cases s' with
      | whileLoop c' s' =>
          obtain ⟨condition, body⟩ : AllGenuine c.slots ∧ AllGenuine s.slots := by
            simpa using h
          obtain ⟨condition', body'⟩ : AllGenuine c'.slots ∧ AllGenuine s'.slots := by
            simpa using h'
          simp [agrees, asTruths, map, Expr.agrees_iff condition condition', Expr.asTruths,
            agrees_iff body body']
      | _ => simp [agrees, asTruths, map]
  | forLoop i c e s, s', h, h' => by
      cases s' with
      | forLoop i' c' e' s' =>
          obtain ⟨initializer, condition, increment, body⟩ :
              (∀ x ∈ i, AllGenuine x.slots) ∧ (∀ x ∈ c, AllGenuine x.slots)
                ∧ (∀ x ∈ e, AllGenuine x.slots) ∧ AllGenuine s.slots := by
            simpa using h
          obtain ⟨initializer', condition', increment', body'⟩ :
              (∀ x ∈ i', AllGenuine x.slots) ∧ (∀ x ∈ c', AllGenuine x.slots)
                ∧ (∀ x ∈ e', AllGenuine x.slots) ∧ AllGenuine s'.slots := by
            simpa using h'
          simp [agrees, asTruths, map, agreesPart_iff initializer initializer', asTruthsPart,
            Expr.agreesPart_iff condition condition', Expr.agreesPart_iff increment increment',
            Expr.asTruths, agrees_iff body body', and_assoc]
      | _ => simp [agrees, asTruths, map]
  | breakLoop k, s', h, h' => by
      cases s' with
      | breakLoop k' =>
          have keyword : k.Genuine := by simpa using h
          have keyword' : k'.Genuine := by simpa using h'
          simp [agrees, asTruths, map, keyword.agrees_iff keyword']
      | _ => simp [agrees, asTruths, map]
  | continueLoop k, s', h, h' => by
      cases s' with
      | continueLoop k' =>
          have keyword : k.Genuine := by simpa using h
          have keyword' : k'.Genuine := by simpa using h'
          simp [agrees, asTruths, map, keyword.agrees_iff keyword']
      | _ => simp [agrees, asTruths, map]
  | returnValue k v, s', h, h' => by
      cases s' with
      | returnValue k' v' =>
          obtain ⟨keyword, value⟩ : k.Genuine ∧ ∀ x ∈ v, AllGenuine x.slots := by
            simpa using h
          obtain ⟨keyword', value'⟩ : k'.Genuine ∧ ∀ x ∈ v', AllGenuine x.slots := by
            simpa using h'
          simp [agrees, asTruths, map, keyword.agrees_iff keyword',
            Expr.agreesPart_iff value value', Expr.asTruths]
      | _ => simp [agrees, asTruths, map]
  | function f, s', h, h' => by
      cases s' with
      | function f' =>
          simp only [agrees, agreesFunction_iff h h', asTruths, map, functionAsTruths,
            function.injEq]
      | _ => simp [agrees, asTruths, map]
  | classDecl n t fs, s', h, h' => by
      cases s' with
      | classDecl n' t' fs' =>
          obtain ⟨name, superclass, methods⟩ :
              n.Genuine ∧ (∀ x ∈ t, x.Genuine) ∧ AllGenuine (functionsSlots fs) := by
            simpa using h
          obtain ⟨name', superclass', methods'⟩ :
              n'.Genuine ∧ (∀ x ∈ t', x.Genuine) ∧ AllGenuine (functionsSlots fs') := by
            simpa using h'
          rw [agrees, Bool.and_eq_true, Bool.and_eq_true, name.agrees_iff name',
            Token.agreesPart_iff superclass superclass', agreesFunctions_iff methods methods']
          simp [asTruths, map, functionsAsTruths, and_assoc]
      | _ => simp [agrees, asTruths, map]
  | program ss, s', h, h' => by
      cases s' with
      | program ss' => simp [agrees, asTruths, map, agreesAll_iff h h', asTruthsAll]
      | _ => simp [agrees, asTruths, map]

theorem agreesAll_iff : ∀ {ss ss' : List Stmt}, AllGenuine (slotsAll ss) →
    AllGenuine (slotsAll ss') → (agreesAll ss ss' = true ↔ asTruthsAll ss = asTruthsAll ss')
  | [], [], _, _ | [], _ :: _, _, _ | _ :: _, [], _, _ => by simp [agreesAll, asTruthsAll, mapAll]
  | s :: ss, s' :: ss', h, h' => by
      obtain ⟨first, rest⟩ := Slot.allGenuine_append.mp h
      obtain ⟨first', rest'⟩ := Slot.allGenuine_append.mp h'
      rw [agreesAll, Bool.and_eq_true, agrees_iff first first', agreesAll_iff rest rest']
      simp [asTruths, asTruthsAll, mapAll]

theorem agreesPart_iff : ∀ {s s' : Option Stmt}, (∀ x ∈ s, AllGenuine x.slots) →
    (∀ x ∈ s', AllGenuine x.slots) →
    (agreesPart s s' = true ↔ asTruthsPart s = asTruthsPart s')
  | none, none, _, _ | none, some _, _, _ | some _, none, _, _ => by
      simp [agreesPart, asTruthsPart, mapPart]
  | some s, some s', h, h' => by
      rw [agreesPart, agrees_iff (h s rfl) (h' s' rfl)]
      simp [asTruths, asTruthsPart, mapPart]

theorem agreesFunction_iff : ∀ {f f' : FunctionDecl Stmt}, AllGenuine (functionSlots f) →
    AllGenuine (functionSlots f') →
    (agreesFunction f f' = true ↔ functionAsTruths f = functionAsTruths f')
  | ⟨n, ps, ss⟩, ⟨n', ps', ss'⟩, h, h' => by
      obtain ⟨name, parameters, body⟩ :
          n.Genuine ∧ (∀ x ∈ ps, x.Genuine) ∧ AllGenuine (slotsAll ss) := by
        simpa using h
      obtain ⟨name', parameters', body'⟩ :
          n'.Genuine ∧ (∀ x ∈ ps', x.Genuine) ∧ AllGenuine (slotsAll ss') := by
        simpa using h'
      rw [agreesFunction, Bool.and_eq_true, Bool.and_eq_true, name.agrees_iff name',
        Token.agreesAll_iff parameters parameters', agreesAll_iff body body']
      simp [functionAsTruths, mapFunction, asTruthsAll, and_assoc]

theorem agreesFunctions_iff : ∀ {fs fs' : List (FunctionDecl Stmt)},
    AllGenuine (functionsSlots fs) → AllGenuine (functionsSlots fs') →
    (agreesFunctions fs fs' = true ↔ functionsAsTruths fs = functionsAsTruths fs')
  | [], [], _, _ | [], _ :: _, _, _ | _ :: _, [], _, _ => by
      simp [agreesFunctions, functionsAsTruths, mapFunctions]
  | f :: fs, f' :: fs', h, h' => by
      obtain ⟨first, rest⟩ := Slot.allGenuine_append.mp h
      obtain ⟨first', rest'⟩ := Slot.allGenuine_append.mp h'
      rw [agreesFunctions, Bool.and_eq_true, agreesFunction_iff first first',
        agreesFunctions_iff rest rest']
      simp [functionAsTruths, functionsAsTruths, mapFunctions]

end

end Stmt

/-! ## Programs of texts -/

namespace Program

variable {p q : Program}

/-- A program that some text is read as. -/
def OfText (p : Program) : Prop := ∃ source, ofSource source = .ok p

/-- A program, with one and zero put down as truth values. -/
def asTruths (p : Program) : Program := p.revalued Literal.asTruth

/-- What a program of a text keeps is genuine. -/
theorem OfText.genuine (h : p.OfText) : AllGenuine p.slots := by
  obtain ⟨source, formed⟩ := h
  obtain ⟨tokens, scanned, parsed⟩ := ofSource_eq_ok_iff.mp formed
  exact genuine_of_parse scanned parsed

/-- Programs of texts agree exactly if they are the same with one and zero as truth values. -/
theorem agrees_iff_asTruths (h : p.OfText) (h' : q.OfText) :
    p.agrees q = true ↔ p.asTruths = q.asTruths := by
  rw [agrees, Stmt.agreesAll_iff h.genuine h'.genuine, asTruths, asTruths, revalued, revalued,
    map, map, mk.injEq, Stmt.asTruthsAll]

/-- Programs with the same values but for one and zero are the same to the walk and the
    analysis. -/
theorem alike_of_asTruths (same : p.asTruths = q.asTruths) :
    p.heads.map Head.valueless = q.heads.map Head.valueless
    ∧ ∀ strict, analyze strict p = analyze strict q := by
  constructor
  · rw [← p.heads_revalued Literal.asTruth, ← q.heads_revalued Literal.asTruth]
    exact congrArg (fun r => r.heads.map Head.valueless) same
  · intro strict
    rw [← analyze_revalued Literal.asTruth strict p, ← analyze_revalued Literal.asTruth strict q]
    exact congrArg (analyze strict) same

end Program

/-- On programs of texts agreement is an equivalence.  Of programs that agree, the walk meets the
    same nodes with the same tokens in the same order, the analysis is the same under any options,
    with the same success or problem and the same state, and the texts are the same once one and
    zero are put down as truth values. -/
theorem agreement_is_a_congruence :
    Equivalence (fun p q : {p : Program // p.OfText} => p.1.agrees q.1 = true)
    ∧ ∀ p q : Program, p.OfText → q.OfText → p.agrees q = true →
        p.heads.map Head.valueless = q.heads.map Head.valueless
        ∧ (∀ options : Options,
            analyze options.strictTypes p = analyze options.strictTypes q)
        ∧ p.asTruths.printed = q.asTruths.printed := by
  constructor
  · constructor
    · intro p
      exact (Program.agrees_iff_asTruths p.2 p.2).mpr rfl
    · intro p q alike
      have same := (Program.agrees_iff_asTruths p.2 q.2).mp alike
      exact (Program.agrees_iff_asTruths q.2 p.2).mpr same.symm
    · intro p q r alike alike'
      have same := (Program.agrees_iff_asTruths p.2 q.2).mp alike
      have same' := (Program.agrees_iff_asTruths q.2 r.2).mp alike'
      exact (Program.agrees_iff_asTruths p.2 r.2).mpr (same.trans same')
  · intro p q formed formed' alike
    have same := (Program.agrees_iff_asTruths formed formed').mp alike
    obtain ⟨heads, analysis⟩ := Program.alike_of_asTruths same
    exact ⟨heads, fun options => analysis options.strictTypes, congrArg Program.printed same⟩

/-- A variable with a truth value and one with the number one: the programs agree and are analysed
    alike, with the same variable left without a type, but are not printed alike. -/
theorem truth_and_one_are_printed_apart :
    let name : Token := ⟨.identifier, "x", .null, ⟨1, 5⟩⟩
    let typeName : Token := ⟨.identifier, "T", .null, ⟨1, 8⟩⟩
    let keyword : Token := ⟨.kwPrint, "print", .null, ⟨1, 18⟩⟩
    let other : Token := ⟨.identifier, "y", .null, ⟨1, 24⟩⟩
    let program (value : Literal) : Program :=
      ⟨[.varDecl name (some typeName) (some (.literal value)), .print keyword (.var other)]⟩
    let p := program (.bool true)
    let q := program (.number 1.0)
    Program.ofSource "var x: T = true; print y;" = .ok p
    ∧ Program.ofSource "var x: T = 1.00; print y;" = .ok q
    ∧ p.agrees q = true
    ∧ p.heads.map Head.valueless = q.heads.map Head.valueless
    ∧ analyze false p = analyze false q
    ∧ (analyze false q).1.unresolved = [⟨name, typeName⟩]
    ∧ (analyze false q).2 = some (.ofCause (.notDefined "y") ⟨1, 24⟩)
    ∧ p.printed ≠ q.printed
    ∧ p.asTruths.printed = q.asTruths.printed := by
  intro name typeName keyword other program p q
  have canonical : ∀ value, (program value).Canonical := by
    intro value
    refine List.forall_mem_cons.mpr ⟨.varDecl rfl ?_ ?_, List.forall_mem_singleton.mpr ?_⟩
    · rintro _ ⟨⟩
      rfl
    · rintro _ ⟨⟩
      exact .literal value
    · exact .print rfl (.var rfl)
  have first : Program.ofSource "var x: T = true; print y;" = .ok p := by
    let tokens : List Token :=
      [⟨.kwVar, "var", .null, ⟨1, 1⟩⟩, name, ⟨.colon, ":", .null, ⟨1, 6⟩⟩, typeName,
       ⟨.equal, "=", .null, ⟨1, 10⟩⟩, ⟨.boolean, "true", .bool true, ⟨1, 12⟩⟩,
       ⟨.semicolon, ";", .null, ⟨1, 16⟩⟩, keyword, other, ⟨.semicolon, ";", .null, ⟨1, 25⟩⟩,
       .endAt ⟨1, 26⟩]
    have scanned : scan "var x: T = true; print y;" = .ok tokens := by decide +kernel
    have written : p.WrittenAs (tokens.filter Token.isSignificant) := by repeat' constructor
    exact ofSource_eq_ok_iff.mpr ⟨tokens, scanned, parse_of_writtenAs (canonical _) written⟩
  have second : Program.ofSource "var x: T = 1.00; print y;" = .ok q := by
    let tokens : List Token :=
      [⟨.kwVar, "var", .null, ⟨1, 1⟩⟩, name, ⟨.colon, ":", .null, ⟨1, 6⟩⟩, typeName,
       ⟨.equal, "=", .null, ⟨1, 10⟩⟩, ⟨.number, "1.00", .number 1.0, ⟨1, 12⟩⟩,
       ⟨.semicolon, ";", .null, ⟨1, 16⟩⟩, keyword, other, ⟨.semicolon, ";", .null, ⟨1, 25⟩⟩,
       .endAt ⟨1, 26⟩]
    have scanned : scan "var x: T = 1.00; print y;" = .ok tokens := by decide +kernel
    have written : q.WrittenAs (tokens.filter Token.isSignificant) := by repeat' constructor
    exact ofSource_eq_ok_iff.mpr ⟨tokens, scanned, parse_of_writtenAs (canonical _) written⟩
  have alike : p.agrees q = true := by decide +kernel
  obtain ⟨heads, analysis, printed⟩ :=
    agreement_is_a_congruence.2 p q ⟨_, first⟩ ⟨_, second⟩ alike
  exact ⟨first, second, alike, heads, analysis .default, by decide +kernel, by decide +kernel,
    by decide +kernel, printed⟩

end ScriptFront
