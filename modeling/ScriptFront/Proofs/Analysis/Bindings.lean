import Mathlib.Data.List.Basic
import Mathlib.Data.List.Induction
import Mathlib.Data.List.Pairwise
import ScriptFront.Proofs.Analysis.Steps

/-! # Bindings — what a row of steps binds, and what its looks demand

    A look demands something of the bindings before it (`Step.Holds`).  Every binding of a program
    stands behind the look at its name, with no other binding between (`guarded_steps`).  So where
    all looks find what they demand, two bindings of one name are the same binding of a parameter
    (`coherent_of_allHold`), and defining the symbols one after the other leaves each in the place
    of its first binding (`put_eraseDups`). -/

namespace ScriptFront

namespace Analysis

/-! ## Demands -/

/-- The symbol that a step binds. -/
def Step.symbol? : Step → Option Symbol
  | .bind symbol => some symbol
  | _ => none

/-- The symbols that some steps bind, in their order. -/
def bindings (steps : List Step) : List Symbol := steps.filterMap Step.symbol?

/-- What a step demands of the steps before it: a name that is used is bound, and a name that is to
    be bound is not; a parameter is not in its list before, and at most a parameter elsewhere; the
    type of a variable is a builtin type if types are strict. -/
def Step.Holds (strict : Bool) (before : List Step) : Step → Prop
  | .use name => ∃ s ∈ bindings before, s.name = name.lexeme
  | .declare name => ∀ s ∈ bindings before, s.name ≠ name.lexeme
  | .parameter earlier name =>
      (∀ q ∈ earlier, q.lexeme ≠ name.lexeme)
      ∧ ∀ s ∈ bindings before, s.name = name.lexeme → s.kind = .parameter
  | .annotate _ typeName => strict = true → typeName.lexeme ∈ builtinTypes
  | .bind _ => True

/-- Every step finds what it demands of those before it. -/
def AllHold (strict : Bool) (steps : List Step) : Prop :=
  ∀ done step rest, steps = done ++ step :: rest → step.Holds strict done

@[simp] theorem bindings_nil : bindings [] = [] := rfl

@[simp] theorem bindings_append (xs ys : List Step) :
    bindings (xs ++ ys) = bindings xs ++ bindings ys :=
  List.filterMap_append

@[simp] theorem bindings_use (name : Token) (steps : List Step) :
    bindings (.use name :: steps) = bindings steps := rfl

@[simp] theorem bindings_declare (name : Token) (steps : List Step) :
    bindings (.declare name :: steps) = bindings steps := rfl

@[simp] theorem bindings_parameter (earlier : List Token) (name : Token) (steps : List Step) :
    bindings (.parameter earlier name :: steps) = bindings steps := rfl

@[simp] theorem bindings_annotate (owner typeName : Token) (steps : List Step) :
    bindings (.annotate owner typeName :: steps) = bindings steps := rfl

@[simp] theorem bindings_bind (symbol : Symbol) (steps : List Step) :
    bindings (.bind symbol :: steps) = symbol :: bindings steps := rfl

/-- What is bound is bound by some step. -/
theorem exists_bind_of_mem {steps : List Step} {s : Symbol} (h : s ∈ bindings steps) :
    ∃ done rest, steps = done ++ .bind s :: rest := by
  obtain ⟨step, mem, bound⟩ := List.mem_filterMap.mp h
  cases step with
  | bind symbol =>
      cases bound
      exact List.append_of_mem mem
  | _ => cases bound

theorem mem_bindings_of_eq {steps done rest : List Step} {s : Symbol}
    (h : steps = done ++ .bind s :: rest) : s ∈ bindings steps := by
  rw [h, bindings_append, bindings_bind]
  exact List.mem_append_right _ List.mem_cons_self

theorem allHold_nil (strict : Bool) : AllHold strict [] := by
  intro done step rest split
  exact absurd split (by simp)

/-- What stands before the last of some steps. -/
theorem concat_eq_iff {steps done rest : List Step} {last step : Step} :
    steps ++ [last] = done ++ step :: rest
      ↔ (steps = done ∧ last = step ∧ rest = [])
        ∨ ∃ rest', steps = done ++ step :: rest' ∧ rest = rest' ++ [last] := by
  constructor
  · intro split
    rcases List.eq_nil_or_concat rest with rfl | ⟨rest', x, rfl⟩
    · obtain ⟨same, single⟩ := List.append_inj' split rfl
      exact Or.inl ⟨same, List.singleton_inj.mp single, rfl⟩
    · rw [List.concat_eq_append, ← List.cons_append, ← List.append_assoc] at split
      obtain ⟨same, single⟩ := List.append_inj' split rfl
      refine Or.inr ⟨rest', same, ?_⟩
      rw [List.concat_eq_append, List.singleton_inj.mp single]
  · rintro (⟨rfl, rfl, rfl⟩ | ⟨rest', rfl, rfl⟩)
    · rfl
    · rw [List.append_assoc, List.cons_append]

theorem allHold_concat {strict : Bool} {steps : List Step} {last : Step} :
    AllHold strict (steps ++ [last]) ↔ AllHold strict steps ∧ last.Holds strict steps := by
  constructor
  · intro h
    refine ⟨fun done step rest split => ?_, h steps last [] rfl⟩
    exact h done step (rest ++ [last]) (concat_eq_iff.mpr (Or.inr ⟨rest, split, rfl⟩))
  · rintro ⟨before, holds⟩ done step rest split
    rcases concat_eq_iff.mp split with ⟨rfl, rfl, -⟩ | ⟨rest', split', -⟩
    · exact holds
    · exact before done step rest' split'

theorem AllHold.of_append {strict : Bool} {xs ys : List Step} (h : AllHold strict (xs ++ ys)) :
    AllHold strict xs := by
  intro done step rest split
  exact h done step (rest ++ ys) (by rw [split, List.append_assoc, List.cons_append])

/-- Where not all steps hold, there is a first one that does not. -/
theorem exists_first_failure {strict : Bool} {steps : List Step} (h : ¬ AllHold strict steps) :
    ∃ done step rest, steps = done ++ step :: rest ∧ AllHold strict done
      ∧ ¬ step.Holds strict done := by
  induction steps using List.reverseRecOn with
  | nil => exact absurd (allHold_nil strict) h
  | append_singleton steps last ih =>
      by_cases before : AllHold strict steps
      · exact ⟨steps, last, [], rfl, before, fun holds => h (allHold_concat.mpr ⟨before, holds⟩)⟩
      · obtain ⟨done, step, rest, rfl, held, fails⟩ := ih before
        exact ⟨done, step, rest ++ [last], by rw [List.append_assoc, List.cons_append], held, fails⟩

/-! ## Bindings stand behind their looks -/

/-- The look that comes before the binding of a symbol.  Only a variable has a type, and it is a
    builtin type. -/
def Step.Guards (s : Symbol) : Step → Prop
  | .declare name =>
      s.name = name.lexeme ∧ s.kind ≠ .parameter
      ∧ ∀ t ∈ s.type, s.kind = .variable ∧ t ∈ builtinTypes
  | .parameter _ name => s = parameterSymbol name
  | _ => False

/-- Every binding stands behind a look at its name, and no other binding is between. -/
def Guarded (steps : List Step) : Prop :=
  ∀ done s rest, steps = done ++ .bind s :: rest →
    ∃ front look mid, done = front ++ look :: mid ∧ look.Guards s ∧ bindings mid = []

theorem guarded_of_no_bindings {steps : List Step} (h : bindings steps = []) : Guarded steps := by
  intro done s rest split
  have mem := mem_bindings_of_eq split
  rw [h] at mem
  cases mem

namespace Guarded

theorem of_append {xs ys : List Step} (h : Guarded (xs ++ ys)) : Guarded xs := by
  intro done s rest split
  exact h done s (rest ++ ys) (by rw [split, List.append_assoc, List.cons_append])

theorem append {xs ys : List Step} (hx : Guarded xs) (hy : Guarded ys) :
    Guarded (xs ++ ys) := by
  intro done s rest split
  rcases List.append_eq_append_iff.mp split with ⟨before, rfl, split'⟩ | ⟨after, split', same⟩
  · obtain ⟨front, look, mid, rfl, guards, silent⟩ := hy before s rest split'
    exact ⟨xs ++ front, look, mid, (List.append_assoc ..).symm, guards, silent⟩
  · cases after with
    | nil =>
        -- the second row would begin with a binding
        obtain ⟨front, look, mid, empty, -⟩ := hy [] s rest same.symm
        exact absurd empty (by simp)
    | cons x after =>
        obtain ⟨rfl, -⟩ := List.cons.inj same
        exact hx done s after split'

/-- A look, steps that bind nothing, and the binding that was looked at. -/
theorem block {look : Step} {mid rest : List Step} {s : Symbol} (guards : look.Guards s)
    (silent : bindings mid = []) (h : Guarded rest) :
    Guarded (look :: (mid ++ .bind s :: rest)) := by
  have quiet : bindings (look :: mid) = [] := by
    cases look with
    | bind => cases guards
    | _ => exact silent
  have one : Guarded ((look :: mid) ++ [.bind s]) := by
    intro done s' rest' split
    rcases concat_eq_iff.mp split with ⟨rfl, same, -⟩ | ⟨rest'', split', -⟩
    · cases same
      exact ⟨[], look, mid, rfl, guards, silent⟩
    · have mem := mem_bindings_of_eq split'
      rw [quiet] at mem
      cases mem
  have whole := one.append h
  rwa [List.append_assoc, List.cons_append, List.singleton_append] at whole

/-- A look and the binding that was looked at. -/
theorem pair {look : Step} {rest : List Step} {s : Symbol} (guards : look.Guards s)
    (h : Guarded rest) : Guarded (look :: .bind s :: rest) :=
  block guards bindings_nil h

end Guarded

theorem guarded_parameters (ps : List Token) :
    ∀ earlier, Guarded (Step.ofParameters earlier ps) := by
  induction ps with
  | nil =>
      intro earlier
      exact guarded_of_no_bindings rfl
  | cons p ps ih =>
      intro earlier
      show Guarded (.parameter earlier p :: .bind (parameterSymbol p) :: _)
      exact .pair rfl (ih (p :: earlier))

end Analysis

open Analysis

namespace Expr

mutual

/-- An expression binds nothing. -/
theorem bindings_steps : ∀ e : Expr, bindings e.steps = []
  | assign name value => by rw [steps, bindings_use, bindings_steps value]
  | binary left _ right => by
      rw [steps, bindings_append, bindings_steps left, bindings_steps right, List.append_nil]
  | call callee _ arguments => by
      rw [steps, bindings_append, bindings_steps callee, bindings_stepsAll arguments,
        List.append_nil]
  | get object _ => by rw [steps, bindings_steps object]
  | grouping inner => by rw [steps, bindings_steps inner]
  | literal _ => by rw [steps, bindings_nil]
  | logical left _ right => by
      rw [steps, bindings_append, bindings_steps left, bindings_steps right, List.append_nil]
  | set object _ value => by
      rw [steps, bindings_append, bindings_steps object, bindings_steps value, List.append_nil]
  | super _ _ => by rw [steps, bindings_nil]
  | this _ => by rw [steps, bindings_nil]
  | unary _ right => by rw [steps, bindings_steps right]
  | var name => by rw [steps, bindings_use, bindings_nil]

theorem bindings_stepsAll : ∀ es : List Expr, bindings (stepsAll es) = []
  | [] => by rw [stepsAll, bindings_nil]
  | e :: es => by
      rw [stepsAll, bindings_append, bindings_steps e, bindings_stepsAll es, List.append_nil]

end

theorem bindings_stepsPart (e : Option Expr) : bindings (stepsPart e) = [] := by
  cases e with
  | none => rfl
  | some e => exact bindings_steps e

theorem guarded_steps (e : Expr) : Guarded e.steps := guarded_of_no_bindings e.bindings_steps

theorem guarded_stepsPart (e : Option Expr) : Guarded (stepsPart e) :=
  guarded_of_no_bindings (bindings_stepsPart e)

end Expr

namespace Stmt

mutual

/-- The bindings of a statement stand behind their looks. -/
theorem guarded_steps : ∀ s : Stmt, Guarded s.steps
  | expression value => by
      rw [steps]
      exact value.guarded_steps
  | print _ value => by
      rw [steps]
      exact value.guarded_steps
  | varDecl name typeName initializer => by
      rw [steps, ← List.append_assoc]
      have typed : ∀ t ∈ (variableSymbol name typeName).type, t ∈ builtinTypes :=
        fun t mem => of_decide_eq_true (Option.mem_filter_iff.mp mem).2
      refine .block ⟨rfl, nofun, fun t mem => ⟨rfl, typed t mem⟩⟩ ?_
        (guarded_of_no_bindings bindings_nil)
      rw [bindings_append, Expr.bindings_stepsPart]
      cases typeName with
      | none => rfl
      | some t => rfl
  | block statements => by
      rw [steps]
      exact guarded_stepsAll statements
  | conditional condition thenBranch elseBranch => by
      rw [steps]
      exact condition.guarded_steps.append
        ((guarded_steps thenBranch).append (guarded_stepsPart elseBranch))
  | whileLoop condition body => by
      rw [steps]
      exact condition.guarded_steps.append (guarded_steps body)
  | forLoop initializer condition increment body => by
      rw [steps]
      exact (guarded_stepsPart initializer).append
        ((Expr.guarded_stepsPart condition).append
          ((Expr.guarded_stepsPart increment).append (guarded_steps body)))
  | breakLoop _ => by
      rw [steps]
      exact guarded_of_no_bindings bindings_nil
  | continueLoop _ => by
      rw [steps]
      exact guarded_of_no_bindings bindings_nil
  | returnValue _ value => by
      rw [steps]
      exact Expr.guarded_stepsPart value
  | function decl => by
      rw [steps]
      exact .pair ⟨rfl, nofun, nofun⟩ (guarded_stepsInside decl)
  | classDecl name superclass methods => by
      rw [steps]
      have own : Guarded (superclass.toList.map .use) := by
        refine guarded_of_no_bindings ?_
        cases superclass with
        | none => rfl
        | some t => rfl
      exact own.append (.pair ⟨rfl, nofun, nofun⟩ (guarded_stepsInsideAll methods))
  | program statements => by
      rw [steps]
      exact guarded_stepsAll statements

theorem guarded_stepsAll : ∀ ss : List Stmt, Guarded (stepsAll ss)
  | [] => by
      rw [stepsAll]
      exact guarded_of_no_bindings bindings_nil
  | s :: ss => by
      rw [stepsAll]
      exact (guarded_steps s).append (guarded_stepsAll ss)

theorem guarded_stepsPart : ∀ s : Option Stmt, Guarded (stepsPart s)
  | none => by
      rw [stepsPart]
      exact guarded_of_no_bindings bindings_nil
  | some s => by
      rw [stepsPart]
      exact guarded_steps s

theorem guarded_stepsInside : ∀ f : FunctionDecl Stmt, Guarded (stepsInside f)
  | ⟨_, parameters, body⟩ => by
      rw [stepsInside]
      exact (guarded_parameters parameters []).append (guarded_stepsAll body)

theorem guarded_stepsInsideAll :
    ∀ fs : List (FunctionDecl Stmt), Guarded (stepsInsideAll fs)
  | [] => by
      rw [stepsInsideAll]
      exact guarded_of_no_bindings bindings_nil
  | f :: fs => by
      rw [stepsInsideAll]
      exact (guarded_stepsInside f).append (guarded_stepsInsideAll fs)

end

end Stmt

/-- The bindings of a program stand behind their looks. -/
theorem Program.guarded_steps (p : Program) : Guarded p.steps :=
  Stmt.guarded_stepsAll p.statements

namespace Analysis

/-! ## One name, one symbol -/

/-- Two bindings of one name are the same binding of a parameter. -/
def Compatible (a b : Symbol) : Prop := a.name = b.name → a = b ∧ a.kind = .parameter

instance : Std.Symm Compatible where
  symm a b h same := by
    obtain ⟨rfl, kind⟩ := h same.symm
    exact ⟨rfl, kind⟩

/-- All bindings are compatible. -/
def Coherent (ss : List Symbol) : Prop := ss.Pairwise Compatible

/-- Coherent symbols of one name are one symbol. -/
theorem Coherent.eq_of_name {ss : List Symbol} (h : Coherent ss) {a b : Symbol} (ha : a ∈ ss)
    (hb : b ∈ ss) (same : a.name = b.name) : a = b := by
  by_contra apart
  exact apart (h.forall ha hb apart same).1

/-- In guarded steps all parameters are bound alike. -/
theorem eq_of_parameter {steps : List Step} (g : Guarded steps) {s : Symbol}
    (mem : s ∈ bindings steps) (kind : s.kind = .parameter) :
    s = { name := s.name, kind := .parameter } := by
  obtain ⟨done, rest, split⟩ := exists_bind_of_mem mem
  obtain ⟨front, look, mid, -, guards, -⟩ := g done s rest split
  cases look with
  | declare name => exact absurd kind guards.2.1
  | parameter earlier name =>
      have same : s = parameterSymbol name := guards
      rw [same]
      rfl
  | _ => cases guards

/-- In guarded steps only variables have types, and these are builtin types. -/
theorem type_of_mem {steps : List Step} (g : Guarded steps) {s : Symbol}
    (mem : s ∈ bindings steps) : ∀ t ∈ s.type, s.kind = .variable ∧ t ∈ builtinTypes := by
  obtain ⟨done, rest, split⟩ := exists_bind_of_mem mem
  obtain ⟨front, look, mid, -, guards, -⟩ := g done s rest split
  cases look with
  | declare name => exact guards.2.2
  | parameter earlier name =>
      have same : s = parameterSymbol name := guards
      rw [same]
      exact nofun
  | _ => cases guards

/-- If all steps hold, a name is bound again only as the same parameter. -/
theorem coherent_of_allHold {strict : Bool} {steps : List Step} (g : Guarded steps)
    (h : AllHold strict steps) : Coherent (bindings steps) := by
  induction steps using List.reverseRecOn with
  | nil => exact List.Pairwise.nil
  | append_singleton steps last ih =>
      obtain ⟨before, -⟩ := allHold_concat.mp h
      have coherent := ih g.of_append before
      cases last with
      | bind s =>
          rw [bindings_append]
          refine List.pairwise_append.mpr ⟨coherent, List.pairwise_singleton _ s, ?_⟩
          intro a mem b last same
          rw [List.mem_singleton.mp last] at same ⊢
          -- what the look at the name has found is all that is bound before the name
          obtain ⟨front, look, mid, rfl, guards, silent⟩ := g steps s [] rfl
          have holds := before front look mid rfl
          have all : bindings (front ++ look :: mid) = bindings front := by
            cases look with
            | bind => cases guards
            | _ => simp [silent]
          have mem' := mem
          rw [all] at mem'
          cases look with
          | declare name => exact absurd (same.trans guards.1) (holds a mem')
          | parameter earlier name =>
              have symbol : s = parameterSymbol name := guards
              rw [symbol] at same ⊢
              have kind : a.kind = .parameter := holds.2 a mem' same
              refine ⟨?_, kind⟩
              rw [eq_of_parameter g.of_append mem kind, same]
              rfl
          | _ => cases guards
      | _ =>
          rw [bindings_append]
          simpa using coherent

/-! ## Tables of coherent bindings -/

open SymbolTable (put)

theorem put_of_new {s : Symbol} {ts : List Symbol} (h : ∀ t ∈ ts, t.name ≠ s.name) :
    put s ts = ts ++ [s] := by
  induction ts with
  | nil => rfl
  | cons t ts ih =>
      obtain ⟨first, others⟩ := List.forall_mem_cons.mp h
      rw [put, if_neg first, ih others, List.cons_append]

theorem put_of_mem {s : Symbol} {ts : List Symbol} (mem : s ∈ ts)
    (h : ∀ t ∈ ts, t.name = s.name → t = s) : put s ts = ts := by
  induction ts with
  | nil => cases mem
  | cons t ts ih =>
      obtain ⟨first, others⟩ := List.forall_mem_cons.mp h
      rw [put]
      by_cases same : t.name = s.name
      · rw [if_pos same, first same]
      · rcases List.mem_cons.mp mem with rfl | later
        · exact absurd rfl same
        · rw [if_neg same, ih later others]

/-- What comes behind others is kept only if it is none of them. -/
theorem eraseDups_concat {α : Type} [BEq α] [LawfulBEq α] (as : List α) (a : α) :
    (as ++ [a]).eraseDups = if a ∈ as then as.eraseDups else as.eraseDups ++ [a] := by
  rw [List.eraseDups_append]
  by_cases again : a ∈ as
  · simp [List.removeAll, again]
  · simp [List.removeAll, again, List.eraseDups_cons]

/-- A symbol that is bound behind others stands in the place of its first binding. -/
theorem put_eraseDups {ss : List Symbol} {s : Symbol} (h : Coherent (ss ++ [s])) :
    put s ss.eraseDups = (ss ++ [s]).eraseDups := by
  obtain ⟨-, -, last⟩ := List.pairwise_append.mp h
  have same : ∀ t ∈ ss, t.name = s.name → t = s :=
    fun t mem name => (last t mem s List.mem_cons_self name).1
  rw [eraseDups_concat]
  by_cases again : s ∈ ss
  · rw [if_pos again]
    refine put_of_mem (List.mem_eraseDups.mpr again) fun t mem => ?_
    exact same t (List.mem_eraseDups.mp mem)
  · rw [if_neg again]
    refine put_of_new fun t mem name => again ?_
    have mem' := List.mem_eraseDups.mp mem
    exact same t mem' name ▸ mem'

/-- A name is in the table of some symbols if one of them has it. -/
theorem contains_iff {t : SymbolTable} {name : String} :
    t.contains name = true ↔ ∃ s ∈ t.symbols, s.name = name := by
  rw [SymbolTable.contains, SymbolTable.lookup?, List.find?_isSome]
  simp only [decide_eq_true_eq]

/-- A name is taken if a symbol that is no parameter has it. -/
theorem isTaken_iff {t : SymbolTable} {name : String}
    (one : ∀ a ∈ t.symbols, ∀ b ∈ t.symbols, a.name = b.name → a = b) :
    isTaken t name = true ↔ ∃ s ∈ t.symbols, s.name = name ∧ s.kind ≠ .parameter := by
  rw [isTaken, SymbolTable.lookup?]
  cases found : t.symbols.find? fun s => s.name = name with
  | none =>
      refine ⟨nofun, ?_⟩
      rintro ⟨s, mem, same, -⟩
      exact absurd (decide_eq_true same) (List.find?_eq_none.mp found s mem)
  | some a =>
      have same : a.name = name := by simpa using List.find?_some found
      have mem := List.mem_of_find?_eq_some found
      constructor
      · intro kind
        exact ⟨a, mem, same, of_decide_eq_true kind⟩
      · rintro ⟨s, mem', same', kind⟩
        rw [one s mem' a mem (same'.trans same.symm)] at kind
        exact decide_eq_true kind

end Analysis

end ScriptFront
