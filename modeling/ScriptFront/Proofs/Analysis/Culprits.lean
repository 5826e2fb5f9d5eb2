import ScriptFront.Analysis.Basic

/-! # Culprits — the analysis complains about names of the program only

    A pass keeps an invariant of the state and ends only in problems of some sort (`Pass.Keeps`).
    With a property of names for both, this says that every problem is about a name that the program
    declares or uses, and that every type that is left unknown is one that it names
    (`analyze_names`). -/

namespace ScriptFront

/-- The names that a head declares or uses. -/
def Head.names : Head → List Token
  | .assign name | .var name | .classDecl name => [name]
  | .varDecl name typeName => name :: typeName.toList
  | .function name parameters => name :: parameters
  | _ => []

namespace Outline

/-- The names of an outline have a property. -/
def Names (P : Token → Prop) (o : Outline) : Prop := ∀ h ∈ o.heads, ∀ t ∈ h.names, P t

/-- The names of some outlines have a property. -/
def NamesAll (P : Token → Prop) (os : List Outline) : Prop := ∀ h ∈ headsAll os, ∀ t ∈ h.names, P t

variable {P Q : Token → Prop}

theorem names_absent : absent.Names P := List.forall_mem_nil _

theorem names_node {head : Head} {children : List Outline} :
    (node head children).Names P ↔ (∀ t ∈ head.names, P t) ∧ NamesAll P children :=
  List.forall_mem_cons

theorem namesAll_nil : NamesAll P [] := List.forall_mem_nil _

theorem namesAll_cons {o : Outline} {os : List Outline} :
    NamesAll P (o :: os) ↔ o.Names P ∧ NamesAll P os :=
  List.forall_mem_append

theorem Names.imp {o : Outline} (h : o.Names P) (hPQ : ∀ t, P t → Q t) : o.Names Q :=
  fun head mem t name => hPQ t (h head mem t name)

theorem NamesAll.imp {os : List Outline} (h : NamesAll P os) (hPQ : ∀ t, P t → Q t) :
    NamesAll Q os :=
  fun head mem t name => hPQ t (h head mem t name)

end Outline

namespace Analysis

/-! ## Passes that keep an invariant -/

/-- A pass keeps an invariant and ends only in problems of some sort. -/
def Pass.Keeps (I : State → Prop) (J : Problem → Prop) (a : Pass) : Prop :=
  ∀ s, I s → I (a s).1 ∧ ∀ p, (a s).2 = some p → J p

namespace Pass.Keeps

variable {I : State → Prop} {J : Problem → Prop}

theorem skip : Keeps I J Pass.skip := by
  intro s hs
  exact ⟨hs, fun p none => nomatch none⟩

theorem andThen {a b : Pass} (ha : a.Keeps I J) (hb : b.Keeps I J) :
    (a.andThen b).Keeps I J := by
  intro s hs
  obtain ⟨kept, sort⟩ := ha s hs
  rw [Pass.andThen]
  split
  · rename_i s' first
    rw [first] at kept
    exact hb s' kept
  · rename_i s' p first
    rw [first] at kept sort
    exact ⟨kept, fun q same => sort q same⟩

theorem stopIf {condition : State → Bool} {p : Problem} (h : J p) :
    (Pass.stopIf condition p).Keeps I J := by
  intro s hs
  refine ⟨hs, fun q some => ?_⟩
  have same : (if condition s then Option.some p else none) = Option.some q := some
  by_cases stops : condition s = true
  · rw [if_pos stops] at same
    cases same
    exact h
  · rw [if_neg stops] at same
    cases same

end Pass.Keeps

/-! ## Culprits -/

/-- A problem is about a name and stands where the name does. -/
def IsAbout (p : Problem) (t : Token) : Prop :=
  ∃ cause, p = .ofCause cause t.position
    ∧ (cause = .alreadyDeclared t.lexeme ∨ cause = .notDefined t.lexeme
      ∨ cause = .unknownType t.lexeme)

/-- The types left unknown are names with a property. -/
def UnknownTypes (P : Token → Prop) (s : State) : Prop := ∀ u ∈ s.unresolved, P u.typeName

/-- A problem is about a name with a property. -/
def Blames (P : Token → Prop) (p : Problem) : Prop := ∃ t, P t ∧ IsAbout p t

/-- A pass speaks only of names with a property. -/
abbrev Pass.Names (P : Token → Prop) (a : Pass) : Prop := a.Keeps (UnknownTypes P) (Blames P)

variable {P : Token → Prop}

theorem define_names (symbol : Symbol) : (define symbol).Names P := by
  intro s hs
  exact ⟨hs, fun p none => nomatch none⟩

theorem requireNew_names {name : Token} (h : P name) : (requireNew name).Names P :=
  .stopIf ⟨name, h, _, rfl, Or.inl rfl⟩

theorem requireKnown_names {name : Token} (h : P name) : (requireKnown name).Names P :=
  .stopIf ⟨name, h, _, rfl, Or.inr (Or.inl rfl)⟩

theorem declareVariable_names (strict : Bool) (name : Token) {typeName : Option Token}
    (h : ∀ t ∈ typeName.toList, P t) : (declareVariable strict name typeName).Names P := by
  cases typeName with
  | none => exact define_names _
  | some t =>
      have named : P t := h t List.mem_cons_self
      intro s hs
      cases known : s.table.builtin? t.lexeme with
      | some type =>
          simp only [declareVariable, known]
          exact define_names _ s hs
      | none =>
          simp only [declareVariable, known]
          -- a type that is not known is a problem, or else it is remembered
          by_cases isStrict : strict = true
          · rw [if_pos isStrict]
            refine ⟨hs, fun p same => ?_⟩
            cases same
            exact ⟨t, named, _, rfl, Or.inr (Or.inr rfl)⟩
          · rw [if_neg isStrict]
            refine define_names _ _ fun u mem => ?_
            rcases List.mem_append.mp mem with before | last
            · exact hs u before
            · rw [List.mem_singleton.mp last]
              exact named

theorem declareParameters_names {ps : List Token} (h : ∀ t ∈ ps, P t) :
    ∀ seen, (declareParameters seen ps).Names P := by
  induction ps with
  | nil =>
      intro seen
      exact .skip
  | cons p ps ih =>
      intro seen
      obtain ⟨first, rest⟩ := List.forall_mem_cons.mp h
      have free : Blames P (.ofCause (.alreadyDeclared p.lexeme) p.position) :=
        ⟨p, first, _, rfl, Or.inl rfl⟩
      rw [declareParameters]
      exact (Pass.Keeps.stopIf free).andThen
        ((define_names _).andThen ((ih rest _).andThen .skip))

/-! ## The whole analysis -/

open Outline

mutual

/-- Checking an outline speaks of its names only. -/
theorem check_names (strict : Bool) : ∀ {o : Outline}, o.Names P → (check strict o).Names P
  | .absent, _ => by
      rw [check]
      exact .skip
  | .node head children, h => by
      obtain ⟨own, inner⟩ := names_node.mp h
      have whole := checkAll_names strict inner
      cases head with
      | assign name =>
          rw [check]
          exact (requireKnown_names (own name List.mem_cons_self)).andThen (whole.andThen .skip)
      | var name =>
          rw [check]
          exact requireKnown_names (own name List.mem_cons_self)
      | varDecl name typeName =>
          obtain ⟨named, typed⟩ := List.forall_mem_cons.mp own
          rw [check]
          exact (requireNew_names named).andThen
            (whole.andThen ((declareVariable_names strict name typed).andThen .skip))
      | function name parameters =>
          obtain ⟨named, listed⟩ := List.forall_mem_cons.mp own
          rw [check]
          exact (requireNew_names named).andThen ((define_names _).andThen
            ((declareParameters_names listed []).andThen (whole.andThen .skip)))
      | classDecl name =>
          have named := requireNew_names (own name List.mem_cons_self)
          cases children with
          | nil =>
              rw [check]
              exact named.andThen ((define_names _).andThen .skip)
          | cons superclass methods =>
              -- the superclass is looked up before the class itself is declared
              obtain ⟨first, rest⟩ := namesAll_cons.mp inner
              rw [check]
              exact (check_names strict first).andThen (named.andThen ((define_names _).andThen
                ((checkMethods_names strict rest).andThen .skip)))
      | _ =>
          simp only [check]
          exact whole

/-- Checking some outlines speaks of their names only. -/
theorem checkAll_names (strict : Bool) :
    ∀ {os : List Outline}, NamesAll P os → (checkAll strict os).Names P
  | [], _ => by
      rw [checkAll]
      exact .skip
  | o :: os, h => by
      obtain ⟨first, rest⟩ := namesAll_cons.mp h
      rw [checkAll]
      exact (check_names strict first).andThen ((checkAll_names strict rest).andThen .skip)

/-- Checking a method speaks of its names only. -/
theorem checkMethod_names (strict : Bool) :
    ∀ {o : Outline}, o.Names P → (checkMethod strict o).Names P
  | .absent, _ => by
      rw [checkMethod]
      · exact .skip
      · nofun
  | .node head body, h => by
      obtain ⟨own, inner⟩ := names_node.mp h
      cases head with
      | function name parameters =>
          obtain ⟨-, listed⟩ := List.forall_mem_cons.mp own
          rw [checkMethod]
          exact (declareParameters_names listed []).andThen
            ((checkAll_names strict inner).andThen .skip)
      | _ =>
          simp only [checkMethod]
          exact .skip

/-- Checking some methods speaks of their names only. -/
theorem checkMethods_names (strict : Bool) :
    ∀ {os : List Outline}, NamesAll P os → (checkMethods strict os).Names P
  | [], _ => by
      rw [checkMethods]
      exact .skip
  | m :: ms, h => by
      obtain ⟨first, rest⟩ := namesAll_cons.mp h
      rw [checkMethods]
      have others := (checkMethods_names strict rest).andThen .skip
      exact (checkMethod_names strict first).andThen others

end

/-- The analysis of a program complains about names of the program only. -/
theorem analyze_names (strict : Bool) {p : Program} (h : NamesAll P p.outlines) :
    UnknownTypes P (analyze strict p).1 ∧ ∀ q, (analyze strict p).2 = some q → Blames P q :=
  checkAll_names strict h {} (List.forall_mem_nil _)

end Analysis

end ScriptFront
