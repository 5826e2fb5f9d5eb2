import ScriptFront.Proofs.Analysis.Annotations

/-! # Members and values — the analysis does not look at them

    What is left of a program when the names of members, the values and the tokens of operators,
    calls and statements are blotted out is its bare outline (`Program.bare`).  A method is a member
    of its class, and so its name is blotted out where that of a function is not.  The analysis does
    with the bare outline what it does with the whole one (`Outline.check_bare`), and the variables
    without a type stand in the same places (`Program.untyped_of_alike`); so programs that differ in
    nothing else are analysed alike (`members_and_values_do_not_matter`). -/

namespace ScriptFront

open Analysis

/-! ## Bare outlines -/

/-- Stands for a token that has been blotted out. -/
def Token.blot : Token := .endAt .origin

/-- A head without the names of members, without values, and without the tokens that stand for an
    operator, a call or a kind of statement.  What it declares and uses is kept. -/
def Head.bare : Head → Head
  | get _ => get .blot
  | set _ => set .blot
  | super _ _ => super .blot .blot
  | literal _ => literal .null
  | binary _ => binary .blot
  | logical _ => logical .blot
  | unary _ => unary .blot
  | call _ => call .blot
  | this _ => this .blot
  | print _ => print .blot
  | breakLoop _ => breakLoop .blot
  | continueLoop _ => continueLoop .blot
  | returnValue _ => returnValue .blot
  | head => head

namespace Outline

mutual

/-- An outline with bare heads, in which the methods of classes have no names. -/
def bare : Outline → Outline
  | absent => absent
  | node (.classDecl name) (superclass :: methods) =>
      node (.classDecl name) (superclass.bare :: bareMethods methods)
  | node head children => node head.bare (bareAll children)

/-- Some bare outlines. -/
def bareAll : List Outline → List Outline
  | [] => []
  | o :: os => o.bare :: bareAll os

/-- The bare outline of a method. -/
def bareMethod : Outline → Outline
  | node (.function _ parameters) body => node (.function .blot parameters) (bareAll body)
  | o => o

/-- The bare outlines of some methods. -/
def bareMethods : List Outline → List Outline
  | [] => []
  | m :: ms => bareMethod m :: bareMethods ms

end

/-! ## The analysis of a bare outline -/

mutual

/-- The analysis does the same with the bare outline. -/
theorem check_bare (strict : Bool) : ∀ o : Outline, check strict o.bare = check strict o
  | absent => rfl
  | node head children => by
      cases head with
      | classDecl name =>
          cases children with
          | nil => rfl
          | cons superclass methods =>
              rw [bare, check, check, check_bare strict superclass,
                checkMethods_bare strict methods]
      | _ => simp only [bare, Head.bare, check, checkAll_bare strict children]

theorem checkAll_bare (strict : Bool) :
    ∀ os : List Outline, checkAll strict (bareAll os) = checkAll strict os
  | [] => rfl
  | o :: os => by
      rw [bareAll, checkAll, checkAll, check_bare strict o, checkAll_bare strict os]

theorem checkMethod_bare (strict : Bool) :
    ∀ o : Outline, checkMethod strict o.bareMethod = checkMethod strict o
  | absent => rfl
  | node head body => by
      cases head with
      | function name parameters =>
          rw [bareMethod, checkMethod, checkMethod, checkAll_bare strict body]
      | _ => rfl

theorem checkMethods_bare (strict : Bool) :
    ∀ os : List Outline, checkMethods strict (bareMethods os) = checkMethods strict os
  | [] => rfl
  | m :: ms => by
      rw [bareMethods, checkMethods, checkMethods, checkMethod_bare strict m,
        checkMethods_bare strict ms]

end

/-! ## The nodes of a bare outline -/

mutual

/-- The nodes of the bare outline stand in the same places. -/
theorem paths_bare : ∀ o : Outline, o.bare.paths = o.paths
  | absent => rfl
  | node head children => by
      cases head with
      | classDecl name =>
          cases children with
          | nil => rfl
          | cons superclass methods =>
              rw [bare, paths, paths, pathsAll, pathsAll, paths_bare superclass,
                pathsAll_bareMethods methods]
      | _ => simp only [bare, paths, pathsAll_bareAll children]

theorem pathsAll_bareAll : ∀ os : List Outline, pathsAll (bareAll os) = pathsAll os
  | [] => rfl
  | o :: os => by
      rw [bareAll, pathsAll, pathsAll, paths_bare o, pathsAll_bareAll os]

theorem paths_bareMethod : ∀ o : Outline, o.bareMethod.paths = o.paths
  | absent => rfl
  | node head body => by
      cases head with
      | function name parameters => rw [bareMethod, paths, paths, pathsAll_bareAll body]
      | _ => rfl

theorem pathsAll_bareMethods : ∀ os : List Outline, pathsAll (bareMethods os) = pathsAll os
  | [] => rfl
  | m :: ms => by
      rw [bareMethods, pathsAll, pathsAll, paths_bareMethod m, pathsAll_bareMethods ms]

end

mutual

/-- The nodes of the bare outline leave the same without a type. -/
theorem unresolved_bare : ∀ o : Outline,
    o.bare.heads.map Head.unresolved? = o.heads.map Head.unresolved?
  | absent => rfl
  | node head children => by
      cases head with
      | classDecl name =>
          cases children with
          | nil => rfl
          | cons superclass methods =>
              simp [bare, heads, headsAll, unresolved_bare superclass,
                unresolved_bareMethods methods]
      | _ => simp [bare, heads, unresolved_bareAll children, Head.bare, Head.unresolved?]

theorem unresolved_bareAll : ∀ os : List Outline,
    (headsAll (bareAll os)).map Head.unresolved? = (headsAll os).map Head.unresolved?
  | [] => rfl
  | o :: os => by simp [bareAll, headsAll, unresolved_bare o, unresolved_bareAll os]

theorem unresolved_bareMethod : ∀ o : Outline,
    o.bareMethod.heads.map Head.unresolved? = o.heads.map Head.unresolved?
  | absent => rfl
  | node head body => by
      cases head with
      | function name parameters =>
          simp [bareMethod, heads, unresolved_bareAll body, Head.unresolved?]
      | _ => rfl

theorem unresolved_bareMethods : ∀ os : List Outline,
    (headsAll (bareMethods os)).map Head.unresolved? = (headsAll os).map Head.unresolved?
  | [] => rfl
  | m :: ms => by
      simp [bareMethods, headsAll, unresolved_bareMethod m, unresolved_bareMethods ms]

end

end Outline

/-! ## Programs that differ in members and values -/

/-- What is left of a program without the names of members and without values. -/
def Program.bare (p : Program) : Outline := p.outline.bare

variable {p q : Program}

/-- The analysis of a program is that of its bare outline. -/
theorem Program.check_bare (strict : Bool) (p : Program) :
    check strict p.bare {} = analyze strict p := by
  rw [bare, Outline.check_bare, outline]
  simp only [check]
  rfl

/-- In programs that differ in members and values only, the variables without a type are the same
    and stand in the same places. -/
theorem Program.untyped_of_alike (alike : p.bare = q.bare) : p.untyped = q.untyped := by
  have paths : p.paths = q.paths := by
    have same := congrArg Outline.paths alike
    rwa [bare, bare, Outline.paths_bare, Outline.paths_bare] at same
  have found : p.paths.map p.unresolvedAt? = p.paths.map q.unresolvedAt? := by
    have same := congrArg (fun o => o.heads.map Head.unresolved?) alike
    simp only [bare, Outline.unresolved_bare] at same
    rw [p.unresolved_at_paths, paths, q.unresolved_at_paths]
    exact same
  rw [untyped, untyped, ← paths]
  refine List.filterMap_congr fun path mem => ?_
  rw [List.map_inj_left.mp found path mem]

/-- Programs that differ in members and values only are analysed alike, whether types are strict or
    not: with the same success or problem, and in the same state.  What the analysis leaves
    unresolved are the first of the variables without a type, and these are the same in both
    programs and stand in the same places. -/
theorem members_and_values_do_not_matter (alike : p.bare = q.bare) (strict : Bool) :
    analyze strict p = analyze strict q ∧ p.untyped = q.untyped
    ∧ (analyze strict p).1.unresolved <+: p.untyped.map Prod.snd
    ∧ (analyze strict q).1.unresolved <+: q.untyped.map Prod.snd := by
  have same : analyze strict p = analyze strict q := by
    rw [← p.check_bare strict, alike, q.check_bare strict]
  exact ⟨same, Program.untyped_of_alike alike, unresolved_prefix strict p,
    unresolved_prefix strict q⟩

/-- Two classes that differ in the name of a method, a member, an operator and a value, where the
    method of the one has the name of the class and the member of the other that of the variable:
    the variable is left without a type in both, and stands in the same place. -/
theorem members_with_known_names :
    let owner : Token := ⟨.identifier, "A", .null, ⟨1, 7⟩⟩
    let name : Token := ⟨.identifier, "x", .null, ⟨1, 23⟩⟩
    let typeName : Token := ⟨.identifier, "T", .null, ⟨1, 26⟩⟩
    let keyword : Token := ⟨.kwThis, "this", .null, ⟨1, 30⟩⟩
    let program (method member operator : Token) (value : Literal) : Program :=
      ⟨[.classDecl owner none [⟨method, [], [.varDecl name (some typeName)
        (some (.binary (.get (.this keyword) member) operator (.literal value)))]⟩]]⟩
    let p := program ⟨.identifier, "A", .null, ⟨1, 15⟩⟩ ⟨.identifier, "a", .null, ⟨1, 35⟩⟩
      ⟨.plus, "+", .null, ⟨1, 37⟩⟩ .null
    let q := program ⟨.identifier, "m", .null, ⟨1, 15⟩⟩ ⟨.identifier, "x", .null, ⟨1, 35⟩⟩
      ⟨.minus, "-", .null, ⟨1, 37⟩⟩ (.bool true)
    p.heads ≠ q.heads ∧ p.bare = q.bare ∧ analyze false p = analyze false q
    ∧ (analyze false q).1.unresolved = [⟨name, typeName⟩]
    ∧ p.untyped = [([0, 1, 0], ⟨name, typeName⟩)] ∧ p.untyped = q.untyped := by
  intro owner name typeName keyword program p q
  have alike : p.bare = q.bare := rfl
  obtain ⟨same, places, -, -⟩ := members_and_values_do_not_matter alike false
  exact ⟨by decide, alike, same, by decide, by decide, places⟩

end ScriptFront
