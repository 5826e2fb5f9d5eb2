import ScriptFront.Proofs.Analysis.Culprits
import ScriptFront.Proofs.Program.Canonical

/-! # Names — what a program declares or uses is written in its text

    The names of the outline of a canonical program are identifiers, and each is one of the tokens
    that the text of the program holds (`Program.Canonical.names`). -/

namespace ScriptFront

open Outline TokenKind

/-- A token is an identifier that is written in some slots. -/
def Slot.Name (slots : List Slot) (t : Token) : Prop := t.kind = identifier ∧ Slot.token t ∈ slots

/-- Names that are written in some slots are written in more slots. -/
theorem Outline.Names.wider {o : Outline} {slots slots' : List Slot}
    (h : o.Names (Slot.Name slots)) (sub : slots ⊆ slots') : o.Names (Slot.Name slots') :=
  h.imp fun _ name => ⟨name.1, sub name.2⟩

theorem Outline.NamesAll.wider {os : List Outline} {slots slots' : List Slot}
    (h : NamesAll (Slot.Name slots) os) (sub : slots ⊆ slots') :
    NamesAll (Slot.Name slots') os :=
  h.imp fun _ name => ⟨name.1, sub name.2⟩

/-- One more child that is written within the slots of its parent. -/
theorem Outline.Names.cons {o : Outline} {os : List Outline} {slots slots' : List Slot}
    (h : o.Names (Slot.Name slots)) (sub : slots ⊆ slots')
    (hs : NamesAll (Slot.Name slots') os) : NamesAll (Slot.Name slots') (o :: os) :=
  namesAll_cons.mpr ⟨h.wider sub, hs⟩

namespace Expr

/-! ## Expressions -/

/-- Arguments are written behind their commas. -/
theorem names_more {es : List Expr} (h : ∀ e ∈ es, e.outline.Names (Slot.Name e.slots)) :
    NamesAll (Slot.Name (moreSlots es)) (outlines es) := by
  induction es with
  | nil => exact namesAll_nil
  | cons e es ih =>
      obtain ⟨first, rest⟩ := List.forall_mem_cons.mp h
      exact first.cons (by simp) ((ih rest).wider (by simp))

/-- Arguments are written in their list. -/
theorem names_arguments {es : List Expr} (h : ∀ e ∈ es, e.outline.Names (Slot.Name e.slots)) :
    NamesAll (Slot.Name (argumentSlots es)) (outlines es) := by
  cases es with
  | nil => exact namesAll_nil
  | cons e es =>
      obtain ⟨first, rest⟩ := List.forall_mem_cons.mp h
      exact first.cons (by simp) ((names_more rest).wider (by simp))

/-- The names of a canonical expression are written in it. -/
theorem Canonical.names {e : Expr} (h : e.Canonical) : e.outline.Names (Slot.Name e.slots) := by
  induction h with
  | assign kind _ ih =>
      refine names_node.mpr ⟨?_, ih.cons (by simp) namesAll_nil⟩
      exact List.forall_mem_singleton.mpr ⟨kind, List.mem_cons_self⟩
  | binary _ _ _ _ _ ihLeft ihRight =>
      refine names_node.mpr ⟨List.forall_mem_nil _, ?_⟩
      exact ihLeft.cons (by simp) (ihRight.cons (by simp) namesAll_nil)
  | call _ _ _ _ ihCallee ihArguments =>
      refine names_node.mpr ⟨List.forall_mem_nil _, ?_⟩
      refine ihCallee.cons (by simp) ((names_arguments ihArguments).wider ?_)
      intro s mem
      simp [mem]
  | get _ _ _ ih =>
      exact names_node.mpr ⟨List.forall_mem_nil _, ih.cons (by simp) namesAll_nil⟩
  | grouping _ ih =>
      refine names_node.mpr ⟨List.forall_mem_nil _, ih.cons ?_ namesAll_nil⟩
      intro s mem
      simp [mem]
  | literal => exact names_node.mpr ⟨List.forall_mem_nil _, namesAll_nil⟩
  | logical _ _ _ _ _ ihLeft ihRight =>
      refine names_node.mpr ⟨List.forall_mem_nil _, ?_⟩
      exact ihLeft.cons (by simp) (ihRight.cons (by simp) namesAll_nil)
  | set _ _ _ _ ihObject ihValue =>
      refine names_node.mpr ⟨List.forall_mem_nil _, ?_⟩
      refine ihObject.cons (by simp) (ihValue.cons ?_ namesAll_nil)
      intro s mem
      simp [mem]
  | super => exact names_node.mpr ⟨List.forall_mem_nil _, namesAll_nil⟩
  | this => exact names_node.mpr ⟨List.forall_mem_nil _, namesAll_nil⟩
  | unary _ _ _ ih =>
      exact names_node.mpr ⟨List.forall_mem_nil _, ih.cons (by simp) namesAll_nil⟩
  | var kind =>
      refine names_node.mpr ⟨?_, namesAll_nil⟩
      exact List.forall_mem_singleton.mpr ⟨kind, List.mem_cons_self⟩

/-- The names of an optional canonical expression are written in it. -/
theorem names_part {e : Option Expr} (h : ∀ x ∈ e, x.Canonical) :
    (outlinePart e).Names (Slot.Name (slotsPart e)) := by
  cases e with
  | none => exact names_absent
  | some x => exact (h x rfl).names

end Expr

namespace Stmt

/-! ## Statements -/

/-- The names of statements are written in their row. -/
theorem names_all {ss : List Stmt} (h : ∀ s ∈ ss, s.outline.Names (Slot.Name s.slots)) :
    NamesAll (Slot.Name (slotsAll ss)) (outlines ss) := by
  induction ss with
  | nil => exact namesAll_nil
  | cons s ss ih =>
      obtain ⟨first, rest⟩ := List.forall_mem_cons.mp h
      exact first.cons (by simp) ((ih rest).wider (by simp))

/-- Parameters are written in their list. -/
theorem token_mem_ofMore {ts : List Token} {t : Token} (h : t ∈ ts) :
    Slot.token t ∈ Slot.ofMore ts := by
  induction ts with
  | nil => cases h
  | cons u us ih =>
      rcases List.mem_cons.mp h with rfl | later
      · simp [Slot.ofMore]
      · simp [Slot.ofMore, ih later]

theorem token_mem_ofNames {ts : List Token} {t : Token} (h : t ∈ ts) :
    Slot.token t ∈ Slot.ofNames ts := by
  cases ts with
  | nil => cases h
  | cons u us =>
      rcases List.mem_cons.mp h with rfl | later
      · exact List.mem_cons_self
      · exact List.mem_cons_of_mem _ (token_mem_ofMore later)

/-- The names of a function are written in it. -/
theorem names_function {f : FunctionDecl Stmt} (names : f.NamesCanonical)
    (h : ∀ s ∈ f.body, s.outline.Names (Slot.Name s.slots)) :
    (outlineFunction f).Names (Slot.Name (functionSlots f)) := by
  obtain ⟨name, parameters, body⟩ := f
  refine names_node.mpr ⟨List.forall_mem_cons.mpr ⟨⟨names.name, ?_⟩, ?_⟩, (names_all h).wider ?_⟩
  · simp
  · intro t mem
    refine ⟨names.parameters t mem, ?_⟩
    simp [token_mem_ofNames mem]
  · intro s mem
    simp [mem]

/-- The names of some functions are written in their row. -/
theorem names_functions {fs : List (FunctionDecl Stmt)} (names : ∀ f ∈ fs, f.NamesCanonical)
    (h : ∀ f ∈ fs, ∀ s ∈ f.body, s.outline.Names (Slot.Name s.slots)) :
    NamesAll (Slot.Name (functionsSlots fs)) (outlineFunctions fs) := by
  induction fs with
  | nil => exact namesAll_nil
  | cons f fs ih =>
      obtain ⟨named, restNamed⟩ := List.forall_mem_cons.mp names
      obtain ⟨first, rest⟩ := List.forall_mem_cons.mp h
      exact (names_function named first).cons (by simp)
        ((ih restNamed rest).wider (by simp))

/-- The names of an initializer are written in it. -/
theorem names_initializer {s : Option Stmt} (h : ∀ x ∈ s, x.outline.Names (Slot.Name x.slots)) :
    (outlinePart s).Names (Slot.Name (initializerSlots s)) := by
  cases s with
  | none => exact names_absent
  | some x => exact h x rfl

/-- The names of a canonical statement are written in it. -/
theorem Canonical.names {s : Stmt} (h : s.Canonical) : s.outline.Names (Slot.Name s.slots) := by
  induction h with
  | expression value =>
      exact names_node.mpr
        ⟨List.forall_mem_nil _, value.names.cons (by simp) namesAll_nil⟩
  | print _ value =>
      exact names_node.mpr
        ⟨List.forall_mem_nil _, value.names.cons (by simp) namesAll_nil⟩
  | @varDecl name type init kind typeKind value =>
      refine names_node.mpr ⟨List.forall_mem_cons.mpr ⟨⟨kind, by simp⟩, ?_⟩, ?_⟩
      · intro t mem
        cases type with
        | none => cases mem
        | some u =>
            rw [List.mem_singleton.mp mem]
            exact ⟨typeKind u rfl, by simp [nameSlots]⟩
      · cases init with
        | none => exact namesAll_cons.mpr ⟨names_absent, namesAll_nil⟩
        | some e =>
            refine (value e rfl).names.cons ?_ namesAll_nil
            intro s mem
            simp [initialSlots, mem]
  | block _ ih =>
      refine names_node.mpr ⟨List.forall_mem_nil _, (names_all ih).wider ?_⟩
      intro s mem
      simp [mem]
  | short condition _ _ ih =>
      refine names_node.mpr ⟨List.forall_mem_nil _, ?_⟩
      refine condition.names.cons ?_ (ih.cons ?_ (namesAll_cons.mpr ⟨names_absent, namesAll_nil⟩))
      · intro s mem
        simp [mem]
      · intro s mem
        simp [mem]
  | full condition _ _ _ _ _ ih ihOther =>
      refine names_node.mpr ⟨List.forall_mem_nil _, ?_⟩
      refine condition.names.cons ?_ (ih.cons ?_ (ihOther.cons ?_ namesAll_nil))
      · intro s mem
        simp [mem]
      · intro s mem
        simp [mem]
      · intro s mem
        simp [mem]
  | whileLoop condition _ _ ih =>
      refine names_node.mpr ⟨List.forall_mem_nil _, ?_⟩
      refine condition.names.cons ?_ (ih.cons ?_ namesAll_nil)
      · intro s mem
        simp [mem]
      · intro s mem
        simp [mem]
  | forLoop _ _ condition increment _ _ ihInitializer ihBody =>
      refine names_node.mpr ⟨List.forall_mem_nil _, ?_⟩
      refine (names_initializer ihInitializer).cons ?_ ((Expr.names_part condition).cons ?_
        ((Expr.names_part increment).cons ?_ (ihBody.cons ?_ namesAll_nil)))
      · intro s mem
        simp [mem]
      · intro s mem
        simp [mem]
      · intro s mem
        simp [mem]
      · intro s mem
        simp [mem]
  | breakLoop => exact names_node.mpr ⟨List.forall_mem_nil _, namesAll_nil⟩
  | continueLoop => exact names_node.mpr ⟨List.forall_mem_nil _, namesAll_nil⟩
  | returnValue _ value =>
      refine names_node.mpr ⟨List.forall_mem_nil _, (Expr.names_part value).cons ?_ namesAll_nil⟩
      intro s mem
      simp [mem]
  | function names _ ih => exact names_function names ih
  | @classDecl name superclass fs kind superKind names _ ih =>
      refine names_node.mpr ⟨List.forall_mem_singleton.mpr ⟨kind, by simp⟩, ?_⟩
      have methods : NamesAll (Slot.Name (Stmt.classDecl name superclass fs).slots)
          (outlineFunctions fs) := by
        refine (names_functions names ih).wider fun s mem => ?_
        simp [mem]
      cases superclass with
      | none => exact namesAll_cons.mpr ⟨names_absent, methods⟩
      | some t =>
          have super : (Expr.var t).Canonical := .var (superKind t rfl)
          exact super.names.cons (by simp [nameSlots]) methods

end Stmt

/-- The names of a canonical program are written in it. -/
theorem Program.Canonical.names {p : Program} (h : p.Canonical) :
    NamesAll (Slot.Name p.slots) p.outlines :=
  Stmt.names_all fun s mem => (h s mem).names

/-- A token that fills its own slot is among those that fill the slots. -/
theorem mem_of_token_mem {slots : List Slot} {ts : List Token}
    (h : List.Forall₂ Slot.Holds slots ts) {t : Token} (mem : Slot.token t ∈ slots) : t ∈ ts := by
  induction h with
  | nil => cases mem
  | @cons slot u slots ts holds _ ih =>
      rcases List.mem_cons.mp mem with rfl | later
      · have same : u = t := holds
        exact same ▸ List.mem_cons_self
      · exact List.mem_cons_of_mem _ (ih later)

end ScriptFront
