import ScriptFront.Proofs.Program.Standing

/-! # Slots — marks, names and values keep apart

    A program is written with three sorts of slots.  The marks of a canonical program are neither
    names nor values, and no token that it keeps is of a kind that denotes a value
    (`Program.Canonical.plain`).  So what fills the slots can be sorted by kinds alone: the tokens
    that denote values are those of the literals, in their order (`literals_of_fills`). -/

namespace ScriptFront

open TokenKind

/-- The kinds that neither name anything nor denote a value. -/
def TokenKind.isMark (k : TokenKind) : Bool := k ≠ identifier && !k.isLiteral

theorem isLiteral_of_isMark {k : TokenKind} (h : k.isMark = true) : k.isLiteral = false := by
  rw [isMark, Bool.and_eq_true, Bool.not_eq_true'] at h
  exact h.2

theorem ne_identifier_of_isMark {k : TokenKind} (h : k.isMark = true) : k ≠ identifier := by
  rintro rfl
  cases h

namespace Slot

/-- A mark is neither a name nor a value, and a token that is kept is not a value. -/
def Plain : Slot → Prop
  | mark k => k.isMark = true
  | token t => t.kind.isLiteral = false
  | value _ => True

/-- All of some slots are plain. -/
def AllPlain (slots : List Slot) : Prop := ∀ s ∈ slots, s.Plain

@[simp] theorem allPlain_nil : AllPlain [] := List.forall_mem_nil _

@[simp] theorem allPlain_append {as bs : List Slot} :
    AllPlain (as ++ bs) ↔ AllPlain as ∧ AllPlain bs := List.forall_mem_append

@[simp] theorem allPlain_mark {k : TokenKind} {slots : List Slot} :
    AllPlain (.mark k :: slots) ↔ k.isMark = true ∧ AllPlain slots := List.forall_mem_cons

@[simp] theorem allPlain_token {t : Token} {slots : List Slot} :
    AllPlain (.token t :: slots) ↔ t.kind.isLiteral = false ∧ AllPlain slots :=
  List.forall_mem_cons

@[simp] theorem allPlain_value {v : Literal} {slots : List Slot} :
    AllPlain (.value v :: slots) ↔ AllPlain slots :=
  List.forall_mem_cons.trans (and_iff_right trivial)

end Slot

open Slot (AllPlain)

/-! ## Kinds that are kept -/

@[simp] theorem isLiteral_identifier : identifier.isLiteral = false := rfl

/-- An operator neither names anything nor denotes a value. -/
theorem isMark_of_binary {k : TokenKind} {o : Operator} (h : k.binary? = some o) :
    k.isMark = true := by
  cases k with
  | bangEqual | equalEqual | greater | greaterEqual | less | lessEqual | minus | plus | slash | star
  | starStar => rfl
  | _ => cases h

theorem isMark_of_logical {k : TokenKind} {o : Operator} (h : k.logical? = some o) :
    k.isMark = true := by
  cases k with
  | kwAnd | kwOr => rfl
  | _ => cases h

theorem isMark_of_unary {k : TokenKind} (h : k.isUnary = true) : k.isMark = true := by
  cases k with
  | bang | minus | plusPlus | minusMinus => rfl
  | _ => cases h

theorem Slot.plain_ofMore {ts : List Token} (kinds : ∀ t ∈ ts, t.kind = identifier) :
    AllPlain (ofMore ts) := by
  induction ts with
  | nil => exact allPlain_nil
  | cons t ts ih =>
      obtain ⟨first, rest⟩ := List.forall_mem_cons.mp kinds
      simp +decide [ofMore, first, ih rest]

theorem Slot.plain_ofNames {ts : List Token} (kinds : ∀ t ∈ ts, t.kind = identifier) :
    AllPlain (ofNames ts) := by
  cases ts with
  | nil => exact allPlain_nil
  | cons t ts =>
      obtain ⟨first, rest⟩ := List.forall_mem_cons.mp kinds
      simp [ofNames, first, plain_ofMore rest]

/-! ## Canonical programs -/

namespace Expr

theorem plain_more {es : List Expr} (h : ∀ e ∈ es, AllPlain e.slots) :
    AllPlain (moreSlots es) := by
  induction es with
  | nil => exact Slot.allPlain_nil
  | cons e es ih =>
      obtain ⟨first, rest⟩ := List.forall_mem_cons.mp h
      simp +decide [first, ih rest]

theorem plain_arguments {es : List Expr} (h : ∀ e ∈ es, AllPlain e.slots) :
    AllPlain (argumentSlots es) := by
  cases es with
  | nil => exact Slot.allPlain_nil
  | cons e es =>
      obtain ⟨first, rest⟩ := List.forall_mem_cons.mp h
      simp [first, plain_more rest]

/-- The slots of a canonical expression are plain. -/
theorem Canonical.plain {e : Expr} (h : e.Canonical) : AllPlain e.slots := by
  induction h with
  | assign kind _ ih => simp +decide [kind, ih]
  | binary kind _ _ _ _ ihLeft ihRight =>
      simp [isLiteral_of_isMark (isMark_of_binary kind), ihLeft, ihRight]
  | call _ _ kind _ ihCallee ihArguments =>
      simp +decide [kind, ihCallee, plain_arguments ihArguments]
  | get _ _ kind ih => simp +decide [kind, ih]
  | grouping _ ih => simp +decide [ih]
  | literal v => simp
  | logical kind _ _ _ _ ihLeft ihRight =>
      simp [isLiteral_of_isMark (isMark_of_logical kind), ihLeft, ihRight]
  | set _ _ kind _ ihObject ihValue => simp +decide [kind, ihObject, ihValue]
  | super kind methodKind => simp +decide [kind, methodKind]
  | this kind => simp +decide [kind]
  | unary kind _ _ ih => simp [isLiteral_of_isMark (isMark_of_unary kind), ih]
  | var kind => simp [kind]

theorem plain_part {e : Option Expr} (h : ∀ x ∈ e, x.Canonical) : AllPlain (slotsPart e) := by
  cases e with
  | none => exact Slot.allPlain_nil
  | some x => exact (h x rfl).plain

end Expr

namespace Stmt

theorem plain_optionalName (k : TokenKind) (isMark : k.isMark = true) {name : Option Token}
    (kind : ∀ t ∈ name, t.kind = identifier) : AllPlain (nameSlots k name) := by
  cases name with
  | none => exact Slot.allPlain_nil
  | some t => simp [nameSlots, isMark, kind t rfl]

theorem plain_initial {e : Option Expr} (h : ∀ x ∈ e, x.Canonical) :
    AllPlain (initialSlots e) := by
  cases e with
  | none => exact Slot.allPlain_nil
  | some x => simp +decide [initialSlots, (h x rfl).plain]

theorem plain_all {ss : List Stmt} (h : ∀ s ∈ ss, AllPlain s.slots) : AllPlain (slotsAll ss) := by
  induction ss with
  | nil => exact Slot.allPlain_nil
  | cons s ss ih =>
      obtain ⟨first, rest⟩ := List.forall_mem_cons.mp h
      simp [first, ih rest]

theorem plain_initializer {i : Option Stmt} (h : ∀ s ∈ i, AllPlain s.slots) :
    AllPlain (initializerSlots i) := by
  cases i with
  | none => simp +decide
  | some s => exact h s rfl

theorem plain_function {f : FunctionDecl Stmt} (names : f.NamesCanonical)
    (h : ∀ s ∈ f.body, AllPlain s.slots) : AllPlain (functionSlots f) := by
  obtain ⟨name, parameters, body⟩ := f
  have kind : name.kind = identifier := names.name
  simp +decide [kind, Slot.plain_ofNames names.parameters, plain_all h]

theorem plain_functions {fs : List (FunctionDecl Stmt)} (names : ∀ f ∈ fs, f.NamesCanonical)
    (h : ∀ f ∈ fs, ∀ s ∈ f.body, AllPlain s.slots) : AllPlain (functionsSlots fs) := by
  induction fs with
  | nil => exact Slot.allPlain_nil
  | cons f fs ih =>
      obtain ⟨named, restNamed⟩ := List.forall_mem_cons.mp names
      obtain ⟨first, rest⟩ := List.forall_mem_cons.mp h
      simp [plain_function named first, ih restNamed rest]

/-- The slots of a canonical statement are plain. -/
theorem Canonical.plain {s : Stmt} (h : s.Canonical) : AllPlain s.slots := by
  induction h with
  | expression value => simp +decide [value.plain]
  | print kind value => simp +decide [kind, value.plain]
  | varDecl kind typeKind value =>
      simp +decide [kind, plain_optionalName colon rfl typeKind, plain_initial value]
  | block _ ih => simp +decide [plain_all ih]
  | short condition _ _ ih => simp +decide [condition.plain, ih]
  | full condition _ _ _ _ _ ih ihOther => simp +decide [condition.plain, ih, ihOther]
  | whileLoop condition _ _ ih => simp +decide [condition.plain, ih]
  | forLoop _ _ condition increment _ _ ihInitializer ihBody =>
      simp +decide [plain_initializer ihInitializer, Expr.plain_part condition,
        Expr.plain_part increment, ihBody]
  | breakLoop kind => simp +decide [kind]
  | continueLoop kind => simp +decide [kind]
  | returnValue kind value => simp +decide [kind, Expr.plain_part value]
  | function names _ ih => exact plain_function names ih
  | classDecl kind superKind names _ ih =>
      simp +decide [kind, plain_optionalName kwExtends rfl superKind, plain_functions names ih]

end Stmt

/-- The slots of a canonical program are plain. -/
theorem Program.Canonical.plain {p : Program} (h : p.Canonical) : AllPlain p.slots :=
  Stmt.plain_all fun s mem => (h s mem).plain

/-! ## Values -/

/-- The value that a program keeps in a slot. -/
def Slot.value? : Slot → Option Literal
  | value v => some v
  | mark _ | token _ => none

/-- The values of the literals of a program, in the order in which they are written. -/
def Program.values (p : Program) : List Literal := p.slots.filterMap Slot.value?

/-- The values of the tokens that denote values. -/
def literals (tokens : List Token) : List Literal :=
  (tokens.filter fun t => t.kind.isLiteral).map Token.literal

/-- The tokens that denote values fill the slots of the literals. -/
theorem literals_of_fills {slots : List Slot} {ts : List Token} (fills : Fills slots ts)
    (plain : AllPlain slots) : literals ts = slots.filterMap Slot.value? := by
  induction fills with
  | nil => rfl
  | @cons slot t slots ts holds _ ih =>
      obtain ⟨own, rest⟩ := List.forall_mem_cons.mp plain
      have others := ih rest
      rw [literals] at others ⊢
      cases slot with
      | mark k =>
          have kind : t.kind = k := holds
          simp [List.filterMap_cons, Slot.value?, kind, isLiteral_of_isMark own, others]
      | token u =>
          have same : t = u := holds
          have notValue : u.kind.isLiteral = false := own
          simp [List.filterMap_cons, Slot.value?, same, notValue, others]
      | value v =>
          obtain ⟨isValue, same⟩ := holds
          simp [Slot.value?, isValue, same, others]

end ScriptFront
