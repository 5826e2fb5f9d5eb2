import ScriptFront.Program.Agreement
import ScriptFront.Proofs.Token.Genuine

/-! # Agreement of values and tokens — the same, but for one and zero

    Numbers that are read have no minus, and of these each counts as equal to itself and to no
    other (`beq_iff_of_unsigned`).  So values of a text agree exactly if they are the same once one
    and zero are put down as the truth values that count as them (`Literal.Genuine.agrees_iff`).
    What a token of a text denotes is told from its lexeme, and so tokens that agree are the same
    (`Token.Genuine.agrees_iff`). -/

namespace ScriptFront

open Decimal (classify Class)

/-! ## Numbers -/

/-- A number without a minus counts as equal to itself and to no other such number. -/
theorem beq_iff_of_unsigned {x y : Float} (h : (classify x).Unsigned)
    (h' : (classify y).Unsigned) : (x == y) = true ↔ x = y := by
  have nan : classify Float.nan = .undefined := by decide +kernel
  have negative : classify (-0) = .zero true := by decide +kernel
  have number : ∀ {z : Float}, (classify z).Unsigned → z ≠ Float.nan := by
    rintro z unsigned rfl
    rw [nan] at unsigned
    cases unsigned
  have positive : ∀ {z : Float}, (classify z).Unsigned → z ≠ -0 := by
    rintro z unsigned rfl
    rw [negative] at unsigned
    cases unsigned
  rw [Float.beq_iff_ne_nan_and_eq]
  constructor
  · rintro ⟨-, -, same | ⟨-, zero⟩ | ⟨zero, -⟩⟩
    · exact same
    · exact absurd zero (positive h')
    · exact absurd zero (positive h)
  · intro same
    exact ⟨number h, number h', .inl same⟩

/-- A truth value counts as a number without a minus. -/
theorem unsigned_truthNumber (b : Bool) : (classify (truthNumber b)).Unsigned := by
  have zero : classify (truthNumber false) = .zero false := by decide +kernel
  cases b with
  | false =>
      rw [zero]
      exact .zero
  | true => exact Decimal.unsigned_ofScientific 1 false 0

/-- The truth values count as different numbers. -/
theorem truthNumber_injective : Function.Injective truthNumber := by
  have different : truthNumber true ≠ truthNumber false := by decide +kernel
  intro a b same
  cases a with
  | false =>
      cases b with
      | false => rfl
      | true => exact absurd same.symm different
  | true =>
      cases b with
      | false => exact absurd same different
      | true => rfl

/-! ## Values -/

namespace Literal

/-- A value, with one and zero put down as the truth values that count as them. -/
def asTruth : Literal → Literal
  | number x =>
    if x == truthNumber true then bool true
    else if x == truthNumber false then bool false
    else number x
  | v => v

/-- What becomes of a number that is read. -/
theorem asTruth_number {x : Float} (h : (classify x).Unsigned) :
    (∃ b, x = truthNumber b ∧ (number x).asTruth = bool b)
    ∨ (∀ b, x ≠ truthNumber b) ∧ (number x).asTruth = number x := by
  have one := beq_iff_of_unsigned h (unsigned_truthNumber true)
  have zero := beq_iff_of_unsigned h (unsigned_truthNumber false)
  rw [asTruth]
  by_cases isOne : x = truthNumber true
  · exact .inl ⟨true, isOne, if_pos (one.mpr isOne)⟩
  by_cases isZero : x = truthNumber false
  · exact .inl ⟨false, isZero, by rw [if_neg (isOne ∘ one.mp), if_pos (zero.mpr isZero)]⟩
  · refine .inr ⟨fun b => ?_, by rw [if_neg (isOne ∘ one.mp), if_neg (isZero ∘ zero.mp)]⟩
    cases b with
    | false => exact isZero
    | true => exact isOne

/-- A number that is read becomes a truth value exactly if that counts as it. -/
theorem asTruth_number_eq_bool {x : Float} (h : (classify x).Unsigned) {b : Bool} :
    (number x).asTruth = bool b ↔ x = truthNumber b := by
  obtain ⟨c, rfl, same⟩ | ⟨other, same⟩ := asTruth_number h
  · rw [same, bool.injEq, truthNumber_injective.eq_iff]
  · rw [same]
    exact iff_of_false nofun (other b)

/-- Different numbers that are read stay different. -/
theorem asTruth_number_inj {x y : Float} (h : (classify x).Unsigned) (h' : (classify y).Unsigned) :
    (number x).asTruth = (number y).asTruth ↔ x = y := by
  constructor
  · intro same
    obtain ⟨b, rfl, truth⟩ | ⟨-, kept⟩ := asTruth_number h'
    · exact (asTruth_number_eq_bool h).mp (same.trans truth)
    · obtain ⟨b, rfl, truth⟩ | ⟨-, kept'⟩ := asTruth_number h
      · exact ((asTruth_number_eq_bool h').mp (same.symm.trans truth)).symm
      · exact number.inj (kept'.symm.trans (same.trans kept))
  · rintro rfl
    rfl

/-- A number that is read does not become nothing or a text. -/
theorem asTruth_number_ne {x : Float} (h : (classify x).Unsigned) (v : Literal)
    (notBool : ∀ b, v ≠ bool b) (notNumber : ∀ y, v ≠ number y) : (number x).asTruth ≠ v := by
  obtain ⟨b, -, same⟩ | ⟨-, same⟩ := asTruth_number h
  · rw [same]
    exact (notBool b).symm
  · rw [same]
    exact (notNumber x).symm

/-- Values that are read agree exactly if they are the same with one and zero as truth values. -/
theorem Genuine.agrees_iff {v w : Literal} (h : v.Genuine) (h' : w.Genuine) :
    v.agrees w = true ↔ v.asTruth = w.asTruth := by
  cases v with
  | null =>
      cases w with
      | null => exact iff_of_true rfl rfl
      | number y => exact iff_of_false nofun (asTruth_number_ne h' .null nofun nofun).symm
      | bool _ | text _ => exact iff_of_false nofun nofun
  | bool a =>
      cases w with
      | bool b => simp [agrees, asTruth]
      | number y =>
          rw [agrees, beq_iff_of_unsigned (unsigned_truthNumber a) h', eq_comm,
            ← asTruth_number_eq_bool h', eq_comm]
          rfl
      | null | text _ => exact iff_of_false nofun nofun
  | number x =>
      cases w with
      | number y => rw [agrees, beq_iff_of_unsigned h h', asTruth_number_inj h h']
      | bool b =>
          rw [agrees, beq_iff_of_unsigned h (unsigned_truthNumber b), ← asTruth_number_eq_bool h]
          rfl
      | null => exact iff_of_false nofun (asTruth_number_ne h .null nofun nofun)
      | text t => exact iff_of_false nofun (asTruth_number_ne h (.text t) nofun nofun)
  | text s =>
      cases w with
      | text t => simp [agrees, asTruth]
      | number y => exact iff_of_false nofun (asTruth_number_ne h' (.text s) nofun nofun).symm
      | null | bool _ => exact iff_of_false nofun nofun

end Literal

/-! ## Tokens -/

/-- Tokens of a text agree exactly if they are the same. -/
theorem Token.Genuine.agrees_iff {t u : Token} (h : t.Genuine) (h' : u.Genuine) :
    t.agrees u = true ↔ t = u := by
  constructor
  · intro alike
    simp only [agrees, Bool.and_eq_true, decide_eq_true_eq, beq_iff_eq] at alike
    obtain ⟨⟨⟨kind, lexeme⟩, -⟩, position⟩ := alike
    have literal : t.literal = u.literal := by
      rw [h.literal, h'.literal, kind, lexeme]
    obtain ⟨k, w, v, p⟩ := t
    cases kind
    cases lexeme
    cases literal
    cases position
    rfl
  · rintro rfl
    have value : t.literal.agrees t.literal = true := (h.value.agrees_iff h.value).mpr rfl
    simp [agrees, value]

end ScriptFront
