import Mathlib
import ScriptFront.Decimal.Reading
import ScriptFront.Proofs.Decimal.Doubles

/-! # Numbers of lexemes — what digits denote has no minus

    Doubles are packed fields.  A datum without a minus that is a number packs into a double of an
    unsigned class, and is unpacked without a minus again.  Rounding, products and quotients by
    positive numbers stay among these, and so does every number that digits denote
    (`unsigned_lexemeValue`). -/

namespace ScriptFront.Decimal

open Float.Model UnpackedFloat

/-- The data of numbers without a minus. -/
inductive Positive : UnpackedFloat → Prop
  | infinity : Positive (.infinity .positive)
  | zero : Positive (.zero .positive)
  | finite (m : ℕ) (e : Int) (positive : 0 < m) : Positive (.finite .positive m e positive)

/-! ## Packing -/

/-- The format of doubles. -/
abbrev double : Format := .binary64

/-- Fields without a minus that are not those of something else than a number. -/
inductive PositiveFields : BitVec double.numBits → Prop
  | of (exponent : BitVec 11) (mantissa : BitVec 52)
      (number : exponent = -1#11 → mantissa = 0#52) :
      PositiveFields (packComponents double .positive exponent mantissa)

theorem positiveFields_pack {u : UnpackedFloat} (h : Positive u) :
    PositiveFields (UnpackedFloat.pack double u) := by
  have zero : (0#11) ≠ -1#11 := by decide
  cases h with
  | infinity => exact .of (-1#11) 0#52 fun _ => rfl
  | zero => exact .of 0#11 0#52 fun _ => rfl
  | finite m e positive =>
      simp only [UnpackedFloat.pack]
      split
      · exact .of (-1#11) 0#52 fun _ => rfl
      rename_i fits
      split
      · refine .of _ _ fun largest => absurd (congrArg BitVec.toNat largest) ?_
        -- an exponent that fits is not the largest one
        have largest : (-1#11).toNat = 2 ^ 11 - 1 := by decide
        rw [BitVec.toNat_ofNat, largest, Nat.mod_eq_of_lt (by omega)]
        omega
      · exact .of 0#11 _ fun largest => absurd largest zero

/-- What is packed without a minus is unpacked without a minus. -/
theorem positive_unpack {b : BitVec double.numBits} (h : PositiveFields b) :
    Positive (UnpackedFloat.unpack double b) := by
  obtain ⟨exponent, mantissa, number⟩ := h
  have sign : Sign.ofBitVec (unpackSign (packComponents double .positive exponent mantissa))
      = .positive := by
    rw [unpackSign_packComponents, Sign.ofBitVec_toBitVec]
  simp only [UnpackedFloat.unpack, unpackMantissa_packComponents, unpackExponent_packComponents,
    sign]
  split
  · rename_i largest
    rw [if_pos (number largest)]
    exact .infinity
  split
  · split
    · exact .zero
    · exact .finite _ _ _
  · exact .finite _ _ _

theorem toNat_packComponents (exponent : BitVec 11) (mantissa : BitVec 52) :
    (packComponents double .positive exponent mantissa).toNat
      = 2 ^ 52 * exponent.toNat + mantissa.toNat := by
  have sign : (0#1 ++ exponent).toNat = exponent.toNat := by
    rw [BitVec.toNat_append]
    simp
  show ((0#1 ++ exponent) ++ mantissa).toNat = _
  rw [BitVec.toNat_append, sign, ← Nat.shiftLeft_add_eq_or_of_lt mantissa.isLt, Nat.shiftLeft_eq,
    Nat.mul_comm]

/-- The class of such fields is unsigned. -/
theorem unsigned_of_positiveFields {x : Float} (h : PositiveFields x.toBits.toBitVec) :
    (classify x).Unsigned := by
  generalize bits : x.toBits.toBitVec = b at h
  obtain ⟨exponent, mantissa, number⟩ := h
  have value : x.toBits.toNat = 2 ^ 52 * exponent.toNat + mantissa.toNat :=
    (congrArg BitVec.toNat bits).trans (toNat_packComponents exponent mantissa)
  have small := mantissa.isLt
  have fewer := exponent.isLt
  have sign : (x.toBits.toNat / 2 ^ 63 == 1) = false := by
    refine beq_false_of_ne ?_
    omega
  have biased : x.toBits.toNat / 2 ^ 52 % 2 ^ 11 = exponent.toNat := by omega
  have fraction : x.toBits.toNat % 2 ^ 52 = mantissa.toNat := by omega
  rw [classify_eq, sign, biased, fraction]
  refine Class.unsigned_ofFields small fewer fun largest => ?_
  have same : exponent = -1#11 := BitVec.eq_of_toNat_eq (largest.trans (by decide))
  rw [number same]
  rfl

/-! ## Arithmetic -/

theorem positive_round (m : ℕ) (e : Int) (accuracy : Accuracy) :
    Positive (roundWithAccuracy double .positive m e accuracy) := by
  simp only [roundWithAccuracy]
  split
  · exact .zero
  · exact .finite _ _ _

/-- Whether a datum is a number without a minus other than zero and infinity. -/
def isProper : UnpackedFloat → Bool
  | .finite .positive _ _ _ => true
  | _ => false

theorem exists_of_isProper {u : UnpackedFloat} (h : isProper u = true) :
    ∃ m e, ∃ positive : 0 < m, u = .finite .positive m e positive := by
  unfold isProper at h
  split at h
  · exact ⟨_, _, _, rfl⟩
  · cases h

/-- Quotients by a positive number. -/
theorem positive_div {u v : UnpackedFloat} (h : Positive u) (proper : isProper v = true) :
    Positive (UnpackedFloat.div double u v) := by
  obtain ⟨m, e, positive, rfl⟩ := exists_of_isProper proper
  cases h with
  | infinity => exact .infinity
  | zero => exact .zero
  | finite => exact positive_round _ _ _

/-- Products with a positive number. -/
theorem positive_mul {u v : UnpackedFloat} (h : Positive u) (proper : isProper v = true) :
    Positive (UnpackedFloat.mul double u v) := by
  obtain ⟨m, e, positive, rfl⟩ := exists_of_isProper proper
  cases h with
  | infinity => exact .infinity
  | zero => exact .zero
  | finite => exact positive_round _ _ _

theorem positive_ofScientific (m : ℕ) (e : Int) :
    Positive (UnpackedFloat.ofScientific double m e) := by
  unfold UnpackedFloat.ofScientific
  split
  · exact .zero
  split
  · exact .infinity
  split
  · exact .zero
  split
  · exact positive_mul (.finite _ _ _) rfl
  · exact positive_div (.finite _ _ _) rfl

theorem positive_ofNat (n : ℕ) : Positive (UnpackedFloat.ofNat double n) := by
  rw [UnpackedFloat.ofNat, UnpackedFloat.ofInt, UnpackedFloat.normalize]
  split
  · rename_i negative
    rw [Int.compare_eq_lt] at negative
    omega
  · exact .zero
  · exact positive_round _ _ _

/-! ## Numerals -/

/-- A packed datum without a minus is an unsigned double. -/
theorem unsigned_pack {u : UnpackedFloat} (h : Positive u) :
    (classify (.ofModel (.pack u))).Unsigned :=
  unsigned_of_positiveFields (positiveFields_pack h)

theorem isProper_powers : ∀ e : Fin 23,
    isProper (Float.exactlyRepresentablePowersOfTen[e.1]).toModel.unpack = true := by
  decide +kernel

/-- A decimal number is an unsigned double. -/
theorem unsigned_ofScientific (m : ℕ) (negative : Bool) (e : ℕ) :
    (classify (Float.ofScientific m negative e)).Unsigned := by
  unfold Float.ofScientific
  split
  · rename_i small
    have power := isProper_powers ⟨e, by omega⟩
    have whole : Positive (Float.Model.ofUInt64 m.toUInt64).unpack :=
      positive_unpack (positiveFields_pack (positive_ofNat m.toUInt64.toNat))
    split
    · exact unsigned_pack (positive_div whole power)
    · exact unsigned_pack (positive_mul whole power)
  · exact unsigned_pack (positive_ofScientific m _)

/-- What digits denote has no minus and is a number. -/
theorem unsigned_lexemeValue (cs : List Char) : (classify (lexemeValue cs)).Unsigned := by
  have infinite : classify (1.0 / 0.0) = .infinite false := by decide +kernel
  simp only [lexemeValue, Numeral.toFloat, if_neg Bool.false_ne_true]
  split
  · exact unsigned_ofScientific 0 true 1
  split
  · rw [infinite]
    exact .infinite
  · exact unsigned_ofScientific _ _ _

end ScriptFront.Decimal
