import Mathlib.Tactic.Positivity
import ScriptFront.Proofs.Decimal.Written

/-! # Texts of doubles — no two numbers are written alike

    The fields of a double are told from its class, but for what is no number
    (`eq_of_classify_eq`).  An unsigned class is told from the value of its text: nothing for
    infinity, zero for zero, and otherwise a number that rounds to the double.  So different
    unsigned doubles have different texts (`eq_of_text_eq`). -/

namespace ScriptFront.Decimal

/-! ## Classes -/

/-- The class of a double with the given fields. -/
def Class.ofFields (negative : Bool) (biased fraction : ℕ) : Class :=
  if biased = 2047 then
    if fraction = 0 then .infinite negative else .undefined
  else if biased = 0 then
    if fraction = 0 then .zero negative else .finite negative ⟨fraction, -1074, false⟩
  else
    .finite negative ⟨Nat.pow 2 52 + fraction, (biased : Int) - 1075, fraction = 0 && biased ≠ 1⟩

theorem classify_eq (x : Float) :
    classify x = .ofFields (x.toBits.toNat / 2 ^ 63 == 1) (x.toBits.toNat / 2 ^ 52 % 2 ^ 11)
      (x.toBits.toNat % 2 ^ 52) := rfl

namespace Class

/-- The magnitude of a finite class is that of a double. -/
theorem isDouble_of_ofFields {negative n : Bool} {biased fraction : ℕ} {d : Dyadic}
    (small : fraction < 2 ^ 52) (fewer : biased < 2 ^ 11)
    (h : ofFields negative biased fraction = .finite n d) : d.IsDouble := by
  unfold ofFields at h
  split at h
  · split at h
    · cases h
    · cases h
  split at h
  · split at h
    · cases h
    · cases h
      refine ⟨?_, ?_, le_rfl, fun more => absurd more (lt_irrefl _), ?_⟩
      · show 0 < fraction
        omega
      · show fraction < 2 ^ 53
        omega
      · exact iff_of_false Bool.false_ne_true fun start => absurd start.2 (lt_irrefl _)
  · cases h
    refine ⟨?_, ?_, ?_, fun _ => Nat.le_add_right _ _, ?_⟩
    · show 0 < 2 ^ 52 + fraction
      omega
    · show 2 ^ 52 + fraction < 2 ^ 53
      omega
    · show -1074 ≤ (biased : Int) - 1075
      omega
    · show (decide (fraction = 0) && decide (biased ≠ 1)) = true
        ↔ 2 ^ 52 + fraction = 2 ^ 52 ∧ -1074 < (biased : Int) - 1075
      rw [Bool.and_eq_true, decide_eq_true_eq, decide_eq_true_eq]
      omega

/-- The fields of a double of a class; what is no number has none in particular. -/
def fields? : Class → Option (Bool × ℕ × ℕ)
  | undefined => none
  | infinite negative => some (negative, 2047, 0)
  | zero negative => some (negative, 0, 0)
  | finite negative d =>
    if d.mantissa < 2 ^ 52 then some (negative, 0, d.mantissa)
    else some (negative, (d.exponent + 1075).toNat, d.mantissa - 2 ^ 52)

/-- The fields are told from the class. -/
theorem fields?_ofFields {negative : Bool} {biased fraction : ℕ} (small : fraction < 2 ^ 52)
    (defined : ofFields negative biased fraction ≠ .undefined) :
    (ofFields negative biased fraction).fields? = some (negative, biased, fraction) := by
  unfold ofFields at defined ⊢
  split
  · rename_i largest
    rw [if_pos largest] at defined
    split
    · rename_i zero
      rw [fields?, largest, zero]
    · rename_i nonzero
      exact absurd (if_neg nonzero) defined
  split
  · rename_i least
    split
    · rename_i zero
      rw [fields?, least, zero]
    · rw [fields?, if_pos small, least]
  · have full : ¬ Nat.pow 2 52 + fraction < 2 ^ 52 := Nat.not_lt.mpr (Nat.le_add_right _ _)
    have exponent : ((biased : Int) - 1075 + 1075).toNat = biased := by omega
    have mantissa : Nat.pow 2 52 + fraction - 2 ^ 52 = fraction := Nat.add_sub_cancel_left _ _
    rw [fields?, if_neg full, exponent, mantissa]

end Class

/-- Numbers of the same class are the same. -/
theorem eq_of_classify_eq {x y : Float} (same : classify x = classify y)
    (defined : classify x ≠ .undefined) : x = y := by
  have defined' : classify y ≠ .undefined := same ▸ defined
  rw [classify_eq] at defined defined'
  have fields := congrArg Class.fields? same
  rw [classify_eq, classify_eq, Class.fields?_ofFields (Nat.mod_lt _ (by decide)) defined,
    Class.fields?_ofFields (Nat.mod_lt _ (by decide)) defined', Option.some_inj, Prod.mk.injEq,
    Prod.mk.injEq] at fields
  obtain ⟨sign, biased, fraction⟩ := fields
  -- one bit, eleven bits and fifty-two bits are all there is
  have bound := x.toBits.toNat_lt
  have bound' := y.toBits.toNat_lt
  have bits : x.toBits.toNat = y.toBits.toNat := by
    have top : x.toBits.toNat / 2 ^ 63 = y.toBits.toNat / 2 ^ 63 := by
      by_cases one : x.toBits.toNat / 2 ^ 63 = 1
      · rw [one, beq_self_eq_true] at sign
        rw [one, eq_of_beq sign.symm]
      · rw [beq_false_of_ne one] at sign
        have other := ne_of_beq_false sign.symm
        omega
    omega
  obtain ⟨⟨b, valid⟩⟩ := x
  obtain ⟨⟨b', valid'⟩⟩ := y
  cases UInt64.toNat_inj.mp bits
  rfl

/-! ## Texts -/

namespace Class

/-- The classes of numbers without a minus. -/
inductive Unsigned : Class → Prop
  | infinite : Unsigned (infinite false)
  | zero : Unsigned (zero false)
  | finite {d : Dyadic} (double : d.IsDouble) : Unsigned (finite false d)

/-- Fields without a sign are those of an unsigned number, if they are those of a number. -/
theorem unsigned_ofFields {biased fraction : ℕ} (small : fraction < 2 ^ 52)
    (fewer : biased < 2 ^ 11) (number : biased = 2047 → fraction = 0) :
    (ofFields false biased fraction).Unsigned := by
  have double : ∀ d, ofFields false biased fraction = .finite false d → d.IsDouble :=
    fun _ => isDouble_of_ofFields small fewer
  unfold ofFields at double ⊢
  split
  · rename_i largest
    rw [if_pos (number largest)]
    exact .infinite
  · rename_i other
    rw [if_neg other] at double
    split
    · rename_i least
      rw [if_pos least] at double
      split
      · exact .zero
      · rename_i nonzero
        rw [if_neg nonzero] at double
        exact .finite (double _ rfl)
    · rename_i more
      rw [if_neg more] at double
      exact .finite (double _ rfl)

/-- The value of the text of a class. -/
def value? : Class → Option ℚ
  | undefined | infinite _ => none
  | zero _ => some 0
  | finite _ d => some d.shortest.value

/-- A shortest decimal is not zero. -/
theorem value_ne_zero {d : Dyadic} (double : d.IsDouble) : d.shortest.value ≠ 0 := by
  have digits : (d.shortest.digits : ℚ) ≠ 0 := by
    exact_mod_cast (Dyadic.shortest_rounds double).2
  have power : (10 : ℚ) ^ d.shortest.exponent ≠ 0 := by positivity
  exact mul_ne_zero digits power

/-- An unsigned class is told from the value of its text. -/
theorem Unsigned.eq_of_value?_eq {c c' : Class} (h : c.Unsigned) (h' : c'.Unsigned)
    (same : c.value? = c'.value?) : c = c' := by
  cases h with
  | infinite =>
      cases h' with
      | infinite => rfl
      | zero => cases same
      | finite double' => cases same
  | zero =>
      cases h' with
      | infinite => cases same
      | zero => rfl
      | finite double' => exact absurd (Option.some.inj same).symm (value_ne_zero double')
  | finite double =>
      cases h' with
      | infinite => cases same
      | zero => exact absurd (Option.some.inj same) (value_ne_zero double)
      | finite double' =>
          have rounds := (Dyadic.shortest_rounds double).1
          rw [Option.some.inj same] at rounds
          rw [Dyadic.eq_of_rounds double double' rounds (Dyadic.shortest_rounds double').1]

end Class

variable {x y : Float}

namespace Layout

/-- The text of an unsigned double has the value of its class. -/
theorem value_text (l : Layout) (h : (classify x).Unsigned) :
    (readNumeral? (l.text x).toList).map Numeral.value = (classify x).value? := by
  rw [text, String.toList_ofList]
  generalize classify x = c at h
  cases h with
  | infinite => rfl
  | zero =>
      have zero := value_point (digits_replicate 1) (List.cons_ne_nil _ _) (digits_replicate 1)
      have none : digitsValue (List.replicate 1 '0' ++ List.replicate 1 '0') = 0 := rfl
      rw [none, Nat.cast_zero, zero_mul] at zero
      exact zero
  | @finite d double =>
      exact (l.value_magnitude _).trans (congrArg some (stripZeros_value 17 d.shortest))

end Layout

/-- Different unsigned doubles have different texts. -/
theorem eq_of_text_eq (l : Layout) (h : (classify x).Unsigned) (h' : (classify y).Unsigned)
    (same : l.text x = l.text y) : x = y := by
  have values := l.value_text h
  rw [same, l.value_text h'] at values
  refine eq_of_classify_eq (h.eq_of_value?_eq h' values.symm) fun undefined => ?_
  rw [undefined] at h
  cases h

/-! ## Letters -/

/-- The characters of written numbers. -/
def isNumeral (c : Char) : Bool := isDigit c || ['.', 'e', '+', '-'].contains c

theorem isNumeral_of_isDigit {c : Char} (digit : isDigit c = true) : isNumeral c = true := by
  rw [isNumeral, digit, Bool.true_or]

namespace Layout

/-- A written decimal begins with a digit, and numeral characters go on from there. -/
theorem magnitude_shape (l : Layout) (s : Short) :
    ∃ front rest, l.magnitude s = front ++ rest ∧ front ≠ [] ∧ Digits front
      ∧ ∀ c ∈ rest, isNumeral c = true := by
  have digits := digits_toDigits s.digits
  have nonempty : Nat.toDigits 10 s.digits ≠ [] := Nat.toDigits_ne_nil
  simp only [magnitude]
  generalize Nat.toDigits 10 s.digits = ds at digits nonempty ⊢
  have numerals : ∀ {cs : List Char}, Digits cs → ∀ c ∈ cs, isNumeral c = true :=
    fun digits c mem => isNumeral_of_isDigit (digits c mem)
  split
  · unfold positional
    split
    · refine ⟨['0'], '.' :: (List.replicate _ '0' ++ ds), rfl, List.cons_ne_nil _ _,
        digits_replicate 1, ?_⟩
      exact List.forall_mem_cons.mpr ⟨rfl, numerals ((digits_replicate _).append digits)⟩
    · rename_i large
      simp only [List.append_assoc, List.singleton_append]
      refine ⟨_, _, rfl, ?_, fun c mem => ?_, List.forall_mem_cons.mpr ⟨rfl, ?_⟩⟩
      · rw [← List.length_pos_iff, List.length_take, List.length_append]
        have some := List.length_pos_iff.mpr nonempty
        omega
      · exact digits.append (digits_replicate _) c (List.mem_of_mem_take mem)
      · split
        · exact numerals (digits_replicate 1)
        · exact numerals fun c mem => digits c (List.mem_of_mem_drop mem)
  · have exponent : ∀ (e : Int) (n : ℕ), ∀ c ∈ 'e' :: (if e < 0 then '-' else '+')
        :: (List.replicate n '0' ++ Nat.toDigits 10 e.natAbs), isNumeral c = true := by
      intro e n
      refine List.forall_mem_cons.mpr ⟨rfl, List.forall_mem_cons.mpr ⟨?_, ?_⟩⟩
      · split
        · rfl
        · rfl
      · exact numerals ((digits_replicate n).append (digits_toDigits _))
    unfold scientific
    simp only [List.append_assoc, List.cons_append, List.nil_append]
    split
    · exact ⟨ds, _, rfl, nonempty, digits, exponent _ _⟩
    · rename_i more
      simp only [List.append_assoc, List.cons_append]
      refine ⟨ds.take 1, _, rfl, ?_, fun c mem => digits c (List.mem_of_mem_take mem), ?_⟩
      · rw [← List.length_pos_iff, List.length_take]
        omega
      · refine List.forall_mem_cons.mpr ⟨rfl, List.forall_mem_append.mpr ⟨?_, exponent _ _⟩⟩
        exact numerals fun c mem => digits c (List.mem_of_mem_drop mem)

end Layout

end ScriptFront.Decimal
