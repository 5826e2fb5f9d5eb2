import Mathlib.Algebra.Order.Field.Power
import Mathlib.Tactic.Positivity
import Mathlib.Tactic.Ring
import ScriptFront.Decimal.Layout
import ScriptFront.Decimal.Reading
import ScriptFront.Proofs.Decimal.Rounding

/-! # Written decimals — what a number's text says

    A layout puts the point somewhere into the digits, fills up with zeros and may write an
    exponent.  Read as a numeral, the text has the value it was made of, whatever the layout
    (`readNumeral?_magnitude`). -/

namespace ScriptFront.Decimal

/-! ## Rows of digits -/

/-- The characters of a text are all digits. -/
def Digits (cs : List Char) : Prop := ∀ c ∈ cs, isDigit c = true

theorem Digits.append {as bs : List Char} (ha : Digits as) (hb : Digits bs) : Digits (as ++ bs) :=
  List.forall_mem_append.mpr ⟨ha, hb⟩

theorem digits_replicate (n : ℕ) : Digits (List.replicate n '0') := by
  intro c mem
  rw [List.eq_of_mem_replicate mem]
  rfl

theorem digits_toDigits (n : ℕ) : Digits (Nat.toDigits 10 n) := by
  intro c mem
  have digit := Nat.isDigit_of_mem_toDigits (by decide) (by decide) mem
  rw [Char.isDigit, Bool.and_eq_true, decide_eq_true_eq, decide_eq_true_eq] at digit
  exact Bool.and_eq_true_iff.mpr ⟨decide_eq_true digit.1, decide_eq_true digit.2⟩

theorem digitsValue_eq (cs : List Char) : digitsValue cs = Nat.ofDigitChars 10 cs 0 := rfl

@[simp] theorem digitsValue_toDigits (n : ℕ) : digitsValue (Nat.toDigits 10 n) = n :=
  Nat.ofDigitChars_ten_toDigits

/-- Zeros in front do not count. -/
theorem digitsValue_zeros (n : ℕ) (cs : List Char) :
    digitsValue (List.replicate n '0' ++ cs) = digitsValue cs := by
  rw [digitsValue_eq, Nat.ofDigitChars_append, Nat.ofDigitChars_replicate_zero, Nat.mul_zero,
    digitsValue_eq]

/-- Each zero at the end counts tenfold. -/
theorem digitsValue_append_zeros (cs : List Char) (n : ℕ) :
    digitsValue (cs ++ List.replicate n '0') = 10 ^ n * digitsValue cs := by
  rw [digitsValue_eq, Nat.ofDigitChars_append, Nat.ofDigitChars_replicate_zero, digitsValue_eq]

/-! ## Numerals -/

/-- The number that a numeral stands for. -/
def Numeral.value (n : Numeral) : ℚ :=
  (if n.negative then -1 else 1) * (n.digits * 10 ^ n.exponent)

/-- What stands behind the digits of a numeral is no digit. -/
def Stops (rest : List Char) : Prop := ∀ c ∈ rest.head?, isDigit c = false

theorem takeWhile_digits {ds rest : List Char} (digits : Digits ds) (stops : Stops rest) :
    (ds ++ rest).takeWhile isDigit = ds ∧ (ds ++ rest).dropWhile isDigit = rest := by
  rw [List.takeWhile_append_of_pos digits, List.dropWhile_append_of_pos digits]
  cases rest with
  | nil => exact ⟨List.append_nil ds, rfl⟩
  | cons c rest =>
      have stop : ¬ isDigit c = true := Bool.eq_false_iff.mp (stops c rfl)
      rw [List.takeWhile_cons_of_neg stop, List.dropWhile_cons_of_neg stop]
      exact ⟨List.append_nil ds, rfl⟩

/-- A digit is no sign. -/
theorem splitSign_digits {ds rest : List Char} (digits : Digits ds) (some : ds ≠ []) :
    splitSign (ds ++ rest) = (false, ds ++ rest) := by
  obtain ⟨c, cs, rfl⟩ := List.exists_cons_of_ne_nil some
  have digit := digits c List.mem_cons_self
  unfold splitSign
  split
  · rename_i same
    rw [(List.cons.inj same).1] at digit
    cases digit
  · rename_i same
    rw [(List.cons.inj same).1] at digit
    cases digit
  · rfl

/-- A numeral with a point. -/
theorem readNumeral?_point {whole fraction rest : List Char} (digits : Digits whole)
    (some : whole ≠ []) (more : Digits fraction) (stops : Stops rest) :
    readNumeral? (whole ++ '.' :: (fraction ++ rest)) = (readExponent? rest).map fun e =>
      ⟨false, digitsValue (whole ++ fraction), e - fraction.length⟩ := by
  have point : Stops ('.' :: (fraction ++ rest)) := by
    rintro _ ⟨⟩
    rfl
  have split : splitFixed (whole ++ '.' :: (fraction ++ rest)) = (whole, fraction, rest) := by
    simp only [splitFixed, takeWhile_digits digits point, takeWhile_digits more stops]
  have there : ¬ (whole.isEmpty && fraction.isEmpty) = true := by simp [some]
  simp only [readNumeral?, splitSign_digits digits some, split, if_neg there]

/-- A numeral without a point. -/
theorem readNumeral?_whole {whole rest : List Char} (digits : Digits whole) (some : whole ≠ [])
    (stops : Stops rest) (noPoint : ∀ more, rest ≠ '.' :: more) :
    readNumeral? (whole ++ rest) = (readExponent? rest).map fun e =>
      ⟨false, digitsValue whole, e⟩ := by
  have split : splitFixed (whole ++ rest) = (whole, [], rest) := by
    simp only [splitFixed, takeWhile_digits digits stops]
  have there : ¬ (whole.isEmpty && ([] : List Char).isEmpty) = true := by simp [some]
  simp only [readNumeral?, splitSign_digits digits some, split, if_neg there, List.append_nil,
    List.length_nil, Nat.cast_zero, sub_zero]

/-- A written exponent is read back. -/
theorem readExponent?_written (count : ℕ) (e : Int) :
    readExponent? ('e' :: (if e < 0 then '-' else '+')
      :: (List.replicate count '0' ++ Nat.toDigits 10 e.natAbs)) = some e := by
  have digits := (digits_replicate count).append (digits_toDigits e.natAbs)
  have some : List.replicate count '0' ++ Nat.toDigits 10 e.natAbs ≠ [] :=
    List.append_ne_nil_of_right_ne_nil _ Nat.toDigits_ne_nil
  have value : digitsValue (List.replicate count '0' ++ Nat.toDigits 10 e.natAbs) = e.natAbs := by
    rw [digitsValue_zeros, digitsValue_toDigits]
  generalize List.replicate count '0' ++ Nat.toDigits 10 e.natAbs = ds at digits some value
  have all : ¬ (ds.isEmpty || !ds.all isDigit) = true := by
    rw [List.all_eq_true.mpr digits]
    simp [some]
  have sign : splitSign ((if e < 0 then '-' else '+') :: ds) = (decide (e < 0), ds) := by
    by_cases negative : e < 0
    · rw [if_pos negative, decide_eq_true negative]
      rfl
    · rw [if_neg negative, decide_eq_false negative]
      rfl
  have magnitude : (if e < 0 then -(e.natAbs : Int) else e.natAbs) = e := by
    split
    · omega
    · omega
  simp only [readExponent?, sign, if_neg all, value, decide_true, Bool.true_or, if_true,
    decide_eq_true_eq, magnitude]

/-! ## Layouts -/

namespace Layout

/-- A numeral with a point and no exponent. -/
theorem value_point {whole fraction : List Char} (digits : Digits whole) (some : whole ≠ [])
    (more : Digits fraction) :
    (readNumeral? (whole ++ '.' :: fraction)).map Numeral.value
      = .some (digitsValue (whole ++ fraction) * 10 ^ (-(fraction.length : Int))) := by
  have stops : Stops [] := nofun
  have read := readNumeral?_point digits some more stops
  rw [List.append_nil] at read
  rw [read, readExponent?, Option.map_some, Option.map_some, Numeral.value,
    if_neg Bool.false_ne_true, one_mul, zero_sub]

/-- Zeros between the point and the digits put the point before the digits. -/
theorem value_zeros_before {ds : List Char} (digits : Digits ds) (zeros : ℕ) :
    (readNumeral? ('0' :: '.' :: (List.replicate zeros '0' ++ ds))).map Numeral.value
      = some ((digitsValue ds : ℚ) * 10 ^ (-((zeros + ds.length : ℕ) : Int))) := by
  have zero : ['0'] = List.replicate 1 '0' := rfl
  show (readNumeral? (['0'] ++ '.' :: (List.replicate zeros '0' ++ ds))).map _ = _
  rw [zero, value_point (digits_replicate 1) (List.cons_ne_nil _ _)
    ((digits_replicate zeros).append digits), digitsValue_zeros, digitsValue_zeros,
    List.length_append, List.length_replicate]

/-- Zeros between the digits and the point put the point behind the digits. -/
theorem value_zeros_behind {ds : List Char} (digits : Digits ds) (nonempty : ds ≠ [])
    (zeros : ℕ) :
    (readNumeral? (ds ++ List.replicate zeros '0' ++ '.' :: ['0'])).map Numeral.value
      = some ((digitsValue ds : ℚ) * 10 ^ (zeros : Int)) := by
  have one : ds ++ List.replicate zeros '0' ++ ['0'] = ds ++ List.replicate (zeros + 1) '0' := by
    rw [List.replicate_succ', List.append_assoc]
  have last : Digits ['0'] := digits_replicate 1
  rw [value_point (digits.append (digits_replicate zeros))
    (List.append_ne_nil_of_left_ne_nil nonempty _) last, one, digitsValue_append_zeros,
    List.length_singleton, Nat.cast_one, zpow_neg_one, zpow_natCast]
  push_cast
  rw [pow_succ]
  congr 1
  ring

/-- The point behind some of the digits, or zeros where there are no digits, changes nothing about
    the value. -/
theorem value_positional (s : Short) :
    (readNumeral? (positional (Nat.toDigits 10 s.digits)
      (s.exponent + digitCount s.digits))).map Numeral.value = some s.value := by
  have digits := digits_toDigits s.digits
  have value := digitsValue_toDigits s.digits
  have nonempty : Nat.toDigits 10 s.digits ≠ [] := Nat.toDigits_ne_nil
  rw [digitCount]
  generalize Nat.toDigits 10 s.digits = ds at digits value nonempty ⊢
  unfold positional
  split
  · have exponent : -(((-(s.exponent + ds.length)).toNat + ds.length : ℕ) : Int) = s.exponent := by
      omega
    exact (value_zeros_before digits _).trans (by rw [exponent, value, Short.value])
  · rename_i large
    obtain ⟨places, placesEq⟩ := Int.eq_ofNat_of_zero_le (by omega : 0 ≤ s.exponent + ds.length)
    rw [placesEq, Int.toNat_natCast]
    simp only [List.append_assoc, List.singleton_append]
    by_cases filled : ds.length ≤ places
    · have rest : ds.drop places = [] := List.drop_eq_nil_of_le filled
      have front : (ds ++ List.replicate (places - ds.length) '0').take places
          = ds ++ List.replicate (places - ds.length) '0' := by
        refine List.take_of_length_le ?_
        rw [List.length_append, List.length_replicate]
        omega
      have exponent : ((places - ds.length : ℕ) : Int) = s.exponent := by omega
      rw [rest, front]
      exact (value_zeros_behind digits nonempty _).trans (by rw [exponent, value, Short.value])
    · have short : places - ds.length = 0 := by omega
      have there : ds.drop places ≠ [] := by
        rw [← List.length_pos_iff, List.length_drop]
        omega
      have front : ds.take places ≠ [] := by
        rw [← List.length_pos_iff, List.length_take]
        omega
      have exponent : -((ds.drop places).length : Int) = s.exponent := by
        rw [List.length_drop]
        omega
      rw [short, List.replicate_zero, List.append_nil, if_neg (mt List.isEmpty_iff.mp there),
        value_point (fun c mem => digits c (List.mem_of_mem_take mem)) front
          (fun c mem => digits c (List.mem_of_mem_drop mem)),
        List.take_append_drop, value, exponent, Short.value]

/-- An exponent says where the point belongs. -/
theorem value_scientific (l : Layout) (s : Short) :
    (readNumeral? (l.scientific (Nat.toDigits 10 s.digits)
      (s.exponent + digitCount s.digits - 1))).map Numeral.value = some s.value := by
  have digits := digits_toDigits s.digits
  have value := digitsValue_toDigits s.digits
  have nonempty : Nat.toDigits 10 s.digits ≠ [] := Nat.toDigits_ne_nil
  rw [digitCount]
  generalize Nat.toDigits 10 s.digits = ds at digits value nonempty ⊢
  have written := readExponent?_written (l.exponentDigits
    - (Nat.toDigits 10 (s.exponent + ds.length - 1).natAbs).length) (s.exponent + ds.length - 1)
  have stops : ∀ more, Stops ('e' :: more) := by
    rintro more _ ⟨⟩
    rfl
  unfold scientific
  simp only [List.append_assoc, List.cons_append, List.nil_append]
  by_cases one : ds.length ≤ 1
  · have exponent : s.exponent + ds.length - 1 = s.exponent := by
      have some := List.length_pos_iff.mpr nonempty
      omega
    rw [if_pos one, readNumeral?_whole digits nonempty (stops _) (fun more same => by cases same),
      written, Option.map_some, Option.map_some, Numeral.value, if_neg Bool.false_ne_true, one_mul,
      value, exponent, Short.value]
  · have front : ds.take 1 ≠ [] := by
      rw [← List.length_pos_iff, List.length_take]
      omega
    have exponent : s.exponent + ds.length - 1 - ((ds.drop 1).length : Int) = s.exponent := by
      rw [List.length_drop]
      omega
    rw [if_neg one]
    simp only [List.append_assoc, List.cons_append]
    rw [readNumeral?_point (fun c mem => digits c (List.mem_of_mem_take mem)) front
        (fun c mem => digits c (List.mem_of_mem_drop mem)) (stops _), written, Option.map_some,
      Option.map_some, Numeral.value, if_neg Bool.false_ne_true, one_mul, List.take_append_drop,
      value, exponent, Short.value]

/-- The text of a decimal has its value. -/
theorem value_magnitude (l : Layout) (s : Short) :
    (readNumeral? (l.magnitude s)).map Numeral.value = some s.value := by
  simp only [magnitude]
  split
  · rw [Int.sub_add_cancel]
    exact value_positional s
  · exact value_scientific l s

end Layout

end ScriptFront.Decimal
