import Mathlib.Algebra.Order.Field.Power
import Mathlib.Tactic.FieldSimp
import Mathlib.Tactic.Linarith
import Mathlib.Tactic.Positivity
import Mathlib.Tactic.Ring
import ScriptFront.Decimal.Shortest

/-! # Rounding — which reals round to which double

    A positive double is the nearest to the reals of an interval around it (`Dyadic.Rounds`).  The
    intervals of two doubles lie one behind the other and touch at most in an end, and of two
    doubles that touch one is odd and its ends are left out: no real rounds to both
    (`eq_of_rounds`).  A decimal grid that is sixteen digits finer than a double has a point in the
    interval (`nearest?_of_fine`), and so the search for the shortest decimal ends with one that
    rounds to the double (`shortest_rounds`). -/

namespace ScriptFront.Decimal

/-- The number that a decimal stands for. -/
def Short.value (s : Short) : ℚ := s.digits * 10 ^ s.exponent

namespace Dyadic

/-- The number that a double stands for. -/
def value (d : Dyadic) : ℚ := d.mantissa * 2 ^ d.exponent

/-- How far the interval of a double reaches down, in units of its mantissa. -/
def reach (d : Dyadic) : ℚ := if d.binadeStart then 1 / 4 else 1 / 2

/-- The lower end of the interval of a double. -/
def low (d : Dyadic) : ℚ := (d.mantissa - d.reach) * 2 ^ d.exponent

/-- The upper end of the interval of a double. -/
def high (d : Dyadic) : ℚ := (d.mantissa + 1 / 2) * 2 ^ d.exponent

/-- The double is the nearest to a real, halfway cases going to the even one. -/
def Rounds (d : Dyadic) (v : ℚ) : Prop :=
  if d.mantissa % 2 = 0 then d.low ≤ v ∧ v ≤ d.high else d.low < v ∧ v < d.high

/-- The mantissa has fifty-three bits, fewer only at the least exponent. -/
structure IsDouble (d : Dyadic) : Prop where
  positive : 0 < d.mantissa
  fits : d.mantissa < 2 ^ 53
  least : -1074 ≤ d.exponent
  full : -1074 < d.exponent → 2 ^ 52 ≤ d.mantissa
  start : d.binadeStart = true ↔ d.mantissa = 2 ^ 52 ∧ -1074 < d.exponent

variable {d d' : Dyadic} {v : ℚ}

/-! ## Intervals -/

theorem Rounds.between (h : d.Rounds v) : d.low ≤ v ∧ v ≤ d.high := by
  unfold Rounds at h
  split at h
  · exact h
  · exact ⟨h.1.le, h.2.le⟩

theorem Rounds.strictly (h : d.Rounds v) (odd : d.mantissa % 2 ≠ 0) :
    d.low < v ∧ v < d.high := by
  rwa [Rounds, if_neg odd] at h

theorem rounds_of_strictly (h : d.low < v ∧ v < d.high) : d.Rounds v := by
  unfold Rounds
  split
  · exact ⟨h.1.le, h.2.le⟩
  · exact h

theorem reach_le (d : Dyadic) : d.reach ≤ 1 / 2 := by
  unfold reach
  split
  · norm_num
  · exact le_rfl

theorem reach_pos (d : Dyadic) : 0 < d.reach := by
  unfold reach
  split
  · norm_num
  · norm_num

/-- One double stands before another. -/
def Below (d d' : Dyadic) : Prop :=
  d.exponent < d'.exponent ∨ d.exponent = d'.exponent ∧ d.mantissa < d'.mantissa

/-- Of two doubles one stands before the other, or they are one. -/
theorem below_trichotomy (h : d.IsDouble) (h' : d'.IsDouble) :
    d.Below d' ∨ d = d' ∨ d'.Below d := by
  rcases lt_trichotomy d.exponent d'.exponent with exponent | exponent | exponent
  · exact Or.inl (Or.inl exponent)
  · rcases lt_trichotomy d.mantissa d'.mantissa with mantissa | mantissa | mantissa
    · exact Or.inl (Or.inr ⟨exponent, mantissa⟩)
    · -- where a binade starts is a matter of the mantissa and of the exponent
      have start : d.binadeStart = d'.binadeStart := by
        rw [Bool.eq_iff_iff, h.start, h'.start, mantissa, exponent]
      obtain ⟨m, e, b⟩ := d
      obtain ⟨m', e', b'⟩ := d'
      cases mantissa
      cases exponent
      cases start
      exact Or.inr (Or.inl rfl)
    · exact Or.inr (Or.inr (Or.inr ⟨exponent.symm, mantissa⟩))
  · exact Or.inr (Or.inr (Or.inl exponent))

/-- Within a binade the next interval begins where the last one ends. -/
theorem add_half_le_of_same (h : d.IsDouble) (h' : d'.IsDouble)
    (exponent : d.exponent = d'.exponent) (mantissa : d.mantissa < d'.mantissa) :
    (d.mantissa : ℚ) + 1 / 2 ≤ d'.mantissa - d'.reach
    ∧ (d.mantissa + 1 < d'.mantissa → (d.mantissa : ℚ) + 1 / 2 < d'.mantissa - d'.reach) := by
  have inside : d'.binadeStart = false := by
    refine Bool.eq_false_iff.mpr fun start => ?_
    obtain ⟨first, more⟩ := h'.start.mp start
    have full := h.full (exponent ▸ more)
    omega
  have next : (d.mantissa : ℚ) + 1 ≤ d'.mantissa := by exact_mod_cast mantissa
  rw [reach, inside]
  refine ⟨by norm_num; linarith, fun gap => ?_⟩
  have later : (d.mantissa : ℚ) + 1 < d'.mantissa := by exact_mod_cast gap
  norm_num
  linarith

/-- The first interval of a later binade begins no earlier than the last one of a binade ends. -/
theorem add_half_le_of_later (h : d.IsDouble) (h' : d'.IsDouble)
    (exponent : d.exponent < d'.exponent) :
    (d.mantissa : ℚ) + 1 / 2 ≤ (d'.mantissa - d'.reach) * 2
    ∧ (d.mantissa + 1 < 2 ^ 53 → (d.mantissa : ℚ) + 1 / 2 < (d'.mantissa - d'.reach) * 2) := by
  have more : -1074 < d'.exponent := h.least.trans_lt exponent
  have last : (d.mantissa : ℚ) + 1 ≤ 2 ^ 53 := by exact_mod_cast h.fits
  have begins : (2 : ℚ) ^ 53 - 1 / 2 ≤ (d'.mantissa - d'.reach) * 2 := by
    by_cases first : d'.mantissa = 2 ^ 52
    · rw [reach, h'.start.mpr ⟨first, more⟩, first]
      norm_num
    · have full := h'.full more
      have behind : (2 : ℚ) ^ 52 + 1 ≤ d'.mantissa := by
        exact_mod_cast Nat.lt_of_le_of_ne full (Ne.symm first)
      have reach := d'.reach_le
      linarith
  refine ⟨by linarith, fun gap => ?_⟩
  have earlier : (d.mantissa : ℚ) + 1 < 2 ^ 53 := by exact_mod_cast gap
  linarith

/-- The interval of a double ends before that of a later one begins; if it ends just there, then one
    of the two mantissas is odd. -/
theorem high_le_low (h : d.IsDouble) (h' : d'.IsDouble) (below : d.Below d') :
    d.high ≤ d'.low
    ∧ (d.mantissa % 2 = 0 → d'.mantissa % 2 = 0 → d.high < d'.low) := by
  have unit : (0 : ℚ) < 2 ^ d.exponent := by positivity
  rcases below with exponent | ⟨exponent, mantissa⟩
  · obtain ⟨touch, apart⟩ := add_half_le_of_later h h' exponent
    -- a later unit is at least twice as large
    have twice : (2 : ℚ) * 2 ^ d.exponent ≤ 2 ^ d'.exponent := by
      rw [← zpow_one_add₀ two_ne_zero]
      exact zpow_le_zpow_right₀ one_le_two (by omega)
    have positive : (0 : ℚ) ≤ d'.mantissa - d'.reach := by
      have some : (1 : ℚ) ≤ d'.mantissa := by exact_mod_cast h'.positive
      have reach := d'.reach_le
      linarith
    have grown : (d'.mantissa - d'.reach) * (2 * 2 ^ d.exponent) ≤ d'.low :=
      mul_le_mul_of_nonneg_left twice positive
    rw [← mul_assoc] at grown
    refine ⟨(mul_le_mul_of_nonneg_right touch unit.le).trans grown, fun even _ => ?_⟩
    have fits := h.fits
    exact (mul_lt_mul_of_pos_right (apart (by omega)) unit).trans_le grown
  · obtain ⟨touch, apart⟩ := add_half_le_of_same h h' exponent mantissa
    rw [high, low, ← exponent]
    refine ⟨mul_le_mul_of_nonneg_right touch unit.le, fun even even' => ?_⟩
    exact mul_lt_mul_of_pos_right (apart (by omega)) unit

theorem not_rounds_of_below (h : d.IsDouble) (h' : d'.IsDouble) (below : d.Below d')
    (rounds : d.Rounds v) : ¬ d'.Rounds v := by
  intro rounds'
  obtain ⟨touch, apart⟩ := high_le_low h h' below
  by_cases even : d.mantissa % 2 = 0
  · by_cases even' : d'.mantissa % 2 = 0
    · have gap := apart even even'
      have upper := rounds.between.2
      have lower := rounds'.between.1
      linarith
    · have upper := rounds.between.2
      have lower := (rounds'.strictly even').1
      linarith
  · have upper := (rounds.strictly even).2
    have lower := rounds'.between.1
    linarith

/-- No real rounds to two doubles. -/
theorem eq_of_rounds (h : d.IsDouble) (h' : d'.IsDouble) (rounds : d.Rounds v)
    (rounds' : d'.Rounds v) : d = d' := by
  rcases below_trichotomy h h' with below | same | below
  · exact absurd rounds' (not_rounds_of_below h h' below rounds)
  · exact same
  · exact absurd rounds (not_rounds_of_below h' h below rounds')

/-! ## Grids -/

/-- The powers on both sides of a fraction make the power of the exponent. -/
theorem zpow_mul_toNat {a : ℚ} (nonzero : a ≠ 0) (n : Int) :
    a ^ n * a ^ (-n).toNat = a ^ n.toNat := by
  rw [← zpow_natCast a (-n).toNat, ← zpow_natCast a n.toNat, ← zpow_add₀ nonzero]
  congr 1
  omega

/-- The double, the ends of its interval and the unit of a grid are over one denominator. -/
theorem exists_denominator (h : d.IsDouble) (grid : Int) :
    ∃ k : ℚ, 0 < k ∧ (d.scale grid).value = d.value * k ∧ (d.scale grid).low = d.low * k
      ∧ (d.scale grid).high = d.high * k ∧ (d.scale grid).unit = 10 ^ grid * k := by
  have twos := zpow_mul_toNat (two_ne_zero (α := ℚ)) (d.exponent - 2)
  have tens := zpow_mul_toNat (show (10 : ℚ) ≠ 0 by norm_num) grid
  have quarter : (2 : ℚ) ^ d.exponent = 4 * 2 ^ (d.exponent - 2) := by
    rw [zpow_sub₀ two_ne_zero]
    field_simp
    norm_num
  refine ⟨2 ^ (-(d.exponent - 2)).toNat * 10 ^ (-grid).toNat, by positivity, ?_, ?_, ?_, ?_⟩
  · show ((4 * d.mantissa * (2 ^ (d.exponent - 2).toNat * 10 ^ (-grid).toNat) : ℕ) : ℚ) = _
    rw [value, quarter]
    push_cast
    rw [← twos]
    ring
  · show (((4 * d.mantissa - if d.binadeStart then 1 else 2)
      * (2 ^ (d.exponent - 2).toNat * 10 ^ (-grid).toNat) : ℕ) : ℚ) = _
    have some := h.positive
    have reached : ((4 * d.mantissa - if d.binadeStart then 1 else 2 : ℕ) : ℚ)
        = 4 * (d.mantissa - d.reach) := by
      rw [reach]
      split
      · rw [Nat.cast_sub (by omega)]
        push_cast
        ring
      · rw [Nat.cast_sub (by omega)]
        push_cast
        ring
    rw [low, quarter, Nat.cast_mul, reached]
    push_cast
    rw [← twos]
    ring
  · show (((4 * d.mantissa + 2) * (2 ^ (d.exponent - 2).toNat * 10 ^ (-grid).toNat) : ℕ) : ℚ) = _
    rw [high, quarter]
    push_cast
    rw [← twos]
    ring
  · show ((10 ^ grid.toNat * 2 ^ (-(d.exponent - 2)).toNat : ℕ) : ℚ) = _
    push_cast
    rw [← tens]
    ring

/-- A grid point is tried with the interval of the double. -/
theorem holds_iff (h : d.IsDouble) (grid : Int) (point : ℕ) :
    (d.scale grid).holds point = true ↔ d.Rounds (point * 10 ^ grid) := by
  obtain ⟨k, positive, -, lowEq, highEq, unitEq⟩ := exists_denominator h grid
  have pointEq : ((point * (d.scale grid).unit : ℕ) : ℚ) = point * 10 ^ grid * k := by
    rw [Nat.cast_mul, unitEq, mul_assoc]
  have inclusive : (d.scale grid).inclusive = true ↔ d.mantissa % 2 = 0 := beq_iff_eq
  unfold Scaled.holds Rounds
  by_cases even : d.mantissa % 2 = 0
  · rw [if_pos even, if_pos (inclusive.mpr even), Bool.and_eq_true, decide_eq_true_eq,
      decide_eq_true_eq, ← Nat.cast_le (α := ℚ), ← Nat.cast_le (α := ℚ), lowEq, highEq, pointEq,
      mul_le_mul_iff_of_pos_right positive, mul_le_mul_iff_of_pos_right positive]
  · rw [if_neg even, if_neg (mt inclusive.mp even), Bool.and_eq_true, decide_eq_true_eq,
      decide_eq_true_eq, ← Nat.cast_lt (α := ℚ), ← Nat.cast_lt (α := ℚ), lowEq, highEq, pointEq,
      mul_lt_mul_iff_of_pos_right positive, mul_lt_mul_iff_of_pos_right positive]

/-- What is found next to a double is one of the two grid points there, if it rounds to it. -/
theorem nearest?_spec {s : Scaled} {point : ℕ} (found : s.nearest? = some point) :
    s.holds point = true ∧ point ≠ 0 := by
  simp only [Scaled.nearest?] at found
  split at found
  · rename_i belowHolds aboveHolds
    rw [Bool.and_eq_true, bne_iff_ne] at belowHolds
    have above : s.holds (s.value / s.unit + 1) = true ∧ s.value / s.unit + 1 ≠ 0 :=
      ⟨aboveHolds, Nat.succ_ne_zero _⟩
    split at found
    · exact Option.some.inj found ▸ belowHolds
    split at found
    · exact Option.some.inj found ▸ above
    split at found
    · exact Option.some.inj found ▸ belowHolds
    · exact Option.some.inj found ▸ above
  · rename_i belowHolds _
    rw [Bool.and_eq_true, bne_iff_ne] at belowHolds
    exact Option.some.inj found ▸ belowHolds
  · rename_i aboveHolds
    exact Option.some.inj found ▸ ⟨aboveHolds, Nat.succ_ne_zero _⟩
  · cases found

/-- If one of the two grid points rounds to the double, then one is found. -/
theorem nearest?_ne_none {s : Scaled}
    (some : s.holds (s.value / s.unit) = true ∧ s.value / s.unit ≠ 0
      ∨ s.holds (s.value / s.unit + 1) = true) : s.nearest? ≠ none := by
  rw [← bne_iff_ne, ← Bool.and_eq_true] at some
  intro none
  simp only [Scaled.nearest?] at none
  split at none
  · split at none
    · cases none
    split at none
    · cases none
    · cases none
  · cases none
  · cases none
  · rename_i belowFails aboveFails
    rcases some with below | above
    · rw [below] at belowFails
      cases belowFails
    · rw [above] at aboveFails
      cases aboveFails

/-- A grid that is sixteen digits finer than a double has a point that rounds to it. -/
theorem nearest?_of_fine (h : d.IsDouble) (grid : Int)
    (fine : 10 ^ 16 * 10 ^ grid ≤ d.value) : (d.scale grid).nearest? ≠ none := by
  obtain ⟨k, positive, valueEq, -, -, unitEq⟩ := exists_denominator h grid
  refine nearest?_ne_none ?_
  rw [holds_iff h, holds_iff h]
  generalize pointEq : (d.scale grid).value / (d.scale grid).unit = point
  have unitPos : 0 < (d.scale grid).unit :=
    Nat.mul_pos (Nat.pow_pos (by decide)) (Nat.pow_pos (by decide))
  -- the double lies between the two grid points
  have atLeast : (point : ℚ) * 10 ^ grid ≤ d.value := by
    have floor := Nat.div_mul_le_self (d.scale grid).value (d.scale grid).unit
    rw [pointEq, ← Nat.cast_le (α := ℚ), Nat.cast_mul, valueEq, unitEq, ← mul_assoc,
      mul_le_mul_iff_of_pos_right positive] at floor
    exact floor
  have below : d.value < (point + 1 : ℕ) * 10 ^ grid := by
    have ceiling : (d.scale grid).value < (point + 1) * (d.scale grid).unit :=
      (Nat.div_lt_iff_lt_mul unitPos).mp (pointEq ▸ Nat.lt_succ_self _)
    rw [← Nat.cast_lt (α := ℚ), Nat.cast_mul, valueEq, unitEq, ← mul_assoc,
      mul_lt_mul_iff_of_pos_right positive] at ceiling
    exact ceiling
  have unit : (0 : ℚ) < 2 ^ d.exponent := by positivity
  have power : (0 : ℚ) < 10 ^ grid := by positivity
  have lowEq : d.low = d.value - d.reach * 2 ^ d.exponent := sub_mul _ _ _
  have highEq : d.high = d.value + 1 / 2 * 2 ^ d.exponent := add_mul _ _ _
  have reach := mul_pos d.reach_pos unit
  have next : ((point + 1 : ℕ) : ℚ) * 10 ^ grid = point * 10 ^ grid + 10 ^ grid := by
    push_cast
    ring
  rw [next] at below ⊢
  by_cases start : d.binadeStart = true
  · -- the interval is shorter below, but the grid point above is near enough
    have small : d.value = 2 ^ 52 * 2 ^ d.exponent := by
      rw [value, (h.start.mp start).1]
      norm_num
    refine Or.inr (rounds_of_strictly ⟨by linarith, by linarith⟩)
  · have fits : d.value < 2 ^ 53 * 2 ^ d.exponent := by
      have mantissa : (d.mantissa : ℚ) < 2 ^ 53 := by exact_mod_cast h.fits
      exact mul_lt_mul_of_pos_right mantissa unit
    have half : d.reach = 1 / 2 := if_neg start
    rw [half] at lowEq
    -- one of two grid points is less than half a step away, and a step is less than a unit
    by_cases near : d.value - point * 10 ^ grid < 1 / 2 * 2 ^ d.exponent
    · refine Or.inl ⟨rounds_of_strictly ⟨by linarith, by linarith⟩, ?_⟩
      rintro rfl
      rw [Nat.cast_zero, zero_mul, zero_add] at below
      linarith
    · exact Or.inr (rounds_of_strictly ⟨by linarith, by linarith⟩)

/-! ## The search -/

theorem lt_pow_digitCount (n : ℕ) : n < 10 ^ digitCount n :=
  (Nat.length_toDigits_le_iff (by decide) Nat.length_toDigits_pos).mp le_rfl

/-- A positive number reaches the power of ten of its first digit. -/
theorem pow_digitCount_le {n : ℕ} (positive : 0 < n) : 10 ^ (digitCount n - 1) ≤ n := by
  by_cases one : digitCount n = 1
  · rw [one]
    exact positive
  · have some : 0 < digitCount n := Nat.length_toDigits_pos
    have more : ¬ digitCount n ≤ digitCount n - 1 := by omega
    rw [digitCount, Nat.length_toDigits_le_iff (by decide) (by rw [← digitCount]; omega)] at more
    exact Nat.le_of_not_lt more

/-- Ten to the number of digits but one is no more than a fraction with this whole part. -/
theorem pow_digitCount_div_le {n m : ℕ} (some : 0 < m) (large : m ≤ n) :
    10 ^ (digitCount (n / m) - 1) * m ≤ n := by
  have whole := pow_digitCount_le (Nat.div_pos large some)
  exact (Nat.mul_le_mul_right m whole).trans (Nat.div_mul_le_self n m)

/-- A fraction is no more than ten to the number of digits of the whole number below its ceiling. -/
theorem le_pow_digitCount_mul {n m : ℕ} (some : 0 < n) :
    m ≤ 10 ^ digitCount ((m + n - 1) / n - 1) * n := by
  have ceiled : m ≤ (m + n - 1) / n * n := by
    have above := Nat.lt_mul_div_succ (m + n - 1) some
    rw [Nat.mul_comm, Nat.succ_mul] at above
    omega
  have digits := lt_pow_digitCount ((m + n - 1) / n - 1)
  exact ceiled.trans (Nat.mul_le_mul_right n (by omega))

/-- A double reaches the power of ten below its magnitude. -/
theorem pow_magnitude_le (h : d.IsDouble) : (10 : ℚ) ^ (d.magnitude - 1) ≤ d.value := by
  have powers : (2 : ℚ) ^ d.exponent * (2 ^ (-d.exponent).toNat : ℕ)
      = (2 ^ d.exponent.toNat : ℕ) := by
    push_cast
    exact zpow_mul_toNat two_ne_zero d.exponent
  unfold magnitude
  simp only [Nat.pow_eq]
  generalize numeratorEq : d.mantissa * 2 ^ d.exponent.toNat = numerator
  generalize denominatorEq : 2 ^ (-d.exponent).toNat = denominator at powers ⊢
  have some : 0 < denominator := denominatorEq ▸ Nat.pow_pos (by decide)
  have positive : (0 : ℚ) < denominator := by exact_mod_cast some
  have scaled : d.value * denominator = numerator := by
    rw [value, mul_assoc, powers, ← numeratorEq, Nat.cast_mul]
  split
  · rename_i large
    have digits : 0 < digitCount (numerator / denominator) := Nat.length_toDigits_pos
    have exponent : (digitCount (numerator / denominator) : Int) - 1
        = (digitCount (numerator / denominator) - 1 : ℕ) := by omega
    rw [exponent, zpow_natCast, ← mul_le_mul_iff_of_pos_right positive, scaled]
    exact_mod_cast pow_digitCount_div_le some large
  · have numeratorPos : 0 < numerator := by
      rw [← numeratorEq]
      exact Nat.mul_pos h.positive (Nat.pow_pos (by decide))
    have reached : (denominator : ℚ)
        ≤ 10 ^ digitCount ((denominator + numerator - 1) / numerator - 1)
          * (d.value * denominator) := by
      rw [scaled]
      exact_mod_cast le_pow_digitCount_mul numeratorPos
    generalize digitCount ((denominator + numerator - 1) / numerator - 1) = digits at reached ⊢
    have exponent : 1 - (digits : Int) - 1 = -(digits : ℕ) := by omega
    have power : (0 : ℚ) < 10 ^ digits := by positivity
    rw [exponent, zpow_neg, zpow_natCast, inv_le_iff_one_le_mul₀' power,
      ← mul_le_mul_iff_of_pos_right positive, one_mul, mul_assoc]
    exact reached

/-- What a search finds rounds to the double. -/
theorem search_spec (h : d.IsDouble) {top : Int} {s : Short} :
    ∀ {ns : List ℕ}, d.search top ns = some s → d.Rounds s.value ∧ s.digits ≠ 0
  | n :: ns, found => by
      rw [search] at found
      split at found
      · rename_i point nearest
        obtain ⟨holds, nonzero⟩ := nearest?_spec nearest
        rw [← Option.some.inj found]
        exact ⟨(holds_iff h _ point).mp holds, nonzero⟩
      · exact search_spec h found

/-- A search finds something if one of its grids has a point. -/
theorem search_ne_none {top : Int} {n : ℕ} (some : (d.scale (top - n)).nearest? ≠ none) :
    ∀ {ns : List ℕ}, n ∈ ns → d.search top ns ≠ none
  | m :: ns, mem => by
      rw [search]
      split
      · exact Option.some_ne_none _
      · rename_i none
        rcases List.mem_cons.mp mem with rfl | later
        · exact absurd none some
        · exact search_ne_none some later

/-- The shortest decimal rounds to the double, and it is not zero. -/
theorem shortest_rounds (h : d.IsDouble) :
    d.Rounds d.shortest.value ∧ d.shortest.digits ≠ 0 := by
  have fine : 10 ^ 16 * (10 : ℚ) ^ (d.magnitude - 17) ≤ d.value := by
    have same : 10 ^ 16 * (10 : ℚ) ^ (d.magnitude - 17) = 10 ^ (d.magnitude - 1) := by
      rw [← zpow_natCast, ← zpow_add₀ (by norm_num)]
      congr 1
      push_cast
      ring
    rw [same]
    exact pow_magnitude_le h
  have last : 17 ∈ List.range' 1 17 := by decide
  obtain ⟨s, found⟩ := Option.ne_none_iff_exists'.mp
    (search_ne_none (nearest?_of_fine h _ fine) last)
  rw [shortest, found]
  exact search_spec h found

end Dyadic

/-! ## Zeros at the end -/

/-- Zeros at the end of a number go into its exponent. -/
theorem stripZeros_value (fuel : ℕ) (s : Short) : (stripZeros fuel s).value = s.value := by
  induction fuel generalizing s with
  | zero => rfl
  | succ fuel ih =>
      rw [stripZeros]
      split
      · rename_i zero
        have tens : (s.digits : ℚ) = (s.digits / 10 : ℕ) * 10 := by
          have whole := Nat.div_mul_cancel (Nat.dvd_of_mod_eq_zero zero.2)
          exact_mod_cast whole.symm
        rw [ih, Short.value, Short.value, tens, zpow_add_one₀ (by norm_num)]
        ring
      · rfl

end ScriptFront.Decimal
