/-! # Shortest decimals — the fewest digits that read back

    A positive double is `mantissa · 2 ^ exponent`.  The reals that round to it form an interval
    that reaches halfway to its neighbours, ends included exactly if the mantissa is even.  On
    each decimal grid, from one digit up, the two grid points next to the double are tried; the
    first grid with a point in the interval wins, and of two points the nearer one.  Everything
    is exact arithmetic on natural numbers. -/

namespace ScriptFront.Decimal

/-- The positive real `mantissa · 2 ^ exponent`.  At the lower end of a binade the neighbour below
    is half as far away as the one above. -/
structure Dyadic where
  mantissa : Nat
  exponent : Int
  binadeStart : Bool
deriving DecidableEq, Repr

/-- The decimal `digits · 10 ^ exponent`. -/
structure Short where
  digits : Nat
  exponent : Int
deriving DecidableEq, Repr

/-- How many digits a number has. -/
def digitCount (n : Nat) : Nat := (Nat.toDigits 10 n).length

namespace Dyadic

/-- The double, the ends of its interval and one grid point, all over one denominator: quarters of
    the mantissa's unit on one side, multiples of `10 ^ grid` on the other. -/
structure Scaled where
  value : Nat
  low : Nat
  high : Nat
  unit : Nat
  inclusive : Bool
deriving DecidableEq, Repr

/-- The double on the grid of multiples of `10 ^ grid`. -/
def scale (d : Dyadic) (grid : Int) : Scaled :=
  let quarter := d.exponent - 2
  let factor := Nat.pow 2 quarter.toNat * Nat.pow 10 (-grid).toNat
  { value := 4 * d.mantissa * factor
    low := (4 * d.mantissa - if d.binadeStart then 1 else 2) * factor
    high := (4 * d.mantissa + 2) * factor
    unit := Nat.pow 10 grid.toNat * Nat.pow 2 (-quarter).toNat
    inclusive := d.mantissa % 2 == 0 }

/-- Whether the grid point `point · unit` rounds to the double. -/
def Scaled.holds (s : Scaled) (point : Nat) : Bool :=
  let x := point * s.unit
  if s.inclusive then s.low ≤ x && x ≤ s.high else s.low < x && x < s.high

/-- The grid point next to the double that rounds to it; of two the nearer, and of two equally
    near the even one. -/
def Scaled.nearest? (s : Scaled) : Option Nat :=
  let below := s.value / s.unit
  let above := below + 1
  match s.holds below && below != 0, s.holds above with
  | true, true =>
    let down := s.value - below * s.unit
    let up := above * s.unit - s.value
    if down < up then some below
    else if up < down then some above
    else some (if below % 2 == 0 then below else above)
  | true, false => some below
  | false, true => some above
  | false, false => none

/-- The exponent `k` with `10 ^ (k - 1) ≤ d < 10 ^ k`. -/
def magnitude (d : Dyadic) : Int :=
  let numerator := d.mantissa * Nat.pow 2 d.exponent.toNat
  let denominator := Nat.pow 2 (-d.exponent).toNat
  if denominator ≤ numerator then digitCount (numerator / denominator)
  else 1 - (digitCount ((denominator + numerator - 1) / numerator - 1) : Int)

/-- The first grid, from the coarsest on, with a point that rounds to the double. -/
def search (d : Dyadic) (top : Int) : List Nat → Option Short
  | [] => none
  | n :: ns =>
    let grid := top - (n : Int)
    match (d.scale grid).nearest? with
    | some point => some ⟨point, grid⟩
    | none => d.search top ns

/-- The shortest decimal that reads back; seventeen digits always do. -/
def shortest (d : Dyadic) : Short :=
  (d.search d.magnitude (List.range' 1 17)).getD ⟨0, 0⟩

end Dyadic

/-- Drops the zeros at the end of a number, counting each into the exponent. -/
def stripZeros : Nat → Short → Short
  | 0, s => s
  | fuel + 1, s =>
    if s.digits ≠ 0 ∧ s.digits % 10 = 0 then stripZeros fuel ⟨s.digits / 10, s.exponent + 1⟩
    else s

/-- A double's bits. -/
inductive Class
  | undefined
  | infinite (negative : Bool)
  | zero (negative : Bool)
  | finite (negative : Bool) (magnitude : Dyadic)
deriving DecidableEq, Repr

/-- Takes a double apart: a sign, eleven bits of exponent, fifty-two bits of mantissa. -/
def classify (x : Float) : Class :=
  let bits : Nat := x.toBits.toNat
  let negative := bits / Nat.pow 2 63 == 1
  let biased : Nat := bits / Nat.pow 2 52 % Nat.pow 2 11
  let fraction : Nat := bits % Nat.pow 2 52
  if biased = 2047 then
    if fraction = 0 then .infinite negative else .undefined
  else if biased = 0 then
    if fraction = 0 then .zero negative else .finite negative ⟨fraction, -1074, false⟩
  else
    .finite negative ⟨Nat.pow 2 52 + fraction, (biased : Int) - 1075, fraction = 0 && biased ≠ 1⟩

end ScriptFront.Decimal
