import ScriptFront.Decimal.Shortest

/-! # Laying out decimals — positional or with an exponent

    The shortest digits of a double are written positionally as long as the exponent of the first
    digit lies in a given range, and with an exponent mark outside it. -/

namespace ScriptFront.Decimal

/-- How a double is written: the exponents of the first digit that are written positionally, from
    `least` up to but excluding `limit`, and the least number of digits of a written exponent. -/
structure Layout where
  least : Int
  limit : Int
  exponentDigits : Nat
deriving DecidableEq, Repr

namespace Layout

/-- Digits with the point behind the first `places` of them; zeros fill what is missing. -/
def positional (ds : List Char) (places : Int) : List Char :=
  if places ≤ 0 then
    "0.".toList ++ List.replicate (-places).toNat '0' ++ ds
  else
    let n := places.toNat
    let fraction := ds.drop n
    (ds ++ List.replicate (n - ds.length) '0').take n ++ ['.']
      ++ if fraction.isEmpty then ['0'] else fraction

/-- Digits with the point behind the first of them and an exponent. -/
def scientific (l : Layout) (ds : List Char) (exponent : Int) : List Char :=
  let point := if ds.length ≤ 1 then ds else ds.take 1 ++ ['.'] ++ ds.drop 1
  let shown := Nat.toDigits 10 exponent.natAbs
  point ++ ['e', if exponent < 0 then '-' else '+']
    ++ List.replicate (l.exponentDigits - shown.length) '0' ++ shown

/-- A positive decimal. -/
def magnitude (l : Layout) (s : Short) : List Char :=
  let ds := Nat.toDigits 10 s.digits
  let exponent := s.exponent + ds.length - 1
  if l.least ≤ exponent ∧ exponent < l.limit then positional ds (exponent + 1)
  else l.scientific ds exponent

/-- The sign of a negative number. -/
def sign (negative : Bool) : List Char := if negative then ['-'] else []

/-- The text of a double. -/
def text (l : Layout) (x : Float) : String :=
  String.ofList <|
    match classify x with
    | .undefined => "nan".toList
    | .infinite negative => sign negative ++ "inf".toList
    | .zero negative => sign negative ++ "0.0".toList
    | .finite negative d => sign negative ++ l.magnitude (stripZeros 17 d.shortest)

end Layout

end ScriptFront.Decimal
