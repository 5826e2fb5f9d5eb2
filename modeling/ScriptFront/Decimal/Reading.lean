import ScriptFront.Text.Blank
import ScriptFront.Text.Digit
import ScriptFront.Text.Quoted

/-! # Reading decimals — from digits to the nearest double

    A numeral is a sign, a digit string read as one number, and a power of ten.  Its value is
    rounded to the nearest double, halfway cases to the even one; what is too large is infinite. -/

namespace ScriptFront.Decimal

/-- Whether a character is one of the ten digits. -/
def isDigit (c : Char) : Bool := '0' ≤ c && c ≤ '9'

/-- The number a digit string denotes. -/
def digitsValue (ds : List Char) : Nat :=
  ds.foldl (fun n c => 10 * n + (c.toNat - '0'.toNat)) 0

/-- The number `digits · 10 ^ exponent`, negated on demand. -/
structure Numeral where
  negative : Bool := false
  digits : Nat
  exponent : Int
deriving DecidableEq, Repr

/-- How far a decimal may be from one before it is too large or too small for a double. -/
def exponentBound : Int := 400

/-- The nearest double. -/
def Numeral.toFloat (n : Numeral) : Float :=
  let top := n.exponent + (Nat.toDigits 10 n.digits).length
  let magnitude :=
    if n.digits = 0 ∨ top < -exponentBound then 0.0
    else if exponentBound < top then 1.0 / 0.0
    else Float.ofScientific n.digits (n.exponent < 0) n.exponent.natAbs
  if n.negative then -magnitude else magnitude

/-- Digits, then perhaps a point and more digits; with the text that follows. -/
def splitFixed (cs : List Char) : List Char × List Char × List Char :=
  let whole := cs.takeWhile isDigit
  match cs.dropWhile isDigit with
  | '.' :: rest => (whole, rest.takeWhile isDigit, rest.dropWhile isDigit)
  | rest => (whole, [], rest)

/-- The value of a number lexeme: digits, perhaps with a point and digits behind it. -/
def lexemeValue (cs : List Char) : Float :=
  let (whole, fraction, _) := splitFixed cs
  Numeral.toFloat ⟨false, digitsValue (whole ++ fraction), -fraction.length⟩

/-- An optional sign; true for minus. -/
def splitSign : List Char → Bool × List Char
  | '-' :: cs => (true, cs)
  | '+' :: cs => (false, cs)
  | cs => (false, cs)

/-- An exponent mark with its number, or nothing. -/
def readExponent? : List Char → Option Int
  | [] => some 0
  | c :: cs =>
    if c = 'e' || c = 'E' then
      let (negative, ds) := splitSign cs
      if ds.isEmpty || !ds.all isDigit then none
      else some (if negative then -(digitsValue ds : Int) else digitsValue ds)
    else none

/-- Reads a numeral: sign, digits with an optional point, optional exponent. -/
def readNumeral? (cs : List Char) : Option Numeral :=
  let (negative, body) := splitSign cs
  let (whole, fraction, rest) := splitFixed body
  if whole.isEmpty && fraction.isEmpty then none
  else (readExponent? rest).map fun e =>
    ⟨negative, digitsValue (whole ++ fraction), e - fraction.length⟩

/-! ## Numerals as people write them -/

/-- The blanks of ASCII that may surround a numeral. -/
def isMargin (c : Char) : Bool := c = ' ' || (0x09 ≤ c.toNat && c.toNat ≤ 0x0D)

/-- A character beyond ASCII counts as the digit or as the blank that it is. -/
def plain? (c : Char) : Option Char :=
  if c.toNat < 0x80 then some c
  else if Text.isBlank c then some ' '
  else (Text.digit? c).map fun n => Char.ofNat ('0'.toNat + n)

/-- Takes single underscores out from between digits; `previous` is the character before. -/
def dropUnderscores? (previous : Char) : List Char → Option (List Char)
  | [] => some []
  | ['_'] => none
  | '_' :: c :: cs =>
    if isDigit previous && isDigit c then (dropUnderscores? c cs).map (c :: ·) else none
  | c :: cs => (dropUnderscores? c cs).map (c :: ·)

/-- Cuts the blanks off both ends. -/
def trim (cs : List Char) : List Char :=
  ((cs.dropWhile isMargin).reverse.dropWhile isMargin).reverse

/-- Reads the text of a double without blanks and underscores; infinities and the undefined number
    go by their names, in any letter case. -/
def readPlain? (cs : List Char) : Option Float :=
  let (negative, body) := splitSign cs
  let word := String.ofList (body.map Char.toLower)
  if word == "inf" || word == "infinity" then some (if negative then -1.0 / 0.0 else 1.0 / 0.0)
  else if word == "nan" then some (0.0 / 0.0)
  else (readNumeral? cs).map Numeral.toFloat

/-- Reads the text of a double: digits of any script, single underscores between them, and blanks
    around the whole. -/
def readFloat? (text : String) : Option Float := do
  let cs ← text.toList.mapM plain?
  let cs ← dropUnderscores? ' ' cs
  readPlain? (trim cs)

/-- The complaint about a text that is no double. -/
def complaint (text : String) : String :=
  "could not convert string to float: " ++ Text.Quoted.quoted text

end ScriptFront.Decimal
