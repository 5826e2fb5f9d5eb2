import ScriptFront.Text.Escaped
import ScriptFront.Text.Unseen

/-! # Quoted text — strings as they are quoted in messages

    A string is quoted by apostrophes, or by double quotes if it holds an apostrophe and no double
    quote.  The quote itself, backslashes and characters that cannot be seen are escaped. -/

namespace ScriptFront.Text.Quoted

/-- The last hexadecimal digits of a number. -/
def hexDigits (count n : Nat) : List Char :=
  (List.range count).reverse.map fun i => Escaped.hexDigit (n / Nat.pow 16 i % 16)

/-- A character by its number, in as few digits as 2, 4 and 8 allow. -/
def numeric (c : Char) : List Char :=
  if c.toNat ≤ 0xFF then '\\' :: 'x' :: hexDigits 2 c.toNat
  else if c.toNat ≤ 0xFFFF then '\\' :: 'u' :: hexDigits 4 c.toNat
  else '\\' :: 'U' :: hexDigits 8 c.toNat

/-- A character between quotes. -/
def char (quote c : Char) : List Char :=
  if c = quote ∨ c = '\\' then ['\\', c]
  else if c = '\n' then ['\\', 'n']
  else if c = '\r' then ['\\', 'r']
  else if c = '\t' then ['\\', 't']
  else if isUnseen c then numeric c
  else [c]

/-- The quote for a string. -/
def quoteFor (s : List Char) : Char :=
  if s.contains '\'' && !s.contains '"' then '"' else '\''

/-- A string with its quotes. -/
def quoted (s : String) : String :=
  let quote := quoteFor s.toList
  String.ofList (quote :: s.toList.flatMap (char quote) ++ [quote])

end ScriptFront.Text.Quoted
