/-! # Escaped text — strings in ASCII letters

    A string is written between double quotes.  Quotes, backslashes and control characters are
    escaped, and so is every character beyond the tilde: by its UTF-16 units, in hexadecimal. -/

namespace ScriptFront.Text.Escaped

/-- The UTF-16 units of a character: one, or a pair of surrogates. -/
def units (c : Char) : List Nat :=
  if c.toNat < 0x10000 then [c.toNat]
  else [0xD800 + (c.toNat - 0x10000) / 0x400, 0xDC00 + (c.toNat - 0x10000) % 0x400]

/-- A hexadecimal digit. -/
def hexDigit (n : Nat) : Char :=
  if n < 10 then Char.ofNat ('0'.toNat + n) else Char.ofNat ('a'.toNat + (n - 10))

/-- A unit as an escape of four digits. -/
def unitEscape (n : Nat) : List Char :=
  ['\\', 'u', hexDigit (n / 0x1000 % 16), hexDigit (n / 0x100 % 16), hexDigit (n / 0x10 % 16),
   hexDigit (n % 16)]

/-- The characters with a short escape, and the letters of those. -/
def shortEscapes : List (Char × Char) :=
  [('"', '"'), ('\\', '\\'), ('\x08', 'b'), ('\x0c', 'f'), ('\n', 'n'), ('\r', 'r'), ('\t', 't')]

/-- Whether a character stands for itself unless it has a short escape. -/
def isPlain (c : Char) : Bool := 0x20 ≤ c.toNat && c.toNat ≤ 0x7E

/-- A character inside a string. -/
def char (c : Char) : List Char :=
  match shortEscapes.lookup c with
  | some letter => ['\\', letter]
  | none => if isPlain c then [c] else (units c).flatMap unitEscape

/-- A string with its quotes. -/
def quoted (s : List Char) : List Char :=
  '"' :: s.flatMap char ++ ['"']

end ScriptFront.Text.Escaped
