/-! # Blank characters — the table of characters that only separate lexemes

    A character is blank when the Unicode property `White_Space` holds of it, or when it is one of
    the four information separators U+001C to U+001F.  The table lists the code points as closed
    ranges in increasing order; there are 29 of them. -/

namespace ScriptFront.Text

/-- The blank code points, as closed ranges in increasing order. -/
def blankRanges : List (Nat × Nat) :=
  [(0x09, 0x0D), (0x1C, 0x20), (0x85, 0x85), (0xA0, 0xA0), (0x1680, 0x1680), (0x2000, 0x200A),
   (0x2028, 0x2029), (0x202F, 0x202F), (0x205F, 0x205F), (0x3000, 0x3000)]

/-- Whether a character only separates lexemes. -/
def isBlank (c : Char) : Bool :=
  blankRanges.any fun (low, high) => low ≤ c.toNat && c.toNat ≤ high

/-- The table holds 29 code points. -/
example : (blankRanges.map fun (low, high) => high + 1 - low).sum = 29 := by decide

/-- The ranges are disjoint and in increasing order. -/
example : blankRanges.Pairwise fun a b => a.2 < b.1 := by decide

end ScriptFront.Text
