import ScriptFront.Decimal.Layout
import ScriptFront.Token

/-! # Written literals — the text of a value

    A number is written with the fewest digits that read back; a string stands between quotes as
    it is, without escapes. -/

namespace ScriptFront

/-- Numbers are positional from a ten-thousandth up to below ten to the sixteenth; an exponent has
    two digits or more. -/
def numberLayout : Decimal.Layout := ⟨-4, 16, 2⟩

/-- The text of a value. -/
def Literal.written : Literal → String
  | .null => "null"
  | .bool true => "true"
  | .bool false => "false"
  | .number x => numberLayout.text x
  | .text s => "\"" ++ s ++ "\""

end ScriptFront
