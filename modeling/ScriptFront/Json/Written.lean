import ScriptFront.Json.Basic
import ScriptFront.Text.Escaped

/-! # Written JSON — one item a line

    Each item of an array and each member of an object stands on a line of its own, two columns
    further in than its brackets; empty brackets stay together.  All text is ASCII. -/

namespace ScriptFront.Json

/-- A new line that begins at a depth. -/
def newline (depth : Nat) : List Char := '\n' :: List.replicate (2 * depth) ' '

/-- Written items inside brackets, each on a line of its own. -/
def bracketed (opening closing : Char) (depth : Nat) (items : List (List Char)) : List Char :=
  if items.isEmpty then [opening, closing]
  else
    opening :: newline (depth + 1)
      ++ (',' :: newline (depth + 1)).intercalate items
      ++ newline depth ++ [closing]

mutual

/-- A value whose first line begins at a depth. -/
def write (depth : Nat) : Json → List Char
  | null => "null".toList
  | bool true => "true".toList
  | bool false => "false".toList
  | number n => (toString n).toList
  | string s => Text.Escaped.quoted s.toList
  | array items => bracketed '[' ']' depth (writeItems (depth + 1) items)
  | object members => bracketed '\x7b' '\x7d' depth (writeMembers (depth + 1) members)

/-- The items of an array. -/
def writeItems (depth : Nat) : List Json → List (List Char)
  | [] => []
  | item :: items => write depth item :: writeItems depth items

/-- The members of an object. -/
def writeMembers (depth : Nat) : List (String × Json) → List (List Char)
  | [] => []
  | (key, value) :: members =>
    (Text.Escaped.quoted key.toList ++ ": ".toList ++ write depth value)
      :: writeMembers depth members

end

/-- A document. -/
def text (j : Json) : String := String.ofList (j.write 0)

end ScriptFront.Json
