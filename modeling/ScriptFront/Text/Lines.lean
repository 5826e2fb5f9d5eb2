/-! # Lines — a text cut at its newlines

    A text has one line more than it has newlines.  `join_split` says that joining the lines by
    newlines gives the text back. -/

namespace ScriptFront.Text.Lines

/-- The lines of a text. -/
def split : List Char → List (List Char)
  | [] => [[]]
  | c :: cs =>
    if c = '\n' then [] :: split cs
    else
      match split cs with
      | [] => [[c]]
      | l :: ls => (c :: l) :: ls

/-- Some lines as one text, with a newline between each two. -/
def join : List (List Char) → List Char
  | [] => []
  | [l] => l
  | l :: m :: ls => l ++ '\n' :: join (m :: ls)

/-- The lines of a string. -/
def ofString (s : String) : List String := (split s.toList).map String.ofList

theorem split_newline (cs : List Char) : split ('\n' :: cs) = [] :: split cs := by
  simp [split]

theorem split_cons {c : Char} (h : c ≠ '\n') {cs l : List Char} {ls : List (List Char)}
    (hs : split cs = l :: ls) : split (c :: cs) = (c :: l) :: ls := by
  simp [split, h, hs]

/-- There is at least one line. -/
theorem exists_split (cs : List Char) : ∃ l ls, split cs = l :: ls := by
  cases cs with
  | nil => exact ⟨_, _, rfl⟩
  | cons c cs =>
      by_cases h : c = '\n'
      · exact ⟨_, _, by rw [h, split_newline]⟩
      · rw [split, if_neg h]
        split <;> exact ⟨_, _, rfl⟩

theorem join_cons_cons (l : List Char) {m : List Char} {ls : List (List Char)} :
    join (l :: m :: ls) = l ++ '\n' :: join (m :: ls) := rfl

theorem join_cons_head (c : Char) (l : List Char) (ls : List (List Char)) :
    join ((c :: l) :: ls) = c :: join (l :: ls) := by
  cases ls <;> rfl

/-- The lines joined are the text. -/
theorem join_split (cs : List Char) : join (split cs) = cs := by
  induction cs with
  | nil => rfl
  | cons c cs ih =>
      obtain ⟨l, ls, hs⟩ := exists_split cs
      rw [hs] at ih
      by_cases h : c = '\n'
      · rw [h, split_newline, hs, join_cons_cons, ih, List.nil_append]
      · rw [split_cons h hs, join_cons_head, ih]

end ScriptFront.Text.Lines
