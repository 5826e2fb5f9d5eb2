import Mathlib.Data.List.Basic
import ScriptFront.Json.Written
import ScriptFront.Proofs.Json.Strings

/-! # JSON read back — a reader and what it makes of written values

    The reader takes whitespace wherever JSON has it, and numbers if they are whole; objects are
    rows of members.  It knows nothing of how values are laid out.  Whatever is written is in ASCII
    (`write_ascii`) and is read back as it was (`read?_text`). -/

namespace ScriptFront.Json

open Text

/-! ## The reader -/

/-- The whitespace of JSON. -/
def isSpace (c : Char) : Bool := [' ', '\n', '\r', '\t'].contains c

/-- A text behind the whitespace it begins with. -/
def skip (text : List Char) : List Char := text.dropWhile isSpace

/-- A text behind a mark, which may have whitespace in front of it. -/
def expect? (mark : Char) (text : List Char) : Option (List Char) :=
  match skip text with
  | [] => none
  | c :: rest => if c = mark then some rest else none

/-- Reads the digits of a whole number: no zero leads others, and there is no fraction and no
    exponent. -/
def readDigits? (text : List Char) : Option (Nat × List Char) :=
  let digits := text.takeWhile Char.isDigit
  let rest := text.dropWhile Char.isDigit
  if digits = [] ∨ digits.head? = some '0' ∧ digits ≠ ['0'] then none
  else if ['.', 'e', 'E'].any (rest.head? = some ·) then none
  else some (Nat.ofDigitChars 10 digits 0, rest)

/-- Reads a word or a number. -/
def readScalar? : List Char → Option (Json × List Char)
  | 'n' :: 'u' :: 'l' :: 'l' :: rest => some (null, rest)
  | 't' :: 'r' :: 'u' :: 'e' :: rest => some (bool true, rest)
  | 'f' :: 'a' :: 'l' :: 's' :: 'e' :: rest => some (bool false, rest)
  | '-' :: text => (readDigits? text).map fun (n, rest) => (number (-n), rest)
  | text => (readDigits? text).map fun (n, rest) => (number n, rest)

mutual

/-- Reads a value.  A value in a row is read by two calls, one of them for the row, and the first
    number bounds how deep the calls may go. -/
def readValue? : Nat → List Char → Option (Json × List Char)
  | 0, _ => none
  | calls + 1, text =>
    match skip text with
    | [] => none
    | c :: rest =>
      if c = '"' then do
        let (s, rest) ← readString? (c :: rest)
        return (string s, rest)
      else if c = '[' then
        match expect? ']' rest with
        | some rest => some (array [], rest)
        | none => do
          let (items, rest) ← readItems? calls rest
          return (array items, rest)
      else if c = '\x7b' then
        match expect? '\x7d' rest with
        | some rest => some (object [], rest)
        | none => do
          let (members, rest) ← readMembers? calls rest
          return (object members, rest)
      else readScalar? (c :: rest)

/-- Reads the items of an array up to its closing bracket. -/
def readItems? : Nat → List Char → Option (List Json × List Char)
  | 0, _ => none
  | calls + 1, text => do
    let (item, rest) ← readValue? calls text
    match expect? ',' rest with
    | some rest => do
      let (items, rest) ← readItems? calls rest
      return (item :: items, rest)
    | none => do
      let rest ← expect? ']' rest
      return ([item], rest)

/-- Reads the members of an object up to its closing brace. -/
def readMembers? : Nat → List Char → Option (List (String × Json) × List Char)
  | 0, _ => none
  | calls + 1, text => do
    let (key, rest) ← readString? (skip text)
    let rest ← expect? ':' rest
    let (value, rest) ← readValue? calls rest
    match expect? ',' rest with
    | some rest => do
      let (members, rest) ← readMembers? calls rest
      return ((key, value) :: members, rest)
    | none => do
      let rest ← expect? '\x7d' rest
      return ([(key, value)], rest)

end

/-- Reads a document: one value and nothing behind it.  No text of its length needs more calls. -/
def read? (text : String) : Option Json := do
  let (value, rest) ← readValue? (2 * text.toList.length + 1) text.toList
  if skip rest = [] then some value else none

/-! ## Whitespace -/

theorem skip_of_mark {c : Char} (mark : isSpace c = false) (text : List Char) :
    skip (c :: text) = c :: text :=
  List.dropWhile_cons_of_neg (Bool.eq_false_iff.mp mark)

/-- The layout is whitespace. -/
theorem skip_newline (depth : Nat) (text : List Char) :
    skip (newline depth ++ text) = skip text := by
  have blank : ∀ c ∈ newline depth, isSpace c = true := by
    refine List.forall_mem_cons.mpr ⟨rfl, fun c mem => ?_⟩
    rw [List.eq_of_mem_replicate mem]
    rfl
  exact List.dropWhile_append_of_pos blank

theorem expect?_newline (mark : Char) (depth : Nat) (text : List Char) :
    expect? mark (newline depth ++ text) = expect? mark text := by
  rw [expect?, skip_newline, expect?]

theorem expect?_mark {c : Char} (mark : isSpace c = false) (text : List Char) :
    expect? c (c :: text) = some text := by
  rw [expect?, skip_of_mark mark]
  exact if_pos rfl

theorem expect?_other {c d : Char} (mark : isSpace d = false) (other : d ≠ c)
    (text : List Char) : expect? c (d :: text) = none := by
  rw [expect?, skip_of_mark mark]
  exact if_neg other

theorem readValue?_newline (calls depth : Nat) (text : List Char) :
    readValue? (calls + 1) (newline depth ++ text) = readValue? (calls + 1) text := by
  rw [readValue?, skip_newline, readValue?]

/-! ## Numbers -/

/-- What may stand behind a written value: nothing, a comma or a new line. -/
def Ends (rest : List Char) : Prop := ∀ c ∈ rest.head?, c = ',' ∨ c = '\n'

theorem ends_newline (depth : Nat) (text : List Char) : Ends (newline depth ++ text) := by
  rintro _ ⟨⟩
  exact Or.inr rfl

theorem ends_comma (text : List Char) : Ends (',' :: text) := by
  rintro _ ⟨⟩
  exact Or.inl rfl

/-- Only the digits of zero begin with a zero. -/
theorem eq_zero_of_head? (n : Nat) : (Nat.toDigits 10 n).head? = some '0' → n = 0 := by
  induction n using Nat.strongRecOn with
  | _ n ih =>
      intro zero
      by_cases small : n < 10
      · rw [Nat.toDigits_of_lt_base small, List.head?_singleton] at zero
        exact Nat.digitChar_eq_zero.mp (Option.some.inj zero)
      · rw [Nat.toDigits_of_base_le (by decide) (by omega),
          List.head?_append_of_ne_nil _ Nat.toDigits_ne_nil] at zero
        have none := ih (n / 10) (by omega) zero
        omega

/-- The digits of a number are read as far as they go. -/
theorem readDigits?_toDigits (n : Nat) {rest : List Char} (ends : Ends rest) :
    readDigits? (Nat.toDigits 10 n ++ rest) = some (n, rest) := by
  have digits : ∀ c ∈ Nat.toDigits 10 n, c.isDigit = true :=
    fun c mem => Nat.isDigit_of_mem_toDigits (by decide) (by decide) mem
  have stop : rest.takeWhile Char.isDigit = [] ∧ rest.dropWhile Char.isDigit = rest
      ∧ ¬ ['.', 'e', 'E'].any (rest.head? = some ·) = true := by
    cases rest with
    | nil => exact ⟨rfl, rfl, by decide⟩
    | cons c cs =>
        rcases ends c rfl with rfl | rfl
        · exact ⟨rfl, rfl, by simp⟩
        · exact ⟨rfl, rfl, by simp⟩
  have leads : ¬ (Nat.toDigits 10 n = []
      ∨ (Nat.toDigits 10 n).head? = some '0' ∧ Nat.toDigits 10 n ≠ ['0']) := by
    rintro (none | ⟨zero, more⟩)
    · exact Nat.toDigits_ne_nil none
    · rw [eq_zero_of_head? n zero] at more
      exact more (Nat.toDigits_zero 10)
  simp only [readDigits?, List.takeWhile_append_of_pos digits, List.dropWhile_append_of_pos digits,
    stop.1, stop.2.1, List.append_nil, if_neg leads, if_neg stop.2.2]
  rw [Nat.ofDigitChars_ten_toDigits]

/-- A number begins with a digit or with a sign. -/
theorem toDigits_cons (n : Nat) :
    ∃ d ds, Nat.toDigits 10 n = d :: ds ∧ d.isDigit = true := by
  obtain ⟨d, ds, split⟩ := List.exists_cons_of_ne_nil (Nat.toDigits_ne_nil (n := n) (b := 10))
  have mem : d ∈ Nat.toDigits 10 n := split ▸ List.mem_cons_self
  exact ⟨d, ds, split, Nat.isDigit_of_mem_toDigits (by decide) (by decide) mem⟩

theorem number_cons (n : Int) :
    ∃ c cs, (toString n).toList = c :: cs ∧ (c.isDigit = true ∨ c = '-') := by
  rw [Int.toString_eq_repr, Int.repr_eq_if]
  split
  · obtain ⟨d, ds, split, digit⟩ := toDigits_cons n.toNat
    exact ⟨d, ds, Nat.toList_repr.trans split, Or.inl digit⟩
  · exact ⟨'-', _, String.toList_append, Or.inr rfl⟩

/-- What begins with a digit is read as a number. -/
theorem readScalar?_digit {d : Char} (digit : d.isDigit = true) (text : List Char) :
    readScalar? (d :: text)
      = (readDigits? (d :: text)).map fun (n, rest) => (number n, rest) := by
  have other : ∀ c, c.isDigit = false → ∀ rest, d :: text ≠ c :: rest := by
    rintro c noDigit rest same
    rw [(List.cons.inj same).1, noDigit] at digit
    cases digit
  rw [readScalar?]
  · exact fun rest => other 'n' rfl _
  · exact fun rest => other 't' rfl _
  · exact fun rest => other 'f' rfl _
  · exact fun rest => other '-' rfl _

/-- Written numbers are read back. -/
theorem readScalar?_number (n : Int) {rest : List Char} (ends : Ends rest) :
    readScalar? ((toString n).toList ++ rest) = some (number n, rest) := by
  rw [Int.toString_eq_repr, Int.repr_eq_if]
  split
  · rename_i positive
    obtain ⟨d, ds, split, digit⟩ := toDigits_cons n.toNat
    have read := readDigits?_toDigits n.toNat ends
    rw [Nat.toList_repr]
    rw [split, List.cons_append] at read ⊢
    rw [readScalar?_digit digit, read]
    show some (number (n.toNat : Int), rest) = _
    rw [Int.toNat_of_nonneg positive]
  · have back : -(((-n).toNat : Nat) : Int) = n := by omega
    rw [String.toList_append, Nat.toList_repr]
    show readScalar? ('-' :: (Nat.toDigits 10 (-n).toNat ++ rest)) = _
    rw [readScalar?, readDigits?_toDigits _ ends]
    show some (number (-(((-n).toNat : Nat) : Int)), rest) = _
    rw [back]

/-! ## Values -/

/-- Whitespace, and the marks that stand behind a value: nothing begins with these. -/
def behindValues : List Char := [' ', '\n', '\r', '\t', ',', ':', ']', '\x7d']

/-- Whether a value can begin with a character. -/
def isFirst (c : Char) : Bool := !behindValues.contains c

theorem isFirst_of_number {d : Char} (begins : d.isDigit = true ∨ d = '-') :
    isFirst d = true := by
  have none : ∀ c ∈ behindValues, ¬ (c.isDigit = true ∨ c = '-') := by simp [behindValues]
  rw [isFirst, Bool.not_eq_true', ← Bool.not_eq_true, List.contains_iff_mem]
  exact fun mem => none d mem begins

theorem isSpace_of_isFirst {c : Char} (first : isFirst c = true) : isSpace c = false := by
  have sub : ∀ c ∈ [' ', '\n', '\r', '\t'], isFirst c = false := by simp [isFirst, behindValues]
  rw [isSpace, ← Bool.not_eq_true, List.contains_iff_mem]
  intro mem
  rw [sub c mem] at first
  cases first

/-- What a written value begins with. -/
theorem write_cons (depth : Nat) (j : Json) :
    ∃ c cs, j.write depth = c :: cs ∧ isFirst c = true := by
  cases j with
  | null => exact ⟨_, _, rfl, rfl⟩
  | bool b =>
      cases b with
      | true => exact ⟨_, _, rfl, rfl⟩
      | false => exact ⟨_, _, rfl, rfl⟩
  | number n =>
      obtain ⟨c, cs, split, begins⟩ := number_cons n
      exact ⟨c, cs, split, isFirst_of_number begins⟩
  | string s => exact ⟨_, _, rfl, rfl⟩
  | array items =>
      rw [write, bracketed]
      split
      · exact ⟨_, _, rfl, rfl⟩
      · exact ⟨_, _, rfl, rfl⟩
  | object members =>
      rw [write, bracketed]
      split
      · exact ⟨_, _, rfl, rfl⟩
      · exact ⟨_, _, rfl, rfl⟩

/-- Behind an opening bracket a value is no closing one. -/
theorem expect?_write {mark : Char} (closing : isFirst mark = false) (depth : Nat) (j : Json)
    (text : List Char) : expect? mark (j.write depth ++ text) = none := by
  obtain ⟨c, cs, split, first⟩ := write_cons depth j
  rw [split]
  refine expect?_other (isSpace_of_isFirst first) ?_ (cs ++ text)
  rintro rfl
  rw [closing] at first
  cases first

theorem readValue?_scalar {c : Char} (first : isFirst c = true) (noString : c ≠ '"')
    (noArray : c ≠ '[') (noObject : c ≠ '\x7b') (calls : Nat) (text : List Char) :
    readValue? (calls + 1) (c :: text) = readScalar? (c :: text) := by
  rw [readValue?, skip_of_mark (isSpace_of_isFirst first)]
  simp only [if_neg noString, if_neg noArray, if_neg noObject]

/-- A closing mark ends a row, and it is no comma. -/
theorem expect?_closing (mark : Char) (solid : isSpace mark = false) (noComma : mark ≠ ',')
    (depth : Nat) (rest : List Char) :
    expect? ',' (newline depth ++ mark :: rest) = none
    ∧ expect? mark (newline depth ++ mark :: rest) = some rest := by
  rw [expect?_newline, expect?_newline]
  exact ⟨expect?_other solid noComma rest, expect?_mark solid rest⟩

theorem readValue?_number (n : Int) (calls : Nat) {rest : List Char} (ends : Ends rest) :
    readValue? (calls + 1) ((toString n).toList ++ rest) = some (number n, rest) := by
  have read := readScalar?_number n ends
  obtain ⟨c, cs, split, begins⟩ := number_cons n
  rw [split, List.cons_append] at read ⊢
  have marks : ∀ mark ∈ ['"', '[', '\x7b'], c ≠ mark := by
    rintro mark mem rfl
    have noNumber : ∀ mark ∈ ['"', '[', '\x7b'], ¬ (mark.isDigit = true ∨ mark = '-') := by simp
    exact noNumber c mem begins
  rw [readValue?_scalar (isFirst_of_number begins) (marks '"' (by decide)) (marks '[' (by decide))
    (marks '\x7b' (by decide)), read]

theorem readItems?_last {calls : Nat} {text rest : List Char} {item : Json} (depth : Nat)
    (read : readValue? calls text = some (item, newline depth ++ ']' :: rest)) :
    readItems? (calls + 1) text = some ([item], rest) := by
  obtain ⟨none, closed⟩ := expect?_closing ']' rfl (by decide) depth rest
  rw [readItems?, read]
  simp only [Option.bind_eq_bind, Option.bind_some, none, closed]
  rfl

theorem readItems?_more {calls : Nat} {text more rest : List Char} {item : Json}
    {items : List Json} (read : readValue? calls text = some (item, ',' :: more))
    (others : readItems? calls more = some (items, rest)) :
    readItems? (calls + 1) text = some (item :: items, rest) := by
  have comma : expect? ',' (',' :: more) = some more := expect?_mark rfl more
  rw [readItems?, read]
  simp only [Option.bind_eq_bind, Option.bind_some, comma, others]
  rfl

/-- A key is read up to its colon. -/
theorem readString?_key (depth : Nat) (key : String) (text : List Char) :
    readString? (skip (newline depth ++ (Escaped.quoted key.toList ++ ':' :: text)))
      = some (key, ':' :: text) := by
  rw [skip_newline]
  show readString? (skip ('"' :: _)) = _
  rw [skip_of_mark rfl]
  exact readString?_quoted key (':' :: text)

theorem readMembers?_last {key : String} {calls : Nat} {text rest : List Char} {value : Json}
    {depth : Nat} (outer : Nat)
    (read : readValue? calls text = some (value, newline outer ++ '\x7d' :: rest)) :
    readMembers? (calls + 1) (newline depth ++ (Escaped.quoted key.toList ++ ':' :: text))
      = some ([(key, value)], rest) := by
  obtain ⟨none, closed⟩ := expect?_closing '\x7d' rfl (by decide) outer rest
  have colon : expect? ':' (':' :: text) = some text := expect?_mark rfl text
  rw [readMembers?, readString?_key]
  simp only [Option.bind_eq_bind, Option.bind_some, colon, read, none, closed]
  rfl

theorem readMembers?_more {key : String} {calls : Nat} {text more rest : List Char} {value : Json}
    {members : List (String × Json)} {depth : Nat}
    (read : readValue? calls text = some (value, ',' :: more))
    (others : readMembers? calls more = some (members, rest)) :
    readMembers? (calls + 1) (newline depth ++ (Escaped.quoted key.toList ++ ':' :: text))
      = some ((key, value) :: members, rest) := by
  have colon : expect? ':' (':' :: text) = some text := expect?_mark rfl text
  have comma : expect? ',' (',' :: more) = some more := expect?_mark rfl more
  rw [readMembers?, readString?_key]
  simp only [Option.bind_eq_bind, Option.bind_some, colon, read, comma, others]
  rfl

theorem readValue?_array {calls : Nat} {text rest : List Char} {items : List Json}
    (opened : expect? ']' text = none) (read : readItems? calls text = some (items, rest)) :
    readValue? (calls + 1) ('[' :: text) = some (array items, rest) := by
  rw [readValue?, skip_of_mark rfl]
  simp only [Char.reduceEq, if_false, if_true, opened, read]
  rfl

theorem readValue?_object {calls : Nat} {text rest : List Char} {members : List (String × Json)}
    (opened : expect? '\x7d' text = none) (read : readMembers? calls text = some (members, rest)) :
    readValue? (calls + 1) ('\x7b' :: text) = some (object members, rest) := by
  rw [readValue?, skip_of_mark rfl]
  simp only [Char.reduceEq, if_false, if_true, opened, read]
  rfl

theorem readValue?_emptyArray (calls : Nat) (rest : List Char) :
    readValue? (calls + 1) ('[' :: ']' :: rest) = some (array [], rest) := by
  have closed : expect? ']' (']' :: rest) = some rest := expect?_mark rfl rest
  rw [readValue?, skip_of_mark rfl]
  simp only [Char.reduceEq, if_false, if_true, closed]

theorem readValue?_emptyObject (calls : Nat) (rest : List Char) :
    readValue? (calls + 1) ('\x7b' :: '\x7d' :: rest) = some (object [], rest) := by
  have closed : expect? '\x7d' ('\x7d' :: rest) = some rest := expect?_mark rfl rest
  rw [readValue?, skip_of_mark rfl]
  simp only [Char.reduceEq, if_false, if_true, closed]

/-! ## Layout -/

/-- Brackets that are not empty: the opening one, a row of items and the closing one. -/
theorem bracketed_cons (opening closing : Char) (depth : Nat) (w : List Char)
    (ws : List (List Char)) (rest : List Char) :
    bracketed opening closing depth (w :: ws) ++ rest
      = opening :: (newline (depth + 1)
        ++ ((',' :: newline (depth + 1)).intercalate (w :: ws)
          ++ (newline depth ++ closing :: rest))) := by
  rw [bracketed, if_neg (by simp)]
  simp only [List.cons_append, List.append_assoc, List.nil_append]

/-- A row begins with its first item. -/
theorem exists_intercalate (separator w : List Char) (ws : List (List Char)) :
    ∃ more, separator.intercalate (w :: ws) = w ++ more := by
  cases ws with
  | nil => exact ⟨[], by rw [List.intercalate_singleton, List.append_nil]⟩
  | cons next ws => exact ⟨_, List.intercalate_cons_cons.trans (List.append_assoc _ _ _)⟩

/-- A row of two items or more. -/
theorem intercalate_append (depth : Nat) (w next : List Char) (ws : List (List Char))
    (text : List Char) :
    (',' :: newline depth).intercalate (w :: next :: ws) ++ text
      = w ++ ',' :: (newline depth
        ++ ((',' :: newline depth).intercalate (next :: ws) ++ text)) := by
  rw [List.intercalate_cons_cons, List.append_assoc, List.append_assoc, List.cons_append]

/-- A member is a key, a colon, a blank and a value. -/
theorem member_append (key : String) (written text : List Char) :
    Escaped.quoted key.toList ++ ": ".toList ++ written ++ text
      = Escaped.quoted key.toList ++ ':' :: ' ' :: (written ++ text) := by
  simp

theorem readValue?_blank (calls : Nat) (text : List Char) :
    readValue? (calls + 1) (' ' :: text) = readValue? (calls + 1) text := by
  have same : skip (' ' :: text) = skip text := List.dropWhile_cons_of_pos rfl
  rw [readValue?, same, readValue?]

/-! ## There and back

    A call may be made for every character of the text and one more for each row: what is left of
    a text is shorter with every item, so the calls never run out. -/

mutual

/-- A written value is read back, whatever stands behind it. -/
theorem readValue?_write :
    ∀ (j : Json) (depth : Nat) {calls : Nat} {rest : List Char},
      2 * (j.write depth ++ rest).length ≤ calls → Ends rest →
        readValue? (calls + 1) (j.write depth ++ rest) = some (j, rest)
  | null, _, calls, rest, _, _ => by
      show readValue? _ ('n' :: 'u' :: 'l' :: 'l' :: rest) = _
      rw [readValue?_scalar rfl (by decide) (by decide) (by decide), readScalar?]
  | bool true, _, calls, rest, _, _ => by
      show readValue? _ ('t' :: 'r' :: 'u' :: 'e' :: rest) = _
      rw [readValue?_scalar rfl (by decide) (by decide) (by decide), readScalar?]
  | bool false, _, calls, rest, _, _ => by
      show readValue? _ ('f' :: 'a' :: 'l' :: 's' :: 'e' :: rest) = _
      rw [readValue?_scalar rfl (by decide) (by decide) (by decide), readScalar?]
  | number n, _, calls, _, _, ends => readValue?_number n calls ends
  | string s, _, calls, rest, _, _ => by
      have read := readString?_quoted s rest
      rw [write]
      show readValue? _ ('"' :: _) = _
      rw [readValue?, skip_of_mark rfl]
      show (do
        let (s, rest) ← readString? (Escaped.quoted s.toList ++ rest)
        return (string s, rest)) = _
      rw [read]
      rfl
  | array [], _, calls, rest, _, _ => readValue?_emptyArray calls rest
  | array (item :: items), depth, calls, rest, enough, _ => by
      have read := @readItems?_write (item :: items) (List.cons_ne_nil _ _) (depth + 1) depth rest
      rw [write] at enough ⊢
      rw [writeItems] at read enough ⊢
      rw [bracketed_cons] at enough ⊢
      rw [List.length_cons] at enough
      obtain ⟨fewer, rfl⟩ := Nat.exists_eq_add_of_le' (by omega : 2 ≤ calls)
      refine readValue?_array ?_ (read (by omega))
      obtain ⟨more, begins⟩ := exists_intercalate (',' :: newline (depth + 1))
        (write (depth + 1) item) (writeItems (depth + 1) items)
      rw [expect?_newline, begins, List.append_assoc]
      exact expect?_write rfl (depth + 1) item _
  | object [], _, calls, rest, _, _ => readValue?_emptyObject calls rest
  | object ((key, value) :: members), depth, calls, rest, enough, _ => by
      have read := @readMembers?_write ((key, value) :: members) (List.cons_ne_nil _ _) (depth + 1)
        depth rest
      rw [write] at enough ⊢
      rw [writeMembers] at read enough ⊢
      rw [bracketed_cons] at enough ⊢
      rw [List.length_cons] at enough
      obtain ⟨fewer, rfl⟩ := Nat.exists_eq_add_of_le' (by omega : 2 ≤ calls)
      refine readValue?_object ?_ (read (by omega))
      obtain ⟨more, begins⟩ := exists_intercalate (',' :: newline (depth + 1))
        (Escaped.quoted key.toList ++ ": ".toList ++ write (depth + 1) value)
        (writeMembers (depth + 1) members)
      rw [expect?_newline, begins]
      exact expect?_other rfl (by decide) _

/-- The written items of an array are read back. -/
theorem readItems?_write :
    ∀ (items : List Json), items ≠ [] → ∀ (depth outer : Nat) (rest : List Char) {calls : Nat},
      2 * (newline depth ++ ((',' :: newline depth).intercalate (writeItems depth items)
        ++ (newline outer ++ ']' :: rest))).length ≤ calls →
      readItems? (calls + 2) (newline depth
        ++ ((',' :: newline depth).intercalate (writeItems depth items)
          ++ (newline outer ++ ']' :: rest))) = some (items, rest)
  | [], empty, _, _, _, _, _ => absurd rfl empty
  | [item], _, depth, outer, rest, calls, enough => by
      rw [writeItems, writeItems, List.intercalate_singleton] at enough ⊢
      rw [List.length_append] at enough
      refine readItems?_last outer ?_
      rw [readValue?_newline]
      exact readValue?_write item depth (by omega) (ends_newline _ _)
  | item :: next :: items, _, depth, outer, rest, calls, enough => by
      have others := @readItems?_write (next :: items) (List.cons_ne_nil _ _) depth outer rest
      rw [writeItems] at enough ⊢
      rw [writeItems] at others enough ⊢
      rw [intercalate_append] at enough ⊢
      rw [List.length_append, List.length_append, List.length_cons] at enough
      obtain ⟨fewer, rfl⟩ := Nat.exists_eq_add_of_le' (by omega : 1 ≤ calls)
      refine readItems?_more ?_ (others (by omega))
      rw [readValue?_newline]
      refine readValue?_write item depth ?_ (ends_comma _)
      rw [List.length_append, List.length_cons]
      omega

/-- The written members of an object are read back. -/
theorem readMembers?_write :
    ∀ (members : List (String × Json)), members ≠ [] →
      ∀ (depth outer : Nat) (rest : List Char) {calls : Nat},
        2 * (newline depth ++ ((',' :: newline depth).intercalate (writeMembers depth members)
          ++ (newline outer ++ '\x7d' :: rest))).length ≤ calls →
        readMembers? (calls + 2) (newline depth
          ++ ((',' :: newline depth).intercalate (writeMembers depth members)
            ++ (newline outer ++ '\x7d' :: rest))) = some (members, rest)
  | [], empty, _, _, _, _, _ => absurd rfl empty
  | [(key, value)], _, depth, outer, rest, calls, enough => by
      rw [writeMembers, writeMembers, List.intercalate_singleton, member_append] at enough ⊢
      simp only [List.length_append, List.length_cons] at enough
      refine readMembers?_last outer ?_
      rw [readValue?_blank]
      refine readValue?_write value depth ?_ (ends_newline _ _)
      simp only [List.length_append, List.length_cons]
      omega
  | (key, value) :: (nextKey, next) :: members, _, depth, outer, rest, calls, enough => by
      have others := @readMembers?_write ((nextKey, next) :: members) (List.cons_ne_nil _ _) depth
        outer rest
      rw [writeMembers] at enough ⊢
      rw [writeMembers] at others enough ⊢
      rw [intercalate_append, member_append] at enough ⊢
      rw [List.length_append, List.length_append, List.length_cons, List.length_cons,
        List.length_append, List.length_cons] at enough
      obtain ⟨fewer, rfl⟩ := Nat.exists_eq_add_of_le' (by omega : 1 ≤ calls)
      refine readMembers?_more ?_ (others (by omega))
      rw [readValue?_blank]
      refine readValue?_write value depth ?_ (ends_comma _)
      rw [List.length_append, List.length_cons]
      omega

end

/-- A written document is read back. -/
theorem read?_text (j : Json) : read? j.text = some j := by
  have nothing : Ends [] := nofun
  have all := readValue?_write j 0 (Nat.le_refl _) nothing
  rw [read?, text, String.toList_ofList]
  rw [List.append_nil] at all
  rw [all]
  rfl

/-! ## Letters -/

theorem newline_ascii (depth : Nat) : ∀ c ∈ newline depth, isAscii c = true := by
  refine List.forall_mem_cons.mpr ⟨rfl, fun c mem => ?_⟩
  rw [List.eq_of_mem_replicate mem]
  rfl

theorem intercalate_ascii {separator : List Char} (h : ∀ c ∈ separator, isAscii c = true)
    {ws : List (List Char)} (hs : ∀ w ∈ ws, ∀ c ∈ w, isAscii c = true) :
    ∀ c ∈ separator.intercalate ws, isAscii c = true := by
  induction ws with
  | nil => exact List.forall_mem_nil _
  | cons w ws ih =>
      obtain ⟨first, others⟩ := List.forall_mem_cons.mp hs
      cases ws with
      | nil =>
          rw [List.intercalate_singleton]
          exact first
      | cons next ws =>
          rw [List.intercalate_cons_cons]
          exact List.forall_mem_append.mpr
            ⟨List.forall_mem_append.mpr ⟨first, h⟩, ih others⟩

theorem bracketed_ascii {opening closing : Char} (opens : isAscii opening = true)
    (closes : isAscii closing = true) (depth : Nat) {ws : List (List Char)}
    (hs : ∀ w ∈ ws, ∀ c ∈ w, isAscii c = true) :
    ∀ c ∈ bracketed opening closing depth ws, isAscii c = true := by
  rw [bracketed]
  split
  · exact List.forall_mem_cons.mpr ⟨opens, List.forall_mem_singleton.mpr closes⟩
  · have layout := newline_ascii
    have separator : ∀ c ∈ ',' :: newline (depth + 1), isAscii c = true :=
      List.forall_mem_cons.mpr ⟨rfl, layout (depth + 1)⟩
    simp only [List.forall_mem_append, List.cons_append, List.forall_mem_cons]
    exact ⟨opens, ⟨⟨layout _, intercalate_ascii separator hs⟩, layout _⟩, closes,
      List.forall_mem_nil _⟩

theorem number_ascii (n : Int) : ∀ c ∈ (toString n).toList, isAscii c = true := by
  have digits : ∀ m : Nat, ∀ c ∈ m.repr.toList, isAscii c = true := by
    intro m c mem
    rw [Nat.toList_repr] at mem
    have digit := Nat.isDigit_of_mem_toDigits (by decide) (by decide) mem
    rw [Char.isDigit, Bool.and_eq_true, decide_eq_true_eq, decide_eq_true_eq] at digit
    have bound : c.toNat ≤ 57 := digit.2
    exact decide_eq_true (by omega)
  rw [Int.toString_eq_repr, Int.repr_eq_if]
  split
  · exact digits _
  · rw [String.toList_append]
    exact List.forall_mem_append.mpr ⟨List.forall_mem_singleton.mpr rfl, digits _⟩

mutual

/-- Values are written in ASCII. -/
theorem write_ascii : ∀ (j : Json) (depth : Nat), ∀ c ∈ j.write depth, isAscii c = true
  | null, _ => List.all_eq_true.mp (by decide : "null".toList.all isAscii = true)
  | bool true, _ => List.all_eq_true.mp (by decide : "true".toList.all isAscii = true)
  | bool false, _ => List.all_eq_true.mp (by decide : "false".toList.all isAscii = true)
  | number n, _ => number_ascii n
  | string s, _ => quoted_ascii s.toList
  | array items, depth => bracketed_ascii rfl rfl depth (writeItems_ascii items (depth + 1))
  | object members, depth =>
      bracketed_ascii rfl rfl depth (writeMembers_ascii members (depth + 1))

theorem writeItems_ascii :
    ∀ (items : List Json) (depth : Nat), ∀ w ∈ writeItems depth items, ∀ c ∈ w, isAscii c = true
  | [], _ => List.forall_mem_nil _
  | item :: items, depth =>
      List.forall_mem_cons.mpr ⟨write_ascii item depth, writeItems_ascii items depth⟩

theorem writeMembers_ascii :
    ∀ (members : List (String × Json)) (depth : Nat),
      ∀ w ∈ writeMembers depth members, ∀ c ∈ w, isAscii c = true
  | [], _ => List.forall_mem_nil _
  | (key, value) :: members, depth => by
      refine List.forall_mem_cons.mpr ⟨?_, writeMembers_ascii members depth⟩
      refine List.forall_mem_append.mpr ⟨List.forall_mem_append.mpr ⟨quoted_ascii _, ?_⟩, ?_⟩
      · exact List.all_eq_true.mp (by decide : ": ".toList.all isAscii = true)
      · exact write_ascii value depth

end

/-- A document is in ASCII. -/
theorem text_ascii (j : Json) : ∀ c ∈ j.text.toList, isAscii c = true := by
  rw [text, String.toList_ofList]
  exact write_ascii j 0

end ScriptFront.Json
