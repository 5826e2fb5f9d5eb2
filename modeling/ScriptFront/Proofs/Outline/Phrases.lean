import ScriptFront.Proofs.Decimal.Doubles
import ScriptFront.Proofs.Text.Templates
import ScriptFront.Token.Written

/-! # Phrases — parenthesised text and what it is made of

    Printed text is made of words, numbers, quoted text and rows of these between parentheses.  In
    quoted text anything may stand, parentheses, blanks and newlines included, but no quote.  So
    every text goes on exactly up to where its phrase ends, and no two phrases have the same text
    (`Phrase.eq_of_text_eq`). -/

namespace ScriptFront

open Decimal (classify isDigit isNumeral)

/-- What printed text is made of. -/
inductive Phrase
  | word (w : String)
  | number (x : Float)
  | quoted (s : String)
  | row (parts : List Phrase)
deriving Inhabited

namespace Phrase

mutual

/-- The text of a phrase. -/
def text : Phrase → List Char
  | word w => w.toList
  | number x => (numberLayout.text x).toList
  | quoted s => '"' :: (s.toList ++ ['"'])
  | row parts => '(' :: inside parts

/-- The text of the parts of a row, and its closing parenthesis. -/
def inside : List Phrase → List Char
  | [] => [')']
  | p :: ps => p.text ++ behind ps

/-- The text of the parts behind another one, and the closing parenthesis. -/
def behind : List Phrase → List Char
  | [] => [')']
  | p :: ps => ' ' :: (p.text ++ behind ps)

end

/-! ## Well-formed phrases -/

/-- Whether a character can stand in a word or in a number. -/
def isPlain (c : Char) : Bool := !List.contains [' ', '(', ')', '"'] c

/-- A word is made of plain characters and does not begin with a digit. -/
def isWord (w : List Char) : Bool := !w.isEmpty && w.all isPlain && !w.head?.any isDigit

theorem isWord_iff {w : List Char} : isWord w = true
    ↔ w ≠ [] ∧ (∀ c ∈ w, isPlain c = true) ∧ ∀ c ∈ w.head?, isDigit c = false := by
  cases w with
  | nil => exact iff_of_false Bool.false_ne_true fun h => h.1 rfl
  | cons c cs => simp [isWord]

/-- Words are words, numbers have digits and no minus, and quoted text has no quote. -/
inductive WellFormed : Phrase → Prop
  | word {w : String} (isWord : isWord w.toList = true) : WellFormed (word w)
  | number {x : Float} (unsigned : (classify x).Unsigned) (finite : classify x ≠ .infinite false) :
      WellFormed (number x)
  | quoted {s : String} (inner : '"' ∉ s.toList) : WellFormed (quoted s)
  | row {parts : List Phrase} (all : ∀ p ∈ parts, WellFormed p) : WellFormed (row parts)

theorem isPlain_of_isNumeral {c : Char} (numeral : isNumeral c = true) : isPlain c = true := by
  have none : ∀ d ∈ [' ', '(', ')', '"'], isNumeral d = false := by simp [isNumeral, isDigit]
  rw [isPlain, Bool.not_eq_true', ← Bool.not_eq_true, List.contains_iff_mem]
  intro mem
  rw [none c mem] at numeral
  cases numeral

/-- The text of a number is plain and begins with a digit. -/
theorem number_shape {x : Float} (unsigned : (classify x).Unsigned)
    (finite : classify x ≠ .infinite false) :
    (∃ d ds, (numberLayout.text x).toList = d :: ds ∧ isDigit d = true)
    ∧ ∀ c ∈ (numberLayout.text x).toList, isPlain c = true := by
  rw [Decimal.Layout.text, String.toList_ofList]
  generalize classify x = k at unsigned finite
  cases unsigned with
  | infinite => exact absurd rfl finite
  | zero =>
      refine ⟨⟨'0', ".0".toList, rfl, rfl⟩, ?_⟩
      exact List.all_eq_true.mp (by decide : "0.0".toList.all isPlain = true)
  | @finite d _ =>
      obtain ⟨front, rest, shape, nonempty, digits, numerals⟩ :=
        numberLayout.magnitude_shape (Decimal.stripZeros 17 d.shortest)
      obtain ⟨c, cs, rfl⟩ := List.exists_cons_of_ne_nil nonempty
      refine ⟨⟨c, cs ++ rest, shape, digits c List.mem_cons_self⟩, ?_⟩
      show ∀ c ∈ numberLayout.magnitude _, isPlain c = true
      rw [shape]
      refine List.forall_mem_append.mpr ⟨fun d mem => ?_, fun d mem => ?_⟩
      · exact isPlain_of_isNumeral (Decimal.isNumeral_of_isDigit (digits d mem))
      · exact isPlain_of_isNumeral (numerals d mem)

/-! ## Where a phrase begins and ends -/

/-- The shapes of phrases. -/
inductive Shape
  | word | number | quoted | row
deriving DecidableEq

/-- The shape of a phrase. -/
def shape : Phrase → Shape
  | word _ => .word
  | number _ => .number
  | quoted _ => .quoted
  | row _ => .row

/-- The shape of what begins with a character. -/
def shape? (c : Char) : Option Shape :=
  if isPlain c then some (if isDigit c then .number else .word)
  else if c = '"' then some .quoted
  else if c = '(' then some .row
  else none

/-- The first character of a text tells the shape of the phrase. -/
theorem text_cons {p : Phrase} (h : p.WellFormed) :
    ∃ c cs, p.text = c :: cs ∧ shape? c = some p.shape := by
  cases h with
  | @word w isWord =>
      obtain ⟨nonempty, plain, noNumber⟩ := isWord_iff.mp isWord
      obtain ⟨c, cs, split⟩ := List.exists_cons_of_ne_nil nonempty
      rw [split] at plain noNumber
      refine ⟨c, cs, split, ?_⟩
      rw [shape?, if_pos (plain c List.mem_cons_self), noNumber c rfl]
      rfl
  | number unsigned finite =>
      obtain ⟨⟨d, ds, split, digit⟩, plain⟩ := number_shape unsigned finite
      rw [split] at plain
      refine ⟨d, ds, split, ?_⟩
      rw [shape?, if_pos (plain d List.mem_cons_self), if_pos digit]
      rfl
  | quoted => exact ⟨_, _, rfl, rfl⟩
  | row => exact ⟨_, _, rfl, rfl⟩

theorem shape_eq {p q : Phrase} {u v : List Char} (h : p.WellFormed) (h' : q.WellFormed)
    (same : p.text ++ u = q.text ++ v) : p.shape = q.shape := by
  obtain ⟨c, cs, split, first⟩ := text_cons h
  obtain ⟨d, ds, split', first'⟩ := text_cons h'
  rw [split, split', List.cons_append, List.cons_append] at same
  rw [(List.cons.inj same).1, first'] at first
  exact (Option.some.inj first).symm

/-- What may stand behind a phrase: nothing, or a character that is not plain. -/
def Ends (rest : List Char) : Prop := ∀ c ∈ rest.head?, isPlain c = false

theorem ends_behind (ps : List Phrase) (rest : List Char) : Ends (behind ps ++ rest) := by
  cases ps with
  | nil =>
      rintro _ ⟨⟩
      rfl
  | cons p ps =>
      rintro _ ⟨⟩
      rfl

/-- A plain text goes on to the first character that is not plain. -/
theorem plain_append_inj {as bs u v : List Char} (plain : ∀ c ∈ as, isPlain c = true)
    (plain' : ∀ c ∈ bs, isPlain c = true) (ends : Ends u) (ends' : Ends v)
    (same : as ++ u = bs ++ v) : as = bs ∧ u = v := by
  have taken : ∀ {cs rest : List Char}, (∀ c ∈ cs, isPlain c = true) → Ends rest →
      (cs ++ rest).takeWhile isPlain = cs := by
    intro cs rest plain ends
    rw [List.takeWhile_append_of_pos plain]
    cases rest with
    | nil => exact List.append_nil cs
    | cons c rest =>
        rw [List.takeWhile_cons_of_neg (Bool.eq_false_iff.mp (ends c rfl)), List.append_nil]
  have fronts := congrArg (List.takeWhile isPlain) same
  rw [taken plain ends, taken plain' ends'] at fronts
  cases fronts
  exact ⟨rfl, List.append_cancel_left same⟩

/-- A closing parenthesis begins no phrase. -/
theorem inside_cons_ne {p : Phrase} (h : p.WellFormed) {ps : List Phrase} {u v : List Char} :
    inside (p :: ps) ++ u ≠ inside [] ++ v := by
  obtain ⟨c, cs, split, first⟩ := text_cons h
  intro same
  simp only [inside, split, List.cons_append] at same
  rw [(List.cons.inj same).1] at first
  cases first

/-- Parts behind another one are parts behind a blank. -/
theorem inside_eq_of_behind {ps qs : List Phrase} {u v : List Char}
    (same : behind ps ++ u = behind qs ++ v) : inside ps ++ u = inside qs ++ v := by
  cases ps with
  | nil =>
      cases qs with
      | nil => exact same
      | cons q qs => cases (List.cons.inj same).1
  | cons p ps =>
      cases qs with
      | nil => cases (List.cons.inj same).1
      | cons q qs => exact (List.cons.inj same).2

/-! ## Unique reading -/

mutual

/-- A text goes on exactly up to where its phrase ends. -/
theorem text_append_inj : ∀ (p : Phrase) {q : Phrase} {u v : List Char}, p.WellFormed →
    q.WellFormed → Ends u → Ends v → p.text ++ u = q.text ++ v → p = q ∧ u = v
  | word w, q, u, v, h, h', ends, ends', same => by
      have shapes := shape_eq h h' same
      cases q with
      | word w' =>
          cases h with
          | word isWord =>
              cases h' with
              | word isWord' =>
                  obtain ⟨texts, rest⟩ := plain_append_inj (isWord_iff.mp isWord).2.1
                    (isWord_iff.mp isWord').2.1 ends ends' same
                  exact ⟨congrArg word (String.toList_injective texts), rest⟩
      | number => cases shapes
      | quoted => cases shapes
      | row => cases shapes
  | number x, q, u, v, h, h', ends, ends', same => by
      have shapes := shape_eq h h' same
      cases q with
      | word => cases shapes
      | number y =>
          cases h with
          | number unsigned finite =>
              cases h' with
              | number unsigned' finite' =>
                  obtain ⟨texts, rest⟩ := plain_append_inj (number_shape unsigned finite).2
                    (number_shape unsigned' finite').2 ends ends' same
                  have numbers := Decimal.eq_of_text_eq numberLayout unsigned unsigned'
                    (String.toList_injective texts)
                  exact ⟨congrArg number numbers, rest⟩
      | quoted => cases shapes
      | row => cases shapes
  | quoted s, q, u, v, h, h', ends, ends', same => by
      have shapes := shape_eq h h' same
      cases q with
      | word => cases shapes
      | number => cases shapes
      | quoted s' =>
          cases h with
          | quoted inner =>
              cases h' with
              | quoted inner' =>
                  rw [text, text, List.cons_append, List.cons_append, List.append_assoc,
                    List.append_assoc] at same
                  obtain ⟨texts, rest⟩ :=
                    Text.append_inj_at_first inner inner' (List.cons.inj same).2
                  exact ⟨congrArg quoted (String.toList_injective texts), rest⟩
      | row => cases shapes
  | row ps, q, u, v, h, h', ends, ends', same => by
      have shapes := shape_eq h h' same
      cases q with
      | word => cases shapes
      | number => cases shapes
      | quoted => cases shapes
      | row qs =>
          cases h with
          | row all =>
              cases h' with
              | row all' =>
                  obtain ⟨parts, rest⟩ := inside_append_inj ps all all' (List.cons.inj same).2
                  exact ⟨congrArg row parts, rest⟩

/-- A row goes on exactly up to its closing parenthesis. -/
theorem inside_append_inj : ∀ (ps : List Phrase) {qs : List Phrase} {u v : List Char},
    (∀ p ∈ ps, p.WellFormed) → (∀ q ∈ qs, q.WellFormed) →
      inside ps ++ u = inside qs ++ v → ps = qs ∧ u = v
  | [], [], u, v, _, _, same => ⟨rfl, (List.cons.inj same).2⟩
  | [], q :: qs, u, v, _, all', same => by
      exact absurd same.symm (inside_cons_ne (all' q List.mem_cons_self))
  | p :: ps, [], u, v, all, _, same => by
      exact absurd same (inside_cons_ne (all p List.mem_cons_self))
  | p :: ps, q :: qs, u, v, all, all', same => by
      rw [inside, inside, List.append_assoc, List.append_assoc] at same
      obtain ⟨first, more⟩ := List.forall_mem_cons.mp all
      obtain ⟨first', more'⟩ := List.forall_mem_cons.mp all'
      obtain ⟨parts, rest⟩ :=
        text_append_inj p first first' (ends_behind ps u) (ends_behind qs v) same
      obtain ⟨others, rest⟩ := inside_append_inj ps more more' (inside_eq_of_behind rest)
      exact ⟨congrArg₂ List.cons parts others, rest⟩

end

/-- No two phrases have the same text. -/
theorem eq_of_text_eq {p q : Phrase} (h : p.WellFormed) (h' : q.WellFormed)
    (same : p.text = q.text) : p = q := by
  have nothing : Ends [] := nofun
  exact (text_append_inj p h h' nothing nothing (congrArg (· ++ []) same)).1

end Phrase

end ScriptFront
