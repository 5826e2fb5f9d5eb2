import ScriptFront.Report.Layout

/-! # Carets — where the marks of an excerpt stand

    A reader sees the carets of an excerpt below what they mark if both rows are indented alike.
    What stands before the mark is copied with its tabs, so the rows differ in their margins only:
    the carets have the blank gutter before them, and the line has its number, which takes more
    than the gutter when it has more than four digits.

    * `excerpt_of_view`: an excerpt is the reported line, the lines next to it, and the carets;
    * `displayColumn_underline`: tabs before the mark are seen alike in both rows;
    * `carets_stand_under_their_text`: so the mark is hit exactly up to line 9999. -/

namespace ScriptFront.Report

/-! ## Views -/

/-- A text around one of its lines: the lines shown next to it, and those that are not shown. -/
structure View where
  before : List (List Char)
  above : List (List Char)
  text : List Char
  below : List (List Char)
  after : List (List Char)

namespace View

/-- All lines of the text. -/
def lines (v : View) : List (List Char) := v.before ++ v.above ++ v.text :: (v.below ++ v.after)

/-- The number of the line, counted from one. -/
def number (v : View) : Nat := v.before.length + v.above.length + 1

/-- At most one line is shown on each side, and none only if there is none. -/
structure Narrow (v : View) : Prop where
  above_le : v.above.length ≤ 1
  before_nil : v.above = [] → v.before = []
  below_le : v.below.length ≤ 1
  after_nil : v.below = [] → v.after = []

/-- The rows of the lines with their numbers, with a row of carets below the line in the middle. -/
def rows (v : View) (caretRow : List Char) : List Char :=
  emptyRow ++ v.above.flatMap (numbered (v.number - 1)) ++ numbered v.number v.text ++ caretRow
    ++ v.below.flatMap (numbered (v.number + 1)) ++ emptyRow

end View

/-- There is a view of every line of a text. -/
theorem exists_view {lines : List (List Char)} {i : Nat} {text : List Char}
    (line : lines[i]? = some text) :
    ∃ v : View, v.lines = lines ∧ v.text = text ∧ v.number = i + 1 ∧ v.Narrow := by
  obtain ⟨inside, here⟩ := List.getElem?_eq_some_iff.mp line
  have front : lines.take (i - 1) ++ (lines.take i).drop (i - 1) = lines.take i := by
    rw [← List.take_append_drop (i - 1) (lines.take i), List.take_take,
      Nat.min_eq_left (Nat.sub_le i 1), List.drop_left' (by simp; omega)]
  have rest : lines.drop (i + 2) = (lines.drop (i + 1)).drop 1 := by rw [List.drop_drop]
  refine ⟨⟨lines.take (i - 1), (lines.take i).drop (i - 1), text, (lines.drop (i + 1)).take 1,
    lines.drop (i + 2)⟩, ?_, rfl, ?_, ?_⟩
  · rw [View.lines, front, rest, List.take_append_drop, ← here,
      ← List.drop_eq_getElem_cons inside, List.take_append_drop]
  · simp only [View.number, List.length_take, List.length_drop]
    omega
  · refine ⟨?_, fun none => ?_, List.length_take_le _ _, fun none => ?_⟩
    · simp only [List.length_drop, List.length_take]
      omega
    · have first : i = 0 := by
        have size := congrArg List.length none
        simp only [List.length_drop, List.length_take, List.length_nil] at size
        omega
      rw [first]
      rfl
    · have last : lines.drop (i + 1) = [] := by simpa using none
      show lines.drop (i + 2) = []
      rw [rest, last]
      rfl

/-- A text of some lines has the line in the middle of a view at its place. -/
theorem index?_lines {v : View} {line : Int} (reported : line = v.number) :
    index? v.lines line = some (v.before.length + v.above.length) := by
  have inside : 1 ≤ line ∧ line ≤ v.lines.length := by
    simp only [reported, View.number, View.lines, List.length_append, List.length_cons]
    omega
  rw [index?, if_pos inside, reported, View.number]
  refine congrArg some ?_
  omega

/-- The neighbours of the line in the middle of a narrow view are the lines next to it. -/
theorem neighbours_lines {v : View} (narrow : v.Narrow) :
    neighbours v.lines (v.before.length + v.above.length)
      = v.above.zipIdx (v.number - 1) ++ (v.text, v.number) :: v.below.zipIdx (v.number + 1) := by
  obtain ⟨before, above, text, below, after⟩ := v
  obtain ⟨aboveLe, beforeNil, belowLe, afterNil⟩ := narrow
  simp only at aboveLe beforeNil belowLe afterNil
  have behind : ∀ k, ((below ++ after).zipIdx k).take 1 = below.zipIdx k := by
    intro k
    rcases below with _ | ⟨b, _ | ⟨b', below⟩⟩
    · rw [afterNil rfl]
      rfl
    · rfl
    · simp at belowLe
  rcases above with _ | ⟨a, _ | ⟨a', above⟩⟩
  · -- the first line of the text has none before it
    cases beforeNil rfl
    show (text, 1) :: ((below ++ after).zipIdx 2).take 1 = (text, 1) :: below.zipIdx 2
    rw [behind]
  · have number : (⟨before, [a], text, below, after⟩ : View).number = before.length + 2 := rfl
    have size : (before.zipIdx 1).length = before.length := List.length_zipIdx
    rw [number, neighbours, View.lines, List.append_assoc, List.zipIdx_append]
    simp only [List.length_singleton, Nat.add_sub_cancel]
    have three : before.length + 1 + 2 - before.length = 3 := by omega
    rw [List.drop_left' size, three, Nat.add_comm 1]
    show (a, before.length + 1) :: (text, before.length + 2)
      :: ((below ++ after).zipIdx (before.length + 3)).take 1 = _
    rw [behind]
    rfl
  · simp at aboveLe

/-- Rows that are not the reported one have no carets below them. -/
theorem flatMap_row {l : Location} {n : Nat} {texts : List (List Char)} (few : texts.length ≤ 1)
    (other : (n : Int) ≠ l.line) :
    (texts.zipIdx n).flatMap (row l) = texts.flatMap (numbered n) := by
  rcases texts with _ | ⟨t, _ | ⟨t', texts⟩⟩
  · rfl
  · simp [row, other]
  · simp at few

/-- An excerpt is the reported line with the lines next to it, and the carets below it. -/
theorem excerpt_of_view {v : View} (narrow : v.Narrow) {l : Location}
    (reported : l.line = v.number) :
    excerpt v.lines l = v.rows (underline v.text l.column l.length) := by
  have above : ((v.number - 1 : Nat) : Int) ≠ l.line := by
    rw [reported, View.number]
    omega
  have below : ((v.number + 1 : Nat) : Int) ≠ l.line := by
    rw [reported]
    omega
  have middle : row l (v.text, v.number)
      = numbered v.number v.text ++ underline v.text l.column l.length := by
    simp [row, reported]
  rw [excerpt, index?_lines reported]
  simp only
  rw [neighbours_lines narrow, List.flatMap_append, List.flatMap_cons, middle,
    flatMap_row narrow.above_le above, flatMap_row narrow.below_le below, View.rows]
  simp only [List.append_assoc]

/-! ## Columns -/

/-- The display column behind a character: a tab takes the cursor to the next multiple of the tab
    width, any other character takes one column. -/
def displayAdvance (tabWidth column : Nat) (c : Char) : Nat :=
  if c = '\t' then (column / tabWidth + 1) * tabWidth else column + 1

/-- The display column at which a row stands behind some characters. -/
def displayColumn (tabWidth : Nat) (cs : List Char) : Nat :=
  cs.foldl (displayAdvance tabWidth) 0

/-- What stands before the text of a line that is shown with its number. -/
def margin (n : Nat) : List Char := rightAligned (gutterWidth - 1) n ++ [' ', '|', ' ']

/-- What stands before the indented carets. -/
def caretMargin : List Char := blankGutter ++ ['|', ' ']

theorem numbered_eq (n : Nat) (text : List Char) :
    numbered n text = margin n ++ text ++ ['\n'] := by
  simp [numbered, margin]

/-- Without tabs every character takes one column. -/
theorem foldl_displayAdvance_of_no_tab (tabWidth column : Nat) {cs : List Char}
    (plain : '\t' ∉ cs) : cs.foldl (displayAdvance tabWidth) column = column + cs.length := by
  induction cs generalizing column with
  | nil => rfl
  | cons c cs ih =>
      rw [List.mem_cons, not_or] at plain
      rw [List.foldl_cons, ih _ plain.2, displayAdvance, if_neg (Ne.symm plain.1),
        List.length_cons]
      omega

/-- A tab width of one makes tabs take one column as well. -/
theorem foldl_displayAdvance_one (column : Nat) (cs : List Char) :
    cs.foldl (displayAdvance 1) column = column + cs.length := by
  induction cs generalizing column with
  | nil => rfl
  | cons c cs ih =>
      have one : displayAdvance 1 column c = column + 1 := by
        simp [displayAdvance]
      rw [List.foldl_cons, ih, one, List.length_cons]
      omega

/-- An indent is as wide as the text it stands for, wherever both begin. -/
theorem foldl_displayAdvance_indent (tabWidth start : Nat) (text : List Char) (column : Int) :
    (indent text column).foldl (displayAdvance tabWidth) start
      = (text.take (column - 1).toNat).foldl (displayAdvance tabWidth) start := by
  have same : ∀ k c, displayAdvance tabWidth k (if c = '\t' then '\t' else ' ')
      = displayAdvance tabWidth k c := by
    intro k c
    by_cases tab : c = '\t'
    · rw [if_pos tab, tab]
    · rw [if_neg tab, displayAdvance, displayAdvance, if_neg tab, if_neg (by decide)]
  rw [indent, List.foldl_map]
  simp only [same]

/-- No caret stands in an indent. -/
theorem caret_not_mem_indent (text : List Char) (column : Int) : '^' ∉ indent text column := by
  intro mem
  obtain ⟨c, -, same⟩ := List.mem_map.mp mem
  split at same
  · exact absurd same (by decide)
  · exact absurd same (by decide)

theorem length_caretMargin : caretMargin.length = 7 := rfl

theorem length_margin (n : Nat) : (margin n).length = max 4 (Nat.toDigits 10 n).length + 3 := by
  simp only [margin, rightAligned, gutterWidth, List.length_append, List.length_replicate,
    List.length_cons, List.length_nil]
  omega

theorem tab_not_mem_margin (n : Nat) : '\t' ∉ margin n := by
  intro mem
  simp only [margin, rightAligned, List.mem_append, List.mem_replicate] at mem
  rcases mem with (⟨-, blank⟩ | digit) | rest
  · exact absurd blank (by decide)
  · exact absurd (Nat.isDigit_of_mem_toDigits (by decide) (by decide) digit) (by decide)
  · exact absurd rest (by decide)

/-- The margins of both rows are equally wide up to four digits. -/
theorem length_margin_eq_iff (n : Nat) : (margin n).length = caretMargin.length ↔ n < 10000 := by
  have digits : (Nat.toDigits 10 n).length ≤ 4 ↔ n < 10 ^ 4 :=
    Nat.length_toDigits_le_iff (by decide) (by decide)
  rw [length_margin, length_caretMargin]
  omega

/-- The carets stand below the mark, whatever the tab width, exactly if the margins are equally
    wide. -/
theorem displayColumn_indent_iff (n : Nat) (text : List Char) (column : Int) :
    (∀ tabWidth, 0 < tabWidth → displayColumn tabWidth (caretMargin ++ indent text column)
        = displayColumn tabWidth (margin n ++ text.take (column - 1).toNat))
      ↔ n < 10000 := by
  rw [← length_margin_eq_iff]
  constructor
  · intro aligned
    have ones := aligned 1 Nat.one_pos
    rw [displayColumn, displayColumn, foldl_displayAdvance_one, foldl_displayAdvance_one] at ones
    simp only [List.length_append, indent, List.length_map] at ones
    omega
  · intro same tabWidth _
    have plain : '\t' ∉ caretMargin := by decide
    rw [displayColumn, displayColumn, List.foldl_append, List.foldl_append,
      foldl_displayAdvance_indent, foldl_displayAdvance_of_no_tab _ _ plain,
      foldl_displayAdvance_of_no_tab _ _ (tab_not_mem_margin n), same]

/-! ## Marks -/

/-- The excerpt of a diagnostic shows the reported line with the lines next to it, each once and
    with its number, and as many carets as are to be marked below the reported line.  The first
    caret stands in the display column of the mark for every tab width exactly if the line has a
    number of at most four digits. -/
theorem carets_stand_under_their_text (sources : Sources) (d : Diagnostic) {source : String}
    {text : List Char} {i : Nat} (known : sources.lookup d.location.file = some source)
    (line : (Text.Lines.split source.toList)[i]? = some text)
    (reported : d.location.line = i + 1) (begins : 1 ≤ d.location.column)
    (ends : d.location.column ≤ text.length + 1) (some : 1 ≤ d.location.length) :
    ∃ (v : View) (caretRow front ahead marked blank : List Char),
      v.lines = Text.Lines.split source.toList ∧ v.number = i + 1 ∧ v.Narrow
      ∧ layout sources d = header d ++ pointer d.location ++ String.ofList (v.rows caretRow)
        ++ hint d.help ++ String.join (d.related.map footnote)
      ∧ numbered v.number v.text = front ++ ahead ++ marked ++ ['\n']
      ∧ v.text = ahead ++ marked ∧ (ahead.length : Int) + 1 = d.location.column
      ∧ caretRow = blank ++ List.replicate d.location.length.toNat '^' ++ ['\n'] ∧ '^' ∉ blank
      ∧ ((∀ tabWidth, 0 < tabWidth →
          displayColumn tabWidth blank = displayColumn tabWidth (front ++ ahead))
        ↔ v.number < 10000) := by
  obtain ⟨v, lines, rfl, number, narrow⟩ := exists_view line
  have place : d.location.line = v.number := by
    rw [reported, number]
    rfl
  have shown : excerpt (sources.lines d.location.file) d.location
      = v.rows (underline v.text d.location.column d.location.length) := by
    rw [Sources.lines, known, ← excerpt_of_view narrow place, lines]
  have marks : carets d.location.length = List.replicate d.location.length.toNat '^' := by
    rw [carets, Int.max_eq_right some]
  refine ⟨v, underline v.text d.location.column d.location.length, margin v.number,
    v.text.take (d.location.column - 1).toNat, v.text.drop (d.location.column - 1).toNat,
    caretMargin ++ indent v.text d.location.column, lines, number, narrow, ?_, ?_, ?_, ?_, ?_, ?_,
    displayColumn_indent_iff v.number v.text d.location.column⟩
  · rw [layout, shown]
  · rw [numbered_eq, List.append_assoc (margin _) (List.take _ _), List.take_append_drop]
  · rw [List.take_append_drop]
  · rw [List.length_take]
    omega
  · rw [underline, marks, caretMargin]
  · rw [List.mem_append, not_or]
    exact ⟨by decide, caret_not_mem_indent v.text d.location.column⟩

/-- Two carets stand below the last letter of a line with tabs, whatever the tab width. -/
theorem mark_behind_tabs_is_hit :
    let source := "a\n\tb\tc!\nd"
    let d : Diagnostic :=
      { severity := .error, message := "m", location := ⟨"f", 2, 4, 2⟩ }
    layout [("f", source)] d = "error: m\n  --> f:2:4\n     |\n   1 | a\n   2 | \tb\tc!\n"
      ++ "     | \t \t^^\n   3 | d\n     |\n"
    ∧ ∃ (v : View) (caretRow front ahead marked blank : List Char),
      v.number = 2 ∧ v.text = ahead ++ marked ∧ (ahead.length : Int) + 1 = 4
      ∧ numbered v.number v.text = front ++ ahead ++ marked ++ ['\n']
      ∧ caretRow = blank ++ ['^', '^'] ++ ['\n'] ∧ '^' ∉ blank
      ∧ layout [("f", source)] d = header d ++ pointer d.location ++ String.ofList (v.rows caretRow)
        ++ hint d.help ++ String.join (d.related.map footnote)
      ∧ ∀ tabWidth, 0 < tabWidth →
        displayColumn tabWidth blank = displayColumn tabWidth (front ++ ahead) := by
  intro source d
  refine ⟨by decide +kernel, ?_⟩
  have line : (Text.Lines.split source.toList)[1]? = some ['\t', 'b', '\t', 'c', '!'] := by
    decide +kernel
  obtain ⟨v, caretRow, front, ahead, marked, blank, -, number, -, shown, row, split, column, carets,
      bare, aligned⟩ :=
    carets_stand_under_their_text [("f", source)] d rfl line rfl (by decide) (by decide) (by decide)
  refine ⟨v, caretRow, front, ahead, marked, blank, number, split, column, row, carets, bare, shown,
    aligned.mpr ?_⟩
  rw [number]
  decide

/-- A text of newlines has an empty line for each, before the lines of what comes behind them. -/
theorem split_newlines (n : Nat) (cs : List Char) :
    Text.Lines.split (List.replicate n '\n' ++ cs)
      = List.replicate n [] ++ Text.Lines.split cs := by
  induction n with
  | zero => rfl
  | succ n ih =>
      rw [List.replicate_succ, List.cons_append, Text.Lines.split_newline, ih]
      rfl

/-- From line 10000 on the number pushes the line to the right, but not the carets below it. -/
theorem caret_misses_line_ten_thousand :
    let source := String.ofList (List.replicate 9999 '\n' ++ ['x'])
    let d : Diagnostic :=
      { severity := .error, message := "m", location := ⟨"f", 10000, 1, 1⟩ }
    layout [("f", source)] d
      = "error: m\n  --> f:10000:1\n     |\n9999 | \n10000 | x\n     | ^\n     |\n"
    ∧ ∀ tabWidth, displayColumn tabWidth "     | ".toList = 7
      ∧ displayColumn tabWidth "10000 | ".toList = 8 := by
  intro source d
  let v : View := ⟨List.replicate 9998 [], [[]], ['x'], [], []⟩
  have size : v.number = 10000 := by
    simp only [v, View.number, List.length_replicate, List.length_singleton]
  have lines : Text.Lines.split source.toList = v.lines := by
    rw [String.toList_ofList, split_newlines, List.replicate_succ' (n := 9998)]
    rfl
  have narrow : v.Narrow := ⟨by decide, nofun, by decide, fun _ => rfl⟩
  have shown : excerpt (Sources.lines [("f", source)] "f") d.location
      = v.rows (underline ['x'] 1 1) := by
    have place : d.location.line = v.number := by
      rw [size]
      rfl
    have known : Sources.lines [("f", source)] "f" = v.lines := lines
    rw [known]
    exact excerpt_of_view narrow place
  rw [View.rows, size] at shown
  refine ⟨?_, fun tabWidth => ⟨?_, ?_⟩⟩
  · have text : header d ++ pointer d.location
        ++ String.ofList (emptyRow ++ v.above.flatMap (numbered 9999) ++ numbered 10000 ['x']
          ++ underline ['x'] 1 1 ++ [] ++ emptyRow) ++ hint none ++ ""
        = "error: m\n  --> f:10000:1\n     |\n9999 | \n10000 | x\n     | ^\n     |\n" := by
      decide +kernel
    rw [layout, shown, ← text]
    rfl
  · exact foldl_displayAdvance_of_no_tab tabWidth 0 (by decide)
  · exact foldl_displayAdvance_of_no_tab tabWidth 0 (by decide)

end ScriptFront.Report
