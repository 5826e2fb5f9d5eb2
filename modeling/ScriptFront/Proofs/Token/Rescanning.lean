import ScriptFront.Proofs.Token.MaximalMunch

/-! # Rescanning — one scanner, many scans

    A scanner keeps six numbers beside its text: where the lexeme that was read last starts and
    where the unread text does, as offsets and as places (`Scanner.Cursor`).  A scan goes back to
    the beginning with both offsets and the place of the unread text, and leaves the place of the
    lexeme as it is.  That is stale until the first lexeme is taken, and is not looked at before:
    where two scanners have the same text to read, from the same place on, they take the same
    lexemes and, if there is any to take, end as the same scanner (`Scanner.run_eq_of_unread`).  So
    whatever a scan has left behind, the next one ends as the first scan of the text does
    (`scanners_are_reusable`). -/

namespace ScriptFront

namespace Scanner

/-! ## Stale lexemes -/

/-- What is taken does not depend on the lexeme that was taken before. -/
theorem take_eq {s s' : Scanner} (source : s.source = s'.source)
    (position : s.position = s'.position) (c : Char) (m : Munch) : s.take c m = s'.take c m := by
  obtain ⟨_, unread, place, lexeme, start⟩ := s
  obtain ⟨_, unread', place', lexeme', start'⟩ := s'
  cases source
  cases position
  rfl

/-- Scanners that have the same to read, from the same place on, come to the same result; and if
    there is anything to read, they end in the same state. -/
theorem run_eq_of_unread {s s' : Scanner} (source : s.source = s'.source)
    (unread : s.unread = s'.unread) (position : s.position = s'.position) :
    s.run.1 = s'.run.1 ∧ (s.unread ≠ [] → s.run = s'.run) := by
  cases next : s.unread with
  | nil =>
      rw [run_of_nil next, run_of_nil (unread.symm.trans next), position]
      exact ⟨rfl, absurd rfl⟩
  | cons c cs =>
      have same : s.run = s'.run := by
        rw [run_of_cons next, run_of_cons (unread.symm.trans next),
          take_eq source position c (munch c cs)]
      exact ⟨congrArg Prod.fst same, fun _ => same⟩

/-! ## One lexeme after the other -/

/-- What holds of a scanner with nothing to read, and of any other if it holds behind the first
    lexeme or blank, holds of all scanners. -/
theorem induction_by_taking {P : Scanner → Prop} (done : ∀ s, s.unread = [] → P s)
    (take : ∀ s c cs, s.unread = c :: cs → P (s.take c (munch c cs)) → P s) (s : Scanner) :
    P s := by
  cases next : s.unread with
  | nil => exact done s next
  | cons c cs =>
      exact take s c cs next (induction_by_taking done take (s.take c (munch c cs)))
termination_by s.unread.length
decreasing_by
  rw [next]
  exact Nat.lt_succ_of_le (munch_rest_length_le c cs)

/-- Behind a lexeme or a blank a scanner goes on to the end, and to the problem if there is one;
    where there is none it stops, and the problem is there. -/
theorem run_take {s : Scanner} {c : Char} {cs : List Char} (next : s.unread = c :: cs) :
    (s.run.2 = (s.take c (munch c cs)).run.2
      ∧ ∀ p, s.run.1 = .error p → (s.take c (munch c cs)).run.1 = .error p)
    ∨ ∃ cause, s.run = (.error ((s.take c (munch c cs)).problem cause), s.take c (munch c cs)) := by
  rw [run_of_cons next]
  cases (munch c cs).piece with
  | blank => exact .inl ⟨rfl, fun _ => id⟩
  | lexeme k =>
      refine .inl ⟨rfl, fun p failed => ?_⟩
      cases read : (s.take c (munch c cs)).run.1 with
      | ok tokens =>
          simp only [read] at failed
          cases failed
      | error q =>
          simp only [read] at failed
          exact failed
  | unexpected => exact .inr ⟨_, rfl⟩
  | unterminated => exact .inr ⟨_, rfl⟩

/-- A scan keeps the text. -/
theorem source_run (s : Scanner) : s.run.2.source = s.source := by
  induction s using induction_by_taking with
  | done s none => rw [run_of_nil none]
  | take s c cs next ih =>
      obtain ⟨state, -⟩ | ⟨cause, stopped⟩ := run_take next
      · rw [state]
        exact ih
      · rw [stopped]
        rfl

/-- A scan that comes to a problem leaves the scanner at the lexeme that is the problem. -/
theorem start_of_problem (s : Scanner) {p : Problem} (failed : s.run.1 = .error p) :
    ∃ cause, p = s.run.2.problem cause := by
  induction s using induction_by_taking with
  | done s none =>
      rw [run_of_nil none] at failed
      cases failed
  | take s c cs next ih =>
      obtain ⟨state, goesOn⟩ | ⟨cause, stopped⟩ := run_take next
      · rw [state]
        exact ih (goesOn p failed)
      · rw [stopped] at failed ⊢
        cases failed
        exact ⟨cause, rfl⟩

/-! ## One scan after the other -/

/-- A scan ends as that of a scanner that has read nothing yet, and in the same state unless the
    text is empty. -/
theorem scan_eq (s : Scanner) :
    s.scan.1 = ScriptFront.scan (String.ofList s.source)
    ∧ (s.source ≠ [] → s.scan = (ofSource (String.ofList s.source)).scan) := by
  have chars : (String.ofList s.source).toList = s.source := String.toList_ofList
  have fresh : s.source = (ofSource (String.ofList s.source)).rewind.source := chars.symm
  obtain ⟨result, state⟩ := run_eq_of_unread (s := s.rewind) fresh fresh rfl
  exact ⟨result, state⟩

/-- All scans with one scanner end as that of a scanner that has read nothing yet. -/
theorem scanTimes_eq (s : Scanner) (n : Nat) :
    s.scanTimes n = List.replicate n (ScriptFront.scan (String.ofList s.source)) := by
  induction n generalizing s with
  | zero => rfl
  | succ n ih =>
      have kept : s.scan.2.source = s.source := source_run s.rewind
      rw [scanTimes, ih, kept, s.scan_eq.1, List.replicate_succ]

/-! ## Cursors -/

/-- Where a scanner stands: the offset and the place of the lexeme that was read last, and the
    offset and the place of what is unread. -/
structure Cursor where
  start : Nat
  current : Nat
  line : Int
  column : Int
  startLine : Int
  startColumn : Int

/-- The scanner of a text that stands at a cursor. -/
def standingAt (source : List Char) (c : Cursor) : Scanner where
  source
  unread := source.drop c.current
  position := ⟨c.line, c.column⟩
  lexeme := (source.drop c.start).take (c.current - c.start)
  start := ⟨c.startLine, c.startColumn⟩

/-- Behind one munch a text goes on with what the munch leaves. -/
theorem drop_munch {text cs : List Char} {c : Char} {n : Nat} (h : text.drop n = c :: cs) :
    text.drop (n + (1 + (munch c cs).tail.length)) = (munch c cs).rest := by
  have rest := congrArg (List.drop (munch c cs).tail.length) (munch_append c cs)
  rw [List.drop_left] at rest
  rw [← List.drop_drop, h, Nat.add_comm, List.drop_succ_cons, ← rest]

/-- Before what a munch leaves stands what it takes. -/
theorem take_munch {text cs : List Char} {c : Char} {n : Nat} (h : text.drop n = c :: cs) :
    (text.drop n).take (1 + (munch c cs).tail.length) = c :: (munch c cs).tail := by
  have front := congrArg (List.take (munch c cs).tail.length) (munch_append c cs)
  rw [List.take_left] at front
  rw [h, Nat.add_comm, List.take_succ_cons, ← front]

/-- A scanner that has taken a lexeme stands at a cursor. -/
theorem take_stands {s : Scanner} {n : Nat} {c : Char} {cs : List Char}
    (h : s.source.drop n = c :: cs) :
    ∃ cursor, s.take c (munch c cs) = standingAt s.source cursor := by
  let place := s.position.after (c :: (munch c cs).tail)
  refine ⟨⟨n, n + (1 + (munch c cs).tail.length), place.line, place.column, s.position.line,
    s.position.column⟩, ?_⟩
  simp only [standingAt, drop_munch h, Nat.add_sub_cancel_left, take_munch h]
  rfl

/-- A scanner that has anything to read ends at a cursor. -/
theorem run_stands (s : Scanner) {n : Nat} (unread : s.unread = s.source.drop n)
    (some : s.unread ≠ []) : ∃ cursor, s.run.2 = standingAt s.source cursor := by
  induction s using induction_by_taking generalizing n with
  | done s none => exact absurd none some
  | take s c cs next ih =>
      have here : s.source.drop n = c :: cs := unread.symm.trans next
      obtain ⟨state, -⟩ | ⟨cause, stopped⟩ := run_take next
      · rw [state]
        by_cases more : (s.take c (munch c cs)).unread = []
        · rw [run_of_nil more]
          exact take_stands here
        · exact ih (drop_munch here).symm more
      · rw [stopped]
        exact take_stands here

end Scanner

/-- A scanner can be used again.  Wherever it stands, and whatever it took last, any number of scans
    all end as the one scan of its text does: with the same tokens or the same problem.  Unless the
    text is empty, the scanner is the same behind each scan, and stands at a cursor again; behind a
    scan that came to a problem that is where the problem is. -/
theorem scanners_are_reusable (source : String) (n : Nat) :
    (∀ cursor : Scanner.Cursor,
      (Scanner.standingAt source.toList cursor).scanTimes n = List.replicate n (scan source))
    ∧ ∀ s : Scanner, s.source = source.toList →
        s.scan.1 = scan source
        ∧ s.scanTimes n = List.replicate n (scan source)
        ∧ (∀ p, scan source = .error p → ∃ cause, p = s.scan.2.problem cause)
        ∧ (source ≠ "" →
            s.scan.2 = (Scanner.ofSource source).scan.2
            ∧ ∃ cursor, s.scan.2 = Scanner.standingAt source.toList cursor) := by
  have text : ∀ s : Scanner, s.source = source.toList → String.ofList s.source = source := by
    intro s own
    rw [own, String.ofList_toList]
  constructor
  · intro cursor
    rw [Scanner.scanTimes_eq, text _ rfl]
  · intro s own
    have result : s.scan.1 = scan source := by rw [s.scan_eq.1, text s own]
    refine ⟨result, ?_, ?_, ?_⟩
    · rw [s.scanTimes_eq, text s own]
    · intro p failed
      exact s.rewind.start_of_problem (result.trans failed)
    · intro some
      have unread : s.source ≠ [] := by
        rw [own]
        exact fun empty => some (String.toList_eq_nil_iff.mp empty)
      have state := s.scan_eq.2 unread
      rw [text s own] at state
      obtain ⟨cursor, stands⟩ := s.rewind.run_stands (n := 0) rfl unread
      refine ⟨congrArg Prod.snd state, cursor, ?_⟩
      rw [← own]
      exact stands

/-- A scanner that stands anywhere finds a string that is not closed twice in the same place, and is
    left there with nothing to read. -/
theorem open_string_is_found_again :
    let source := "a \"b"
    let s : Scanner := ⟨source.toList, ['b'], ⟨7, 5⟩, ['?'], ⟨3, 9⟩⟩
    let p : Problem := .ofCause .unterminatedString ⟨1, 3⟩
    s.scanTimes 2 = [.error p, .error p]
    ∧ s.scan.2.unread = [] ∧ s.scan.2.start = ⟨1, 3⟩
    ∧ (∃ cause, p = s.scan.2.problem cause)
    ∧ s.scan.2 = (Scanner.ofSource source).scan.2 := by
  intro source s p
  have failed : scan source = .error p := by decide +kernel
  obtain ⟨-, again, problem, state⟩ := (scanners_are_reusable source 2).2 s rfl
  rw [failed] at again
  exact ⟨again, by decide +kernel, by decide +kernel, problem p failed, (state (by decide)).1⟩

end ScriptFront
