import Mathlib.Data.List.Count
import ScriptFront.Proofs.Token.MaximalMunch

/-! # Joining — the scan of two texts with a newline between them

    No lexeme goes over a newline unless it is closed behind it, and a text that is scanned closes
    all it opens.  So what is read of a text is read in the same way when a newline and more text
    come behind it (`munch_newline`), and the scan of the whole is the two scans one after the
    other, the second moved down by the lines of the first (`scan_join`).

    * `Token.move`: a token in another place;
    * `Reads.lower`: a text that begins some lines further down;
    * `Reads.join`: the scanner carries nothing over the newline;
    * `scan_splits_at_newlines`: so a text can be cut at a newline behind what is scanned, and a
      problem in the second part is found where it stands in the whole. -/

namespace ScriptFront

open Decimal (isDigit)
open Text (isBlank)

/-! ## Other places -/

/-- A token in another place. -/
def Token.move (m : Position → Position) (t : Token) : Token := { t with position := m t.position }

namespace Token

variable (m : Position → Position) (t : Token)

@[simp] theorem kind_move : (t.move m).kind = t.kind := rfl

@[simp] theorem lexeme_move : (t.move m).lexeme = t.lexeme := rfl

@[simp] theorem literal_move : (t.move m).literal = t.literal := rfl

end Token

/-- A place some lines further down, in the same column. -/
def Position.lower (n : Nat) (p : Position) : Position := ⟨p.line + n, p.column⟩

theorem Position.advance_lower (n : Nat) (p : Position) (c : Char) :
    (p.lower n).advance c = (p.advance c).lower n := by
  by_cases newline : c = '\n'
  · rw [advance, advance, if_pos newline, if_pos newline]
    exact congrArg (fun line => Position.mk line 1) (Int.add_right_comm ..)
  · rw [advance, advance, if_neg newline, if_neg newline]
    rfl

theorem Position.after_lower (n : Nat) (p : Position) (cs : List Char) :
    (p.lower n).after cs = (p.after cs).lower n := by
  induction cs generalizing p with
  | nil => rfl
  | cons c cs ih => rw [after_cons, after_cons, advance_lower, ih]

/-- A text takes as many lines as it has newlines. -/
theorem Position.line_after (p : Position) (cs : List Char) :
    (p.after cs).line = p.line + cs.count '\n' := by
  induction cs generalizing p with
  | nil => simp
  | cons c cs ih =>
      rw [after_cons, ih, advance]
      by_cases newline : c = '\n'
      · rw [if_pos newline, newline, List.count_cons_self]
        show p.line + 1 + (cs.count '\n' : Int) = p.line + ((cs.count '\n' + 1 : Nat) : Int)
        omega
      · rw [if_neg newline, List.count_cons_of_ne newline]

/-- The line behind a text and a newline begins as a text does, further down. -/
theorem Position.advance_after (cs : List Char) :
    (origin.after cs).advance '\n' = origin.lower (1 + cs.count '\n') := by
  rw [advance, if_pos rfl, line_after, lower]
  refine congrArg (fun line => Position.mk line 1) ?_
  show 1 + (cs.count '\n' : Int) + 1 = 1 + ((1 + cs.count '\n' : Nat) : Int)
  omega

/-- A problem some lines further down, in the same column. -/
def Problem.lower (n : Nat) (p : Problem) : Problem := { p with line := p.line + n }

/-- What a text becomes that begins some lines further down. -/
def lowered (n : Nat) : Except Problem (List Token) → Except Problem (List Token)
  | .ok tokens => .ok (tokens.map (Token.move (Position.lower n)))
  | .error p => .error (p.lower n)

/-- A text is read further down as it is read at its beginning. -/
theorem Reads.lower {p : Position} {text : List Char} {result : Except Problem (List Token)}
    (h : Reads p text result) (n : Nat) : Reads (p.lower n) text (lowered n result) := by
  induction h with
  | done p => exact .done (p.lower n)
  | blank piece _ ih =>
      refine .blank piece ?_
      rw [Position.after_lower]
      exact ih
  | @lexeme p c cs result k piece _ ih =>
      rw [← Position.after_lower] at ih
      have first := Reads.lexeme piece ih
      cases result with
      | error q => exact first
      | ok rest => exact first
  | unexpected piece => exact .unexpected piece
  | unterminated piece => exact .unterminated piece

/-! ## A newline behind -/

section Stops

variable {P : Char → Bool} {d : Char} (stop : P d = false) (cs rest : List Char)

include stop

/-- What is taken as long as a condition holds ends at the latest where it does not. -/
theorem takeWhile_append_stop : (cs ++ d :: rest).takeWhile P = cs.takeWhile P := by
  induction cs with
  | nil => exact List.takeWhile_cons_of_neg (Bool.eq_false_iff.mp stop)
  | cons c cs ih =>
      rw [List.cons_append, List.takeWhile_cons, List.takeWhile_cons, ih]

theorem dropWhile_append_stop :
    (cs ++ d :: rest).dropWhile P = cs.dropWhile P ++ d :: rest := by
  induction cs with
  | nil => exact List.dropWhile_cons_of_neg (Bool.eq_false_iff.mp stop)
  | cons c cs ih =>
      rw [List.cons_append, List.dropWhile_cons, List.dropWhile_cons, ih]
      split
      · rfl
      · rw [List.cons_append]

end Stops

/-- The same munch with a newline and more text behind what it leaves. -/
def Munch.before (m : Munch) (rest : List Char) : Munch := { m with rest := m.rest ++ '\n' :: rest }

namespace Munch

theorem operator_newline (single : TokenKind) {doubles : List (Char × TokenKind)}
    (apart : doubles.lookup '\n' = none) (cs rest : List Char) :
    operator single doubles (cs ++ '\n' :: rest) = (operator single doubles cs).before rest := by
  cases cs with
  | nil =>
      simp only [List.nil_append, operator, apart]
      rfl
  | cons d cs =>
      rw [List.cons_append, operator, operator]
      split
      · rfl
      · rfl

theorem slash_newline (cs rest : List Char) :
    slash (cs ++ '\n' :: rest) = (slash cs).before rest := by
  cases cs with
  | nil => rfl
  | cons d cs =>
      by_cases second : d = '/'
      · -- a comment ends at the newline, if not before
        rw [second, List.cons_append, slash, slash, takeWhile_append_stop (by decide),
          dropWhile_append_stop (by decide)]
        rfl
      · rw [List.cons_append, slash, slash]
        · rfl
        · exact fun _ same => second (List.cons.inj same).1
        · exact fun _ same => second (List.cons.inj same).1

theorem quoted_newline {cs : List Char} (closed : (quoted cs).piece ≠ .unterminated)
    (rest : List Char) : quoted (cs ++ '\n' :: rest) = (quoted cs).before rest := by
  induction cs with
  | nil => exact absurd rfl closed
  | cons d cs ih =>
      by_cases quote : d = '"'
      · rw [quote]
        rfl
      · -- the quote that closes the string is further behind
        have goesOn : (d != '"') = true := bne_iff_ne.mpr quote
        have later : ∀ cs, quoted (d :: cs)
            = ⟨(quoted cs).piece, d :: (quoted cs).tail, (quoted cs).rest⟩ := by
          intro cs
          simp only [quoted, List.dropWhile_cons, List.takeWhile_cons, goesOn, if_true]
          split
          · rfl
          · rfl
        rw [later] at closed ⊢
        rw [List.cons_append, later, ih closed]
        rfl

theorem number_of_fraction {cs ds : List Char} {d : Char}
    (point : cs.dropWhile isDigit = '.' :: d :: ds) (digit : isDigit d = true) :
    number cs = ⟨.lexeme .number, cs.takeWhile isDigit ++ '.' :: d :: ds.takeWhile isDigit,
      ds.dropWhile isDigit⟩ := by
  rw [number, point]
  simp only [digit, if_true]

theorem number_of_whole {cs : List Char}
    (whole : ∀ d ds, cs.dropWhile isDigit = '.' :: d :: ds → isDigit d = false) :
    number cs = ⟨.lexeme .number, cs.takeWhile isDigit, cs.dropWhile isDigit⟩ := by
  rw [number]
  split
  · next d ds point => rw [whole d ds point, if_neg Bool.false_ne_true, point]
  · rfl

theorem number_newline (cs rest : List Char) :
    number (cs ++ '\n' :: rest) = (number cs).before rest := by
  have stop : isDigit '\n' = false := by decide
  have behind := dropWhile_append_stop stop cs rest
  by_cases fraction : ∃ d ds, cs.dropWhile isDigit = '.' :: d :: ds ∧ isDigit d = true
  · obtain ⟨d, ds, point, digit⟩ := fraction
    rw [point, List.cons_append, List.cons_append] at behind
    rw [number_of_fraction point digit, number_of_fraction behind digit, takeWhile_append_stop stop,
      takeWhile_append_stop stop, dropWhile_append_stop stop]
    rfl
  · have whole : ∀ d ds, cs.dropWhile isDigit = '.' :: d :: ds → isDigit d = false :=
      fun d ds point => Bool.eq_false_iff.mpr fun digit => fraction ⟨d, ds, point, digit⟩
    have whole' : ∀ d ds, (cs ++ '\n' :: rest).dropWhile isDigit = '.' :: d :: ds →
        isDigit d = false := by
      intro d ds point
      rw [behind] at point
      -- the newline is neither the point nor a digit behind it
      rcases left : cs.dropWhile isDigit with _ | ⟨c, _ | ⟨e, es⟩⟩
      · rw [left] at point
        exact absurd (List.cons.inj point).1 (by decide)
      · rw [left] at point
        rw [← (List.cons.inj (List.cons.inj point).2).1]
        exact stop
      · rw [left] at point
        obtain ⟨rfl, more⟩ := List.cons.inj point
        rw [← (List.cons.inj more).1]
        exact whole e es left
    rw [number_of_whole whole, number_of_whole whole', takeWhile_append_stop stop, behind]
    rfl

theorem word_newline (c : Char) (cs rest : List Char) :
    word c (cs ++ '\n' :: rest) = (word c cs).before rest := by
  rw [word, word, takeWhile_append_stop (by decide), dropWhile_append_stop (by decide)]
  rfl

end Munch

/-- No operator goes on with a newline. -/
theorem lookup_newline_of_mem_operators :
    ∀ e ∈ operators, e.2.2.lookup '\n' = none := by decide

/-- What a text begins with is not changed by a newline and more text behind it, unless it is an
    open string. -/
theorem munch_newline {c : Char} {cs : List Char} (closed : (munch c cs).piece ≠ .unterminated)
    (rest : List Char) : munch c (cs ++ '\n' :: rest) = (munch c cs).before rest := by
  unfold munch at closed ⊢
  split
  · rfl
  · rename_i found
    have apart := lookup_newline_of_mem_operators _ (mem_of_lookup found)
    exact Munch.operator_newline _ apart cs rest
  · rename_i noSign noOperator
    rw [noSign, noOperator] at closed
    simp only at closed
    split
    · exact Munch.slash_newline cs rest
    split
    · rename_i notSlash quote
      rw [if_neg notSlash, if_pos quote] at closed
      exact Munch.quoted_newline closed rest
    split
    · exact Munch.number_newline cs rest
    split
    · exact Munch.word_newline c cs rest
    split
    · rfl
    · rfl

/-! ## The joint -/

/-- What is read before a newline is read as without it, and what comes behind is read on its
    own. -/
theorem Reads.join {p : Position} {text rest : List Char}
    {result behind : Except Problem (List Token)} (h : Reads p text result) {tokens : List Token}
    (ok : result = .ok tokens) (next : Reads ((p.after text).advance '\n') rest behind) :
    Reads p (text ++ '\n' :: rest) (behind.map (tokens.dropLast ++ ·)) := by
  induction h generalizing tokens with
  | done p =>
      cases ok
      have nothing : behind.map (([Token.endAt p] : List Token).dropLast ++ ·) = behind := by
        cases behind with
        | ok ts => rfl
        | error q => rfl
      rw [nothing]
      exact .blank (by rw [munch_of_blank (by decide)]) next
  | @blank p c cs result piece _ ih =>
      have same := munch_newline (by rw [piece]; exact nofun) rest
      rw [← munch_append c cs, ← List.cons_append, Position.after_append] at next
      have first : (munch c (cs ++ '\n' :: rest)).piece = .blank := by
        rw [same]
        exact piece
      refine .blank first ?_
      simp only [List.append_eq, same]
      exact ih ok next
  | @lexeme p c cs result k piece inner ih =>
      cases result with
      | error q => cases ok
      | ok ts =>
          cases ok
          have same := munch_newline (by rw [piece]; exact nofun) rest
          rw [← munch_append c cs, ← List.cons_append, Position.after_append] at next
          have first : (munch c (cs ++ '\n' :: rest)).piece = .lexeme k := by
            rw [same]
            exact piece
          have whole := Reads.lexeme first (by rw [same]; exact ih rfl next)
          -- there is an end token behind the lexeme, and it is the one that is dropped
          obtain ⟨front, rfl, -⟩ := inner.tokens rfl
          rw [same, List.dropLast_concat] at whole
          show Reads p (c :: cs ++ '\n' :: rest) (behind.map ((_ :: (front ++ [_])).dropLast ++ ·))
          rw [← List.cons_append, List.dropLast_concat]
          cases behind with
          | ok us => exact whole
          | error q => exact whole
  | unexpected => cases ok
  | unterminated => cases ok

/-- What is no lexeme and no open string is none with a newline and more text behind it. -/
theorem Reads.stopped {p : Position} {text : List Char} {result : Except Problem (List Token)}
    (h : Reads p text result) {q : Problem} (failed : result = .error q)
    (closed : q.cause ≠ .unterminatedString) (rest : List Char) :
    Reads p (text ++ '\n' :: rest) (.error q) := by
  induction h with
  | done => cases failed
  | @blank p c cs result piece _ ih =>
      have same := munch_newline (by rw [piece]; exact nofun) rest
      have first : (munch c (cs ++ '\n' :: rest)).piece = .blank := by
        rw [same]
        exact piece
      refine .blank first ?_
      simp only [List.append_eq, same]
      exact ih failed
  | @lexeme p c cs result k piece _ ih =>
      cases result with
      | ok ts => cases failed
      | error q' =>
          cases failed
          have same := munch_newline (by rw [piece]; exact nofun) rest
          have first : (munch c (cs ++ '\n' :: rest)).piece = .lexeme k := by
            rw [same]
            exact piece
          exact .lexeme first (by rw [same]; exact ih rfl)
  | @unexpected p c cs piece =>
      cases failed
      have same := munch_newline (by rw [piece]; exact nofun) rest
      refine .unexpected ?_
      show (munch c (cs ++ '\n' :: rest)).piece = .unexpected
      rw [same]
      exact piece
  | unterminated =>
      cases failed
      exact absurd rfl closed

/-! ## Scans -/

theorem toList_newline (a b : String) : (a ++ "\n" ++ b).toList = a.toList ++ '\n' :: b.toList := by
  simp

/-- Behind a text that is scanned and a newline, another text becomes what it becomes by itself,
    further down. -/
theorem scan_newline {a : String} {tokens : List Token} (ha : scan a = .ok tokens) (b : String) :
    scan (a ++ "\n" ++ b)
      = (lowered (1 + a.toList.count '\n') (scan b)).map (tokens.dropLast ++ ·) := by
  have first := ha ▸ scan_reads a
  have second := (scan_reads b).lower (1 + a.toList.count '\n')
  rw [← Position.advance_after] at second
  have whole := first.join rfl second
  rw [← toList_newline] at whole
  exact (scan_reads _).unique whole

/-- Two texts with a newline between them are scanned one after the other, the second further
    down by the lines of the first. -/
theorem scan_join {a b : String} {tokens others : List Token} (ha : scan a = .ok tokens)
    (hb : scan b = .ok others) :
    scan (a ++ "\n" ++ b)
      = .ok (tokens.dropLast
        ++ others.map (Token.move (Position.lower (1 + a.toList.count '\n')))) := by
  rw [scan_newline ha, hb]
  rfl

/-- Behind a text that is scanned and a newline, the tokens of another text stand as many lines
    further down as the end of the first text says, and so does its problem if it has one.  A text
    with an unexpected character has this problem whatever comes behind a newline. -/
theorem scan_splits_at_newlines (a b : String) :
    (∀ tokens, scan a = .ok tokens → ∃ (front : List Token) (stop : Token) (n : Nat),
      tokens = front ++ [stop] ∧ stop.kind = .eof ∧ stop.position.line = n
      ∧ (∀ others, scan b = .ok others →
        scan (a ++ "\n" ++ b) = .ok (front ++ others.map (Token.move (Position.lower n))))
      ∧ ∀ cause line column, scan b = .error ⟨cause, line, column⟩ →
        scan (a ++ "\n" ++ b) = .error ⟨cause, line + n, column⟩)
    ∧ ∀ c p, scan a = .error (.ofCause (.unexpectedCharacter c) p) →
      scan (a ++ "\n" ++ b) = .error (.ofCause (.unexpectedCharacter c) p) := by
  refine ⟨fun tokens ha => ?_, fun c p failed => ?_⟩
  · obtain ⟨front, rfl, -⟩ := (scan_reads a).tokens ha
    have line : (Token.endAt (Position.origin.after a.toList)).position.line
        = ((1 + a.toList.count '\n' : Nat) : Int) := by
      show (Position.origin.after a.toList).line = _
      rw [Position.line_after, Int.natCast_add]
      rfl
    have joined := scan_newline ha b
    rw [List.dropLast_concat] at joined
    refine ⟨front, _, _, rfl, rfl, line, fun others hb => ?_, fun cause line column hb => ?_⟩
    · rw [joined, hb]
      rfl
    · rw [joined, hb]
      rfl
  · have stopped := (scan_reads a).stopped failed nofun b.toList
    rw [← toList_newline] at stopped
    exact (scan_reads _).unique stopped

/-- An operator at the end of a line is not joined to the one that begins the next line, and a
    string over two lines moves what is behind it by two. -/
theorem operators_stay_apart_at_newline :
    let a := "\"a\nb\" ="
    let front : List Token :=
      [⟨.string, "\"a\nb\"", .text "a\nb", ⟨1, 1⟩⟩, ⟨.equal, "=", .null, ⟨2, 4⟩⟩]
    scan a = .ok (front ++ [.endAt ⟨2, 5⟩])
    ∧ scan (a ++ "\n" ++ "= x") = .ok (front ++ [⟨.equal, "=", .null, ⟨3, 1⟩⟩,
      ⟨.identifier, "x", .null, ⟨3, 3⟩⟩, .endAt ⟨3, 4⟩])
    ∧ scan (a ++ "\n" ++ "= \"") = .error (.ofCause .unterminatedString ⟨3, 3⟩)
    ∧ scan ("1.#" ++ "\n" ++ "\"") = .error (.ofCause (.unexpectedCharacter "#") ⟨1, 3⟩) := by
  intro a front
  have first : scan a = .ok (front ++ [.endAt ⟨2, 5⟩]) := by decide +kernel
  have second : scan "= x" = .ok [⟨.equal, "=", .null, ⟨1, 1⟩⟩,
      ⟨.identifier, "x", .null, ⟨1, 3⟩⟩, .endAt ⟨1, 4⟩] := by decide +kernel
  have unclosed : scan "= \"" = .error (.ofCause .unterminatedString ⟨1, 3⟩) := by decide +kernel
  have stray : scan "1.#" = .error (.ofCause (.unexpectedCharacter "#") ⟨1, 3⟩) := by
    decide +kernel
  refine ⟨first, ?_, ?_, (scan_splits_at_newlines "1.#" "\"").2 _ _ stray⟩
  · obtain ⟨_, _, n, split, -, line, joined, -⟩ := (scan_splits_at_newlines a "= x").1 _ first
    obtain ⟨rfl, last⟩ := List.append_inj' split rfl
    cases List.singleton_inj.mp last
    obtain rfl : n = 2 := (Int.ofNat_inj.mp line).symm
    exact joined _ second
  · obtain ⟨_, _, n, split, -, line, -, failed⟩ := (scan_splits_at_newlines a "= \"").1 _ first
    obtain ⟨rfl, last⟩ := List.append_inj' split rfl
    cases List.singleton_inj.mp last
    obtain rfl : n = 2 := (Int.ofNat_inj.mp line).symm
    exact failed _ _ _ unclosed

end ScriptFront
