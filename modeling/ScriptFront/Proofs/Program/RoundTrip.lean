import ScriptFront.Proofs.Program.SyntaxErrors
import ScriptFront.Proofs.Program.Writing

/-! # Round trip — parsing and writing out are inverse

    A canonical program is read back from whatever it is written as, and whatever is read is a
    canonical program that is written as the tokens it was read from, without comments and `new`.
    So the canonical programs are exactly those that come out of the parser. -/

namespace ScriptFront

open Grammar (sentences)

/-! ## Writing with given marks -/

/-- The kind of token that denotes a value. -/
def Literal.kind : Literal → TokenKind
  | null => .kwNull
  | bool _ => .boolean
  | number _ => .number
  | text _ => .string

/-- The token of a slot; `mark` makes the tokens that a program does not keep. -/
def Slot.written (mark : TokenKind → Token) : Slot → Token
  | .mark k => mark k
  | token t => t
  | value v => { mark v.kind with literal := v }

/-- The tokens of a program. -/
def Program.written (mark : TokenKind → Token) (p : Program) : List Token :=
  p.slots.map (Slot.written mark)

theorem Slot.holds_written {mark : TokenKind → Token} (marks : ∀ k, (mark k).kind = k)
    (s : Slot) : s.Holds (s.written mark) := by
  cases s with
  | mark k => exact marks k
  | token t => rfl
  | value v =>
      refine ⟨?_, rfl⟩
      show (mark v.kind).kind.isLiteral = true
      rw [marks]
      cases v <;> rfl

theorem Program.writtenAs_written {mark : TokenKind → Token} (marks : ∀ k, (mark k).kind = k)
    (p : Program) : p.WrittenAs (p.written mark) := by
  rw [WrittenAs, written, List.forall₂_map_right_iff]
  exact List.forall₂_same.mpr fun s _ => s.holds_written marks

/-! ## There and back -/

/-- A canonical program is read back from whatever it is written as. -/
theorem parse_of_writtenAs {p : Program} (canonical : p.Canonical) {tokens : List Token}
    (written : p.WrittenAs (tokens.filter Token.isSignificant)) : parse tokens = .ok p := by
  obtain ⟨tree, fits, near, root, leaves, value⟩ := canonical.spelled written
  have read : automaton.read [] tree.tokens = .accepted tree :=
    Grammar.Automaton.read_of_nearest automaton_certified automaton_rules fits root near
  rw [leaves] at read
  simp only [parse, read, Grammar.Tree.toProgram, value]

/-- Written with given marks, a canonical program has no comments and no end token. -/
theorem filter_written {p : Program} (canonical : p.Canonical) {mark : TokenKind → Token}
    (marks : ∀ k, (mark k).kind = k) :
    (p.written mark).filter Token.isSignificant = p.written mark := by
  obtain ⟨tree, fits, -, root, leaves, -⟩ := canonical.spelled (p.writtenAs_written marks)
  have significant := isSignificant_of_fits fits root (by decide)
  rw [leaves] at significant
  exact List.filter_eq_self.mpr significant

/-- What is read is canonical and written as what it was read from. -/
theorem canonical_of_parse {p : Program} {tokens : List Token} (h : parse tokens = .ok p) :
    p.Canonical ∧ p.WrittenAs ((tokens.filter Token.isSignificant).filter Token.isKept) := by
  by_cases sentence : significantKinds tokens ∈ sentences
  · rcases parse_of_sentence sentence with ⟨p', ok, canonical, written⟩ | ⟨t, -, -, invalid⟩
    · cases h.symm.trans ok
      exact ⟨canonical, written⟩
    · exact nomatch h.symm.trans invalid
  · obtain ⟨_, refused, -⟩ := exists_refused sentence
    exact nomatch h.symm.trans refused

/-- Parsing inverts writing: the canonical programs are those that are read back from what they are
    written as, a text without `new` is a program exactly if the program is canonical and written as
    this text, and of any text that is read nothing is lost but comments and `new`. -/
theorem parsing_inverts_writing {mark : TokenKind → Token} (marks : ∀ k, (mark k).kind = k)
    (p : Program) :
    (p.Canonical ↔ parse (p.written mark) = .ok p)
    ∧ (∀ tokens : List Token, (∀ t ∈ tokens, t.kind ≠ .kwNew) →
      (parse tokens = .ok p
        ↔ p.Canonical ∧ p.WrittenAs (tokens.filter Token.isSignificant)))
    ∧ ∀ tokens : List Token, parse tokens = .ok p →
      p.Canonical ∧ p.WrittenAs ((tokens.filter Token.isSignificant).filter Token.isKept) := by
  refine ⟨⟨?_, fun h => (canonical_of_parse h).1⟩, ?_, fun tokens => canonical_of_parse⟩
  · intro canonical
    refine parse_of_writtenAs canonical ?_
    rw [filter_written canonical marks]
    exact p.writtenAs_written marks
  · intro tokens noNew
    have kept : (tokens.filter Token.isSignificant).filter Token.isKept
        = tokens.filter Token.isSignificant := by
      refine List.filter_eq_self.mpr fun t ht => ?_
      rw [Token.isKept, decide_eq_true_eq]
      exact noNew t (List.mem_of_mem_filter ht)
    constructor
    · intro h
      have both := canonical_of_parse h
      rwa [kept] at both
    · rintro ⟨canonical, written⟩
      exact parse_of_writtenAs canonical written

/-- The operand of a prefix operator to the right of a power is read back with its prefix. -/
theorem parse_prefixed_power :
    let a : Token := ⟨.identifier, "a", .null, ⟨1, 7⟩⟩
    let b : Token := ⟨.identifier, "b", .null, ⟨1, 12⟩⟩
    let power : Token := ⟨.starStar, "**", .null, ⟨1, 8⟩⟩
    let minus : Token := ⟨.minus, "-", .null, ⟨1, 6⟩⟩
    let print : Token := ⟨.kwPrint, "print", .null, ⟨1, 1⟩⟩
    (∀ k, (Grammar.tokenOf k).kind = k)
    ∧ parse [print, minus, a, power, minus, b, Grammar.tokenOf .semicolon]
      = .ok ⟨[.print print (.unary minus (.binary (.var a) power (.unary minus (.var b))))]⟩ := by
  intro a b power minus print
  have canonical : Program.Canonical
      ⟨[.print print (.unary minus (.binary (.var a) power (.unary minus (.var b))))]⟩ := by
    refine List.forall_mem_singleton.mpr (.print rfl (.unary rfl ?_ (by decide)))
    refine .binary (o := ⟨.power, .call, .unary⟩) rfl (.var rfl) ?_ (by decide) (by decide)
    exact .unary rfl (.var rfl) (by decide)
  have marks : ∀ k, (Grammar.tokenOf k).kind = k := fun _ => rfl
  have written := (parsing_inverts_writing marks _).1.mp canonical
  exact ⟨marks, written⟩

end ScriptFront
