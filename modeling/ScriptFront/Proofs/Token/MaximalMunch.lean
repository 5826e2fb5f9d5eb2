import ScriptFront.Proofs.Token.Longest
import ScriptFront.Proofs.Token.Scanning

/-! # Maximal munch — a scan is the one reading of its text by longest lexemes

    A text is blanks and lexemes in turn, each lexeme the longest that begins in its place; the
    tokens are these lexemes (`Munched`).  A text has a scan exactly if it can be read so to its
    end, and the problem of a text that has none is where the reading ends
    (`scan_by_longest_lexemes`). -/

namespace ScriptFront

open Text (isBlank)

/-! ## Values -/

/-- The value of a lexeme of a kind: a string's text between the quotes, a number's double, the
    truth value of `true` and `false`, and none for the other kinds. -/
inductive Lexeme.Value : TokenKind → List Char → Literal → Prop
  | text (cs : List Char) : Value .string ('"' :: (cs ++ ['"'])) (.text (String.ofList cs))
  | number (w : List Char) : Value .number w (.number (Decimal.lexemeValue w))
  | true : Value .boolean "true".toList (.bool true)
  | false : Value .boolean "false".toList (.bool false)
  | none {k : TokenKind} (w : List Char) (string : k ≠ .string) (number : k ≠ .number)
      (boolean : k ≠ .boolean) : Value k w .null

namespace Lexeme

/-- A lexeme has no other value than its token. -/
theorem Value.eq_ofLexeme {k : TokenKind} {w : List Char} {v : Literal} (h : Value k w v) :
    v = .ofLexeme k w := by
  cases h with
  | text cs =>
      show _ = Literal.text (String.ofList (cs ++ ['"']).dropLast)
      rw [List.dropLast_concat]
  | number => rfl
  | true => rfl
  | false => rfl
  | none w string number boolean =>
      cases k with
      | string => exact absurd rfl string
      | number => exact absurd rfl number
      | boolean => exact absurd rfl boolean
      | _ => rfl

/-- Strings are written in quotes. -/
theorem exists_inner {w : List Char} (h : Lexeme .string w) : ∃ cs, w = '"' :: (cs ++ ['"']) := by
  cases h with
  | sign mem =>
      have none : ∀ e ∈ signs, e.2 ≠ .string := by decide
      exact absurd rfl (none _ mem)
  | string => exact ⟨_, rfl⟩
  | reserved mem =>
      have none : ∀ e ∈ TokenKind.reserved, e.2 ≠ .string := by decide
      exact absurd rfl (none _ mem)

/-- There are two truth values. -/
theorem eq_true_or_false {w : List Char} (h : Lexeme .boolean w) :
    w = "true".toList ∨ w = "false".toList := by
  cases h with
  | sign mem =>
      have none : ∀ e ∈ signs, e.2 ≠ .boolean := by decide
      exact absurd rfl (none _ mem)
  | reserved mem =>
      have two : ∀ e ∈ TokenKind.reserved, e.2 = .boolean → e.1 = "true" ∨ e.1 = "false" := by
        decide
      rcases two _ mem rfl with same | same
      · exact Or.inl (String.toList_ofList.symm.trans (congrArg String.toList same))
      · exact Or.inr (String.toList_ofList.symm.trans (congrArg String.toList same))

/-- The value of the token of a lexeme is the value of the lexeme. -/
theorem value {k : TokenKind} {w : List Char} (h : Lexeme k w) : Value k w (.ofLexeme k w) := by
  cases k with
  | string =>
      obtain ⟨cs, rfl⟩ := h.exists_inner
      rw [← (Value.text cs).eq_ofLexeme]
      exact .text cs
  | number => exact .number w
  | boolean =>
      rcases h.eq_true_or_false with rfl | rfl
      · exact .true
      · exact .false
  | _ => exact .none w nofun nofun nofun

end Lexeme

/-! ## Reading by longest lexemes -/

/-- Read from the place `p` on, a text is blanks and lexemes in turn, each lexeme the longest in its
    place, and then `rest` is left at the place `q`.  The tokens are the lexemes with their kinds,
    values and places. -/
inductive Munched : Position → List Char → List Token → Position → List Char → Prop
  | done (p : Position) (rest : List Char) : Munched p rest [] p rest
  | blank {p q : Position} {c : Char} {cs rest : List Char} {ts : List Token}
      (blank : isBlank c = true) (next : Munched (p.advance c) cs ts q rest) :
      Munched p (c :: cs) ts q rest
  | lexeme {p q : Position} {k : TokenKind} {w cs rest : List Char} {v : Literal}
      {ts : List Token} (longest : Lexeme.Longest k w cs) (value : Lexeme.Value k w v)
      (next : Munched (p.after w) cs ts q rest) :
      Munched p (w ++ cs) (⟨k, String.ofList w, v, p⟩ :: ts) q rest

/-- Neither a blank nor a lexeme begins the text `c :: cs`. -/
def Stuck (c : Char) (cs : List Char) : Prop :=
  isBlank c = false ∧ ∀ k w, Lexeme k w → ¬ w <+: c :: cs

/-- The problem of a character at which no lexeme begins. -/
def stuckProblem (c : Char) (p : Position) : Problem :=
  if c = '"' then .ofCause .unterminatedString p
  else .ofCause (.unexpectedCharacter c.toString) p

/-- The end of a text is not among the lexemes. -/
theorem Munched.kind_ne_eof {p q : Position} {text rest : List Char} {ts : List Token}
    (h : Munched p text ts q rest) : ∀ t ∈ ts, t.kind ≠ .eof := by
  induction h with
  | done => exact List.forall_mem_nil _
  | blank _ _ ih => exact ih
  | lexeme longest _ _ ih => exact List.forall_mem_cons.mpr ⟨longest.1.kind_ne_eof, ih⟩

/-! ## What is read is what is munched -/

namespace Reads

/-- What becomes of a text is what a scanner makes of it. -/
theorem run_eq {p : Position} {text : List Char} {result : Except Problem (List Token)}
    (h : Reads p text result) {s : Scanner} (unread : s.unread = text) (place : s.position = p) :
    s.run.1 = result := by
  induction h generalizing s with
  | done p => rw [Scanner.run_of_nil unread, place]
  | blank piece _ ih =>
      rw [Scanner.run_of_cons unread]
      simp only [piece]
      exact ih rfl (by rw [← place]; rfl)
  | lexeme piece _ ih =>
      rw [Scanner.run_of_cons unread]
      simp only [piece]
      rw [ih rfl (by rw [← place]; rfl), ← place]
      rfl
  | unexpected piece =>
      rw [Scanner.run_of_cons unread, ← place]
      simp only [piece]
      rfl
  | unterminated piece =>
      rw [Scanner.run_of_cons unread, ← place]
      simp only [piece]
      rfl

/-- A text becomes one thing only. -/
theorem unique {p : Position} {text : List Char} {result result' : Except Problem (List Token)}
    (h : Reads p text result) (h' : Reads p text result') : result = result' := by
  let s : Scanner := ⟨text, text, p, [], p⟩
  have run : s.run.1 = result := h.run_eq rfl rfl
  exact run.symm.trans (h'.run_eq rfl rfl)

/-- Where nothing begins, there is a problem. -/
theorem of_stuck {c : Char} {cs : List Char} (h : Stuck c cs) (p : Position) :
    Reads p (c :: cs) (.error (stuckProblem c p)) := by
  cases piece : (munch c cs).piece with
  | blank => exact absurd ((munch_allowed_of_piece piece).1.symm.trans h.1) nofun
  | lexeme k =>
      refine absurd ?_ (h.2 k _ (munch_allowed_of_piece piece))
      exact ⟨(munch c cs).rest, by rw [List.cons_append, munch_append]⟩
  | unexpected =>
      -- a quote begins a string, closed or not
      have noQuote : c ≠ '"' := by
        rintro rfl
        have quoted : (Munch.quoted cs).piece = .unexpected := piece
        unfold Munch.quoted at quoted
        split at quoted
        · cases quoted
        · cases quoted
      rw [stuckProblem, if_neg noQuote]
      exact .unexpected piece
  | unterminated =>
      rw [stuckProblem, if_pos (munch_allowed_of_piece piece).1]
      exact .unterminated piece

end Reads

/-- A text that is munched up to some place becomes what its rest becomes, behind the tokens. -/
theorem Munched.reads {p q : Position} {text rest : List Char} {ts : List Token}
    (h : Munched p text ts q rest) {result : Except Problem (List Token)}
    (next : Reads q rest result) : Reads p text (result.map (ts ++ ·)) := by
  induction h with
  | done p rest =>
      have same : result.map ([] ++ ·) = result := by
        cases result with
        | error => rfl
        | ok => rfl
      rwa [same]
  | @blank p q c cs rest ts blank _ ih =>
      have munched := munch_of_blank blank cs
      refine .blank (by rw [munched]) ?_
      rw [munched]
      exact ih next
  | @lexeme p q k w cs rest v ts longest value _ ih =>
      obtain ⟨c, tail, rfl⟩ := longest.1.exists_cons
      have munched := munch_of_longest longest
      have first : Reads p (c :: (tail ++ cs)) _ :=
        .lexeme (k := k) (by rw [munched]) (by rw [munched]; exact ih next)
      have same : ((result.map (ts ++ ·)).map
          (Token.ofLexeme k (c :: (munch c (tail ++ cs)).tail) p :: ·))
          = result.map ((⟨k, String.ofList (c :: tail), v, p⟩ :: ts) ++ ·) := by
        rw [munched, value.eq_ofLexeme]
        cases result with
        | error => rfl
        | ok => rfl
      rw [List.cons_append, ← same]
      exact first

/-- A text begins with nothing if the munch finds neither a blank nor a lexeme. -/
theorem stuck_of_munch {c : Char} {cs : List Char} (blank : isBlank c = false)
    (piece : ∀ k, (munch c cs).piece ≠ .lexeme k) : Stuck c cs := by
  refine ⟨blank, fun k w lexeme begins => ?_⟩
  obtain ⟨rest, spelled⟩ := begins
  obtain ⟨d, ds, rfl⟩ := lexeme.exists_cons
  rw [List.cons_append] at spelled
  obtain ⟨rfl, rfl⟩ := List.cons.inj spelled
  obtain ⟨kind, -, taken, -⟩ := munch_extends lexeme rest
  exact piece kind taken

/-- What comes of reading a text by longest lexemes: it is read to its end, or to the first place
    where nothing begins. -/
def MunchedTo (p : Position) (text : List Char) (result : Except Problem (List Token)) : Prop :=
  (∃ ts q, Munched p text ts q [] ∧ result = .ok (ts ++ [.endAt q]))
  ∨ ∃ ts q c cs, Munched p text ts q (c :: cs) ∧ Stuck c cs ∧ result = .error (stuckProblem c q)

namespace MunchedTo

theorem blank {p : Position} {c : Char} {cs : List Char} {result : Except Problem (List Token)}
    (blank : isBlank c = true) (h : MunchedTo (p.advance c) cs result) :
    MunchedTo p (c :: cs) result := by
  rcases h with ⟨ts, q, all, same⟩ | ⟨ts, q, d, ds, part, stuck, same⟩
  · exact Or.inl ⟨ts, q, .blank blank all, same⟩
  · exact Or.inr ⟨ts, q, d, ds, .blank blank part, stuck, same⟩

theorem lexeme {p : Position} {k : TokenKind} {w cs : List Char}
    {result : Except Problem (List Token)} (longest : Lexeme.Longest k w cs)
    (h : MunchedTo (p.after w) cs result) :
    MunchedTo p (w ++ cs) (result.map (Token.ofLexeme k w p :: ·)) := by
  rcases h with ⟨ts, q, all, rfl⟩ | ⟨ts, q, d, ds, part, stuck, rfl⟩
  · exact Or.inl ⟨_, q, .lexeme longest longest.1.value all, rfl⟩
  · exact Or.inr ⟨_, q, d, ds, .lexeme longest longest.1.value part, stuck, rfl⟩

theorem stuck {p : Position} {c : Char} {cs : List Char} {result : Except Problem (List Token)}
    (stuck : Stuck c cs) (h : Reads p (c :: cs) result) : MunchedTo p (c :: cs) result :=
  Or.inr ⟨[], p, c, cs, .done p (c :: cs), stuck, h.unique (.of_stuck stuck p)⟩

end MunchedTo

/-- What a text becomes comes of reading it by longest lexemes. -/
theorem Reads.munched {p : Position} {text : List Char} {result : Except Problem (List Token)}
    (h : Reads p text result) : MunchedTo p text result := by
  induction h with
  | done p => exact Or.inl ⟨[], p, .done p [], rfl⟩
  | @blank p c cs result piece _ ih =>
      have isBlank := (munch_allowed_of_piece piece).1
      rw [munch_of_blank isBlank] at ih
      exact .blank isBlank ih
  | @lexeme p c cs result k piece _ ih =>
      have whole : c :: (munch c cs).tail ++ (munch c cs).rest = c :: cs := by
        rw [List.cons_append, munch_append]
      rw [← whole]
      exact .lexeme (longest_of_munch piece) ih
  | @unexpected p c cs piece =>
      have blank := (munch_allowed_of_piece piece).1
      refine .stuck (stuck_of_munch blank fun k lexeme => ?_) (.unexpected piece)
      exact nomatch piece.symm.trans lexeme
  | @unterminated p c cs piece =>
      have blank : isBlank c = false := by
        rw [(munch_allowed_of_piece piece).1]
        decide
      refine .stuck (stuck_of_munch blank fun k lexeme => ?_) (.unterminated piece)
      exact nomatch piece.symm.trans lexeme

/-! ## Scans -/

/-- A scan has tokens exactly if its text is blanks and lexemes in turn, each lexeme the longest in
    its place: the tokens are these lexemes and one end token.  It has a problem exactly if such a
    reading meets a place where nothing begins, and the problem is the first such place. -/
theorem scan_by_longest_lexemes (source : String) :
    (∀ tokens, scan source = .ok tokens
      ↔ ∃ ts q, Munched .origin source.toList ts q [] ∧ tokens = ts ++ [.endAt q]
        ∧ ∀ t ∈ ts, t.kind ≠ .eof)
    ∧ ∀ problem, scan source = .error problem
      ↔ ∃ ts q c cs, Munched .origin source.toList ts q (c :: cs) ∧ Stuck c cs
        ∧ problem = stuckProblem c q := by
  have reads := scan_reads source
  refine ⟨fun tokens => ⟨fun ok => ?_, ?_⟩, fun problem => ⟨fun failed => ?_, ?_⟩⟩
  · rcases reads.munched with ⟨ts, q, all, same⟩ | ⟨_, _, _, _, -, -, same⟩
    · cases ok.symm.trans same
      exact ⟨ts, q, all, rfl, all.kind_ne_eof⟩
    · exact nomatch ok.symm.trans same
  · rintro ⟨ts, q, all, rfl, -⟩
    exact reads.unique (all.reads (.done q))
  · rcases reads.munched with ⟨_, _, -, same⟩ | ⟨ts, q, c, cs, part, stuck, same⟩
    · exact nomatch failed.symm.trans same
    · cases failed.symm.trans same
      exact ⟨ts, q, c, cs, part, stuck, rfl⟩
  · rintro ⟨ts, q, c, cs, part, stuck, rfl⟩
    exact reads.unique (part.reads (.of_stuck stuck q))

end ScriptFront
