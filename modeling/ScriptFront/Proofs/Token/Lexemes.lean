import Mathlib.Data.List.TakeWhile
import ScriptFront.Token.Lexer

/-! # Lexemes — the words of each kind, and that the scanner takes no others

    `Lexeme` is the lexical grammar: which characters make a lexeme of which kind, without a word
    about how they are looked for.  What `munch` takes as a lexeme is one, and where it takes none,
    there is a blank, a character that begins nothing, or a quote that is never closed
    (`munch_allowed`). -/

namespace ScriptFront

open Decimal (isDigit)
open Text (isBlank)

/-! ## The lexical grammar -/

/-- The signs with their kinds: punctuation, operators of one and of two characters, the slash. -/
def signs : List (List Char × TokenKind) :=
  (['/'], .slash) :: punctuation.map (fun (c, kind) => ([c], kind))
    ++ operators.flatMap fun (c, single, doubles) =>
      ([c], single) :: doubles.map fun (d, kind) => ([c, d], kind)

/-- The lexemes of each kind. -/
inductive Lexeme : TokenKind → List Char → Prop
  | sign {w : List Char} {k : TokenKind} (mem : (w, k) ∈ signs) : Lexeme k w
  | comment {cs : List Char} (line : '\n' ∉ cs) : Lexeme .comment ('/' :: '/' :: cs)
  | string {cs : List Char} (inner : '"' ∉ cs) : Lexeme .string ('"' :: (cs ++ ['"']))
  | whole {ds : List Char} (some : ds ≠ []) (digits : ∀ d ∈ ds, isDigit d = true) :
      Lexeme .number ds
  | fraction {ds es : List Char} (some : ds ≠ []) (digits : ∀ d ∈ ds, isDigit d = true)
      (more : es ≠ []) (moreDigits : ∀ e ∈ es, isDigit e = true) :
      Lexeme .number (ds ++ '.' :: es)
  | reserved {w : List Char} {k : TokenKind} (mem : (String.ofList w, k) ∈ TokenKind.reserved) :
      Lexeme k w
  | identifier {c : Char} {cs : List Char} (letter : isLetter c = true)
      (word : ∀ d ∈ cs, isWordChar d = true)
      (free : TokenKind.ofWord? (String.ofList (c :: cs)) = none) : Lexeme .identifier (c :: cs)

namespace Lexeme

/-- No identifier holds a newline. -/
theorem newline_not_mem {w : List Char} (h : Lexeme .identifier w) : '\n' ∉ w := by
  cases h with
  | sign mem =>
      have none : ∀ e ∈ signs, e.2 ≠ .identifier := by decide
      exact absurd rfl (none _ mem)
  | reserved mem =>
      have none : ∀ e ∈ TokenKind.reserved, e.2 ≠ .identifier := by decide
      exact absurd rfl (none _ mem)
  | identifier letter word =>
      intro newline
      cases newline with
      | head => exact absurd letter (by decide)
      | tail _ mem => exact absurd (word _ mem) (by decide)

/-- The sign of assignment has one spelling. -/
theorem eq_of_equal {w : List Char} (h : Lexeme .equal w) : w = ['='] := by
  cases h with
  | sign mem =>
      have one : ∀ e ∈ signs, e.2 = .equal → e.1 = ['='] := by decide
      exact one _ mem rfl
  | reserved mem =>
      have none : ∀ e ∈ TokenKind.reserved, e.2 ≠ .equal := by decide
      exact absurd rfl (none _ mem)

end Lexeme

/-! ## What a text begins with -/

/-- What is found in a table is in it. -/
theorem mem_of_lookup {α β : Type} [BEq α] [LawfulBEq α] {table : List (α × β)} {a : α}
    {b : β} (found : table.lookup a = some b) : (a, b) ∈ table := by
  obtain ⟨front, back, split, -⟩ := List.lookup_eq_some_iff.mp found
  rw [split]
  exact List.mem_append_right front List.mem_cons_self

theorem sign_of_punctuation {c : Char} {k : TokenKind} (h : (c, k) ∈ punctuation) :
    ([c], k) ∈ signs :=
  List.mem_append_left _ (List.mem_cons_of_mem _ (List.mem_map.mpr ⟨_, h, rfl⟩))

theorem sign_of_single {c : Char} {k : TokenKind} {doubles : List (Char × TokenKind)}
    (h : (c, k, doubles) ∈ operators) : ([c], k) ∈ signs :=
  List.mem_append_right _ (List.mem_flatMap.mpr ⟨_, h, List.mem_cons_self⟩)

theorem sign_of_double {c d : Char} {single k : TokenKind} {doubles : List (Char × TokenKind)}
    (h : (c, single, doubles) ∈ operators) (h' : (d, k) ∈ doubles) : ([c, d], k) ∈ signs :=
  List.mem_append_right _
    (List.mem_flatMap.mpr ⟨_, h, List.mem_cons_of_mem _ (List.mem_map.mpr ⟨_, h', rfl⟩)⟩)

/-- What may be made of the text `c :: cs`: a lexeme, or else a blank, a character that begins
    nothing, or a quote that is never closed. -/
def Munch.Allowed (c : Char) (cs : List Char) (m : Munch) : Prop :=
  match m.piece with
  | .lexeme k => Lexeme k (c :: m.tail)
  | .blank => isBlank c = true ∧ m.tail = []
  | .unexpected => isBlank c = false ∧ m.tail = []
  | .unterminated => c = '"' ∧ '"' ∉ cs

namespace Munch

theorem one_allowed {c : Char} {k : TokenKind} (h : ([c], k) ∈ signs) (cs : List Char) :
    (Munch.one k cs).Allowed c cs := Lexeme.sign h

theorem operator_allowed {c : Char} {single : TokenKind} {doubles : List (Char × TokenKind)}
    (h : (c, single, doubles) ∈ operators) (cs : List Char) :
    (Munch.operator single doubles cs).Allowed c cs := by
  cases cs with
  | nil => exact one_allowed (sign_of_single h) []
  | cons d rest =>
      rw [Munch.operator]
      split
      · rename_i k found
        exact Lexeme.sign (sign_of_double h (mem_of_lookup found))
      · exact one_allowed (sign_of_single h) (d :: rest)

theorem slash_allowed (cs : List Char) : (Munch.slash cs).Allowed '/' cs := by
  unfold Munch.slash
  split
  · rename_i rest
    refine Lexeme.comment fun newline => ?_
    exact absurd (List.mem_takeWhile_imp newline) (by decide)
  · exact one_allowed List.mem_cons_self _

theorem quoted_allowed (cs : List Char) : (Munch.quoted cs).Allowed '"' cs := by
  unfold Munch.quoted
  split
  · rename_i none
    refine ⟨rfl, fun quote => ?_⟩
    exact absurd (List.dropWhile_eq_nil_iff.mp none '"' quote) (by decide)
  · rename_i quote rest some
    -- what the search stopped at is a quote
    have first := List.head?_dropWhile_not (fun c => c != '"') cs
    rw [some] at first
    have closing : quote = '"' := by simpa using first
    rw [closing]
    refine Lexeme.string fun inner => ?_
    exact absurd (List.mem_takeWhile_imp inner) (by decide)

theorem number_allowed {c : Char} (h : isDigit c = true) (cs : List Char) :
    (Munch.number cs).Allowed c cs := by
  have digits : ∀ d ∈ c :: cs.takeWhile isDigit, isDigit d = true :=
    List.forall_mem_cons.mpr ⟨h, fun d mem => List.mem_takeWhile_imp mem⟩
  unfold Munch.number
  split
  · rename_i d rest _
    by_cases digit : isDigit d = true
    · rw [if_pos digit]
      refine Lexeme.fraction (List.cons_ne_nil c _) digits (List.cons_ne_nil d _) ?_
      exact List.forall_mem_cons.mpr ⟨digit, fun e mem => List.mem_takeWhile_imp mem⟩
    · rw [if_neg digit]
      exact Lexeme.whole (List.cons_ne_nil c _) digits
  · exact Lexeme.whole (List.cons_ne_nil c _) digits

theorem word_allowed {c : Char} (h : isLetter c = true) (cs : List Char) :
    (Munch.word c cs).Allowed c cs := by
  show Lexeme ((TokenKind.ofWord? _).getD .identifier) (c :: cs.takeWhile isWordChar)
  cases found : TokenKind.ofWord? (String.ofList (c :: cs.takeWhile isWordChar)) with
  | none => exact Lexeme.identifier h (fun d mem => List.mem_takeWhile_imp mem) found
  | some k => exact Lexeme.reserved (mem_of_lookup found)

end Munch

/-- What a text begins with is a lexeme, or it begins with none. -/
theorem munch_allowed (c : Char) (cs : List Char) : (munch c cs).Allowed c cs := by
  unfold munch
  split
  · exact Munch.one_allowed (sign_of_punctuation (mem_of_lookup ‹_›)) cs
  · exact Munch.operator_allowed (mem_of_lookup ‹_›) cs
  · split
    · subst c
      exact Munch.slash_allowed cs
    split
    · subst c
      exact Munch.quoted_allowed cs
    split
    · exact Munch.number_allowed ‹_› cs
    split
    · exact Munch.word_allowed ‹_› cs
    split
    · exact ⟨‹_›, rfl⟩
    · exact ⟨Bool.eq_false_iff.mpr ‹_›, rfl⟩

/-- What a text begins with, for the piece that is found. -/
theorem munch_allowed_of_piece {c : Char} {cs : List Char} {piece : Piece}
    (h : (munch c cs).piece = piece) : Munch.Allowed c cs { munch c cs with piece } := by
  rw [← h]
  exact munch_allowed c cs

end ScriptFront
