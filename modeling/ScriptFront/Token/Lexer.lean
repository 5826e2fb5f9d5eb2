import ScriptFront.Decimal.Reading
import ScriptFront.Problem
import ScriptFront.Text.Blank

/-! # The scanner — from text to tokens

    At each place the scanner takes the longest lexeme that begins there.  `munch` does this for
    one lexeme and loses nothing: what it takes and what it leaves are together the text.
    `Scanner.run` repeats it to the end of the text or to the first place where no lexeme
    begins. -/

namespace ScriptFront

open Decimal (isDigit)
open Text (isBlank)

/-! ## One lexeme -/

/-- Whether a character can begin a word. -/
def isLetter (c : Char) : Bool :=
  c = '_' || ('a' ≤ c && c ≤ 'z') || ('A' ≤ c && c ≤ 'Z')

/-- Whether a character can go on in a word. -/
def isWordChar (c : Char) : Bool := isLetter c || isDigit c

/-- The characters that are lexemes by themselves and begin no other. -/
def punctuation : List (Char × TokenKind) :=
  [('\x7b', .leftBrace), ('\x7d', .rightBrace), ('(', .leftParen), (')', .rightParen),
   ('[', .leftBracket), (']', .rightBracket), ('.', .dot), (';', .semicolon), (',', .comma),
   (':', .colon)]

/-- The operators: a character with its kind, and the characters that make a longer operator of
    it with theirs. -/
def operators : List (Char × TokenKind × List (Char × TokenKind)) :=
  [('*', .star, [('*', .starStar)]),
   ('+', .plus, [('+', .plusPlus)]),
   ('-', .minus, [('-', .minusMinus)]),
   ('=', .equal, [('=', .equalEqual), ('>', .arrow)]),
   ('!', .bang, [('=', .bangEqual)]),
   ('>', .greater, [('=', .greaterEqual)]),
   ('<', .less, [('=', .lessEqual)])]

/-- What a text begins with. -/
inductive Piece
  | blank
  | lexeme (kind : TokenKind)
  | unexpected
  | unterminated
deriving DecidableEq, Repr

/-- What a text begins with, the characters of it behind the first, and the text that is left. -/
structure Munch where
  piece : Piece
  tail : List Char
  rest : List Char
deriving DecidableEq, Repr

namespace Munch

/-- A lexeme of one character. -/
def one (kind : TokenKind) (cs : List Char) : Munch := ⟨.lexeme kind, [], cs⟩

/-- An operator, of two characters if the second makes a longer one. -/
def operator (single : TokenKind) (doubles : List (Char × TokenKind)) : List Char → Munch
  | [] => one single []
  | d :: rest =>
    match doubles.lookup d with
    | some kind => ⟨.lexeme kind, [d], rest⟩
    | none => one single (d :: rest)

/-- A slash: a second one begins a comment that reaches to the end of the line. -/
def slash : List Char → Munch
  | '/' :: rest =>
    ⟨.lexeme .comment, '/' :: rest.takeWhile (· != '\n'), rest.dropWhile (· != '\n')⟩
  | cs => one .slash cs

/-- A string reaches to the next quote. -/
def quoted (cs : List Char) : Munch :=
  match cs.dropWhile (· != '"') with
  | [] => ⟨.unterminated, cs, []⟩
  | quote :: rest => ⟨.lexeme .string, cs.takeWhile (· != '"') ++ [quote], rest⟩

/-- A number: digits, and a point with digits behind it if any follow. -/
def number (cs : List Char) : Munch :=
  let whole := cs.takeWhile isDigit
  match cs.dropWhile isDigit with
  | '.' :: d :: rest =>
    if isDigit d then
      ⟨.lexeme .number, whole ++ '.' :: d :: rest.takeWhile isDigit, rest.dropWhile isDigit⟩
    else ⟨.lexeme .number, whole, '.' :: d :: rest⟩
  | rest => ⟨.lexeme .number, whole, rest⟩

/-- A word is reserved or an identifier. -/
def word (c : Char) (cs : List Char) : Munch :=
  let tail := cs.takeWhile isWordChar
  let kind := (TokenKind.ofWord? (String.ofList (c :: tail))).getD .identifier
  ⟨.lexeme kind, tail, cs.dropWhile isWordChar⟩

end Munch

/-- What the text `c :: cs` begins with. -/
def munch (c : Char) (cs : List Char) : Munch :=
  match punctuation.lookup c, operators.lookup c with
  | some kind, _ => .one kind cs
  | none, some (single, doubles) => .operator single doubles cs
  | none, none =>
    if c = '/' then .slash cs
    else if c = '"' then .quoted cs
    else if isDigit c then .number cs
    else if isLetter c then .word c cs
    else if isBlank c then ⟨.blank, [], cs⟩
    else ⟨.unexpected, [], cs⟩

/-! ## Nothing is lost -/

private theorem operator_append (single : TokenKind) (doubles : List (Char × TokenKind))
    (cs : List Char) :
    (Munch.operator single doubles cs).tail ++ (Munch.operator single doubles cs).rest = cs := by
  cases cs with
  | nil => rfl
  | cons d rest =>
      rw [Munch.operator]
      split <;> rfl

private theorem slash_append (cs : List Char) :
    (Munch.slash cs).tail ++ (Munch.slash cs).rest = cs := by
  unfold Munch.slash
  split
  · exact congrArg _ List.takeWhile_append_dropWhile
  · rfl

private theorem quoted_append (cs : List Char) :
    (Munch.quoted cs).tail ++ (Munch.quoted cs).rest = cs := by
  unfold Munch.quoted
  split
  · exact List.append_nil cs
  · next quote rest h =>
      have split := List.takeWhile_append_dropWhile (p := (· != '"')) (l := cs)
      rw [h] at split
      rw [List.append_assoc]
      exact split

private theorem number_append (cs : List Char) :
    (Munch.number cs).tail ++ (Munch.number cs).rest = cs := by
  have split := List.takeWhile_append_dropWhile (p := isDigit) (l := cs)
  unfold Munch.number
  split
  · next d rest h =>
      rw [h] at split
      split
      · rw [List.append_assoc, List.cons_append, List.cons_append,
          List.takeWhile_append_dropWhile]
        exact split
      · exact split
  · exact split

/-- What a munch takes and what it leaves are together the text. -/
theorem munch_append (c : Char) (cs : List Char) :
    (munch c cs).tail ++ (munch c cs).rest = cs := by
  unfold munch
  split
  · rfl
  · exact operator_append ..
  · split
    · exact slash_append cs
    split
    · exact quoted_append cs
    split
    · exact number_append cs
    split
    · exact List.takeWhile_append_dropWhile
    split <;> rfl

/-- A munch leaves no more than there was behind the first character. -/
theorem munch_rest_length_le (c : Char) (cs : List Char) :
    (munch c cs).rest.length ≤ cs.length := by
  have h := congrArg List.length (munch_append c cs)
  rw [List.length_append] at h
  omega

/-! ## Tokens -/

/-- The value of a lexeme: a string's text between its quotes, a number's nearest double, the
    truth value of a boolean, and nothing else. -/
def Literal.ofLexeme (kind : TokenKind) (cs : List Char) : Literal :=
  match kind with
  | .string => .text (String.ofList (cs.drop 1).dropLast)
  | .number => .number (Decimal.lexemeValue cs)
  | .boolean => .bool (cs == "true".toList)
  | _ => .null

/-- The token of a lexeme. -/
def Token.ofLexeme (kind : TokenKind) (cs : List Char) (p : Position) : Token :=
  ⟨kind, String.ofList cs, .ofLexeme kind cs, p⟩

/-! ## The whole text -/

/-- A scanner over one text: what is unread, the place of its first character, and the lexeme read
    last with its place. -/
structure Scanner where
  source : List Char
  unread : List Char
  position : Position
  lexeme : List Char
  start : Position
deriving DecidableEq

namespace Scanner

/-- A scanner that has read nothing yet. -/
def ofSource (source : String) : Scanner :=
  ⟨source.toList, source.toList, .origin, [], .origin⟩

/-- Goes back to the beginning of the text; only the place of the lexeme read last stays. -/
def rewind (s : Scanner) : Scanner :=
  { s with unread := s.source, position := .origin, lexeme := [] }

/-- Reads the first character and the munch behind it. -/
def take (s : Scanner) (c : Char) (m : Munch) : Scanner :=
  { s with
    unread := m.rest
    position := s.position.after (c :: m.tail)
    lexeme := c :: m.tail
    start := s.position }

/-- The token of the lexeme read last. -/
def token (s : Scanner) (kind : TokenKind) : Token :=
  .ofLexeme kind s.lexeme s.start

/-- The problem of the lexeme read last. -/
def problem (s : Scanner) (cause : Cause) : Problem :=
  .ofCause cause s.start

/-- Reads on to the end of the text or to the first problem. -/
def run (s : Scanner) : Except Problem (List Token) × Scanner :=
  match h : s.unread with
  | [] => (.ok [.endAt s.position], s)
  | c :: cs =>
    let m := munch c cs
    let s' := s.take c m
    have : (s.take c m).unread.length < s.unread.length := by
      rw [h]
      exact Nat.lt_succ_of_le (munch_rest_length_le c cs)
    match m.piece with
    | .blank => s'.run
    | .lexeme kind =>
      let (result, last) := s'.run
      (result.map (s'.token kind :: ·), last)
    | .unexpected => (.error (s'.problem (.unexpectedCharacter c.toString)), s')
    | .unterminated => (.error (s'.problem .unterminatedString), s')
termination_by s.unread.length

/-- Reads the whole text from its beginning, wherever the scanner stood. -/
def scan (s : Scanner) : Except Problem (List Token) × Scanner :=
  s.rewind.run

/-- Reads the whole text a number of times with one scanner. -/
def scanTimes : Nat → Scanner → List (Except Problem (List Token))
  | 0, _ => []
  | n + 1, s => s.scan.1 :: scanTimes n s.scan.2

end Scanner

/-- The tokens of a text, an end token last. -/
def scan (source : String) : Except Problem (List Token) :=
  (Scanner.ofSource source).scan.1

end ScriptFront
