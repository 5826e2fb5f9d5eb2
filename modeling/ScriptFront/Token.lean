/-! # Tokens — kinds of lexemes, source positions and literal values

    A token is a lexeme together with its kind, the value it denotes and the place of its first
    character.  `TokenKind.ofWord?` is the table of reserved words. -/

namespace ScriptFront

/-- A place in a text: line and column both count from one.  Tokens made by hand may stand
    anywhere, so both are integers. -/
structure Position where
  line : Int
  column : Int
deriving DecidableEq, Repr, Inhabited

/-- The place of the first character of a text. -/
def Position.origin : Position := ⟨1, 1⟩

/-- The place behind one character: a newline begins the next line, all others take a column. -/
def Position.advance (p : Position) (c : Char) : Position :=
  if c = '\n' then ⟨p.line + 1, 1⟩ else ⟨p.line, p.column + 1⟩

/-- The place behind a run of characters. -/
def Position.after (p : Position) (cs : List Char) : Position :=
  cs.foldl Position.advance p

@[simp] theorem Position.after_nil (p : Position) : p.after [] = p := rfl

@[simp] theorem Position.after_cons (p : Position) (c : Char) (cs : List Char) :
    p.after (c :: cs) = (p.advance c).after cs := rfl

theorem Position.after_append (p : Position) (as bs : List Char) :
    p.after (as ++ bs) = (p.after as).after bs :=
  List.foldl_append

/-- The kinds of lexemes.  `comment` never reaches the grammar; `eof` marks the end of a text and
    is the grammar's end of input. -/
inductive TokenKind
  | leftBrace | rightBrace | leftParen | rightParen | leftBracket | rightBracket
  | dot | semicolon | comma | colon
  | slash | star | starStar | plus | plusPlus | minus | minusMinus
  | equal | equalEqual | arrow | bang | bangEqual | greater | greaterEqual | less | lessEqual
  | string | number | boolean
  | kwDef | kwClass | kwVar | kwExtends | kwPrint | kwNew | kwIf | kwElse | kwFor | kwWhile
  | kwBreak | kwContinue | kwReturn | kwAnd | kwOr | kwNull | kwThis | kwSuper
  | identifier | comment | eof
deriving DecidableEq, Repr, Inhabited

namespace TokenKind

/-- The kinds with their names, in the order in which they are introduced above. -/
def names : List (TokenKind × String) :=
  [(leftBrace, "LEFT_BRACE"), (rightBrace, "RIGHT_BRACE"), (leftParen, "LEFT_PAREN"),
   (rightParen, "RIGHT_PAREN"), (leftBracket, "LEFT_BRACKET"), (rightBracket, "RIGHT_BRACKET"),
   (dot, "DOT"), (semicolon, "SEMICOLON"), (comma, "COMMA"), (colon, "COLON"),
   (slash, "SLASH"), (star, "STAR"), (starStar, "STAR_STAR"), (plus, "PLUS"),
   (plusPlus, "PLUS_PLUS"), (minus, "MINUS"), (minusMinus, "MINUS_MINUS"), (equal, "EQUAL"),
   (equalEqual, "EQUAL_EQUAL"), (arrow, "ARROW"), (bang, "BANG"), (bangEqual, "BANG_EQUAL"),
   (greater, "GREATER"), (greaterEqual, "GREATER_EQUAL"), (less, "LESS"),
   (lessEqual, "LESS_EQUAL"), (string, "STRING"), (number, "NUMBER"), (boolean, "BOOLEAN"),
   (kwDef, "DEF"), (kwClass, "CLASS"), (kwVar, "VAR"), (kwExtends, "EXTENDS"),
   (kwPrint, "PRINT"), (kwNew, "NEW"), (kwIf, "IF"), (kwElse, "ELSE"), (kwFor, "FOR"),
   (kwWhile, "WHILE"), (kwBreak, "BREAK"), (kwContinue, "CONTINUE"), (kwReturn, "RETURN"),
   (kwAnd, "AND"), (kwOr, "OR"), (kwNull, "NULL"), (kwThis, "THIS"), (kwSuper, "SUPER"),
   (identifier, "IDENTIFIER"), (comment, "COMMENT"), (eof, "EOF")]

/-- The name of a kind. -/
def name (k : TokenKind) : String :=
  (names.lookup k).getD ""

/-- The name of a kind as a terminal of the grammar; `eof` stands for the end of input. -/
def terminalName (k : TokenKind) : String :=
  if k = eof then "$END" else k.name

/-- The terminals in the order of their names. -/
def terminals : List TokenKind :=
  [eof, kwAnd, arrow, bang, bangEqual, boolean, kwBreak, kwClass, colon, comma, kwContinue,
   kwDef, dot, kwElse, equal, equalEqual, kwExtends, kwFor, greater, greaterEqual, identifier,
   kwIf, leftBrace, leftBracket, leftParen, less, lessEqual, minus, minusMinus, kwNew, kwNull,
   number, kwOr, plus, plusPlus, kwPrint, kwReturn, rightBrace, rightBracket, rightParen,
   semicolon, slash, star, starStar, string, kwSuper, kwThis, kwVar, kwWhile]

/-- The kind of a given name. -/
def ofName? (name : String) : Option TokenKind :=
  (names.find? fun entry => entry.2 == name).map Prod.fst

/-- The reserved words with their kinds. -/
def reserved : List (String × TokenKind) :=
  [("def", kwDef), ("class", kwClass), ("var", kwVar), ("extends", kwExtends),
   ("print", kwPrint), ("new", kwNew), ("if", kwIf), ("else", kwElse), ("for", kwFor),
   ("while", kwWhile), ("break", kwBreak), ("continue", kwContinue), ("return", kwReturn),
   ("and", kwAnd), ("or", kwOr), ("null", kwNull), ("this", kwThis), ("super", kwSuper),
   ("true", boolean), ("false", boolean)]

/-- The kind of a reserved word; letter case matters. -/
def ofWord? (word : String) : Option TokenKind :=
  reserved.lookup word

end TokenKind

/-- The value a token or a literal expression denotes. -/
inductive Literal
  | null
  | bool (value : Bool)
  | number (value : Float)
  | text (value : String)
deriving DecidableEq, Inhabited

/-- A lexeme with its kind, its value and its place. -/
structure Token where
  kind : TokenKind
  lexeme : String
  literal : Literal := .null
  position : Position := Position.origin
deriving DecidableEq, Inhabited

/-- The token of the end of a text. -/
def Token.endAt (p : Position) : Token := ⟨.eof, "", .null, p⟩

end ScriptFront
