import ScriptFront.Proofs.Program.Apparent
import ScriptFront.Proofs.Token.Genuine
import ScriptFront.Proofs.Token.Longest

/-! # Decoding — the program that a phrase stands for

    A word is a keyword or a name, and a row is told from its first word, whatever its other words
    are.  A part that is left out is the last one of its row; only the clauses of a `for` are always
    there, and `_` is none.  A name that ends in a colon has a type behind it, and a class has a
    superclass behind a `<`. -/

namespace ScriptFront

open TokenKind

/-! ## Expressions -/

namespace Expr

/-- The expression that is one word. -/
def ofWord (w : String) : Expr :=
  match TokenKind.ofWord? w with
  | some kwThis => this (.mark kwThis)
  | some kwNull => literal .null
  | some boolean => literal (.bool (w == "true"))
  | _ => var (.named w)

/-- The expression of an operator and its operands. -/
def ofOperator (k : TokenKind) : List Expr → Expr
  | [right] => unary (.mark k) right
  | [left, right] =>
      if k.logical?.isSome then logical left (.mark k) right else binary left (.mark k) right
  | _ => literal .null

/-- The expression of a row that begins with a word. -/
def ofRow : String → List Expr → Expr
  | "=", [var name, value] => assign name value
  | "call", callee :: arguments => call callee (.mark rightParen) arguments
  | ".", [object, var name] => get object name
  | "group", [inner] => grouping inner
  | "=.", [object, var name, value] => set object name value
  | "super", [var method] => super (.mark kwSuper) method
  | operator, operands => ofOperator ((ofSpelling? operator).getD eof) operands

end Expr

namespace Phrase

mutual

/-- The expression that a phrase stands for. -/
def toExpr : Phrase → Expr
  | word w => .ofWord w
  | number x => .literal (.number x)
  | quoted s => .literal (.text s)
  | row (word head :: parts) => .ofRow head (toExprs parts)
  | row _ => .literal .null

/-- The expressions that some phrases stand for. -/
def toExprs : List Phrase → List Expr
  | [] => []
  | p :: ps => p.toExpr :: toExprs ps

end

/-- The name that a word stands for. -/
def toName : Phrase → Token
  | word w => .named w
  | _ => .named ""

/-- The clause of a `for` that a phrase stands for. -/
def toClause : Phrase → Option Expr
  | word "_" => none
  | p => some p.toExpr

end Phrase

/-! ## Statements -/

namespace Stmt

open Phrase

/-- The declaration of a variable. -/
def ofVar (name : String) (parts : List Phrase) : Stmt :=
  if name.toList.getLast? = some ':' then
    varDecl (.named (String.ofList name.toList.dropLast)) (parts.head?.map toName)
      (parts.tail.head?.map toExpr)
  else varDecl (.named name) none (parts.head?.map toExpr)

/-- The function that a statement declares. -/
def function? : Stmt → Option (FunctionDecl Stmt)
  | function decl => some decl
  | _ => none

/-- The declaration of a class. -/
def ofClass (name : String) : List Phrase → List Stmt → Stmt
  | word "<" :: superclass :: _, _ :: _ :: methods =>
      classDecl (.named name) (some superclass.toName) (methods.filterMap function?)
  | _, methods => classDecl (.named name) none (methods.filterMap function?)

/-- The loop of three clauses and a body. -/
def ofFor : List Phrase → List Stmt → Stmt
  | [word _, condition, increment, _], [_, _, _, body] =>
      forLoop none condition.toClause increment.toClause body
  | [_, condition, increment, _], [initializer, _, _, body] =>
      forLoop (some initializer) condition.toClause increment.toClause body
  | _, statements => block statements

/-- The statement of a row that begins with a word. -/
def ofRow : String → List Phrase → List Stmt → Stmt
  | ";", [value], _ => expression value.toExpr
  | "print", [value], _ => print (.mark kwPrint) value.toExpr
  | "var", word name :: parts, _ => ofVar name parts
  | "if", condition :: _, _ :: branch :: other =>
      conditional condition.toExpr branch other.head?
  | "while", condition :: _, [_, body] => whileLoop condition.toExpr body
  | "for", parts, statements => ofFor parts statements
  | "break", _, _ => breakLoop (.mark kwBreak)
  | "continue", _, _ => continueLoop (.mark kwContinue)
  | "return", value, _ => returnValue (.mark kwReturn) (value.head?.map toExpr)
  | "def", word name :: row parameters :: _, _ :: _ :: body =>
      function ⟨.named name, parameters.map toName, body⟩
  | "class", word name :: parts, _ :: statements => ofClass name parts statements
  | "program", _, statements => program statements
  | _, _, statements => block statements

end Stmt

namespace Phrase

mutual

/-- The statement that a phrase stands for. -/
def toStmt : Phrase → Stmt
  | row (word head :: parts) => .ofRow head parts (toStmts parts)
  | _ => .block []

/-- The statements that some phrases stand for. -/
def toStmts : List Phrase → List Stmt
  | [] => []
  | p :: ps => p.toStmt :: toStmts ps

end

end Phrase

/-! ## Words of tokens -/

namespace Token.Genuine

open Phrase

variable {t : Token}

/-- An identifier begins with a letter, goes on with letters and digits, and is not reserved. -/
theorem letters (h : t.Genuine) (kind : t.kind = identifier) :
    (∃ c cs, t.lexeme.toList = c :: cs ∧ isLetter c = true ∧ ∀ d ∈ cs, isWordChar d = true)
    ∧ TokenKind.ofWord? t.lexeme = none := by
  have lexeme := h.lexeme
  rw [kind] at lexeme
  generalize split : t.lexeme.toList = w at lexeme
  cases lexeme with
  | sign mem =>
      have none : ∀ e ∈ signs, e.2 ≠ identifier := by decide
      exact absurd rfl (none _ mem)
  | reserved mem =>
      have none : ∀ e ∈ TokenKind.reserved, e.2 ≠ identifier := by decide
      exact absurd rfl (none _ mem)
  | @identifier c cs letter word free =>
      rw [← split, String.ofList_toList] at free
      exact ⟨⟨c, cs, rfl, letter, word⟩, free⟩

theorem isWordChar_of_mem (h : t.Genuine) (kind : t.kind = identifier) {c : Char}
    (mem : c ∈ t.lexeme.toList) : isWordChar c = true := by
  obtain ⟨⟨d, ds, split, letter, word⟩, -⟩ := h.letters kind
  rw [split] at mem
  rcases List.mem_cons.mp mem with rfl | later
  · exact Bool.or_eq_true_iff.mpr (.inl letter)
  · exact word c later

/-- An identifier is a word, with plain characters behind it too. -/
theorem isWord_append (h : t.Genuine) (kind : t.kind = identifier) {cs : List Char}
    (plain : ∀ c ∈ cs, isPlain c = true) : isWord (t.lexeme.toList ++ cs) = true := by
  have none : ∀ d ∈ [' ', '(', ')', '"'], isWordChar d = false := by
    simp [isWordChar, isLetter, Decimal.isDigit]
  refine isWord_iff.mpr ⟨?_, List.forall_mem_append.mpr ⟨fun c mem => ?_, plain⟩, ?_⟩
  · obtain ⟨⟨d, ds, split, -⟩, -⟩ := h.letters kind
    rw [split]
    exact List.cons_ne_nil d (ds ++ cs)
  · rw [isPlain, Bool.not_eq_true', ← Bool.not_eq_true, List.contains_iff_mem]
    intro other
    have word := h.isWordChar_of_mem kind mem
    rw [none c other] at word
    cases word
  · obtain ⟨⟨d, ds, split, letter, -⟩, -⟩ := h.letters kind
    rw [split]
    rintro _ ⟨⟩
    exact isDigit_of_isLetter letter

theorem wellFormed_word (h : t.Genuine) (kind : t.kind = identifier) :
    (word t.lexeme).WellFormed := by
  have isWord := h.isWord_append kind (List.forall_mem_nil _)
  rw [List.append_nil] at isWord
  exact .word isWord

/-- A name with a colon is a word that no name is. -/
theorem wellFormed_typed (h : t.Genuine) (kind : t.kind = identifier) :
    (word (t.lexeme ++ ":")).WellFormed := by
  refine .word ?_
  rw [String.toList_append]
  exact h.isWord_append kind (List.forall_mem_singleton.mpr rfl)

/-- The word of an identifier stands for the variable. -/
theorem ofWord_lexeme (h : t.Genuine) (kind : t.kind = identifier) :
    Expr.ofWord t.lexeme = .var t.placeless := by
  rw [h.eq_named kind, Expr.ofWord, (h.letters kind).2]

/-- A declaration without a type is told from the name. -/
theorem ofVar_lexeme (h : t.Genuine) (kind : t.kind = identifier) (parts : List Phrase) :
    Stmt.ofVar t.lexeme parts = .varDecl t.placeless none (parts.head?.map toExpr) := by
  have plain : t.lexeme.toList.getLast? ≠ some ':' := by
    intro colon
    have word := h.isWordChar_of_mem kind (List.mem_of_getLast? colon)
    cases word
  rw [Stmt.ofVar, if_neg plain, h.eq_named kind]

/-- A declaration with a type is told from the colon behind the name. -/
theorem ofVar_typed (h : t.Genuine) (kind : t.kind = identifier) {u : Token} (h' : u.Genuine)
    (kind' : u.kind = identifier) (parts : List Phrase) :
    Stmt.ofVar (t.lexeme ++ ":") (word u.lexeme :: parts)
      = .varDecl t.placeless (some u.placeless) (parts.head?.map toExpr) := by
  have colon : (t.lexeme ++ ":").toList = t.lexeme.toList ++ [':'] := String.toList_append
  rw [Stmt.ofVar, colon, List.getLast?_concat, if_pos rfl, List.dropLast_concat,
    String.ofList_toList, h.eq_named kind, h'.eq_named kind']
  rfl

/-! ### Operators -/

/-- The word of an operator on values stands for it between two operands. -/
theorem binary (h : t.Genuine) {o : Operator} (kind : t.kind.binary? = some o) :
    (word t.lexeme).WellFormed ∧ ∀ l r, Expr.ofRow t.lexeme [l, r] = .binary l t.placeless r := by
  have spelled : ∀ k : TokenKind, k.binary? = some o → k.isOpen = false
      ∧ isWord k.spelling.toList = true
      ∧ ∀ l r, Expr.ofRow k.spelling [l, r] = .binary l (.mark k) r := by
    intro k kind
    cases k with
    | bangEqual | equalEqual | greater | greaterEqual | less | lessEqual | minus | plus | slash
    | star | starStar => exact ⟨rfl, rfl, fun _ _ => rfl⟩
    | _ => cases kind
  obtain ⟨closed, isWord, row⟩ := spelled t.kind kind
  obtain ⟨mark, lexeme⟩ := h.eq_mark closed
  rw [mark, lexeme]
  exact ⟨.word isWord, row⟩

/-- The word of an operator on truth values stands for it between two operands. -/
theorem logical (h : t.Genuine) {o : Operator} (kind : t.kind.logical? = some o) :
    (word t.lexeme).WellFormed ∧ ∀ l r, Expr.ofRow t.lexeme [l, r] = .logical l t.placeless r := by
  have spelled : ∀ k : TokenKind, k.logical? = some o → k.isOpen = false
      ∧ isWord k.spelling.toList = true
      ∧ ∀ l r, Expr.ofRow k.spelling [l, r] = .logical l (.mark k) r := by
    intro k kind
    cases k with
    | kwOr | kwAnd => exact ⟨rfl, rfl, fun _ _ => rfl⟩
    | _ => cases kind
  obtain ⟨closed, isWord, row⟩ := spelled t.kind kind
  obtain ⟨mark, lexeme⟩ := h.eq_mark closed
  rw [mark, lexeme]
  exact ⟨.word isWord, row⟩

/-- The word of an operator before an operand stands for it. -/
theorem unary (h : t.Genuine) (kind : t.kind.isUnary = true) :
    (word t.lexeme).WellFormed ∧ ∀ r, Expr.ofRow t.lexeme [r] = .unary t.placeless r := by
  have spelled : ∀ k : TokenKind, k.isUnary = true → k.isOpen = false
      ∧ isWord k.spelling.toList = true
      ∧ ∀ r, Expr.ofRow k.spelling [r] = .unary (.mark k) r := by
    intro k kind
    cases k with
    | bang | minus | plusPlus | minusMinus => exact ⟨rfl, rfl, fun _ => rfl⟩
    | _ => cases kind
  obtain ⟨closed, isWord, row⟩ := spelled t.kind kind
  obtain ⟨mark, lexeme⟩ := h.eq_mark closed
  rw [mark, lexeme]
  exact ⟨.word isWord, row⟩

/-- A genuine keyword is the mark of its kind. -/
theorem eq_mark_of_kind (h : t.Genuine) {k : TokenKind} (kind : t.kind = k)
    (closed : k.isOpen = false) : t.move Position.nowhere = .mark k := by
  subst kind
  exact (h.eq_mark closed).1

end Token.Genuine

end ScriptFront
