import ScriptFront.Outline
import ScriptFront.Token.Written

/-! # Printed outlines — trees as parenthesised text

    A node is written as its name and its parts between parentheses, separated by single blanks.
    Absent parts are left out, but for the clauses of a `for` loop, whose places are kept. -/

namespace ScriptFront

/-- A name and its parts. -/
def parenthesized (name : String) (parts : List String) : String :=
  "(" ++ " ".intercalate (name :: parts) ++ ")"

/-- The parts that are there. -/
def presentParts (parts : List (Option String)) : List String := parts.filterMap id

namespace Head

/-- The text of a node, given the texts of its children. -/
def text (parts : List (Option String)) : Head → String
  | assign name => parenthesized "=" (name.lexeme :: presentParts parts)
  | binary operator | logical operator | unary operator =>
    parenthesized operator.lexeme (presentParts parts)
  | call _ => parenthesized "call" (presentParts parts)
  | get name => parenthesized "." (presentParts parts ++ [name.lexeme])
  | grouping => parenthesized "group" (presentParts parts)
  | literal value => value.written
  | set name =>
    parenthesized "=."
      (presentParts (parts.take 1) ++ name.lexeme :: presentParts (parts.drop 1))
  | super _ method => parenthesized "super" [method.lexeme]
  | this _ => "this"
  | var name => name.lexeme
  | expression => parenthesized ";" (presentParts parts)
  | print _ => parenthesized "print" (presentParts parts)
  | varDecl name none => parenthesized "var" (name.lexeme :: presentParts parts)
  | varDecl name (some typeName) =>
    parenthesized "var" ((name.lexeme ++ ": " ++ typeName.lexeme) :: presentParts parts)
  | block => parenthesized "block" (presentParts parts)
  | conditional => parenthesized "if" (presentParts parts)
  | whileLoop => parenthesized "while" (presentParts parts)
  | forLoop =>
    parenthesized "for"
      ((parts.take 3).map (fun clause => clause.getD "_") ++ presentParts (parts.drop 3))
  | breakLoop _ => "(break)"
  | continueLoop _ => "(continue)"
  | returnValue _ => parenthesized "return" (presentParts parts)
  | function name parameters =>
    parenthesized "def"
      (name.lexeme :: ("(" ++ " ".intercalate (parameters.map Token.lexeme) ++ ")")
        :: presentParts parts)
  | classDecl name =>
    match parts with
    | some superclass :: methods =>
      parenthesized "class" ((name.lexeme ++ " < " ++ superclass) :: presentParts methods)
    | parts => parenthesized "class" (name.lexeme :: presentParts parts)
  | program => parenthesized "program" (presentParts parts)

end Head

namespace Outline

mutual

/-- The text of an outline; an absent one has none. -/
def text? : Outline → Option String
  | absent => none
  | node head children => some (head.text (texts children))

/-- The texts of some outlines, each in its place. -/
def texts : List Outline → List (Option String)
  | [] => []
  | o :: os => o.text? :: texts os

end

/-- The text of an outline. -/
def printed (o : Outline) : String := o.text?.getD ""

end Outline

end ScriptFront
