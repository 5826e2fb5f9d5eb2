import ScriptFront.Token

/-! # Outlines — trees of heads, with any child in any place

    A head is what a node of a tree holds besides its children: its kind and its tokens.  An
    outline is a head with the outlines of its children in the order of the text, and a child may be
    absent.  Programs have outlines; an outline made by hand need not be that of a program. -/

namespace ScriptFront

/-- What a node holds besides its children. -/
inductive Head
  | assign (name : Token)
  | binary (operator : Token)
  | call (paren : Token)
  | get (name : Token)
  | grouping
  | literal (value : Literal)
  | logical (operator : Token)
  | set (name : Token)
  | super (keyword method : Token)
  | this (keyword : Token)
  | unary (operator : Token)
  | var (name : Token)
  | expression
  | print (keyword : Token)
  | varDecl (name : Token) (typeName : Option Token)
  | block
  | conditional
  | whileLoop
  | forLoop
  | breakLoop (keyword : Token)
  | continueLoop (keyword : Token)
  | returnValue (keyword : Token)
  | function (name : Token) (parameters : List Token)
  | classDecl (name : Token)
  | program
deriving DecidableEq, Inhabited

/-- A tree of heads.  An absent child keeps the places of the others. -/
inductive Outline
  | absent
  | node (head : Head) (children : List Outline)
deriving Inhabited

namespace Outline

/-- The children of a node. -/
def children : Outline → List Outline
  | absent => []
  | node _ children => children

/-! ## Heads in order -/

mutual

/-- The heads of an outline, parents first, children in the order of the text. -/
def heads : Outline → List Head
  | absent => []
  | node head children => head :: headsAll children

/-- The heads of some outlines, one after the other. -/
def headsAll : List Outline → List Head
  | [] => []
  | o :: os => o.heads ++ headsAll os

end

end Outline

end ScriptFront
