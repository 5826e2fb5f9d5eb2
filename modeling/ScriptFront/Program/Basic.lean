import ScriptFront.Token

/-! # Programs — expressions and statements

    A program is a row of statements.  Trees keep the tokens they were built from wherever a later
    pass may have to point at them; punctuation is gone.  A program made by hand may stand in a
    place of a statement. -/

namespace ScriptFront

/-- Expressions.  A call keeps its closing parenthesis. -/
inductive Expr
  | assign (name : Token) (value : Expr)
  | binary (left : Expr) (operator : Token) (right : Expr)
  | call (callee : Expr) (paren : Token) (arguments : List Expr)
  | get (object : Expr) (name : Token)
  | grouping (inner : Expr)
  | literal (value : Literal)
  | logical (left : Expr) (operator : Token) (right : Expr)
  | set (object : Expr) (name : Token) (value : Expr)
  | super (keyword : Token) (method : Token)
  | this (keyword : Token)
  | unary (operator : Token) (right : Expr)
  | var (name : Token)
deriving Inhabited

/-- A function or a method: its name, its parameters and the statements of its body. -/
structure FunctionDecl (σ : Type) where
  name : Token
  parameters : List Token
  body : List σ
deriving Inhabited

/-- Statements and declarations. -/
inductive Stmt
  | expression (value : Expr)
  | print (keyword : Token) (value : Expr)
  | varDecl (name : Token) (typeName : Option Token) (initializer : Option Expr)
  | block (statements : List Stmt)
  | conditional (condition : Expr) (thenBranch : Stmt) (elseBranch : Option Stmt)
  | whileLoop (condition : Expr) (body : Stmt)
  | forLoop (initializer : Option Stmt) (condition : Option Expr) (increment : Option Expr)
      (body : Stmt)
  | breakLoop (keyword : Token)
  | continueLoop (keyword : Token)
  | returnValue (keyword : Token) (value : Option Expr)
  | function (decl : FunctionDecl Stmt)
  | classDecl (name : Token) (superclass : Option Token) (methods : List (FunctionDecl Stmt))
  | program (statements : List Stmt)
deriving Inhabited

/-- A row of statements. -/
structure Program where
  statements : List Stmt
deriving Inhabited

end ScriptFront
