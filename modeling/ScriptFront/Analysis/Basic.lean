import ScriptFront.Analysis.SymbolTable
import ScriptFront.Problem
import ScriptFront.Program.Outline

/-! # Analysis — names are declared once and before they are used

    The analysis goes through a program in the order of its text and stops at the first problem.
    Variables, functions and classes are declared once, whatever they are; a variable is declared
    behind its initializer, a function before its parameters and body, so that it can call itself.
    A parameter may be a parameter again elsewhere, but may not repeat in its list or take the name
    of something else.  Methods are reached through objects: their names are not declared.

    The state outlives a problem, so what was found before it can still be seen. -/

namespace ScriptFront.Analysis

/-! ## States and passes -/

/-- A variable whose type is no builtin type. -/
structure Unresolved where
  name : Token
  typeName : Token
deriving DecidableEq

/-- What an analysis does that can be told. -/
inductive Event
  | defined (s : Symbol)
  | leftUnresolved (typeName : String)
deriving DecidableEq

/-- The names declared so far, the variables left without a type, and all that was done. -/
structure State where
  table : SymbolTable := {}
  unresolved : List Unresolved := []
  events : List Event := []
deriving DecidableEq

/-- A change of the state that may end in a problem; the state is kept either way. -/
def Pass := State → State × Option Problem

namespace Pass

/-- Changes nothing. -/
def skip : Pass := fun s => (s, none)

/-- One pass and, unless it ends in a problem, another one. -/
def andThen (a b : Pass) : Pass := fun s =>
  match a s with
  | (s, none) => b s
  | (s, some p) => (s, some p)

/-- Some passes one after the other. -/
def all : List Pass → Pass
  | [] => skip
  | a :: as => a.andThen (all as)

/-- A problem if a condition holds. -/
def stopIf (condition : State → Bool) (problem : Problem) : Pass := fun s =>
  (s, if condition s then some problem else none)

end Pass

/-! ## Names and types -/

/-- Defines a name. -/
def define (symbol : Symbol) : Pass := fun s =>
  ({ s with
     table := s.table.define symbol
     events := s.events ++ [.defined symbol] },
   none)

/-- A name that is to be declared must be new. -/
def requireNew (name : Token) : Pass :=
  .stopIf (fun s => s.table.contains name.lexeme)
    (.ofCause (.alreadyDeclared name.lexeme) name.position)

/-- A name that is used must be declared. -/
def requireKnown (name : Token) : Pass :=
  .stopIf (fun s => !s.table.contains name.lexeme)
    (.ofCause (.notDefined name.lexeme) name.position)

/-- Declares a variable.  An unknown type is a problem if types are strict; otherwise the variable
    is left without a type. -/
def declareVariable (strict : Bool) (name : Token) : Option Token → Pass
  | none => define { name := name.lexeme }
  | some typeName => fun s =>
    match s.table.builtin? typeName.lexeme with
    | some type => define { name := name.lexeme, type := some type } s
    | none =>
      if strict then
        (s, some (.ofCause (.unknownType typeName.lexeme) typeName.position))
      else
        define { name := name.lexeme }
          { s with
            unresolved := s.unresolved ++ [⟨name, typeName⟩]
            events := s.events ++ [.leftUnresolved typeName.lexeme] }

/-- Whether a name stands for something that is no parameter. -/
def isTaken (table : SymbolTable) (name : String) : Bool :=
  match table.lookup? name with
  | none => false
  | some s => s.kind ≠ .parameter

/-- Declares the parameters of one list; `seen` are those before them. -/
def declareParameters (seen : List String) : List Token → Pass
  | [] => .skip
  | p :: ps =>
    .all
      [.stopIf (fun s => seen.contains p.lexeme || isTaken s.table p.lexeme)
         (.ofCause (.alreadyDeclared p.lexeme) p.position),
       define { name := p.lexeme, kind := .parameter },
       declareParameters (p.lexeme :: seen) ps]

/-! ## Outlines -/

mutual

/-- Checks the names of an outline and declares what it declares.  The order is that of the text,
    but that a function and a class are declared before what is inside them, and a variable behind
    its initializer. -/
def check (strict : Bool) : Outline → Pass
  | .absent => .skip
  | .node head children =>
    match head with
    | .assign name => .all [requireKnown name, checkAll strict children]
    | .var name => requireKnown name
    | .varDecl name typeName =>
      .all
        [requireNew name, checkAll strict children, declareVariable strict name typeName]
    | .function name parameters =>
      .all
        [requireNew name, define { name := name.lexeme, kind := .function },
         declareParameters [] parameters, checkAll strict children]
    | .classDecl name =>
      match children with
      | [] => .all [requireNew name, define { name := name.lexeme, kind := .classType }]
      | superclass :: methods =>
        .all
          [check strict superclass, requireNew name,
           define { name := name.lexeme, kind := .classType }, checkMethods strict methods]
    | _ => checkAll strict children

/-- Checks some outlines, one after the other. -/
def checkAll (strict : Bool) : List Outline → Pass
  | [] => .skip
  | o :: os => .all [check strict o, checkAll strict os]

/-- Declares the parameters of a method and checks its body; its name is not declared. -/
def checkMethod (strict : Bool) : Outline → Pass
  | .node (.function _ parameters) body =>
    .all [declareParameters [] parameters, checkAll strict body]
  | _ => .skip

/-- Checks some methods, one after the other. -/
def checkMethods (strict : Bool) : List Outline → Pass
  | [] => .skip
  | m :: ms => .all [checkMethod strict m, checkMethods strict ms]

end

/-! ## Programs -/

/-- Analyses the statements of a program. -/
def execute (strict : Bool) (statements : List Outline) : Pass := checkAll strict statements

/-- The analysis of a program from the beginning. -/
def analyze (strict : Bool) (p : Program) : State × Option Problem :=
  execute strict p.outlines {}

/-- Analyses the statements of a program a number of times, each time with the state the last time
    left. -/
def executeTimes (strict : Bool) (statements : List Outline) :
    Nat → State → List (State × Option Problem)
  | 0, _ => []
  | n + 1, s =>
    execute strict statements s :: executeTimes strict statements n (execute strict statements s).1

end ScriptFront.Analysis
