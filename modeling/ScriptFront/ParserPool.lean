/-! # Parser pools — one parser for everyday use, new ones for debugging

    A pool builds its parser when it is first asked for one and hands out the same parser until it
    is cleared.  A parser for debugging is always new and is not kept.  The text of the grammar is
    read once, for whichever parser comes first, and again after the pool is cleared.  Parsers are
    numbered in the order in which they are built. -/

namespace ScriptFront

/-- A pool of parsers: where the grammar lies and whether it has been read, the parser that is kept,
    and how many were built. -/
structure ParserPool where
  grammarPath : String := "sprig.lark"
  grammarRead : Bool := false
  kept : Option Nat := none
  built : Nat := 0
deriving DecidableEq, Repr

namespace ParserPool

/-- What can be asked of a pool. -/
inductive Request
  | create (debug : Bool)
  | clear
deriving DecidableEq, Repr

/-- What a pool answers: the number of the parser, whether it is new, and whether the grammar was
    read for it. -/
inductive Answer
  | parser (number : Nat) (isNew readsGrammar : Bool)
  | cleared
deriving DecidableEq, Repr

/-- Builds a parser; it is kept unless it is for debugging. -/
def build (p : ParserPool) (debug : Bool) : Answer × ParserPool :=
  (.parser p.built true !p.grammarRead,
   { p with
     grammarRead := true
     kept := if debug then p.kept else some p.built
     built := p.built + 1 })

/-- The answer to a request and the pool after it. -/
def perform (p : ParserPool) : Request → Answer × ParserPool
  | .clear => (.cleared, { p with grammarRead := false, kept := none })
  | .create debug =>
    match debug, p.kept with
    | false, some number => (.parser number false false, p)
    | _, _ => p.build debug

/-- The answers to some requests. -/
def performAll (p : ParserPool) : List Request → List Answer
  | [] => []
  | r :: rs => (p.perform r).1 :: (p.perform r).2.performAll rs

end ParserPool

end ScriptFront
