import ScriptFront.Grammar.Basic
import ScriptFront.Grammar.KindSet

/-! # Openings — how the text of a nonterminal can begin

    Where a nonterminal is to be read, one of its rules begins there, or a rule of the nonterminal
    that this rule begins with, and so on.  The nonterminals met on the way are its corners.  An
    opening is a rule of a corner behind its first symbol, with the kinds that may follow the rule:
    some kinds of the grammar's own, and, if nothing of the outer nonterminal is left behind it,
    whatever follows that one.

    The tables are filled in one pass.  They rely on the order of the rules: apart from itself, a
    nonterminal begins only with nonterminals whose rules come later.  Only the rule of the empty
    program has an empty right side, and a program begins nothing but the text. -/

namespace ScriptFront.Grammar

/-! ## Tables -/

/-- Nonterminals are told apart by their places in the order of nonterminals. -/
def Nonterminal.same (a b : Nonterminal) : Bool := a.ctorIdx.beq b.ctorIdx

/-- Symbols are told apart by their sort and place. -/
def Symbol.same : Symbol → Symbol → Bool
  | .terminal a, .terminal b => a.ctorIdx.beq b.ctorIdx
  | .nonterminal a, .nonterminal b => a.same b
  | _, _ => false

/-- A finite table with nonterminals as keys. -/
abbrev Table (α : Type) := List (Nonterminal × α)

namespace Table

/-- The value at a key. -/
def get? (key : Nonterminal) : Table α → Option α
  | [] => none
  | (k, v) :: rest =>
    match k.same key with
    | true => some v
    | false => get? key rest

/-- Joins a value to the one at a key, or puts it there. -/
def add (join : α → α → α) (key : Nonterminal) (value : α) : Table α → Table α
  | [] => [(key, value)]
  | (k, v) :: rest =>
    match k.same key with
    | true => (k, join v value) :: rest
    | false => (k, v) :: add join key value rest

end Table

/-- Values in groups by symbol. -/
abbrev Groups (α : Type) := List (Symbol × List α)

/-- Puts a value into the group of a symbol. -/
def Groups.add (s : Symbol) (x : α) : Groups α → Groups α
  | [] => [(s, [x])]
  | (s', xs) :: rest =>
    match s'.same s with
    | true => (s', x :: xs) :: rest
    | false => (s', xs) :: Groups.add s x rest

/-- The rules with their numbers, by left side. -/
def rulesByLeft (rules : List Rule) : Table (List (Nat × Rule)) :=
  ((List.range rules.length).zip rules).foldl
    (fun t (n, r) => t.add (· ++ ·) r.left [(n, r)]) []

/-! ## First kinds -/

/-- The kinds a symbol begins with, those of nonterminals from a table. -/
def firstOf (first : Table KindSet) : Symbol → KindSet
  | .terminal k => .singleton k
  | .nonterminal n => (first.get? n).getD .empty

/-- The kinds each nonterminal begins with. -/
def firstTable (rules : List Rule) : Table KindSet :=
  rules.foldr
    (fun r t =>
      match r.right with
      | [] => t
      | s :: _ => t.add .union r.left (firstOf t s))
    []

/-! ## Corners -/

/-- What may stand behind a corner: some kinds, and, if `inherits`, what follows the outer
    nonterminal. -/
structure Ahead where
  kinds : KindSet
  inherits : Bool
deriving DecidableEq, Repr

namespace Ahead

/-- What may stand behind a corner that is met in two ways. -/
def union (a b : Ahead) : Ahead := ⟨a.kinds.union b.kinds, a.inherits || b.inherits⟩

/-- The kinds behind a corner if `follow` may follow the outer nonterminal. -/
def resolve (a : Ahead) (follow : KindSet) : KindSet :=
  match a.inherits with
  | true => a.kinds.union follow
  | false => a.kinds

end Ahead

/-- The corners that a rule begins with when something stands behind them. -/
def addInner (first : Table KindSet) (r : Rule) (t : Table Ahead) : Table Ahead :=
  match r.right with
  | .nonterminal m :: s :: _ => t.add .union m ⟨firstOf first s, false⟩
  | _ => t

/-- The corner that a rule consists of; what follows the rule follows it too. -/
def addWhole (ahead : Ahead) (r : Rule) (t : Table Ahead) : Table Ahead :=
  match r.right with
  | [.nonterminal m] => t.add .union m ahead
  | _ => t

/-- The corners of a nonterminal, itself the first. -/
def corners (first : Table KindSet) (rules : Table (List (Nat × Rule))) (n : Nonterminal) :
    Table Ahead :=
  rules.foldl
    (fun t (m, rs) =>
      match t.get? m with
      | none => t
      | some _ =>
        let t := rs.foldl (fun t (_, r) => addInner first r t) t
        match t.get? m with
        | none => t
        | some ahead => rs.foldl (fun t (_, r) => addWhole ahead r t) t)
    [(n, ⟨.empty, true⟩)]

/-! ## Openings -/

/-- A rule of a corner, by number, and its right side behind the first symbol. -/
structure Opening where
  rule : Nat
  behind : List Symbol
  ahead : Ahead
deriving DecidableEq, Repr

/-- How a nonterminal can begin: its openings by first symbol, and the rules with nothing on the
    right side. -/
structure Openings where
  bySymbol : Groups Opening
  empty : List (Nat × Ahead)
deriving DecidableEq, Repr

/-- Adds one rule of a corner. -/
def Openings.add (ahead : Ahead) (o : Openings) : Nat × Rule → Openings
  | (n, r) =>
    match r.right with
    | [] => { o with empty := (n, ahead) :: o.empty }
    | s :: rest => { o with bySymbol := o.bySymbol.add s ⟨n, rest, ahead⟩ }

/-- The openings of a nonterminal. -/
def openings (first : Table KindSet) (rules : Table (List (Nat × Rule))) (n : Nonterminal) :
    Openings :=
  (corners first rules n).foldl
    (fun o (m, ahead) => ((rules.get? m).getD []).foldl (Openings.add ahead) o)
    ⟨[], []⟩

/-- What the states are made from: first kinds and openings. -/
structure Tables where
  first : Table KindSet
  openings : Table Openings
deriving DecidableEq, Repr

/-- The tables of a grammar. -/
def Tables.ofRules (rules : List Rule) : Tables :=
  let first := firstTable rules
  let byLeft := rulesByLeft rules
  { first, openings := byLeft.map fun (n, _) => (n, Grammar.openings first byLeft n) }

end ScriptFront.Grammar
