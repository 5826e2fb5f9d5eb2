import ScriptFront.Grammar.Index
import ScriptFront.Grammar.Opening

/-! # The automaton — LALR(1) states of a grammar

    An item is a rule with a dot in its right side and the kinds that may follow the whole rule.
    A state is a kernel of items; the rules that begin where the dot stands before a nonterminal
    belong to it as well.  Moving the dot over a symbol leads to the next state.  Kernels that
    differ in their follow sets only are one state, whose follow sets are the unions.

    The states are found by a work list: a kernel whose follow sets have grown is worked on again
    until every kernel has absorbed all that leads to it. -/

namespace ScriptFront.Grammar

/-! ## Items -/

/-- A rule by its number, the part of its right side behind the dot, and the kinds that may follow
    the rule. -/
structure Item where
  rule : Nat
  behind : List Symbol
  follow : KindSet
deriving DecidableEq, Repr

namespace Item

/-- Same rule and same dot. -/
def same (a b : Item) : Bool :=
  a.rule.beq b.rule && a.behind.length.beq b.behind.length

/-- Adds an item to a kernel; the follow sets of the same item are joined. -/
def addTo (i : Item) : List Item → List Item
  | [] => [i]
  | j :: js =>
    match i.same j with
    | true => { j with follow := j.follow.union i.follow } :: js
    | false => j :: i.addTo js

/-- Adds an item to the kernel of a symbol. -/
def addToGroup (s : Symbol) (i : Item) : Groups Item → Groups Item
  | [] => [(s, [i])]
  | (s', is) :: rest =>
    match s'.same s with
    | true => (s', i.addTo is) :: rest
    | false => (s', is) :: i.addToGroup s rest

/-- Whether a kernel has all items of another one with all kinds of their follow sets. -/
def absorbed (kernel : List Item) : List Item → Bool
  | [] => true
  | i :: is =>
    match kernel.find? i.same with
    | none => false
    | some j =>
      match i.follow.subset j.follow with
      | true => absorbed kernel is
      | false => false

/-- A number for the rules and dots of a kernel, in any order.  Two kernels of one grammar may
    happen to share it; those of this language do not. -/
def nameOf (kernel : List Item) : Nat :=
  Nat.mod (kernel.foldl (fun n i => n + Nat.pow (16 * i.rule + i.behind.length + 1) 3) 0) 999983

end Item

/-- The item of an opening where `follow` may follow the outer nonterminal. -/
def Opening.toItem (follow : KindSet) (o : Opening) : Item :=
  ⟨o.rule, o.behind, o.ahead.resolve follow⟩

/-! ## Moves -/

namespace Tables

/-- How a nonterminal can begin. -/
def opening (t : Tables) (n : Nonterminal) : Openings :=
  (t.openings.get? n).getD ⟨[], []⟩

/-- The kinds that may stand behind the symbol at the dot, given the rest of the right side. -/
def ahead (t : Tables) (follow : KindSet) : List Symbol → KindSet
  | [] => follow
  | s :: _ => firstOf t.first s

/-- Adds the items of all openings of a nonterminal. -/
def openUp (t : Tables) (n : Nonterminal) (follow : KindSet) : Groups Item → Groups Item
  | [] => (t.opening n).bySymbol.map fun (s, os) => (s, os.map (Opening.toItem follow))
  | groups =>
    (t.opening n).bySymbol.foldl
      (fun groups (s, os) => os.foldl (fun g o => (o.toItem follow).addToGroup s g) groups)
      groups

/-- The kernels that moving the dot over each symbol leads to. -/
def moves (t : Tables) : List Item → Groups Item
  | [] => []
  | i :: is =>
    match i.behind with
    | [] => t.moves is
    | .terminal k :: rest => Item.addToGroup (.terminal k) { i with behind := rest } (t.moves is)
    | .nonterminal n :: rest =>
      Item.addToGroup (.nonterminal n) { i with behind := rest }
        (t.openUp n (t.ahead i.follow rest) (t.moves is))

/-- The rules that are complete, with the kinds on which they are applied. -/
def complete (t : Tables) (kernel : List Item) : List (Nat × KindSet) :=
  kernel.flatMap fun i =>
    match i.behind with
    | [] => [(i.rule, i.follow)]
    | .terminal _ :: _ => []
    | .nonterminal n :: rest =>
      (t.opening n).empty.map fun (m, a) => (m, a.resolve (t.ahead i.follow rest))

end Tables

/-! ## Growing the states -/

/-- A kernel, and whether it waits to be worked on. -/
structure Draft where
  kernel : List Item
  waiting : Bool
deriving Repr

/-- The kernels found so far and the names of those that wait. -/
structure Growth where
  drafts : Index Draft
  waiting : List Nat
deriving Repr

namespace Growth

/-- Takes in the kernels that one state leads to. -/
def absorb : Groups Item → Growth → Growth
  | [], g => g
  | (_, kernel) :: rest, ⟨drafts, waiting⟩ =>
    let name := Item.nameOf kernel
    match drafts.get? name with
    | none => absorb rest ⟨drafts.set name ⟨kernel, true⟩, name :: waiting⟩
    | some d =>
      match Item.absorbed d.kernel kernel with
      | true => absorb rest ⟨drafts, waiting⟩
      | false =>
        let joined := kernel.foldl (fun k i => i.addTo k) d.kernel
        match d.waiting with
        | true => absorb rest ⟨drafts.set name ⟨joined, true⟩, waiting⟩
        | false => absorb rest ⟨drafts.set name ⟨joined, true⟩, name :: waiting⟩

/-- Works on waiting kernels until there are none, at most `fuel` times. -/
def grow (t : Tables) : Nat → Growth → Growth
  | 0, g => g
  | fuel + 1, ⟨drafts, waiting⟩ =>
    match waiting with
    | [] => ⟨drafts, []⟩
    | n :: rest =>
      match drafts.get? n with
      | none => grow t fuel ⟨drafts, rest⟩
      | some d =>
        grow t fuel (absorb (t.moves d.kernel) ⟨drafts.set n ⟨d.kernel, false⟩, rest⟩)

end Growth

/-! ## The automaton -/

/-- A state: its kernel, the states its symbols lead to, and its complete rules. -/
structure State where
  kernel : List Item
  edges : List (Symbol × Nat)
  complete : List (Nat × KindSet)
deriving Repr

/-- A grammar with its states; reading begins in the state `start`. -/
structure Automaton where
  rules : List Rule
  start : Nat
  states : Index State

namespace Automaton

/-- The kernel in which nothing has been read. -/
def startKernel (rules : List Rule) : List Item :=
  (rules.take 1).map fun r => ⟨0, r.right, .empty⟩

/-- The state of a kernel. -/
def stateOf (t : Tables) (kernel : List Item) : State :=
  { kernel
    edges := (t.moves kernel).map fun (s, target) => (s, Item.nameOf target)
    complete := t.complete kernel }

/-- The automaton of a grammar whose first rule is that of the whole text. -/
def ofRules (rules : List Rule) : Automaton :=
  let t := Tables.ofRules rules
  let kernel := startKernel rules
  let start := Item.nameOf kernel
  let growth :=
    Growth.grow t (40 * rules.length) ⟨.node .leaf start ⟨kernel, true⟩ .leaf, [start]⟩
  ⟨rules, start, growth.drafts.map fun _ d => stateOf t d.kernel⟩

end Automaton

end ScriptFront.Grammar
