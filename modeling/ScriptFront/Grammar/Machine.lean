import ScriptFront.Grammar.Automaton

/-! # The machine — reading tokens with an automaton

    The machine keeps a stack of states, each with the tree of the symbol that led to it.  On a
    token it applies complete rules for as long as its state asks for that, and then shifts the
    token or refuses it.  Where a token could be shifted or a rule applied it is shifted, so an
    `else` goes to the nearest `if`.  A text is read when its end has been shifted. -/

namespace ScriptFront.Grammar

/-- A parse tree: a token, or a rule with the trees of its right side. -/
inductive Tree
  | leaf (token : Token)
  | node (rule : Rule) (children : List Tree)
deriving Inhabited

/-- A state and the tree of the symbol that led to it. -/
structure Frame where
  state : Nat
  tree : Tree
deriving Inhabited

/-- The frames, the newest first. -/
abbrev Stack := List Frame

/-- What a state does on a kind. -/
inductive Action
  | shift (target : Nat)
  | apply (rule : Rule)
deriving DecidableEq, Repr

/-- What a state does on a kind; nothing if it refuses it. -/
def State.action? (rules : List Rule) (s : State) (k : TokenKind) : Option Action :=
  match s.edges.lookup (.terminal k) with
  | some target => some (.shift target)
  | none =>
    match s.complete.find? fun (_, follow) => follow.contains k with
    | none => none
    | some (n, _) => rules[n]?.map .apply

namespace Automaton

/-- The state on top of a stack. -/
def top (a : Automaton) : Stack → Nat
  | [] => a.start
  | f :: _ => f.state

/-- What the state of a name does on a kind. -/
def action? (a : Automaton) (name : Nat) (k : TokenKind) : Option Action :=
  (a.states.get? name).bind fun s => s.action? a.rules k

/-- The state that a symbol leads to. -/
def edge? (a : Automaton) (name : Nat) (s : Symbol) : Option Nat :=
  (a.states.get? name).bind fun state => state.edges.lookup s

/-- The terminals a state does not refuse, in the order of their names. -/
def expected (a : Automaton) (name : Nat) : List TokenKind :=
  TokenKind.terminals.filter fun k => (a.action? name k).isSome

/-- Puts the trees of a right side together; nothing if the stack is too short or the state below
    has no edge for the left side. -/
def reduce? (a : Automaton) (rule : Rule) (stack : Stack) : Option Stack :=
  let n := rule.right.length
  let below := stack.drop n
  match n.ble stack.length with
  | false => none
  | true =>
    (a.edge? (a.top below) (.nonterminal rule.left)).map fun target =>
      ⟨target, .node rule ((stack.take n).map Frame.tree).reverse⟩ :: below

/-- What became of a token. -/
inductive Fed
  | shifted (stack : Stack)
  | refused (state : Nat)
  | stuck

/-- Feeds one token: rules are applied at most `fuel` times before it is shifted or refused. -/
def feed (a : Automaton) (t : Token) : Nat → Stack → Fed
  | 0, _ => .stuck
  | fuel + 1, stack =>
    match a.action? (a.top stack) t.kind with
    | none => .refused (a.top stack)
    | some (.shift target) => .shifted (⟨target, .leaf t⟩ :: stack)
    | some (.apply rule) =>
      match a.reduce? rule stack with
      | none => .stuck
      | some stack => a.feed t fuel stack

/-- More rules than one token can make the machine apply: each rule either shortens the stack or
    replaces its top by a nonterminal that stands before it in the order of rules. -/
def patience (a : Automaton) (stack : Stack) : Nat :=
  (stack.length + 2) * (a.rules.length + 1)

/-- What became of a text. -/
inductive Reading
  | accepted (tree : Tree)
  | refused (rest : List Token) (expected : List TokenKind)
  | stuck

/-- Reads tokens and then the end of the text. -/
def read (a : Automaton) (stack : Stack) : List Token → Reading
  | [] =>
    match a.feed (.endAt .origin) (a.patience stack) stack with
    | .shifted [_, program] => .accepted program.tree
    | .shifted _ => .stuck
    | .refused state => .refused [] (a.expected state)
    | .stuck => .stuck
  | t :: ts =>
    match a.feed t (a.patience stack) stack with
    | .shifted stack => a.read stack ts
    | .refused state => .refused (t :: ts) (a.expected state)
    | .stuck => .stuck

end Automaton

end ScriptFront.Grammar
