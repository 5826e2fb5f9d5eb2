import ScriptFront.Program.Parsing
import ScriptFront.Proofs.Grammar.NearestElse

/-! # Certificates — what is checked about an automaton once and for all

    The states of an automaton are data.  `Automaton.certified` goes through them and checks, item
    by item, that every state can go on with whatever its items ask for, that no item came from
    nowhere, and that rules are applied only where they are complete.  Nothing is assumed about the
    way in which the states were found.

    One conflict is let through: an `if` without `else` need not be complete before an `else`. -/

namespace ScriptFront.Grammar

/-! ## Tables read back -/

theorem Nonterminal.same_iff {a b : Nonterminal} : a.same b = true ↔ a = b := by
  constructor
  · intro h
    have back := congrArg Nonterminal.ofNat (Nat.eq_of_beq_eq_true h)
    rwa [Nonterminal.ofNat_ctorIdx, Nonterminal.ofNat_ctorIdx] at back
  · rintro rfl
    exact Nat.beq_refl _

theorem Table.mem_of_get? {α : Type} {n : Nonterminal} {v : α} {t : Table α}
    (h : t.get? n = some v) : (n, v) ∈ t := by
  induction t with
  | nil => exact nomatch h
  | cons entry rest ih =>
      obtain ⟨k, w⟩ := entry
      rw [Table.get?] at h
      split at h
      · next heq =>
          rw [Nonterminal.same_iff.mp heq, Option.some.inj h]
          exact List.mem_cons_self
      · exact List.mem_cons_of_mem _ (ih h)

/-! ## What nonterminals begin with -/

/-- Tables of what the nonterminals begin with: first kinds, rules, and corners. -/
structure Outlook where
  first : Table KindSet
  byLeft : Table (List (Nat × Rule))
  corners : Table (Table Ahead)

/-- A symbol that stands for no empty text; only a program may be empty, and a text begins with
    one. -/
def Symbol.isSolid : Symbol → Bool
  | .nonterminal .text | .nonterminal .program => false
  | _ => true

/-- The place of a symbol in the order of the rules; terminals stand behind all rules. -/
def Symbol.rank (rules : List Rule) : Symbol → Nat
  | .terminal _ => rules.length
  | .nonterminal n => rules.findIdx fun r => r.left = n

/-- Whether whatever may stand behind a corner may do so in the second case as well. -/
def Ahead.le (a b : Ahead) : Bool := a.kinds.subset b.kinds && (!a.inherits || b.inherits)

namespace Outlook

/-- The tables of some rules. -/
def ofRules (rules : List Rule) : Outlook :=
  let first := firstTable rules
  let byLeft := rulesByLeft rules
  { first, byLeft, corners := byLeft.map fun (n, _) => (n, Grammar.corners first byLeft n) }

variable (o : Outlook)

/-- The rules of a nonterminal, with their numbers. -/
def rulesOf (n : Nonterminal) : List (Nat × Rule) := (o.byLeft.get? n).getD []

/-- The corners of a nonterminal. -/
def cornersOf (n : Nonterminal) : Table Ahead := (o.corners.get? n).getD []

/-- The kinds that may stand behind the symbol at the dot, given the rest of the right side. -/
def ahead (follow : KindSet) : List Symbol → KindSet
  | [] => follow
  | s :: _ => firstOf o.first s

/-- What may stand behind the first symbol of a rule, given the rest of its right side. -/
def beyond (h : Ahead) : List Symbol → Ahead
  | [] => h
  | s :: _ => ⟨firstOf o.first s, false⟩

/-- A rule is found by its left side, begins with kinds that its left side begins with, and is
    empty or delicate in its first symbol only. -/
def admits (rules : List Rule) (e : Nat × Rule) : Bool :=
  (o.rulesOf e.2.left).any (fun e' => decide (e' = e))
    && e.2.right.tail.all Symbol.isSolid
    && match e.2.right with
      | [] => !(Symbol.nonterminal e.2.left).isSolid
      | [x] =>
        (firstOf o.first x).subset (firstOf o.first (.nonterminal e.2.left))
          && (x.isSolid || !(Symbol.nonterminal e.2.left).isSolid)
          && decide (Symbol.rank rules (.nonterminal e.2.left) < Symbol.rank rules x)
      | x :: _ =>
        (firstOf o.first x).subset (firstOf o.first (.nonterminal e.2.left))
          && (x.isSolid || !(Symbol.nonterminal e.2.left).isSolid)

/-- The rules listed under a left side are rules of it. -/
def lists (rules : List Rule) (entry : Nonterminal × List (Nat × Rule)) : Bool :=
  entry.2.all fun e => decide (e.2.left = entry.1) && decide (rules[e.1]? = some e.2)

/-- Every corner is the nonterminal itself or begins a rule of a corner that comes before it. -/
def grounded (n : Nonterminal) : List Nonterminal → Table Ahead → Bool
  | _, [] => true
  | seen, (m, _) :: rest =>
    (decide (m = n)
        || seen.any fun l => (o.rulesOf l).any fun e =>
          decide (e.2.right.head? = some (.nonterminal m)))
      && grounded n (m :: seen) rest

/-- What begins a rule of a corner is a corner. -/
def closed (row : Table Ahead) : Bool :=
  row.all fun (m, h) =>
    (o.rulesOf m).all fun e =>
      match e.2.right with
      | .nonterminal l :: rest =>
        row.any fun (l', h') => decide (l' = l) && (o.beyond h rest).le h'
      | _ => true

/-- All checks of the tables. -/
def certified (rules : List Rule) : Bool :=
  rules.zipIdx.all (fun (r, j) => o.admits rules (j, r))
    && o.first.all (fun (_, kinds) => !kinds.contains .kwElse)
    && o.byLeft.all (lists rules)
    && o.corners.all fun (n, row) => o.grounded n [] row && o.closed row

end Outlook

/-! ## What states do -/

/-- Whether a kernel has an item with all of some kinds in its follow set. -/
def State.holds (s : State) (rule : Nat) (behind : List Symbol) (follow : KindSet) : Bool :=
  s.kernel.any fun j =>
    j.rule.beq rule && decide (j.behind = behind) && follow.subset j.follow

namespace Automaton

variable (a : Automaton) (o : Outlook)

/-- A symbol leads to a state whose kernel has a certain item. -/
def leads (s : State) (x : Symbol) (rule : Nat) (behind : List Symbol) (follow : KindSet) :
    Bool :=
  match s.edges.lookup x with
  | none => false
  | some n =>
    match a.states.get? n with
    | none => false
    | some t => t.holds rule behind follow

/-- A rule is applied on all kinds of a set, but for the `if` that waits for its `else`. -/
def applies (s : State) (r : Rule) (follow : KindSet) : Bool :=
  (.comment :: TokenKind.terminals).all fun k =>
    match follow.contains k with
    | false => true
    | true =>
      decide (s.action? a.rules k = some (.apply r)) || decide (k = .kwElse) && decide (r = shortIf)

/-- A rule whose dot stands before a symbol is gone on with, a complete one is applied. -/
def proceeds (s : State) (j : Nat) (r : Rule) (behind : List Symbol) (follow : KindSet) : Bool :=
  match behind with
  | [] => a.applies s r follow
  | x :: rest => a.leads s x j rest follow

/-- The state proceeds with an item of its kernel. -/
def advances (s : State) (i : Item) : Bool :=
  match a.rules[i.rule]? with
  | none => false
  | some r => a.proceeds s i.rule r i.behind i.follow

/-- The state proceeds with all rules that begin where the dot of an item stands. -/
def opens (s : State) (i : Item) : Bool :=
  match i.behind with
  | .nonterminal n :: rest =>
    (o.cornersOf n).any (fun (m, h) => decide (m = n) && h.inherits)
      && (o.cornersOf n).all fun (m, h) =>
        (o.rulesOf m).all fun (j, r) =>
          a.proceeds s j r r.right (h.resolve (o.ahead i.follow rest))
  | _ => true

/-- A rule of a nonterminal may begin in the state. -/
def begins (s : State) (n : Nonterminal) : Bool :=
  s.kernel.any fun i =>
    match i.behind with
    | .nonterminal m :: _ => (o.cornersOf m).any fun (l, _) => decide (l = n)
    | _ => false

/-- An item comes from one with the dot before the symbol, or from a rule that begins there. -/
def stems (s : State) (x : Symbol) (i : Item) : Bool :=
  s.kernel.any (fun j => j.rule.beq i.rule && decide (j.behind = x :: i.behind))
    || match a.rules[i.rule]? with
      | none => false
      | some r => decide (r.right = x :: i.behind) && begins o s r.left

/-- All items that an edge leads to come from the state. -/
def traced (s : State) (e : Symbol × Nat) : Bool :=
  match a.states.get? e.2 with
  | none => false
  | some t => t.kernel.all fun i => a.stems o s e.1 i

/-- A complete rule is one whose dot has reached the end, or an empty one that begins here and
    after which no rule is applied.  The rule of the whole text is never applied. -/
def completes (s : State) (e : Nat × KindSet) : Bool :=
  (!e.1.beq 0 || decide (e.2 = .empty))
    && match a.rules[e.1]? with
      | none => false
      | some r =>
        match r.right with
        | [] =>
          begins o s r.left
            && match s.edges.lookup (.nonterminal r.left) with
              | none => false
              | some n =>
                match a.states.get? n with
                | none => false
                | some t => t.complete.isEmpty
        | _ => s.kernel.any fun i => i.rule.beq e.1 && i.behind.isEmpty

/-- All checks of one state. -/
def sound (s : State) : Bool :=
  !s.kernel.isEmpty
    && s.kernel.all (fun i => a.advances s i && a.opens o s i)
    && s.edges.all (a.traced o s)
    && s.complete.all (a.completes o s)

/-- In the first state nothing of the text has been read. -/
def startsWell : Bool :=
  match a.states.get? a.start, a.rules with
  | some s, r :: _ => s.kernel.all fun i => i.rule.beq 0 && decide (i.behind = r.right)
  | _, _ => false

/-- All checks of an automaton. -/
def certified : Bool :=
  o.certified a.rules && a.startsWell && a.states.toList.all fun (_, s) => a.sound o s

end Automaton

end ScriptFront.Grammar

namespace ScriptFront

/-- The automaton of the language passes all checks. -/
theorem automaton_certified : automaton.certified (.ofRules grammar) = true := by
  decide +kernel

end ScriptFront
