import ScriptFront.Proofs.Program.Kept
import ScriptFront.Proofs.Program.Nodes
import ScriptFront.Proofs.Program.RoundTrip
import ScriptFront.Proofs.Program.Slots
import ScriptFront.Proofs.Token.Offsets

/-! # The walk — every node once, every name once

    The identifiers among the tokens of a canonical program are those in its heads that name
    something (`Program.Canonical.filter_tokens`).  The tokens in the heads are those that the
    program was read from, so each identifier of the text is found in one head, once, and the
    variables are met in the order of the text (`walk_is_complete`). -/

namespace ScriptFront

open TokenKind

/-- Whether a token is an identifier. -/
def Token.isName (t : Token) : Bool := t.kind = identifier

/-- The tokens of a head that name something: a variable that is used or assigned to, a member that
    is read, set or called of the superclass, a variable, function, method or class that is
    declared, a parameter or a type. -/
def Head.identifiers : Head → List Token
  | var name | assign name => [name]
  | get name | set name | super _ name => [name]
  | varDecl name typeName => name :: typeName.toList
  | function name parameters => name :: parameters
  | classDecl name => [name]
  | _ => []

/-! ## Identifiers of canonical programs -/

theorem filter_names {ts : List Token} (kinds : ∀ t ∈ ts, t.kind = identifier) :
    ts.filter Token.isName = ts :=
  List.filter_eq_self.mpr fun t mem => decide_eq_true (kinds t mem)

theorem filter_name {t : Token} (kind : t.kind = identifier) : [t].filter Token.isName = [t] :=
  filter_names (List.forall_mem_singleton.mpr kind)

theorem filter_other {t : Token} {k : TokenKind} (kind : t.kind = k) (other : k ≠ identifier) :
    [t].filter Token.isName = [] := by
  have notName : t.isName = false := decide_eq_false (by rwa [kind])
  rw [List.filter_cons_of_neg (by rw [notName]; exact Bool.false_ne_true), List.filter_nil]

namespace Outline

/-- The identifiers in the heads of an outline name something, and all that name something are
    identifiers. -/
def Named (o : Outline) : Prop :=
  (o.collect Head.tokens).filter Token.isName = o.collect Head.identifiers

/-- The same of some outlines. -/
def NamedAll (os : List Outline) : Prop :=
  (collectAll Head.tokens os).filter Token.isName = collectAll Head.identifiers os

theorem named_absent : absent.Named := rfl

theorem namedAll_nil : NamedAll [] := rfl

theorem namedAll_cons {o : Outline} {os : List Outline} (h : o.Named) (hs : NamedAll os) :
    NamedAll (o :: os) := by
  rw [NamedAll, collectAll_cons, collectAll_cons, List.filter_append, h, hs]

theorem named_node {head : Head} {children : List Outline}
    (own : head.tokens.filter Token.isName = head.identifiers) (below : NamedAll children) :
    (node head children).Named := by
  rw [Named, collect_node, collect_node, List.filter_append, own, below]

end Outline

open Outline (NamedAll named_node named_absent namedAll_nil namedAll_cons)

namespace Expr

theorem named_all {es : List Expr} (h : ∀ e ∈ es, e.outline.Named) : NamedAll (outlines es) := by
  induction es with
  | nil => exact namedAll_nil
  | cons e es ih =>
      obtain ⟨first, rest⟩ := List.forall_mem_cons.mp h
      exact namedAll_cons first (ih rest)

/-- The identifiers of a canonical expression name something. -/
theorem Canonical.named {e : Expr} (h : e.Canonical) : e.outline.Named := by
  induction h with
  | assign kind _ ih => exact named_node (filter_name kind) (namedAll_cons ih namedAll_nil)
  | binary kind _ _ _ _ ihLeft ihRight =>
      exact named_node (filter_other rfl (ne_identifier_of_isMark (isMark_of_binary kind)))
        (namedAll_cons ihLeft (namedAll_cons ihRight namedAll_nil))
  | call _ _ kind _ ihCallee ihArguments =>
      exact named_node (filter_other kind (by decide))
        (namedAll_cons ihCallee (named_all ihArguments))
  | get _ _ kind ih => exact named_node (filter_name kind) (namedAll_cons ih namedAll_nil)
  | grouping _ ih => exact named_node rfl (namedAll_cons ih namedAll_nil)
  | literal => exact named_node rfl namedAll_nil
  | logical kind _ _ _ _ ihLeft ihRight =>
      exact named_node (filter_other rfl (ne_identifier_of_isMark (isMark_of_logical kind)))
        (namedAll_cons ihLeft (namedAll_cons ihRight namedAll_nil))
  | set _ _ kind _ ihObject ihValue =>
      exact named_node (filter_name kind)
        (namedAll_cons ihObject (namedAll_cons ihValue namedAll_nil))
  | @super keyword method kind methodKind =>
      refine named_node ?_ namedAll_nil
      show ([keyword] ++ [method]).filter Token.isName = [method]
      rw [List.filter_append, filter_other kind (by decide), filter_name methodKind,
        List.nil_append]
  | this kind => exact named_node (filter_other kind (by decide)) namedAll_nil
  | unary kind _ _ ih =>
      exact named_node (filter_other rfl (ne_identifier_of_isMark (isMark_of_unary kind)))
        (namedAll_cons ih namedAll_nil)
  | var kind => exact named_node (filter_name kind) namedAll_nil

theorem named_part {e : Option Expr} (h : ∀ x ∈ e, x.Canonical) : (outlinePart e).Named := by
  cases e with
  | none => exact named_absent
  | some x => exact (h x rfl).named

end Expr

namespace Stmt

theorem named_all {ss : List Stmt} (h : ∀ s ∈ ss, s.outline.Named) : NamedAll (outlines ss) := by
  induction ss with
  | nil => exact namedAll_nil
  | cons s ss ih =>
      obtain ⟨first, rest⟩ := List.forall_mem_cons.mp h
      exact namedAll_cons first (ih rest)

theorem named_part {s : Option Stmt} (h : ∀ x ∈ s, x.outline.Named) : (outlinePart s).Named := by
  cases s with
  | none => exact named_absent
  | some x => exact h x rfl

theorem named_function {f : FunctionDecl Stmt} (names : f.NamesCanonical)
    (h : ∀ s ∈ f.body, s.outline.Named) : (outlineFunction f).Named := by
  obtain ⟨name, parameters, body⟩ := f
  refine named_node (filter_names ?_) (named_all h)
  exact List.forall_mem_cons.mpr ⟨names.name, names.parameters⟩

theorem named_functions {fs : List (FunctionDecl Stmt)} (names : ∀ f ∈ fs, f.NamesCanonical)
    (h : ∀ f ∈ fs, ∀ s ∈ f.body, s.outline.Named) : NamedAll (outlineFunctions fs) := by
  induction fs with
  | nil => exact namedAll_nil
  | cons f fs ih =>
      obtain ⟨named, restNamed⟩ := List.forall_mem_cons.mp names
      obtain ⟨first, rest⟩ := List.forall_mem_cons.mp h
      exact namedAll_cons (named_function named first) (ih restNamed rest)

/-- The identifiers of a canonical statement name something. -/
theorem Canonical.named {s : Stmt} (h : s.Canonical) : s.outline.Named := by
  induction h with
  | expression value => exact named_node rfl (namedAll_cons value.named namedAll_nil)
  | print kind value =>
      exact named_node (filter_other kind (by decide)) (namedAll_cons value.named namedAll_nil)
  | @varDecl name type init kind typeKind value =>
      refine named_node (filter_names ?_) (namedAll_cons (Expr.named_part value) namedAll_nil)
      refine List.forall_mem_cons.mpr ⟨kind, fun t mem => ?_⟩
      exact typeKind t (Option.mem_toList.mp mem)
  | block _ ih => exact named_node rfl (named_all ih)
  | short condition _ _ ih =>
      exact named_node rfl
        (namedAll_cons condition.named (namedAll_cons ih (namedAll_cons named_absent namedAll_nil)))
  | full condition _ _ _ _ _ ih ihOther =>
      exact named_node rfl
        (namedAll_cons condition.named (namedAll_cons ih (namedAll_cons ihOther namedAll_nil)))
  | whileLoop condition _ _ ih =>
      exact named_node rfl (namedAll_cons condition.named (namedAll_cons ih namedAll_nil))
  | forLoop _ _ condition increment _ _ ihInitializer ihBody =>
      exact named_node rfl
        (namedAll_cons (named_part ihInitializer) (namedAll_cons (Expr.named_part condition)
          (namedAll_cons (Expr.named_part increment) (namedAll_cons ihBody namedAll_nil))))
  | breakLoop kind => exact named_node (filter_other kind (by decide)) namedAll_nil
  | continueLoop kind => exact named_node (filter_other kind (by decide)) namedAll_nil
  | returnValue kind value =>
      exact named_node (filter_other kind (by decide))
        (namedAll_cons (Expr.named_part value) namedAll_nil)
  | function names _ ih => exact named_function names ih
  | @classDecl name superclass fs kind superKind names _ ih =>
      refine named_node (filter_name kind) (namedAll_cons ?_ (named_functions names ih))
      cases superclass with
      | none => exact named_absent
      | some t => exact (Expr.Canonical.var (superKind t rfl)).named

end Stmt

/-- The identifiers in the heads of a canonical program are those that name something. -/
theorem Program.Canonical.filter_tokens {p : Program} (h : p.Canonical) :
    (p.heads.flatMap Head.tokens).filter Token.isName = p.heads.flatMap Head.identifiers :=
  Stmt.named_all fun s mem => (h s mem).named

/-! ## Identifiers of texts -/

/-- The identifiers that fill plain slots are those that are kept. -/
theorem names_of_fills {slots : List Slot} {ts : List Token} (fills : Fills slots ts)
    (plain : Slot.AllPlain slots) :
    (Slot.kept slots).filter Token.isName = ts.filter Token.isName := by
  induction fills with
  | nil => rfl
  | @cons slot t slots ts holds _ ih =>
      obtain ⟨own, rest⟩ := List.forall_mem_cons.mp plain
      have others := ih rest
      rw [← List.singleton_append (l := ts), List.filter_append]
      cases slot with
      | mark k =>
          have kind : t.kind = k := holds
          rw [filter_other kind (ne_identifier_of_isMark own), List.nil_append, Slot.kept_mark,
            others]
      | token u =>
          have same : t = u := holds
          rw [same, Slot.kept_token, ← List.singleton_append (l := Slot.kept slots),
            List.filter_append, others]
      | value v =>
          have isValue : t.kind.isLiteral = true := holds.1
          have notName : t.kind ≠ identifier := by
            intro name
            rw [name] at isValue
            cases isValue
          rw [filter_other rfl notName, List.nil_append, Slot.kept_value, others]

/-- The identifiers that a program keeps are those of the text. -/
theorem identifiers_of_parse {tokens : List Token} {p : Program} (parsed : parse tokens = .ok p) :
    (Slot.kept p.slots).filter Token.isName = tokens.filter Token.isName := by
  obtain ⟨canonical, written⟩ := canonical_of_parse parsed
  rw [names_of_fills written canonical.plain, List.filter_filter, List.filter_filter]
  refine List.filter_congr fun t _ => ?_
  rw [Token.isName, Token.isKept, Token.isSignificant]
  generalize t.kind = k
  cases k with
  | _ => rfl

/-- The walk through a program that was read from a text visits every node of the program once,
    parents first: its n-th head is that of the node to which the n-th path leads, the paths are all
    those that lead to nodes, and they increase.  The variables that it meets stand further and
    further behind in the text, and every identifier of the text is found in one head of the
    program, once, as something that it names. -/
theorem walk_is_complete {source : String} {tokens : List Token} {p : Program}
    (scanned : scan source = .ok tokens) (parsed : parse tokens = .ok p) :
    (List.Forall₂ (fun path head => ∃ n, p.root.at? path = some n ∧ n.head = head) p.paths p.heads
      ∧ (∀ path, path ∈ p.paths ↔ (p.root.at? path).isSome)
      ∧ p.paths.Pairwise (· < ·) ∧ p.paths.Pairwise fun a b => ¬ b <+: a)
    ∧ (p.heads.flatMap Head.uses).Pairwise (fun a b => a.position < b.position)
    ∧ (p.heads.flatMap Head.identifiers).Perm (tokens.filter Token.isName)
    ∧ ∀ t ∈ tokens, t.kind = identifier → (p.heads.flatMap Head.tokens).count t = 1
        ∧ ∃ h ∈ p.heads, t ∈ h.identifiers := by
  obtain ⟨canonical, written⟩ := canonical_of_parse parsed
  have increasing := increasing_of_scan scanned
  have sameNames : ((p.heads.flatMap Head.tokens).filter Token.isName).Perm
      (tokens.filter Token.isName) := by
    rw [← identifiers_of_parse parsed]
    exact (List.perm_iff_count.mpr p.count_tokens).filter _
  refine ⟨⟨p.nodes_at_paths, p.mem_paths_iff, Outline.paths_increase _, Outline.parents_first _⟩,
    ?_, ?_, fun t mem kind => ?_⟩
  · have written := p.uses_sublist.trans (Fills.kept_sublist written)
    exact increasing.sublist (written.trans (List.filter_sublist.trans List.filter_sublist))
  · rwa [canonical.filter_tokens] at sameNames
  · have isName : t.isName = true := decide_eq_true kind
    have once : tokens.Nodup := increasing.imp fun {a b} less same => by
      rw [same, Position.lt_iff] at less
      omega
    have counted : (p.heads.flatMap Head.tokens).count t = 1 := by
      have filtered := sameNames.count_eq t
      rw [List.count_filter isName, List.count_filter isName] at filtered
      rw [filtered]
      exact List.count_eq_one_of_mem once mem
    refine ⟨counted, List.mem_flatMap.mp ?_⟩
    rw [← canonical.filter_tokens]
    refine List.mem_filter.mpr ⟨?_, isName⟩
    exact List.count_pos_iff.mp (by omega)

/-- The walk through a class with a superclass and a method that reads a member: the superclass is
    met before the object, and each of the five names is found once. -/
theorem class_is_walked :
    let c : Token := ⟨.identifier, "A", .null, ⟨1, 7⟩⟩
    let parent : Token := ⟨.identifier, "B", .null, ⟨1, 17⟩⟩
    let method : Token := ⟨.identifier, "m", .null, ⟨1, 23⟩⟩
    let object : Token := ⟨.identifier, "C", .null, ⟨1, 27⟩⟩
    let member : Token := ⟨.identifier, "d", .null, ⟨1, 29⟩⟩
    let p : Program :=
      ⟨[.classDecl c (some parent) [⟨method, [], [.expression (.get (.var object) member)]⟩]]⟩
    (∃ tokens, scan "class A extends B\x7bdef m()\x7bC.d;\x7d\x7d" = .ok tokens
      ∧ parse tokens = .ok p)
    ∧ p.heads = [.program, .classDecl c, .var parent, .function method [], .expression,
        .get member, .var object]
    ∧ p.paths = [[], [0], [0, 0], [0, 1], [0, 1, 0], [0, 1, 0, 0], [0, 1, 0, 0, 0]]
    ∧ [parent, object].Pairwise (fun a b => a.position < b.position)
    ∧ ∀ t ∈ [c, parent, method, object, member],
        (p.heads.flatMap Head.tokens).count t = 1 := by
  intro c parent method object member p
  let mark (k : TokenKind) (lexeme : String) (column : Int) : Token :=
    ⟨k, lexeme, .null, ⟨1, column⟩⟩
  let tokens : List Token := [mark .kwClass "class" 1, c, mark .kwExtends "extends" 9, parent,
    mark .leftBrace "\x7b" 18, mark .kwDef "def" 19, method, mark .leftParen "(" 24,
    mark .rightParen ")" 25, mark .leftBrace "\x7b" 26, object, mark .dot "." 28, member,
    mark .semicolon ";" 30, mark .rightBrace "\x7d" 31, mark .rightBrace "\x7d" 32,
    .endAt ⟨1, 33⟩]
  have scanned : scan "class A extends B\x7bdef m()\x7bC.d;\x7d\x7d" = .ok tokens := by
    decide +kernel
  have canonical : p.Canonical := by
    refine List.forall_mem_singleton.mpr (.classDecl rfl ?_ ?_ ?_)
    · rintro t ⟨⟩
      rfl
    · exact List.forall_mem_singleton.mpr ⟨rfl, List.forall_mem_nil _⟩
    · refine List.forall_mem_singleton.mpr (List.forall_mem_singleton.mpr ?_)
      exact .expression (.get (.var rfl) (by decide) rfl)
  have parsed : parse tokens = .ok p := by
    refine parse_of_writtenAs canonical ?_
    repeat' first | exact List.Forall₂.nil | refine List.Forall₂.cons rfl ?_
  obtain ⟨-, ordered, -, once⟩ := walk_is_complete scanned parsed
  have names : ∀ t ∈ [c, parent, method, object, member], t ∈ tokens ∧ t.kind = identifier := by
    decide
  refine ⟨⟨tokens, scanned, parsed⟩, rfl, rfl, ordered, fun t mem => ?_⟩
  obtain ⟨inText, kind⟩ := names t mem
  exact (once t inText kind).1

end ScriptFront
