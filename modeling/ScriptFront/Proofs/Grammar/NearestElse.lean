import Mathlib.Data.List.Chain
import ScriptFront.Proofs.Grammar.Derivation

/-! # The nearest if — which tree of a sentence is meant

    A text with an `else` behind several `if`s has several trees.  In one of them every `else`
    belongs to the nearest `if` that is still without one, and `exists_nearest` finds it: an `else`
    behind a branch that ends with an `if` without `else` is handed down to that `if`.

    The trees of a text differ in nothing else.  There are no statements in expressions, so these
    stay as they are, and what is read from a tree by going through its statements part by part is
    the same for all of them. -/

namespace ScriptFront

open Grammar.Nonterminal TokenKind

namespace Grammar

/-- The `if` without `else`. -/
def shortIf : Rule := ⟨ifStmt, [kwIf, leftParen, expression, rightParen, statement], .ifStmt⟩

/-- The `if` with `else`. -/
def fullIf : Rule :=
  ⟨ifStmt, [kwIf, leftParen, expression, rightParen, statement, kwElse, statement], .ifStmt⟩

theorem shortIf_mem : shortIf ∈ grammar := by decide

theorem fullIf_mem : fullIf ∈ grammar := by decide

/-- There is an `else` in no other rule. -/
theorem eq_fullIf_of_else_mem :
    ∀ r ∈ grammar, Symbol.terminal kwElse ∈ r.right → r = fullIf := by decide

/-- A symbol that may stand in an expression: a token, an expression or a list of expressions. -/
def Symbol.isInner : Symbol → Bool
  | .terminal _ => true
  | .nonterminal n =>
    [arguments, moreArguments, expression, assignment, logicOr, logicAnd, equality, comparison,
      term, factor, Nonterminal.unary, power, call, primary].contains n

/-- Nothing else stands in an expression. -/
theorem isInner_of_mem_right : ∀ r ∈ grammar, (Symbol.nonterminal r.left).isInner = true →
    ∀ x ∈ r.right, x.isInner = true := by decide

namespace Tree

/-- A tree that ends with an `if` without `else`. -/
inductive EndsOpen : Tree → Prop
  | short (cs : List Tree) : EndsOpen (node shortIf cs)
  | last {r : Rule} {cs : List Tree} {c : Tree} (h : EndsOpen c) : EndsOpen (node r (cs ++ [c]))

/-- A tree in which no `else` stands behind a branch that ends with an `if` without `else`. -/
inductive Nearest : Tree → Prop
  | leaf (t : Token) : Nearest (leaf t)
  | node {r : Rule} {cs : List Tree} (children : ∀ c ∈ cs, Nearest c)
      (apart : cs.IsChain fun c d => d.root = .terminal kwElse → ¬ c.EndsOpen) :
      Nearest (node r cs)

theorem not_endsOpen_leaf (t : Token) : ¬ (leaf t).EndsOpen := nofun

/-- A node ends open if it is the short rule or if its last child ends open. -/
theorem endsOpen_node_iff {r : Rule} {cs : List Tree} :
    (node r cs).EndsOpen ↔ r = shortIf ∨ ∃ init c, cs = init ++ [c] ∧ c.EndsOpen := by
  constructor
  · intro h
    cases h with
    | short => exact Or.inl rfl
    | last h => exact Or.inr ⟨_, _, rfl, h⟩
  · rintro (rfl | ⟨init, c, rfl, h⟩)
    · exact .short cs
    · exact .last h

/-- Without an `else` among them, children never stand in each other's way. -/
private theorem isChain_of_no_else {cs : List Tree}
    (h : ∀ d ∈ cs, d.root ≠ .terminal kwElse) :
    cs.IsChain fun c d => d.root = .terminal kwElse → ¬ c.EndsOpen := by
  induction cs with
  | nil => exact .nil
  | cons c cs ih =>
      have rest := ih fun d hd => h d (List.mem_cons_of_mem c hd)
      cases cs with
      | nil => exact .singleton c
      | cons d ds => exact .cons_cons (fun hd => absurd hd (h d (by simp))) rest

/-- A rule without an `else` only asks for children in which every `else` belongs to the nearest
    `if`. -/
theorem nearest_node {r : Rule} (mem : r ∈ grammar) (plain : r ≠ fullIf) {cs : List Tree}
    (roots : cs.map root = r.right) (near : ∀ c ∈ cs, c.Nearest) : (node r cs).Nearest := by
  refine .node near (isChain_of_no_else fun d hd isElse => ?_)
  have inRule : d.root ∈ r.right := roots ▸ List.mem_map_of_mem hd
  exact plain (eq_fullIf_of_else_mem r mem (isElse ▸ inRule))

/-- In an expression there is no `if` that an `else` could belong to. -/
theorem Fits.of_isInner {t : Tree} (fits : t.Fits grammar) (inner : t.root.isInner = true) :
    t.Nearest ∧ ¬ t.EndsOpen := by
  induction fits with
  | leaf t => exact ⟨.leaf t, not_endsOpen_leaf t⟩
  | @node r cs mem roots _ ih =>
      have outer : ¬ (Symbol.nonterminal ifStmt).isInner = true := by decide
      have children : ∀ c ∈ cs, c.Nearest ∧ ¬ c.EndsOpen := by
        intro c hc
        refine ih c hc (isInner_of_mem_right r mem inner _ ?_)
        rw [← roots]
        exact List.mem_map_of_mem hc
      constructor
      · refine nearest_node mem ?_ roots fun c hc => (children c hc).1
        rintro rfl
        exact outer inner
      · intro isOpen
        rcases endsOpen_node_iff.mp isOpen with rfl | ⟨init, c, rfl, last⟩
        · exact outer inner
        · exact (children c (List.mem_append_right _ List.mem_cons_self)).2 last

/-! ## Reading part by part -/

/-- What is read of a tree that is no expression is what is read of its children in turn. -/
def ByParts {α : Type} (f : Tree → List α) : Prop :=
  ∀ r ∈ grammar, (Symbol.nonterminal r.left).isInner = false → ∀ cs, f (node r cs) = cs.flatMap f

theorem tokensOf_eq_flatMap (cs : List Tree) : tokensOf cs = cs.flatMap tokens := by
  induction cs with
  | nil => rw [tokensOf_nil, List.flatMap_nil]
  | cons c cs ih => rw [tokensOf_cons, List.flatMap_cons, ih]

theorem byParts_tokens : ByParts tokens := by
  intro r _ _ cs
  rw [tokens_node, tokensOf_eq_flatMap]

/-! ## Handing down -/

/-- The last child may be exchanged for one of the same root. -/
private theorem isChain_replace_last {init : List Tree} {c d : Tree} (roots : d.root = c.root)
    (h : (init ++ [c]).IsChain fun c d => d.root = .terminal kwElse → ¬ c.EndsOpen) :
    (init ++ [d]).IsChain fun c d => d.root = .terminal kwElse → ¬ c.EndsOpen := by
  rw [List.isChain_append] at h ⊢
  obtain ⟨front, -, between⟩ := h
  refine ⟨front, .singleton d, ?_⟩
  intro x hx y hy hroot
  cases hy
  exact between x hx c rfl (roots ▸ hroot)

/-- A full `if` has seven children. -/
theorem exists_children_fullIf {cs : List Tree} (roots : cs.map root = fullIf.right) :
    ∃ i l e p s el b, cs = [i, l, e, p, s, el, b] := by
  have len : cs.length = 7 := by simpa [fullIf] using congrArg List.length roots
  match cs, len with
  | [i, l, e, p, s, el, b], _ => exact ⟨i, l, e, p, s, el, b, rfl⟩

/-- The five children of an `if` and its `else` branch make a full `if` where every `else` belongs
    to the nearest `if`. -/
theorem nearest_fullIf {i l e p s el b : Tree}
    (roots : [i, l, e, p, s, el, b].map root = fullIf.right)
    (children : ∀ c ∈ [i, l, e, p, s, el, b], c.Nearest) (closed : ¬ s.EndsOpen) :
    (node fullIf [i, l, e, p, s, el, b]).Nearest := by
  refine .node children ?_
  simp only [List.map_cons, List.map_nil, fullIf, List.cons.injEq, and_true] at roots
  obtain ⟨-, hl, he, hp, hs, -, hb⟩ := roots
  simp [List.isChain_cons_cons, hl, he, hp, hs, hb, closed]

/-- A tree fits with another last child of the same root. -/
private theorem fits_replace_last {r : Rule} {init : List Tree} {c d : Tree}
    (h : (node r (init ++ [c])).Fits grammar) (roots : d.root = c.root) (fits : d.Fits grammar) :
    (node r (init ++ [d])).Fits grammar := by
  cases h with
  | node mem rootsC children =>
      refine .node mem ?_ ?_
      · rw [← rootsC, List.map_append, List.map_append, List.map_singleton, roots,
          List.map_singleton]
      · intro x hx
        rcases List.mem_append.mp hx with front | last
        · exact children x (List.mem_append_left _ front)
        · rw [List.mem_singleton.mp last]
          exact fits

/-- Every `else` still belongs to the nearest `if` with another last child. -/
private theorem nearest_replace_last {r : Rule} {init : List Tree} {c d : Tree}
    (h : (node r (init ++ [c])).Nearest) (roots : d.root = c.root) (near : d.Nearest) :
    (node r (init ++ [d])).Nearest := by
  cases h with
  | node children apart =>
      refine .node ?_ (isChain_replace_last roots apart)
      intro x hx
      rcases List.mem_append.mp hx with front | last
      · exact children x (List.mem_append_left _ front)
      · rw [List.mem_singleton.mp last]
        exact near

section Attached

variable {el b : Tree} (hel : el.root = .terminal kwElse) (hb : b.root = .nonterminal statement)
  (fitsEl : el.Fits grammar) (fitsB : b.Fits grammar) (nearEl : el.Nearest) (nearB : b.Nearest)

include hel hb fitsEl fitsB nearEl nearB

/-- An `if` that waits for its `else` becomes a full one with it. -/
private theorem fullIf_of_shortIf {cs : List Tree} (fits : (node shortIf cs).Fits grammar)
    (near : (node shortIf cs).Nearest) (closed : ¬ ∃ init c, cs = init ++ [c] ∧ c.EndsOpen) :
    (node fullIf (cs ++ [el, b])).Fits grammar ∧ (node fullIf (cs ++ [el, b])).Nearest := by
  cases fits with
  | node mem roots children =>
    cases near with
    | node nearChildren apart =>
      have roots' : (cs ++ [el, b]).map root = fullIf.right := by
        rw [List.map_append, roots]
        simp [shortIf, fullIf, hel, hb]
      have fits' : ∀ c ∈ cs ++ [el, b], c.Fits grammar :=
        List.forall_mem_append.mpr ⟨children, List.forall_mem_cons.mpr
          ⟨fitsEl, List.forall_mem_singleton.mpr fitsB⟩⟩
      have near' : ∀ c ∈ cs ++ [el, b], c.Nearest :=
        List.forall_mem_append.mpr ⟨nearChildren, List.forall_mem_cons.mpr
          ⟨nearEl, List.forall_mem_singleton.mpr nearB⟩⟩
      refine ⟨.node fullIf_mem roots' fits', ?_⟩
      obtain ⟨i, l, e, p, s, rfl⟩ : ∃ i l e p s, cs = [i, l, e, p, s] := by
        have len : cs.length = 5 := by simpa [shortIf] using congrArg List.length roots
        match cs, len with
        | [i, l, e, p, s], _ => exact ⟨i, l, e, p, s, rfl⟩
      exact nearest_fullIf roots' near' fun isOpen => closed ⟨[i, l, e, p], s, rfl, isOpen⟩

/-- An `else` branch behind a tree that ends open becomes the branch of its last `if`. -/
private theorem exists_attached {t : Tree} (fits : t.Fits grammar) (near : t.Nearest)
    (isOpen : t.EndsOpen) :
    ∃ t' : Tree, t'.Fits grammar ∧ t'.root = t.root ∧ t'.Nearest
      ∧ ∀ {α : Type} (f : Tree → List α), ByParts f → f t' = f t ++ (f el ++ f b) := by
  induction fits with
  | leaf t => exact absurd isOpen (not_endsOpen_leaf t)
  | @node r cs mem roots children ih =>
      have whole : (node r cs).Fits grammar := .node mem roots children
      have outer : (Symbol.nonterminal r.left).isInner = false :=
        Bool.eq_false_iff.mpr fun inner => (whole.of_isInner inner).2 isOpen
      by_cases lastOpen : ∃ init c, cs = init ++ [c] ∧ c.EndsOpen
      · -- the `if` that waits is somewhere below the last child
        obtain ⟨init, c, rfl, hc⟩ := lastOpen
        have memC : c ∈ init ++ [c] := List.mem_append_right _ List.mem_cons_self
        have nearC : c.Nearest := by
          cases near with
          | node nearChildren _ => exact nearChildren c memC
        obtain ⟨d, fitsD, rootD, nearD, readD⟩ := ih c memC nearC hc
        refine ⟨.node r (init ++ [d]), fits_replace_last whole rootD fitsD, rfl,
          nearest_replace_last near rootD nearD, fun f parts => ?_⟩
        simp [parts r mem outer, readD f parts]
      · -- it is the tree itself
        have short : r = shortIf := (endsOpen_node_iff.mp isOpen).resolve_right lastOpen
        subst short
        obtain ⟨fits', near'⟩ :=
          fullIf_of_shortIf hel hb fitsEl fitsB nearEl nearB whole near lastOpen
        refine ⟨.node fullIf (cs ++ [el, b]), fits', rfl, near', fun f parts => ?_⟩
        simp [parts shortIf mem outer, parts fullIf fullIf_mem outer]

end Attached

/-- Children one by one in their nearest form. -/
private theorem exists_nearest_children {cs : List Tree}
    (h : ∀ c ∈ cs, ∃ d : Tree, d.Fits grammar ∧ d.root = c.root ∧ d.Nearest
      ∧ ∀ {α : Type} (f : Tree → List α), ByParts f → f d = f c) :
    ∃ ds : List Tree, (∀ d ∈ ds, d.Fits grammar) ∧ ds.map root = cs.map root
      ∧ (∀ d ∈ ds, d.Nearest)
      ∧ ∀ {α : Type} (f : Tree → List α), ByParts f → ds.flatMap f = cs.flatMap f := by
  induction cs with
  | nil => exact ⟨[], nofun, rfl, nofun, fun _ _ => rfl⟩
  | cons c cs ih =>
      obtain ⟨d, fits, root, near, read⟩ := h c List.mem_cons_self
      obtain ⟨ds, fits', roots, near', reads⟩ := ih fun x hx => h x (List.mem_cons_of_mem c hx)
      refine ⟨d :: ds, ?_, ?_, ?_, ?_⟩
      · exact List.forall_mem_cons.mpr ⟨fits, fits'⟩
      · rw [List.map_cons, List.map_cons, root, roots]
      · exact List.forall_mem_cons.mpr ⟨near, near'⟩
      · intro α f parts
        rw [List.flatMap_cons, List.flatMap_cons, read f parts, reads f parts]

/-- Every tree can be rearranged so that each `else` belongs to the nearest `if`; what is read part
    by part does not change. -/
theorem exists_rearranged {t : Tree} (fits : t.Fits grammar) :
    ∃ t' : Tree, t'.Fits grammar ∧ t'.root = t.root ∧ t'.Nearest
      ∧ ∀ {α : Type} (f : Tree → List α), ByParts f → f t' = f t := by
  induction fits with
  | leaf t => exact ⟨.leaf t, .leaf t, rfl, .leaf t, fun _ _ => rfl⟩
  | @node r cs mem roots children ih =>
      have whole : (node r cs).Fits grammar := .node mem roots children
      cases inner : (Symbol.nonterminal r.left).isInner with
      | true => exact ⟨node r cs, whole, rfl, (whole.of_isInner inner).1, fun _ _ => rfl⟩
      | false =>
        obtain ⟨ds, fits, roots', near, reads⟩ := exists_nearest_children ih
        rw [roots] at roots'
        by_cases hr : r = fullIf
        · subst hr
          obtain ⟨i, l, e, p, s, el, b, rfl⟩ := exists_children_fullIf roots'
          by_cases isOpen : s.EndsOpen
          · -- the `else` belongs to the last `if` of the first branch
            simp only [List.map_cons, List.map_nil, fullIf, List.cons.injEq, and_true] at roots'
            obtain ⟨hi, hl, he, hp, hs, hel, hb⟩ := roots'
            obtain ⟨s', fitsS, rootS, nearS, readS⟩ :=
              exists_attached hel hb (fits el (by simp)) (fits b (by simp)) (near el (by simp))
                (near b (by simp)) (fits s (by simp)) (near s (by simp)) isOpen
            have rootsS : [i, l, e, p, s'].map root = shortIf.right := by
              simp [shortIf, hi, hl, he, hp, hs, rootS]
            have fits' : ∀ x ∈ [i, l, e, p] ++ [s'], x.Fits grammar := by
              refine List.forall_mem_append.mpr ⟨?_, List.forall_mem_singleton.mpr fitsS⟩
              exact fun x hx => fits x (List.mem_append_left [s, el, b] hx)
            have near' : ∀ x ∈ [i, l, e, p] ++ [s'], x.Nearest := by
              refine List.forall_mem_append.mpr ⟨?_, List.forall_mem_singleton.mpr nearS⟩
              exact fun x hx => near x (List.mem_append_left [s, el, b] hx)
            refine ⟨.node shortIf [i, l, e, p, s'], .node shortIf_mem rootsS fits', rfl,
              nearest_node shortIf_mem (by decide) rootsS near', fun f parts => ?_⟩
            rw [parts shortIf shortIf_mem inner, parts fullIf mem inner, ← reads f parts]
            simp [readS f parts]
          · refine ⟨.node fullIf [i, l, e, p, s, el, b], .node mem roots' fits, rfl,
              nearest_fullIf roots' near isOpen, fun f parts => ?_⟩
            rw [parts fullIf mem inner, parts fullIf mem inner, reads f parts]
        · refine ⟨.node r ds, .node mem roots' fits, rfl, nearest_node mem hr roots' near,
            fun f parts => ?_⟩
          rw [parts r mem inner, parts r mem inner, reads f parts]

/-- Every tree can be rearranged, without a change of its tokens, so that each `else` belongs to
    the nearest `if`. -/
theorem exists_nearest {t : Tree} (fits : t.Fits grammar) :
    ∃ t' : Tree, t'.Fits grammar ∧ t'.root = t.root ∧ t'.tokens = t.tokens ∧ t'.Nearest := by
  obtain ⟨t', fits', root, near, read⟩ := exists_rearranged fits
  exact ⟨t', fits', root, read tokens byParts_tokens, near⟩

end Tree

end Grammar

end ScriptFront
