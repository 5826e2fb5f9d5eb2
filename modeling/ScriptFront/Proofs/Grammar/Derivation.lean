import Mathlib.Computability.ContextFreeGrammar
import ScriptFront.Grammar.Machine

/-! # Derivations — parse trees and the sentences of a grammar

    A parse tree fits a grammar when every inner node is one of its rules with the roots of the
    children as right side.  The rules are also a context-free grammar in the usual sense, whose
    words are derived by rewriting one nonterminal after the other.

    * `derives_of_fits`: the tokens below a fitting tree are derived from its root;
    * `exists_forest_of_derives`: whatever is derived has fitting trees;
    * `map_kind_mem_language_iff`: some tokens are a sentence exactly if they are the tokens of a
      fitting tree. -/

/-- What the rules of a context-free grammar are made of. -/
abbrev ContextFreeRule.Letter (T N : Type) := Symbol T N

namespace ScriptFront.Grammar

/-! ## Trees -/

namespace Tree

/-- The symbol a tree stands for. -/
def root : Tree → Symbol
  | leaf t => .terminal t.kind
  | node r _ => .nonterminal r.left

mutual

/-- The tokens at the leaves of a tree, from left to right. -/
def tokens : Tree → List Token
  | leaf t => [t]
  | node _ children => tokensOf children

/-- The tokens at the leaves of some trees, from left to right. -/
def tokensOf : List Tree → List Token
  | [] => []
  | t :: ts => t.tokens ++ tokensOf ts

end

@[simp] theorem root_leaf (t : Token) : (leaf t).root = .terminal t.kind := rfl

@[simp] theorem root_node (r : Rule) (cs : List Tree) : (node r cs).root = .nonterminal r.left :=
  rfl

@[simp] theorem tokens_leaf (t : Token) : (leaf t).tokens = [t] := by
  rw [tokens]

@[simp] theorem tokens_node (r : Rule) (cs : List Tree) :
    (node r cs).tokens = tokensOf cs := by
  rw [tokens]

@[simp] theorem tokensOf_nil : tokensOf [] = [] := by
  rw [tokensOf]

@[simp] theorem tokensOf_cons (t : Tree) (ts : List Tree) :
    tokensOf (t :: ts) = t.tokens ++ tokensOf ts := by
  rw [tokensOf]

@[simp] theorem tokensOf_append (as bs : List Tree) :
    tokensOf (as ++ bs) = tokensOf as ++ tokensOf bs := by
  induction as with
  | nil => rfl
  | cons t ts ih =>
      rw [List.cons_append, tokensOf_cons, tokensOf_cons, ih, List.append_assoc]

/-- The tokens of some trees are the tokens of each. -/
theorem mem_tokensOf {token : Token} {cs : List Tree} :
    token ∈ tokensOf cs ↔ ∃ c ∈ cs, token ∈ c.tokens := by
  induction cs with
  | nil => simp
  | cons c cs ih => simp [ih]

/-- A tree of a grammar: every inner node is a rule with the roots of its children. -/
inductive Fits (rules : List Rule) : Tree → Prop
  | leaf (t : Token) : Fits rules (leaf t)
  | node {r : Rule} {cs : List Tree} (mem : r ∈ rules) (roots : cs.map root = r.right)
      (children : ∀ c ∈ cs, Fits rules c) : Fits rules (node r cs)

end Tree

theorem Tree.fits_node_iff {rules : List Rule} {r : Rule} {cs : List Tree} :
    (Tree.node r cs).Fits rules
      ↔ (r ∈ rules ∧ cs.map Tree.root = r.right) ∧ ∀ c ∈ cs, c.Fits rules := by
  constructor
  · rintro (_ | ⟨mem, roots, children⟩)
    exact ⟨⟨mem, roots⟩, children⟩
  · rintro ⟨⟨mem, roots⟩, children⟩
    exact .node mem roots children

mutual

/-- Whether a tree fits can be told from its nodes, one after the other. -/
def Tree.decideFits (rules : List Rule) : (t : Tree) → Decidable (t.Fits rules)
  | .leaf t => isTrue (.leaf t)
  | .node _ cs =>
      let _ := Tree.decideAllFit rules cs
      decidable_of_iff' _ Tree.fits_node_iff

/-- Whether some trees fit can be told from each of them. -/
def Tree.decideAllFit (rules : List Rule) : (cs : List Tree) → Decidable (∀ c ∈ cs, c.Fits rules)
  | [] => isTrue (List.forall_mem_nil _)
  | c :: cs =>
      let _ := Tree.decideFits rules c
      let _ := Tree.decideAllFit rules cs
      decidable_of_iff' _ List.forall_mem_cons

end

instance (rules : List Rule) (t : Tree) : Decidable (t.Fits rules) := t.decideFits rules

/-! ## The grammar as a context-free grammar -/

/-- A symbol as a letter of a context-free grammar. -/
def Symbol.letter : Symbol → ContextFreeRule.Letter TokenKind Nonterminal
  | terminal k => .terminal k
  | nonterminal n => .nonterminal n

theorem Symbol.letter_injective : Function.Injective Symbol.letter := by
  intro x y h
  cases x <;> cases y <;> cases h <;> rfl

/-- A rule without its form. -/
def Rule.rewriting (r : Rule) : ContextFreeRule TokenKind Nonterminal :=
  ⟨r.left, r.right.map Symbol.letter⟩

/-- Some rules as a context-free grammar that begins with a nonterminal. -/
abbrev contextFree (rules : List Rule) (start : Nonterminal) : ContextFreeGrammar TokenKind where
  NT := Nonterminal
  initial := start
  rules := (rules.map Rule.rewriting).toFinset

/-- Some kinds as letters. -/
def word (ks : List TokenKind) : List (ContextFreeRule.Letter TokenKind Nonterminal) :=
  ks.map .terminal

/-- The kinds of some tokens as letters. -/
def wordOf (ts : List Token) : List (ContextFreeRule.Letter TokenKind Nonterminal) :=
  word (ts.map Token.kind)

@[simp] theorem word_append (as bs : List TokenKind) : word (as ++ bs) = word as ++ word bs :=
  List.map_append

@[simp] theorem wordOf_append (as bs : List Token) :
    wordOf (as ++ bs) = wordOf as ++ wordOf bs := by
  rw [wordOf, List.map_append, word_append]
  rfl

/-- A token of a kind. -/
def tokenOf (k : TokenKind) : Token := ⟨k, "", .null, .origin⟩

@[simp] theorem map_kind_map_tokenOf (ks : List TokenKind) :
    (ks.map tokenOf).map Token.kind = ks := by
  rw [List.map_map]
  exact List.map_id ks

variable {rules : List Rule} {start : Nonterminal}

theorem produces_of_mem {r : Rule} (h : r ∈ rules) :
    (contextFree rules start).Produces [.nonterminal r.left] (r.right.map Symbol.letter) :=
  ⟨r.rewriting, List.mem_toFinset.mpr (List.mem_map_of_mem h),
    ContextFreeRule.Rewrites.input_output⟩

/-- A rule applied between two stretches of symbols. -/
theorem derives_of_mem {r : Rule} (h : r ∈ rules)
    (us vs : List (ContextFreeRule.Letter TokenKind Nonterminal)) :
    (contextFree rules start).Derives (us ++ [.nonterminal r.left] ++ vs)
      (us ++ r.right.map Symbol.letter ++ vs) :=
  ((produces_of_mem h).single.append_left us).append_right vs

/-- Trees that fit one by one give one derivation of all their tokens. -/
theorem derives_tokensOf {cs : List Tree}
    (h : ∀ c ∈ cs, (contextFree rules start).Derives [c.root.letter] (wordOf c.tokens)) :
    (contextFree rules start).Derives ((cs.map Tree.root).map Symbol.letter)
      (wordOf (Tree.tokensOf cs)) := by
  induction cs with
  | nil => exact .refl _
  | cons c cs ih =>
      have first := h c List.mem_cons_self
      have rest := ih fun d hd => h d (List.mem_cons_of_mem c hd)
      rw [Tree.tokensOf_cons, wordOf_append]
      exact (first.append_right _).trans (rest.append_left _)

/-- The tokens of a fitting tree are derived from its root. -/
theorem derives_of_fits {t : Tree} (h : t.Fits rules) :
    (contextFree rules start).Derives [t.root.letter] (wordOf t.tokens) := by
  induction h with
  | leaf t =>
      rw [Tree.tokens_leaf]
      exact .refl _
  | @node r cs mem roots _ ih =>
      have below := derives_tokensOf ih
      rw [roots] at below
      rw [Tree.tokens_node]
      exact (produces_of_mem mem).single.trans below

/-- One rewriting step backwards, on trees. -/
private theorem exists_forest_of_produces
    {us vs : List (ContextFreeRule.Letter TokenKind Nonterminal)}
    (step : (contextFree rules start).Produces us vs) {ts : List Tree}
    (roots : ts.map (fun t => t.root.letter) = vs) (fits : ∀ t ∈ ts, t.Fits rules) :
    ∃ ts' : List Tree, ts'.map (fun t => t.root.letter) = us
      ∧ Tree.tokensOf ts' = Tree.tokensOf ts ∧ ∀ t ∈ ts', t.Fits rules := by
  obtain ⟨r', hr', rewrites⟩ := step
  obtain ⟨r, hr, rfl⟩ := List.mem_map.mp (List.mem_toFinset.mp hr')
  obtain ⟨p, q, rfl, rfl⟩ := rewrites.exists_parts
  -- the trees that the rule has written become the children of one node
  obtain ⟨front, right, rfl, hfront, hright⟩ := List.map_eq_append_iff.mp roots
  obtain ⟨left, middle, rfl, hleft, hmiddle⟩ := List.map_eq_append_iff.mp hfront
  have letters : (middle.map Tree.root).map Symbol.letter = r.right.map Symbol.letter := by
    rw [List.map_map]
    exact hmiddle
  have symbols : middle.map Tree.root = r.right :=
    List.map_injective_iff.mpr Symbol.letter_injective letters
  refine ⟨left ++ [.node r middle] ++ right, ?_, ?_, ?_⟩
  · rw [List.map_append, List.map_append, hleft, hright]
    rfl
  · simp
  · intro t ht
    rcases List.mem_append.mp ht with hlm | hr
    · rcases List.mem_append.mp hlm with hl | hm
      · exact fits t (by simp [hl])
      · rw [List.mem_singleton.mp hm]
        exact .node hr symbols fun c hc => fits c (by simp [hc])
    · exact fits t (by simp [hr])

/-- Whatever derives the kinds of some tokens has fitting trees with these tokens. -/
theorem exists_forest_of_derives {us : List (ContextFreeRule.Letter TokenKind Nonterminal)}
    {ts : List Token} (h : (contextFree rules start).Derives us (wordOf ts)) :
    ∃ cs : List Tree, cs.map (fun t => t.root.letter) = us ∧ Tree.tokensOf cs = ts
      ∧ ∀ c ∈ cs, c.Fits rules := by
  induction h using Relation.ReflTransGen.head_induction_on with
  | refl =>
      refine ⟨ts.map Tree.leaf, ?_, ?_, ?_⟩
      · simp [wordOf, word, Symbol.letter]
      · induction ts with
        | nil => rfl
        | cons t ts ih => rw [List.map_cons, Tree.tokensOf_cons, ih]; rfl
      · intro c hc
        obtain ⟨t, -, rfl⟩ := List.mem_map.mp hc
        exact .leaf t
  | head step _ ih =>
      obtain ⟨cs, roots, tokens, fits⟩ := ih
      obtain ⟨cs', roots', tokens', fits'⟩ := exists_forest_of_produces step roots fits
      exact ⟨cs', roots', tokens'.trans tokens, fits'⟩

/-- Tokens are a sentence exactly if they are the tokens of a tree for the whole. -/
theorem map_kind_mem_language_iff {ts : List Token} :
    ts.map Token.kind ∈ (contextFree rules start).language
      ↔ ∃ t : Tree, t.Fits rules ∧ t.root = .nonterminal start ∧ t.tokens = ts := by
  constructor
  · intro h
    obtain ⟨cs, roots, tokens, fits⟩ := exists_forest_of_derives
      (show (contextFree rules start).Derives [.nonterminal start] (wordOf ts) from h)
    obtain ⟨c, rest, rfl, hc, hrest⟩ := List.map_eq_cons_iff.mp roots
    cases List.map_eq_nil_iff.mp hrest
    refine ⟨c, fits c List.mem_cons_self, ?_, ?_⟩
    · cases hroot : c.root with
      | terminal k => rw [hroot] at hc; exact nomatch hc
      | nonterminal n => rw [hroot] at hc; cases hc; rfl
    · rw [Tree.tokensOf_cons, Tree.tokensOf_nil, List.append_nil] at tokens
      exact tokens
  · rintro ⟨t, fits, root, rfl⟩
    have h : (contextFree rules start).Derives [t.root.letter] (wordOf t.tokens) :=
      derives_of_fits fits
    rw [root] at h
    exact h

/-! ## The rule of the whole text -/

/-- The rule of the whole text. -/
def textRule : Rule := ⟨.text, [.nonterminal .program, .terminal .eof], .same⟩

theorem textRule_mem : textRule ∈ grammar := List.mem_cons_self

/-- Only the rule of the whole text speaks of the end. -/
theorem eq_textRule_of_eof_mem :
    ∀ r ∈ grammar, Symbol.terminal .eof ∈ r.right → r = textRule := by decide

/-- Only this rule asks for a program. -/
theorem eq_textRule_of_program_mem :
    ∀ r ∈ grammar, Symbol.nonterminal .program ∈ r.right → r = textRule := by decide

/-- It is the only rule of the whole text. -/
theorem eq_textRule_of_left : ∀ r ∈ grammar, r.left = .text → r = textRule := by decide

/-- A text is no part of anything. -/
theorem text_not_mem_right : ∀ r ∈ grammar, Symbol.nonterminal .text ∉ r.right := by decide

/-- The tokens below another nonterminal than that of the whole text are of kinds that the other
    rules speak of. -/
theorem exists_rule_of_mem_tokens {t : Tree} (fits : t.Fits grammar) {n : Nonterminal}
    (root : t.root = .nonterminal n) (notText : n ≠ .text) :
    ∀ token ∈ t.tokens, ∃ r ∈ grammar, r ≠ textRule ∧ .terminal token.kind ∈ r.right := by
  induction fits generalizing n with
  | leaf t => exact nomatch root
  | @node r cs mem roots _ ih =>
      cases root
      intro token htoken
      rw [Tree.tokens_node, Tree.mem_tokensOf] at htoken
      obtain ⟨c, hc, htoken⟩ := htoken
      have inRule : c.root ∈ r.right := roots ▸ List.mem_map_of_mem hc
      cases c with
      | node r' ds =>
          refine ih _ hc rfl ?_ token htoken
          rintro isText
          exact text_not_mem_right r mem (isText ▸ inRule)
      | leaf u =>
          rw [Tree.tokens_leaf] at htoken
          cases List.mem_singleton.mp htoken
          refine ⟨r, mem, ?_, inRule⟩
          rintro rfl
          exact notText rfl

end ScriptFront.Grammar
