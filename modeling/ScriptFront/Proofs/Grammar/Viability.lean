import ScriptFront.Proofs.Grammar.Reading

/-! # Viability — whatever has been read can be completed

    The trees on a stack and what stands behind the dot of any item on top of it are the beginning
    of something that the text can become.  The induction is on the stack: an item came from one
    with the dot before the last symbol, or its rule begins where the symbols below end.  Since
    every nonterminal stands for some text (`exists_word`), what is missing can be supplied.

    The follow set of an item is joined from all contexts in which it occurs, and only some of its
    kinds may be possible in the one at hand.  But one of them always is: the text that completes
    what lies on the stack begins with a kind of the follow set (`Path.exists_sequel`). -/

namespace ScriptFront.Grammar

/-! ## Every symbol stands for some text -/

/-- A rule whose nonterminals are all among some nonterminals. -/
def Rule.isRipe (done : List Nonterminal) (r : Rule) : Bool :=
  r.right.all fun
    | .terminal _ => true
    | .nonterminal n => done.contains n

/-- Adds the left sides of rules that are ripe, going through the rules from the last to the
    first. -/
def ripen (done : List Nonterminal) (rules : List Rule) : List Nonterminal :=
  rules.foldr (fun r done => if r.isRipe done then r.left :: done else done) done

private theorem ripe_check :
    ((List.range 36).all fun i =>
      (ripen (ripen [] grammar) grammar).contains (Nonterminal.ofNat i)) = true := by
  decide +kernel

theorem mem_ripened (n : Nonterminal) : n ∈ ripen (ripen [] grammar) grammar := by
  have small : n.ctorIdx < 36 := by cases n <;> decide
  have h := List.all_eq_true.mp ripe_check n.ctorIdx (List.mem_range.mpr small)
  rw [Nonterminal.ofNat_ctorIdx] at h
  exact List.contains_iff_mem.mp h

variable {rules : List Rule} {start : Nonterminal}

/-- Symbols that each derive a word derive one together. -/
theorem exists_word_of_forall {xs : List Symbol}
    (h : ∀ x ∈ xs, ∃ w, (contextFree rules start).Derives [x.letter] (word w)) :
    ∃ w, (contextFree rules start).Derives (xs.map Symbol.letter) (word w) := by
  induction xs with
  | nil => exact ⟨[], .refl _⟩
  | cons x xs ih =>
      obtain ⟨v, hv⟩ := h x List.mem_cons_self
      obtain ⟨w, hw⟩ := ih fun y hy => h y (List.mem_cons_of_mem x hy)
      refine ⟨v ++ w, ?_⟩
      rw [word_append]
      exact (hv.append_right _).trans (hw.append_left _)

private theorem exists_word_of_ripe {done : List Nonterminal}
    (h : ∀ n ∈ done, ∃ w, (contextFree rules start).Derives [.nonterminal n] (word w)) {r : Rule}
    (mem : r ∈ rules) (ripe : r.isRipe done = true) :
    ∃ w, (contextFree rules start).Derives [.nonterminal r.left] (word w) := by
  have symbols : ∀ x ∈ r.right, ∃ w, (contextFree rules start).Derives [x.letter] (word w) := by
    intro x hx
    have here := List.all_eq_true.mp ripe x hx
    cases x with
    | terminal k => exact ⟨[k], .refl _⟩
    | nonterminal n => exact h n (List.contains_iff_mem.mp here)
  obtain ⟨w, hw⟩ := exists_word_of_forall symbols
  exact ⟨w, (produces_of_mem mem).single.trans hw⟩

private theorem exists_word_of_mem_ripen {done : List Nonterminal}
    (h : ∀ n ∈ done, ∃ w, (contextFree rules start).Derives [.nonterminal n] (word w))
    {some : List Rule} (sub : ∀ r ∈ some, r ∈ rules) :
    ∀ n ∈ ripen done some,
      ∃ w, (contextFree rules start).Derives [.nonterminal n] (word w) := by
  induction some with
  | nil => exact h
  | cons r some ih =>
      have rest := ih fun r' hr' => sub r' (List.mem_cons_of_mem r hr')
      intro n hn
      rw [ripen, List.foldr_cons] at hn
      split at hn
      · next ripe =>
          rcases List.mem_cons.mp hn with rfl | hn
          · exact exists_word_of_ripe rest (sub r List.mem_cons_self) ripe
          · exact rest n hn
      · exact rest n hn

/-- Every symbol derives a word. -/
theorem exists_word (x : Symbol) :
    ∃ w, (contextFree grammar start).Derives [x.letter] (word w) := by
  cases x with
  | terminal k => exact ⟨[k], .refl _⟩
  | nonterminal n =>
      -- two rounds are enough, as the rules are gone through from the last to the first
      have once : ∀ n ∈ ripen [] grammar,
          ∃ w, (contextFree grammar start).Derives [.nonterminal n] (word w) :=
        exists_word_of_mem_ripen (fun n (h : n ∈ []) => nomatch h) fun _ h => h
      exact exists_word_of_mem_ripen once (fun _ h => h) n (mem_ripened n)

/-- Every symbol has a tree. -/
theorem exists_tree (x : Symbol) : ∃ t : Tree, t.root = x ∧ t.Fits grammar := by
  obtain ⟨w, derives⟩ : ∃ w, (contextFree grammar .text).Derives [x.letter] (word w) :=
    exists_word x
  have kinds : word w = wordOf (w.map tokenOf) := by rw [wordOf, map_kind_map_tokenOf]
  obtain ⟨cs, roots, -, fits⟩ := exists_forest_of_derives (kinds ▸ derives)
  obtain ⟨c, rest, rfl, root, -⟩ := List.map_eq_cons_iff.mp roots
  exact ⟨c, Symbol.letter_injective root, fits c List.mem_cons_self⟩

/-- Some symbols have trees in a row. -/
theorem exists_forest (xs : List Symbol) :
    ∃ cs : List Tree, cs.map Tree.root = xs ∧ ∀ c ∈ cs, c.Fits grammar := by
  choose tree root fits using exists_tree
  refine ⟨xs.map tree, ?_, ?_⟩
  · simp [Function.comp_def, root]
  · simp [fits]

/-! ## Stacks -/

namespace Automaton

variable {a : Automaton} {o : Outlook}

/-- Some tokens complete a text behind some symbols. -/
def Completes (xs : List Symbol) (ts : List Token) : Prop :=
  (contextFree grammar .text).Derives [.nonterminal .text] (xs.map Symbol.letter ++ wordOf ts)

/-- The tokens of trees may be put for the symbols that they stand for. -/
theorem Completes.of_trees {xs : List Symbol} {cs : List Tree} {ts : List Token}
    (fits : ∀ c ∈ cs, c.Fits grammar) (h : Completes (xs ++ cs.map Tree.root) ts) :
    Completes xs (Tree.tokensOf cs ++ ts) := by
  have below : (contextFree grammar .text).Derives ((cs.map Tree.root).map Symbol.letter)
      (wordOf (Tree.tokensOf cs)) := derives_tokensOf fun c hc => derives_of_fits (fits c hc)
  rw [Completes, List.map_append] at h
  rw [Completes, wordOf_append, ← List.append_assoc]
  exact h.trans ((below.append_left _).append_right _)

/-- A rule may be put for its left side. -/
theorem Completes.of_rule {xs : List Symbol} {r : Rule} {ts : List Token} (mem : r ∈ grammar)
    (h : Completes (xs ++ [.nonterminal r.left]) ts) : Completes (xs ++ r.right) ts := by
  rw [Completes, List.map_append] at h ⊢
  exact h.trans (derives_of_mem mem (xs.map Symbol.letter) (wordOf ts))

/-- Some tokens that may come behind an item, when it has been come to by some symbols: they
    complete the text, and the first of them is in its follow set.  Nothing follows the rule of the
    whole text. -/
structure Sequel (xs : List Symbol) (i : Item) (ts : List Token) : Prop where
  completes : Completes (xs ++ i.behind) ts
  next : i.rule ≠ 0 → i.follow.contains (look ts) = true

variable (ok : a.certified o = true)

section Kernel

variable {stack : Stack} (h : a.Path stack) {s : State}
  (get : a.states.get? (a.top stack) = some s) {i : Item} (hi : i ∈ s.kernel)

include ok h get hi

/-- Behind the symbol at a dot everything is solid. -/
theorem Path.isSolid_behind {x : Symbol} {rest : List Symbol} (dot : i.behind = x :: rest) :
    ∀ y ∈ rest, y.isSolid = true := by
  intro y hy
  obtain ⟨r, frames, _, hr, -, right, -⟩ := h.exists_popped ok get hi
  refine isSolid_of_mem_tail (outlook_certified ok) (List.mem_of_getElem? hr) ?_
  rw [right, dot]
  cases Stack.symbols frames with
  | nil => exact hy
  | cons z zs => simp [hy]

/-- Of the rule of the whole text the part before the dot is all that lies on the stack. -/
theorem Path.exists_text (language : a.rules = grammar) (zero : i.rule = 0) :
    ∃ frames below, stack = frames ++ below
      ∧ [.nonterminal .program] ++ [.terminal .eof] = Stack.symbols frames ++ i.behind := by
  obtain ⟨r, frames, below, hr, split, right, -⟩ := h.exists_popped ok get hi
  rw [language, zero] at hr
  cases Option.some.inj hr
  exact ⟨frames, below, split, right⟩

/-- The rule of the whole text ends with its end. -/
theorem Path.rule_ne_zero (language : a.rules = grammar) {n : Nonterminal}
    (dot : i.behind = [.nonterminal n]) : i.rule ≠ 0 := by
  intro zero
  obtain ⟨frames, -, -, text⟩ := h.exists_text ok get hi language zero
  rw [dot] at text
  exact nomatch (List.append_inj' text rfl).2

end Kernel

variable (language : a.rules = grammar)

include ok language

/-- What is to come behind a symbol can be supplied, and then something comes that is expected. -/
private theorem Completes.exists_ahead {xs rest : List Symbol} {x : Symbol} {ts : List Token}
    (h : Completes (xs ++ x :: rest) ts) (solid : ∀ y ∈ rest, y.isSolid = true) (follow : KindSet)
    (next : rest = [] → follow.contains (look ts) = true) :
    ∃ us, Completes (xs ++ [x]) us ∧ (o.ahead follow rest).contains (look us) = true := by
  obtain ⟨cs, rfl, fits⟩ := exists_forest rest
  refine ⟨Tree.tokensOf cs ++ ts, .of_trees fits ?_, ?_⟩
  · rwa [List.append_assoc, List.singleton_append]
  · refine contains_ahead ok (language ▸ fits) (fun c hc => solid _ (List.mem_map_of_mem hc)) ?_
    rintro rfl
    exact next rfl

/-- Where a nonterminal begins, it may stand behind the symbols read so far, and is opened to
    something that may then come. -/
private theorem Path.exists_opened {stack : Stack} (h : a.Path stack) {s : State}
    (get : a.states.get? (a.top stack) = some s)
    (sequels : ∀ i ∈ s.kernel, ∃ j ∈ s.kernel, j.rule = i.rule ∧ j.behind = i.behind
      ∧ ∃ ts, Sequel (Stack.symbols stack) j ts) {n : Nonterminal} (begins : s.Begins a.rules n) :
    ∃ ts, Completes (Stack.symbols stack ++ [.nonterminal n]) ts
      ∧ s.Opened a.rules o n (look ts) := by
  induction begins with
  | @kernel i n rest mem dot =>
      obtain ⟨j, hj, -, behind, ts, sequel⟩ := sequels i mem
      rw [dot] at behind
      have completes := sequel.completes
      rw [behind] at completes
      obtain ⟨us, completes, next⟩ := completes.exists_ahead ok language
        (h.isSolid_behind ok get hj behind) j.follow fun none =>
          sequel.next (h.rule_ne_zero ok get hj language (none ▸ behind))
      exact ⟨us, completes, .kernel hj behind next⟩
  | @corner m n r rest _ mem left right ih =>
      subst left
      obtain ⟨ts, completes, opened⟩ := ih
      have applied := completes.of_rule (language ▸ mem)
      rw [right] at applied
      have solid : ∀ y ∈ rest, y.isSolid = true := by
        intro y hy
        refine isSolid_of_mem_tail (outlook_certified ok) mem ?_
        rwa [right]
      obtain ⟨us, completes', next⟩ := applied.exists_ahead ok language solid
        (.singleton (look ts)) fun _ => KindSet.contains_self _
      exact ⟨us, completes', .corner opened mem rfl right next⟩

/-- Behind every item on top of a stack something may come. -/
theorem Path.exists_sequel {stack : Stack} (h : a.Path stack) {s : State}
    (get : a.states.get? (a.top stack) = some s) {i : Item} (hi : i ∈ s.kernel) :
    ∃ j ∈ s.kernel, j.rule = i.rule ∧ j.behind = i.behind
      ∧ ∃ ts, Sequel (Stack.symbols stack) j ts := by
  induction h generalizing s i with
  | nil =>
      obtain ⟨s', r, rest, hs', rules, start⟩ := exists_start ok
      cases hs'.symm.trans get
      obtain ⟨zero, behind⟩ := start i hi
      rw [language] at rules
      cases rules
      refine ⟨i, hi, rfl, rfl, [], ?_, fun other => absurd zero other⟩
      rw [behind]
      exact (produces_of_mem textRule_mem).single
  | @push stack name tree below edge _ ih =>
      obtain ⟨s', get', lookup⟩ := edge?_eq_some_iff.mp edge
      obtain ⟨t, ht, stems⟩ := stems_of_edge ok get' lookup
      cases ht.symm.trans get
      simp only [Stack.symbols_cons]
      rcases stems i hi with ⟨j, hj, rule, behind⟩ | ⟨r, hr, right, begins⟩
      · -- the dot is moved on in an item to which something may come
        obtain ⟨j', hj', rule', behind', ts, sequel⟩ := ih get' hj
        obtain ⟨name', t', lookup', get'', k, hk, ruleK, behindK, follow⟩ :=
          exists_advanced ok get' hj' (behind'.trans behind)
        cases lookup.symm.trans lookup'
        cases ht.symm.trans get''
        refine ⟨k, hk, ruleK.trans (rule'.trans rule), behindK, ts, ?_, fun other => ?_⟩
        · have completes := sequel.completes
          rwa [behind', behind, ← List.singleton_append, ← List.append_assoc, ← behindK]
            at completes
        · exact follow _ (sequel.next (ruleK ▸ other))
      · -- the rule may be put for its left side, which may stand behind the symbols below
        obtain ⟨ts, completes, opened⟩ :=
          below.exists_opened ok language get' (fun j hj => ih get' hj) begins
        obtain ⟨name', t', lookup', get'', k, hk, ruleK, behindK, next⟩ :=
          exists_begun_of_opened ok get' opened hr rfl right
        cases lookup.symm.trans lookup'
        cases ht.symm.trans get''
        refine ⟨k, hk, ruleK, behindK, ts, ?_, fun _ => next⟩
        have applied := completes.of_rule (language ▸ List.mem_of_getElem? hr)
        rwa [right, ← List.singleton_append, ← List.append_assoc, ← behindK] at applied

omit ok in
/-- What completes a text behind the symbols of a stack does so behind its tokens. -/
theorem Path.completes_tokens {stack : Stack} (h : a.Path stack) {ts : List Token}
    (completes : Completes (Stack.symbols stack) ts) : Completes [] (Stack.tokens stack ++ ts) := by
  have tokens := Stack.tokens_append stack []
  rw [List.append_nil, Stack.tokens, List.nil_append] at tokens
  rw [tokens]
  refine .of_trees (fun t ht => ?_) completes
  obtain ⟨f, hf, rfl⟩ := List.mem_map.mp (List.mem_reverse.mp ht)
  exact language ▸ h.fits f hf

/-- Whatever lies on a stack is the beginning of a text. -/
theorem Path.exists_completed {stack : Stack} (h : a.Path stack) :
    ∃ ts, Completes (Stack.symbols stack) ts := by
  obtain ⟨s, get⟩ := h.exists_state ok
  obtain ⟨i, hi⟩ := exists_mem_kernel ok get
  obtain ⟨j, hj, -, -, ts, sequel⟩ := h.exists_sequel ok language get hi
  obtain ⟨cs, roots, fits⟩ := exists_forest j.behind
  refine ⟨Tree.tokensOf cs ++ ts, .of_trees fits ?_⟩
  rw [roots]
  exact sequel.completes

end Automaton

end ScriptFront.Grammar
