import Mathlib.Computability.RegularExpressions
import ScriptFront.Grammar.Basic
import ScriptFront.Proofs.Grammar.Derivation

/-! # The extended grammar — optional and repeated parts

    The grammar in its extended form has one right side for each nonterminal, a regular expression
    of symbols.  A row of symbols expands to a text when each nonterminal in it is replaced by some
    row that its right side matches.

    The rules write every choice out and let repeated parts grow to the right.  Both forms have the
    same sentences (`mem_language_iff_expands`): a rule never leaves what the right side matches,
    and what the right side matches is derived by the rules. -/

namespace ScriptFront.Grammar

open RegularExpression (char)

/-- A right side of the extended grammar. -/
abbrev RightSide := RegularExpression Symbol

/-- A part that may be missing. -/
def optional (p : RightSide) : RightSide := 1 + p

/-- A part that stands there any number of times. -/
def repeated (p : RightSide) : RightSide := .star p

instance : Coe TokenKind RightSide := ⟨fun k => char (.terminal k)⟩

instance : Coe Nonterminal RightSide := ⟨fun n => char (.nonterminal n)⟩

open Nonterminal TokenKind in
/-- The right sides of the extended grammar.  Those of the repeated parts, and of a text and the
    first part of a `for`, are written out wherever they are used. -/
def extended : Nonterminal → RightSide
  | text => program * eof
  | program => repeated declaration
  | declaration => classDecl + funDecl + varDecl + statement
  | classDecl =>
      kwClass * identifier * optional (kwExtends * identifier) * leftBrace
        * (repeated funDecl * rightBrace)
  | funDecl => kwDef * identifier * leftParen * optional parameters * rightParen * block
  | parameters => identifier * repeated (comma * identifier)
  | varDecl =>
      kwVar * identifier * optional (colon * identifier) * optional (equal * expression)
        * semicolon
  | statement =>
      exprStmt + printStmt + ifStmt + whileStmt + forStmt + breakStmt + continueStmt + returnStmt
        + block
  | exprStmt => expression * semicolon
  | printStmt => kwPrint * expression * semicolon
  | ifStmt =>
      kwIf * leftParen * expression * rightParen * statement * optional (kwElse * statement)
  | whileStmt => kwWhile * leftParen * expression * rightParen * statement
  | forStmt =>
      kwFor * leftParen * (varDecl + exprStmt + semicolon) * optional expression * semicolon
        * optional expression * rightParen * statement
  | breakStmt => kwBreak * semicolon
  | continueStmt => kwContinue * semicolon
  | returnStmt => kwReturn * optional expression * semicolon
  | block => leftBrace * (repeated declaration * rightBrace)
  | arguments => expression * repeated (comma * expression)
  | expression => assignment
  | assignment => call * equal * assignment + logicOr
  | logicOr => logicAnd * repeated (kwOr * logicAnd)
  | logicAnd => equality * repeated (kwAnd * equality)
  | equality => comparison * repeated ((bangEqual + equalEqual) * comparison)
  | comparison => term * repeated ((greater + greaterEqual + less + lessEqual) * term)
  | term => factor * repeated ((minus + plus) * factor)
  | factor => unary * repeated ((slash + star) * unary)
  | unary => (bang + minus + plusPlus + minusMinus) * unary + power
  | power => call * optional (starStar * unary)
  | call => primary * repeated (leftParen * optional arguments * rightParen + dot * identifier)
  | primary =>
      boolean + kwNull + number + string + kwThis + identifier
        + leftParen * expression * rightParen + kwSuper * dot * identifier
        + kwNew * identifier * leftParen * optional arguments * rightParen
  | declarations => declaration * repeated declaration
  | functions => funDecl * repeated funDecl
  | moreParameters => comma * identifier * repeated (comma * identifier)
  | moreArguments => comma * expression * repeated (comma * expression)
  | forInit => varDecl + exprStmt + semicolon
  | emptyInit => semicolon

/-- The texts that a row of symbols expands to. -/
inductive Expands : List Symbol → List TokenKind → Prop
  | nil : Expands [] []
  | terminal (k : TokenKind) {xs : List Symbol} {w : List TokenKind} (rest : Expands xs w) :
      Expands (.terminal k :: xs) (k :: w)
  | nonterminal (n : Nonterminal) {row xs : List Symbol} {v w : List TokenKind}
      (mem : row ∈ (extended n).matches') (first : Expands row v) (rest : Expands xs w) :
      Expands (.nonterminal n :: xs) (v ++ w)

namespace Expands

theorem append {xs ys : List Symbol} {v w : List TokenKind} (hx : Expands xs v)
    (hy : Expands ys w) : Expands (xs ++ ys) (v ++ w) := by
  induction hx with
  | nil => exact hy
  | terminal k _ ih => exact .terminal k ih
  | nonterminal n mem first _ _ ih =>
      rw [List.append_assoc]
      exact .nonterminal n mem first ih

theorem exists_of_append {xs ys : List Symbol} {w : List TokenKind} (h : Expands (xs ++ ys) w) :
    ∃ u v, w = u ++ v ∧ Expands xs u ∧ Expands ys v := by
  induction xs generalizing w with
  | nil => exact ⟨[], w, rfl, .nil, h⟩
  | cons x xs ih =>
      rw [List.cons_append] at h
      cases h with
      | terminal k rest =>
          obtain ⟨u, v, rfl, hu, hv⟩ := ih rest
          exact ⟨k :: u, v, rfl, .terminal k hu, hv⟩
      | nonterminal n mem first rest =>
          obtain ⟨u, v, rfl, hu, hv⟩ := ih rest
          exact ⟨_, v, (List.append_assoc ..).symm, .nonterminal n mem first hu, hv⟩

/-- A nonterminal within a row may be replaced by a row that its right side matches. -/
theorem exists_unfolded {us vs : List Symbol} {n : Nonterminal} {w : List TokenKind}
    (h : Expands (us ++ .nonterminal n :: vs) w) :
    ∃ row ∈ (extended n).matches', Expands (us ++ row ++ vs) w := by
  obtain ⟨u, v, rfl, hu, hv⟩ := exists_of_append h
  cases hv with
  | nonterminal _ mem first rest =>
      refine ⟨_, mem, ?_⟩
      rw [List.append_assoc]
      exact hu.append (first.append rest)

theorem of_mem {n : Nonterminal} {row : List Symbol} {w : List TokenKind}
    (mem : row ∈ (extended n).matches') (h : Expands row w) : Expands [.nonterminal n] w := by
  have alone := nonterminal n mem h .nil
  rwa [List.append_nil] at alone

end Expands

/-! ## Repetition -/

variable {α : Type}

/-- What has been repeated may be repeated once more. -/
theorem append_mem_mul_star {p q : RegularExpression α} {us vs : List α}
    (hu : us ∈ (p * q.star).matches') (hv : vs ∈ q.matches') :
    us ++ vs ∈ (p * q.star).matches' := by
  obtain ⟨first, hfirst, rest, hrest, rfl⟩ := Language.mem_mul.mp hu
  obtain ⟨rows, rfl, hrows⟩ := Language.mem_kstar.mp hrest
  refine Language.mem_mul.mpr ⟨first, hfirst, (rows ++ [vs]).flatten, ?_, by simp⟩
  refine Language.join_mem_kstar fun row hrow => ?_
  rcases List.mem_append.mp hrow with hrow | hrow
  · exact hrows row hrow
  · rwa [List.mem_singleton.mp hrow]

/-- Something that is repeated is missing or stands there at least once. -/
theorem mem_star_iff {p : RegularExpression α} {row : List α} :
    row ∈ p.star.matches' ↔ row = [] ∨ row ∈ (p * p.star).matches' := by
  show row ∈ KStar.kstar p.matches' ↔ row = [] ∨ row ∈ p.matches' * KStar.kstar p.matches'
  rw [← Language.mem_one, ← Language.mem_add, Language.one_add_self_mul_kstar_eq_kstar]

/-- The rows that an expression without repetition matches. -/
def choices : RegularExpression α → List (List α)
  | .zero => []
  | .epsilon => [[]]
  | .char x => [[x]]
  | .plus p q => choices p ++ choices q
  | .comp p q => (choices p).flatMap fun us => (choices q).map (us ++ ·)
  | .star _ => []

/-- Whether nothing is repeated in an expression. -/
def isFinite : RegularExpression α → Bool
  | .zero | .epsilon | .char _ => true
  | .plus p q | .comp p q => isFinite p && isFinite q
  | .star _ => false

theorem mem_choices {p : RegularExpression α} (finite : isFinite p = true) {row : List α}
    (h : row ∈ p.matches') : row ∈ choices p := by
  induction p generalizing row with
  | zero => exact h.elim
  | epsilon => exact List.mem_singleton.mpr h
  | char x => exact List.mem_singleton.mpr h
  | plus p q ihp ihq =>
      obtain ⟨fp, fq⟩ := Bool.and_eq_true_iff.mp finite
      rcases h with h | h
      · exact List.mem_append_left _ (ihp fp h)
      · exact List.mem_append_right _ (ihq fq h)
  | comp p q ihp ihq =>
      obtain ⟨fp, fq⟩ := Bool.and_eq_true_iff.mp finite
      obtain ⟨us, hu, vs, hv, rfl⟩ := Language.mem_mul.mp h
      exact List.mem_flatMap.mpr ⟨us, ihp fp hu, List.mem_map_of_mem (ihq fq hv)⟩
  | star p _ => exact nomatch finite

/-! ## Rules stay within the right sides -/

/-- A rule that is one choice of a right side. -/
def Rule.isChoice (r : Rule) : Bool := (extended r.left).rmatch r.right

/-- A rule by which a repeated part grows. -/
def Rule.isGrowth (r : Rule) : Bool :=
  match extended r.left, r.right with
  | .comp _ (.star q), x :: xs => decide (x = .nonterminal r.left) && q.rmatch xs
  | _, _ => false

/-- A place where a nonterminal stands for what the right side of `left` writes out: the symbols
    before it, its name, and the symbols behind. -/
structure Insertion where
  left : Nonterminal
  before : List Symbol
  name : Nonterminal
  behind : List Symbol
deriving DecidableEq

/-- The right side of the rule with an insertion. -/
def Insertion.right (i : Insertion) : List Symbol := i.before ++ .nonterminal i.name :: i.behind

open Nonterminal TokenKind in
/-- The insertions of the rules. -/
def insertions : List Insertion :=
  [⟨program, [], declarations, []⟩,
   ⟨block, [leftBrace], declarations, [rightBrace]⟩,
   ⟨classDecl, [kwClass, identifier, leftBrace], functions, [rightBrace]⟩,
   ⟨classDecl, [kwClass, identifier, kwExtends, identifier, leftBrace], functions, [rightBrace]⟩,
   ⟨parameters, [identifier], moreParameters, []⟩,
   ⟨arguments, [expression], moreArguments, []⟩,
   ⟨forInit, [], emptyInit, []⟩,
   ⟨forStmt, [kwFor, leftParen], forInit, [semicolon, rightParen, statement]⟩,
   ⟨forStmt, [kwFor, leftParen], forInit, [expression, semicolon, rightParen, statement]⟩,
   ⟨forStmt, [kwFor, leftParen], forInit, [semicolon, expression, rightParen, statement]⟩,
   ⟨forStmt, [kwFor, leftParen], forInit,
     [expression, semicolon, expression, rightParen, statement]⟩]

/-- Every rule is a choice, a growth or an insertion. -/
theorem rule_cases : ∀ r ∈ grammar, r.isChoice = true ∨ r.isGrowth = true
    ∨ ∃ i ∈ insertions, r.left = i.left ∧ r.right = i.right := by
  decide +kernel

theorem expands_of_choice {r : Rule} (h : r.isChoice = true) {w : List TokenKind}
    (expands : Expands r.right w) : Expands [.nonterminal r.left] w :=
  .of_mem ((RegularExpression.rmatch_iff_matches' _ _).mp h) expands

theorem expands_of_growth {r : Rule} (h : r.isGrowth = true) {w : List TokenKind}
    (expands : Expands r.right w) : Expands [.nonterminal r.left] w := by
  rw [Rule.isGrowth] at h
  split at h
  · next p q x xs side right =>
      rw [Bool.and_eq_true, decide_eq_true_eq] at h
      obtain ⟨rfl, matched⟩ := h
      rw [right, ← List.nil_append (_ :: _)] at expands
      obtain ⟨row, mem, expands⟩ := expands.exists_unfolded
      rw [side] at mem
      refine .of_mem ?_ expands
      rw [side]
      exact append_mem_mul_star mem ((RegularExpression.rmatch_iff_matches' _ _).mp matched)
  · exact nomatch h

/-- The insertions of something that is not repeated. -/
theorem mem_of_finite_insertion : ∀ i ∈ insertions, isFinite (extended i.name) = true →
    ∀ row ∈ choices (extended i.name),
      (extended i.left).rmatch (i.before ++ row ++ i.behind) = true := by
  decide +kernel

private theorem mem_mul_star {p q : RegularExpression α} {us row : List α}
    (hu : us ∈ p.matches') (h : row ∈ (q * q.star).matches') :
    us ++ row ++ [] ∈ (p * q.star).matches' := by
  rw [List.append_nil]
  exact Language.append_mem_mul hu (mem_star_iff.mpr (Or.inr h))

private theorem mem_mul_star_mul {p q t : RegularExpression α} {us row vs : List α}
    (hu : us ∈ p.matches') (h : row ∈ (q * q.star).matches') (hv : vs ∈ t.matches') :
    us ++ row ++ vs ∈ (p * (q.star * t)).matches' := by
  rw [List.append_assoc]
  exact Language.append_mem_mul hu (Language.append_mem_mul (mem_star_iff.mpr (Or.inr h)) hv)

/-- What stands for a nonterminal that is inserted may be written out. -/
theorem mem_of_insertion {i : Insertion} (mem : i ∈ insertions) {row : List Symbol}
    (h : row ∈ (extended i.name).matches') :
    i.before ++ row ++ i.behind ∈ (extended i.left).matches' := by
  by_cases finite : isFinite (extended i.name) = true
  · exact (RegularExpression.rmatch_iff_matches' _ _).mp
      (mem_of_finite_insertion i mem finite row (mem_choices finite h))
  · -- each of the others repeats the very part that its nonterminal stands for
    have once : ∀ {p : RightSide} {us : List Symbol}, p.rmatch us = true → us ∈ p.matches' :=
      fun h => (RegularExpression.rmatch_iff_matches' _ _).mp h
    simp only [insertions, List.mem_cons, List.not_mem_nil, or_false] at mem
    rcases mem with rfl | rfl | rfl | rfl | rfl | rfl | rfl | rfl | rfl | rfl | rfl
    · rw [List.append_nil]
      exact mem_star_iff.mpr (Or.inr h)
    · exact mem_mul_star_mul (once rfl) h (once rfl)
    · exact mem_mul_star_mul (once rfl) h (once rfl)
    · exact mem_mul_star_mul (once rfl) h (once rfl)
    · exact mem_mul_star (once rfl) h
    · exact mem_mul_star (once rfl) h
    all_goals exact absurd rfl finite

/-- What a right side of a rule expands to, its left side expands to. -/
theorem expands_of_rule {r : Rule} (mem : r ∈ grammar) {w : List TokenKind}
    (expands : Expands r.right w) : Expands [.nonterminal r.left] w := by
  rcases rule_cases r mem with choice | growth | ⟨i, hi, left, right⟩
  · exact expands_of_choice choice expands
  · exact expands_of_growth growth expands
  · rw [right] at expands
    obtain ⟨row, hrow, expands⟩ := expands.exists_unfolded
    rw [left]
    exact .of_mem (mem_of_insertion hi hrow) expands

/-- The root of a tree expands to the kinds of its tokens. -/
theorem expands_of_fits {t : Tree} (h : t.Fits grammar) :
    Expands [t.root] (t.tokens.map Token.kind) := by
  induction h with
  | leaf t =>
      rw [Tree.tokens_leaf]
      exact .terminal t.kind .nil
  | @node r cs mem roots _ ih =>
      have below : ∀ ds : List Tree, (∀ d ∈ ds, d ∈ cs) →
          Expands (ds.map Tree.root) ((Tree.tokensOf ds).map Token.kind) := by
        intro ds
        induction ds with
        | nil => exact fun _ => .nil
        | cons d ds rest =>
            intro sub
            obtain ⟨hd, hds⟩ := List.forall_mem_cons.mp sub
            rw [Tree.tokensOf_cons, List.map_append]
            exact (ih d hd).append (rest hds)
      have row := below cs fun _ hd => hd
      rw [roots] at row
      rw [Tree.tokens_node]
      exact expands_of_rule mem row

/-! ## The rules reach the right sides -/

variable {start : Nonterminal}

/-- A rule of a nonterminal with a right side. -/
def HasRule (n : Nonterminal) (row : List Symbol) : Prop :=
  ∃ r ∈ grammar, r.left = n ∧ r.right = row

instance (n : Nonterminal) (row : List Symbol) : Decidable (HasRule n row) :=
  inferInstanceAs (Decidable (∃ r ∈ grammar, r.left = n ∧ r.right = row))

/-- A nonterminal derives a row of symbols. -/
abbrev DerivesRow (start n : Nonterminal) (row : List Symbol) : Prop :=
  (contextFree grammar start).Derives [.nonterminal n] (row.map Symbol.letter)

theorem HasRule.derives {n : Nonterminal} {row : List Symbol} (h : HasRule n row) :
    DerivesRow start n row := by
  obtain ⟨r, mem, rfl, rfl⟩ := h
  exact (produces_of_mem mem).single

/-- The rules of a nonterminal let it begin with a choice of `p` and grow by any choice of `q`. -/
def Grows (n : Nonterminal) (p q : RightSide) : Prop :=
  isFinite p = true ∧ isFinite q = true ∧ (∀ us ∈ choices p, HasRule n us)
    ∧ ∀ vs ∈ choices q, HasRule n (.nonterminal n :: vs)

instance (n : Nonterminal) (p q : RightSide) : Decidable (Grows n p q) :=
  inferInstanceAs (Decidable (_ ∧ _ ∧ _ ∧ _))

/-- A nonterminal derives what it may begin with and any number of what may be added. -/
theorem derivesRow_of_growth {n : Nonterminal} {p q : RightSide} (side : extended n = p * q.star)
    (grows : Grows n p q) {row : List Symbol} (h : row ∈ (extended n).matches') :
    DerivesRow start n row := by
  obtain ⟨finiteFirst, finiteMore, first, more⟩ := grows
  rw [side] at h
  obtain ⟨us, hus, vs, hvs, rfl⟩ := Language.mem_mul.mp h
  obtain ⟨rows, rfl, hrows⟩ := Language.mem_kstar.mp hvs
  have grown : ∀ rows : List (List Symbol), (∀ vs ∈ rows, vs ∈ q.matches') →
      DerivesRow start n (.nonterminal n :: rows.flatten) := by
    intro rows
    induction rows with
    | nil => exact fun _ => .refl _
    | cons vs rows ih =>
        intro all
        obtain ⟨hvs, rest⟩ := List.forall_mem_cons.mp all
        have last : DerivesRow start n (.nonterminal n :: vs) :=
          (more vs (mem_choices finiteMore hvs)).derives
        -- the rules grow to the right, so the nonterminal gives way to the first part last
        refine (ih rest).trans ?_
        have onto := last.append_right (rows.flatten.map Symbol.letter)
        rwa [← List.map_append] at onto
  refine (grown rows hrows).trans ?_
  have begun : DerivesRow start n us := (first us (mem_choices finiteFirst hus)).derives
  have onto := begun.append_right (rows.flatten.map Symbol.letter)
  rwa [← List.map_append] at onto

/-- A rule with an insertion derives what the inserted nonterminal derives, in its place. -/
theorem derivesRow_of_insertion {i : Insertion} (rule : HasRule i.left i.right)
    {row : List Symbol} (inner : DerivesRow start i.name row) :
    DerivesRow start i.left (i.before ++ row ++ i.behind) := by
  refine rule.derives.trans ?_
  have onto := (inner.append_left (i.before.map Symbol.letter)).append_right
    (i.behind.map Symbol.letter)
  rw [List.map_append, List.map_append]
  rw [Insertion.right, List.map_append, List.map_cons]
  rwa [List.append_assoc] at onto

/-- A row of a right side without repetition is the right side of a rule, or one with a row in the
    place of an insertion. -/
theorem hasRule_or_insertion : ∀ n : Nonterminal, isFinite (extended n) = true →
    ∀ row ∈ choices (extended n), HasRule n row
      ∨ ∃ i ∈ insertions, i.left = n ∧ isFinite (extended i.name) = true
        ∧ HasRule n i.right ∧ ∃ inner ∈ choices (extended i.name),
          row = i.before ++ inner ++ i.behind := by
  intro n
  cases n <;> decide +kernel

/-- A right side without repetition is derived if the right sides of its insertions are. -/
theorem derivesRow_of_finite {n : Nonterminal} (finite : isFinite (extended n) = true)
    (inner : ∀ i ∈ insertions, i.left = n →
      ∀ row ∈ choices (extended i.name), DerivesRow start i.name row)
    {row : List Symbol} (h : row ∈ choices (extended n)) : DerivesRow start n row := by
  rcases hasRule_or_insertion n finite row h with rule | ⟨i, hi, rfl, _, rule, part, hpart, rfl⟩
  · exact rule.derives
  · exact derivesRow_of_insertion rule (inner i hi rfl part hpart)

/-- The first part of a `for` that is missing. -/
private theorem derivesRow_emptyInit :
    ∀ row ∈ choices (extended .emptyInit), DerivesRow start .emptyInit row := by
  intro row h
  have none : ∀ i ∈ insertions, i.left ≠ .emptyInit := by decide
  exact derivesRow_of_finite rfl (fun i hi left => absurd left (none i hi)) h

/-- The first parts of a `for`. -/
private theorem derivesRow_forInit :
    ∀ row ∈ choices (extended .forInit), DerivesRow start .forInit row := by
  intro row h
  refine derivesRow_of_finite rfl ?_ h
  intro i hi left inner hinner
  have name : ∀ i ∈ insertions, i.left = .forInit → i.name = .emptyInit := by decide
  rw [name i hi left] at hinner ⊢
  exact derivesRow_emptyInit inner hinner

/-- Nothing stands behind a part that is repeated last. -/
private theorem matches_mul_star_one {p q : RightSide} :
    (p * (q.star * 1)).matches' = (p * q.star).matches' := by
  show p.matches' * (q.star.matches' * 1) = p.matches' * q.star.matches'
  rw [mul_one]

/-- The rules of a nonterminal write a choice of `p` and one of `t`, with `m` between them or with
    nothing. -/
def Encloses (n m : Nonterminal) (p t : RightSide) : Prop :=
  isFinite p = true ∧ isFinite t = true
    ∧ ∀ us ∈ choices p, ∀ vs ∈ choices t,
      HasRule n (us ++ vs) ∧ HasRule n (us ++ .nonterminal m :: vs)

instance (n m : Nonterminal) (p t : RightSide) : Decidable (Encloses n m p t) :=
  inferInstanceAs (Decidable (_ ∧ _ ∧ _))

/-- A right side that repeats a part between two others. -/
theorem derivesRow_of_between {n m : Nonterminal} {p q t : RightSide}
    (side : (extended n).matches' = (p * (q.star * t)).matches') (encloses : Encloses n m p t)
    (inner : ∀ row ∈ (q * q.star).matches', DerivesRow start m row)
    {row : List Symbol} (h : row ∈ (extended n).matches') : DerivesRow start n row := by
  obtain ⟨finiteFront, finiteBack, rules⟩ := encloses
  rw [side] at h
  obtain ⟨us, hus, rest, hrest, rfl⟩ := Language.mem_mul.mp h
  obtain ⟨part, hpart, vs, hvs, rfl⟩ := Language.mem_mul.mp hrest
  obtain ⟨without, within⟩ :=
    rules us (mem_choices finiteFront hus) vs (mem_choices finiteBack hvs)
  rcases mem_star_iff.mp hpart with rfl | some
  · exact without.derives
  · have whole := derivesRow_of_insertion (i := ⟨n, us, m, vs⟩) within (inner part some)
    rwa [List.append_assoc] at whole

/-- Nothing is derived from the parts that are repeated but what they repeat. -/
private theorem derivesRow_repeated :
    (∀ row ∈ (extended .declarations).matches', DerivesRow start .declarations row)
      ∧ (∀ row ∈ (extended .functions).matches', DerivesRow start .functions row)
      ∧ (∀ row ∈ (extended .moreParameters).matches', DerivesRow start .moreParameters row)
      ∧ ∀ row ∈ (extended .moreArguments).matches', DerivesRow start .moreArguments row :=
  ⟨fun _ => derivesRow_of_growth rfl (by decide), fun _ => derivesRow_of_growth rfl (by decide),
    fun _ => derivesRow_of_growth rfl (by decide), fun _ => derivesRow_of_growth rfl (by decide)⟩

/-- A nonterminal derives every row that its right side matches. -/
theorem derivesRow_of_mem (n : Nonterminal) {row : List Symbol}
    (h : row ∈ (extended n).matches') : DerivesRow start n row := by
  obtain ⟨declarations, functions, moreParameters, moreArguments⟩ :=
    @derivesRow_repeated start
  by_cases finite : isFinite (extended n) = true
  · refine derivesRow_of_finite finite ?_ (mem_choices finite h)
    intro i hi left inner hinner
    have names : ∀ i ∈ insertions, isFinite (extended i.left) = true →
        i.name = .emptyInit ∨ i.name = .forInit := by decide
    rcases names i hi (left ▸ finite) with name | name
    · rw [name] at hinner ⊢
      exact derivesRow_emptyInit inner hinner
    · rw [name] at hinner ⊢
      exact derivesRow_forInit inner hinner
  · -- a part that is repeated grows under its own name, or under that of an insertion
    cases n with
    | declarations => exact declarations row h
    | functions => exact functions row h
    | moreParameters => exact moreParameters row h
    | moreArguments => exact moreArguments row h
    | program =>
        have side : (extended .program).matches' = (1 * ((RegularExpression.star
            Nonterminal.declaration) * 1) : RightSide).matches' := by
          -- a program is what is repeated, with nothing before it and nothing behind
          rw [matches_mul_star_one]
          exact (one_mul _).symm
        exact derivesRow_of_between side (by decide) declarations h
    | block => exact derivesRow_of_between rfl (by decide) declarations h
    | classDecl => exact derivesRow_of_between rfl (by decide) functions h
    | parameters =>
        exact derivesRow_of_between matches_mul_star_one.symm (by decide) moreParameters h
    | arguments =>
        exact derivesRow_of_between matches_mul_star_one.symm (by decide) moreArguments h
    | logicOr => exact derivesRow_of_growth rfl (by decide) h
    | logicAnd => exact derivesRow_of_growth rfl (by decide) h
    | equality => exact derivesRow_of_growth rfl (by decide) h
    | comparison => exact derivesRow_of_growth rfl (by decide) h
    | term => exact derivesRow_of_growth rfl (by decide) h
    | factor => exact derivesRow_of_growth rfl (by decide) h
    | call => exact derivesRow_of_growth rfl (by decide) h
    | _ => exact absurd rfl finite

/-- What a row of symbols expands to is derived from it. -/
theorem derives_of_expands {xs : List Symbol} {w : List TokenKind} (h : Expands xs w) :
    (contextFree grammar start).Derives (xs.map Symbol.letter) (word w) := by
  induction h with
  | nil => exact .refl _
  | terminal k _ ih => exact ih.append_left [.terminal k]
  | @nonterminal n row xs v w mem _ _ ihFirst ihRest =>
      have whole : DerivesRow start n row := derivesRow_of_mem n mem
      have first := whole.trans ihFirst
      rw [word_append]
      exact (first.append_right _).trans (ihRest.append_left _)

/-- The rules have the sentences of the extended grammar. -/
theorem mem_language_iff_expands {w : List TokenKind} :
    w ∈ (contextFree grammar start).language ↔ Expands [.nonterminal start] w := by
  constructor
  · intro h
    rw [← map_kind_map_tokenOf w] at h ⊢
    obtain ⟨t, fits, root, tokens⟩ := map_kind_mem_language_iff.mp h
    rw [← root, ← tokens]
    exact expands_of_fits fits
  · intro h
    exact derives_of_expands h

end ScriptFront.Grammar
