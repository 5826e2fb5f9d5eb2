import ScriptFront.Token

/-! # Sets of kinds — lookahead sets as numbers

    A set of token kinds is a number with one binary digit for each kind, so that union and
    inclusion are single operations on numbers. -/

namespace ScriptFront.Grammar

/-- A set of token kinds; the digit of a kind is its place in the order of kinds. -/
structure KindSet where
  bits : Nat
deriving DecidableEq, Repr

namespace KindSet

/-- No kind. -/
def empty : KindSet := ⟨0⟩

/-- One kind. -/
def singleton (k : TokenKind) : KindSet := ⟨Nat.shiftLeft 1 k.ctorIdx⟩

/-- The kinds of either set. -/
def union (a b : KindSet) : KindSet := ⟨Nat.lor a.bits b.bits⟩

/-- Whether a kind belongs to a set. -/
def contains (s : KindSet) (k : TokenKind) : Bool := s.bits.testBit k.ctorIdx

/-- Whether the second set has all kinds of the first. -/
def subset (a b : KindSet) : Bool := (Nat.lor a.bits b.bits).beq b.bits

@[simp] theorem contains_empty (k : TokenKind) : empty.contains k = false := by
  simp [contains, empty]

@[simp] theorem contains_union (a b : KindSet) (k : TokenKind) :
    (a.union b).contains k = (a.contains k || b.contains k) :=
  Nat.testBit_or ..

/-- Kinds are told apart by their places in the order of kinds. -/
theorem ctorIdx_inj {k l : TokenKind} : k.ctorIdx = l.ctorIdx ↔ k = l := by
  constructor
  · intro h
    have back := congrArg TokenKind.ofNat h
    rwa [TokenKind.ofNat_ctorIdx, TokenKind.ofNat_ctorIdx] at back
  · intro h
    rw [h]

theorem contains_singleton (k l : TokenKind) : (singleton k).contains l = decide (k = l) := by
  show (1 <<< k.ctorIdx).testBit l.ctorIdx = decide (k = l)
  rw [Nat.one_shiftLeft, Nat.testBit_two_pow]
  exact decide_eq_decide.2 ctorIdx_inj

theorem contains_of_subset {a b : KindSet} (h : a.subset b = true) {k : TokenKind}
    (hk : a.contains k = true) : b.contains k = true := by
  have bits : Nat.lor a.bits b.bits = b.bits := Nat.eq_of_beq_eq_true h
  have joined : (a.union b).contains k = b.contains k :=
    congrArg (fun n : Nat => n.testBit k.ctorIdx) bits
  rw [contains_union, hk, Bool.true_or] at joined
  exact joined.symm

end KindSet

end ScriptFront.Grammar
