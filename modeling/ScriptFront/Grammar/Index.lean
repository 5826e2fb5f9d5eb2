/-! # Search trees — values by number

    An unbalanced search tree.  `set` puts a value under a number, and every value that `get?` finds
    is one of the entries. -/

namespace ScriptFront.Grammar

/-- Values by number: smaller numbers to the left, larger ones to the right. -/
inductive Index (α : Type)
  | leaf
  | node (left : Index α) (key : Nat) (value : α) (right : Index α)
deriving Repr

namespace Index

/-- The value at a number. -/
def get? (k : Nat) : Index α → Option α
  | leaf => none
  | node left key value right =>
    match k.beq key with
    | true => some value
    | false =>
      match k.ble key with
      | true => left.get? k
      | false => right.get? k

/-- Puts a value at a number. -/
def set (k : Nat) (v : α) : Index α → Index α
  | leaf => node leaf k v leaf
  | node left key value right =>
    match k.beq key with
    | true => node left k v right
    | false =>
      match k.ble key with
      | true => node (left.set k v) key value right
      | false => node left key value (right.set k v)

/-- Changes every value. -/
def map (f : Nat → α → β) : Index α → Index β
  | leaf => leaf
  | node left key value right => node (left.map f) key (f key value) (right.map f)

/-- All entries, from the smallest number to the largest. -/
def toList : Index α → List (Nat × α)
  | leaf => []
  | node left key value right => left.toList ++ (key, value) :: right.toList

theorem mem_toList_of_get? {k : Nat} {v : α} {t : Index α} (h : t.get? k = some v) :
    (k, v) ∈ t.toList := by
  induction t with
  | leaf => exact nomatch h
  | node left key value right ihl ihr =>
      rw [get?] at h
      rw [toList, List.mem_append, List.mem_cons]
      split at h
      · next heq =>
          have key_eq : k = key := Nat.eq_of_beq_eq_true heq
          exact Or.inr (Or.inl (by rw [key_eq, Option.some.inj h]))
      · split at h
        · exact Or.inl (ihl h)
        · exact Or.inr (Or.inr (ihr h))

end Index

end ScriptFront.Grammar
