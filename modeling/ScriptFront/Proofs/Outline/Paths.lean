import Mathlib.Data.List.Forall2
import ScriptFront.Outline

/-! # Paths — where the nodes of an outline stand

    A path goes down an outline from child to child; a child that is absent keeps its number.  The
    paths that lead to nodes are listed with the heads (`Outline.paths`): the n-th path leads to the
    node with the n-th head (`heads_at_paths`), every path that leads to a node is listed
    (`mem_paths_iff`), and the list increases from left to right and from top to bottom
    (`paths_increase`), so that none is listed twice and none behind one that goes on from it. -/

namespace ScriptFront

/-- The number of a child, then that of a child of this child, and so on. -/
abbrev Path := List Nat

namespace Outline

/-! ## Going down -/

/-- The head of the node to which a path leads. -/
def headAt? : Outline → Path → Option Head
  | absent, _ => none
  | node head _, [] => some head
  | node _ children, i :: path => children[i]?.bind fun o => o.headAt? path

/-- The head of the node to which a path leads that begins with one of some outlines. -/
def headIn? (os : List Outline) : Path → Option Head
  | [] => none
  | i :: path => os[i]?.bind fun o => o.headAt? path

@[simp] theorem headAt?_absent (path : Path) : absent.headAt? path = none := by
  cases path with
  | nil => rfl
  | cons i path => rfl

theorem headAt?_node_cons (head : Head) (children : List Outline) (i : Nat) (path : Path) :
    (node head children).headAt? (i :: path) = headIn? children (i :: path) := rfl

@[simp] theorem headIn?_zero (o : Outline) (os : List Outline) (path : Path) :
    headIn? (o :: os) (0 :: path) = o.headAt? path := rfl

/-- One outline more in front takes the first number. -/
@[simp] theorem headIn?_succ (o : Outline) (os : List Outline) (i : Nat) (path : Path) :
    headIn? (o :: os) ((i + 1) :: path) = headIn? os (i :: path) := rfl

/-! ## Lists of paths -/

mutual

/-- The paths to the nodes of an outline, in the order of their heads. -/
def paths : Outline → List Path
  | absent => []
  | node _ children => [] :: pathsAll children

/-- The paths to the nodes of some outlines, each of which begins with the number of its outline. -/
def pathsAll : List Outline → List Path
  | [] => []
  | o :: os => o.paths.map (0 :: ·) ++ (pathsAll os).map (List.modifyHead (· + 1))

end

theorem mem_pathsAll_cons {o : Outline} {os : List Outline} {path : Path} :
    path ∈ pathsAll (o :: os) ↔ (∃ below ∈ o.paths, 0 :: below = path)
      ∨ ∃ other ∈ pathsAll os, other.modifyHead (· + 1) = path := by
  rw [pathsAll, List.mem_append, List.mem_map, List.mem_map]

/-- A path that begins with one of some outlines has a beginning. -/
theorem exists_cons_of_mem_pathsAll {os : List Outline} :
    ∀ path ∈ pathsAll os, ∃ i below, path = i :: below := by
  induction os with
  | nil => exact List.forall_mem_nil _
  | cons o os ih =>
      intro path mem
      rcases mem_pathsAll_cons.mp mem with ⟨below, -, rfl⟩ | ⟨other, later, rfl⟩
      · exact ⟨0, below, rfl⟩
      · obtain ⟨i, below, rfl⟩ := ih other later
        exact ⟨i + 1, below, rfl⟩

mutual

/-- The paths lead to the nodes with the heads, one by one. -/
theorem heads_at_paths :
    ∀ o : Outline, List.Forall₂ (fun path head => o.headAt? path = some head) o.paths o.heads
  | absent => .nil
  | node head children => by
      refine .cons rfl ?_
      have below := heads_in_pathsAll children
      refine below.imp fun path head leads => ?_
      cases path with
      | nil => cases leads
      | cons i path => exact leads

theorem heads_in_pathsAll :
    ∀ os : List Outline,
      List.Forall₂ (fun path head => headIn? os path = some head) (pathsAll os) (headsAll os)
  | [] => .nil
  | o :: os => by
      refine List.rel_append ?_ ?_
      · rw [List.forall₂_map_left_iff]
        exact heads_at_paths o
      · rw [List.forall₂_map_left_iff]
        refine (heads_in_pathsAll os).imp fun path head leads => ?_
        cases path with
        | nil => cases leads
        | cons i path => exact leads

end

mutual

/-- Exactly the paths that lead to nodes are listed. -/
theorem mem_paths_iff : ∀ (o : Outline) (path : Path), path ∈ o.paths ↔ (o.headAt? path).isSome
  | absent, path => by simp [paths]
  | node head children, [] => iff_of_true List.mem_cons_self rfl
  | node head children, i :: path => by
      rw [headAt?_node_cons, ← mem_pathsAll_iff children i path, paths, List.mem_cons]
      exact or_iff_right (List.cons_ne_nil i path)

theorem mem_pathsAll_iff : ∀ (os : List Outline) (i : Nat) (path : Path),
    i :: path ∈ pathsAll os ↔ (headIn? os (i :: path)).isSome
  | [], i, path => by simp [pathsAll, headIn?]
  | o :: os, 0, path => by
      rw [headIn?_zero, ← mem_paths_iff o path, mem_pathsAll_cons]
      constructor
      · rintro (⟨below, mem, same⟩ | ⟨other, later, same⟩)
        · cases same
          exact mem
        · obtain ⟨i, below, rfl⟩ := exists_cons_of_mem_pathsAll other later
          cases same
      · intro mem
        exact Or.inl ⟨path, mem, rfl⟩
  | o :: os, i + 1, path => by
      rw [headIn?_succ, ← mem_pathsAll_iff os i path, mem_pathsAll_cons]
      constructor
      · rintro (⟨below, mem, same⟩ | ⟨other, later, same⟩)
        · cases same
        · obtain ⟨j, below, rfl⟩ := exists_cons_of_mem_pathsAll other later
          cases same
          exact later
      · intro later
        exact Or.inr ⟨i :: path, later, rfl⟩

end

mutual

/-- The paths increase: a node stands before what is below it, and this before what is to the right
    of it. -/
theorem paths_increase : ∀ o : Outline, o.paths.Pairwise (· < ·)
  | absent => .nil
  | node head children => by
      refine List.pairwise_cons.mpr ⟨fun path mem => ?_, pathsAll_increase children⟩
      obtain ⟨i, below, rfl⟩ := exists_cons_of_mem_pathsAll path mem
      exact List.nil_lt_cons i below

theorem pathsAll_increase : ∀ os : List Outline, (pathsAll os).Pairwise (· < ·)
  | [] => .nil
  | o :: os => by
      refine List.pairwise_append.mpr ⟨?_, ?_, ?_⟩
      · refine List.pairwise_map.mpr ((paths_increase o).imp fun {a b} less => ?_)
        exact List.cons_lt_cons_self.mpr less
      · refine List.pairwise_map.mpr ((pathsAll_increase os).imp_of_mem fun {a b} ha hb less => ?_)
        obtain ⟨i, below, rfl⟩ := exists_cons_of_mem_pathsAll a ha
        obtain ⟨j, below', rfl⟩ := exists_cons_of_mem_pathsAll b hb
        refine List.cons_lt_cons_iff.mpr ?_
        rcases List.cons_lt_cons_iff.mp less with left | ⟨same, less⟩
        · exact Or.inl (Nat.succ_lt_succ left)
        · exact Or.inr ⟨congrArg (· + 1) same, less⟩
      · intro a ha b hb
        obtain ⟨below, -, rfl⟩ := List.mem_map.mp ha
        obtain ⟨other, later, rfl⟩ := List.mem_map.mp hb
        obtain ⟨i, below', rfl⟩ := exists_cons_of_mem_pathsAll other later
        exact List.cons_lt_cons_iff.mpr (Or.inl (Nat.succ_pos i))

end

/-- No path is listed behind itself or behind one that goes on from it. -/
theorem parents_first (o : Outline) : o.paths.Pairwise fun a b => ¬ b <+: a :=
  (paths_increase o).imp fun less isPrefix => isPrefix.le less

end Outline

end ScriptFront
