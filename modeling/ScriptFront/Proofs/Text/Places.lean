import Mathlib.Data.List.Induction
import ScriptFront.Text.Lines
import ScriptFront.Token

/-! # Places — the counted place of a character found again in the lines

    A place is counted character by character (`Position.after`), but it is shown by cutting the
    text at its newlines (`Lines.split`).  The two agree: the place behind a part of a text is in
    the line that part ends in, behind what it has of that line (`Reaches.exists_lines`). -/

namespace ScriptFront.Text

namespace Lines

/-! ## Lines of parts -/

/-- Where two texts meet, the last line of the one and the first of the other are one line. -/
theorem split_append {as bs last here : List Char} {above below : List (List Char)}
    (h : split as = above ++ [last]) (h' : split bs = here :: below) :
    split (as ++ bs) = above ++ (last ++ here) :: below := by
  induction as generalizing above last with
  | nil =>
      cases above with
      | nil =>
          cases h
          exact h'
      | cons a above => exact absurd (congrArg List.length h) (by simp [split])
  | cons c cs ih =>
      obtain ⟨m, ms, hs⟩ := exists_split cs
      rw [List.cons_append]
      by_cases newline : c = '\n'
      · -- behind a newline there is a last line, so the first text does not end here
        rw [newline, split_newline] at h ⊢
        cases above with
        | nil => exact absurd (List.cons.inj h).2 (by simp [hs])
        | cons a above =>
            obtain ⟨rfl, rest⟩ := List.cons.inj h
            rw [ih rest, List.cons_append]
      · rw [split_cons newline hs] at h
        cases above with
        | nil =>
            obtain ⟨rfl, rfl⟩ := List.cons.inj h
            have ends : split cs = [] ++ [m] := hs
            exact split_cons newline (ih ends)
        | cons a above =>
            obtain ⟨rfl, rfl⟩ := List.cons.inj h
            have ends : split cs = (m :: above) ++ [last] := hs
            exact split_cons newline (ih ends)

/-- Every text has a last line. -/
theorem exists_last (cs : List Char) : ∃ above last, split cs = above ++ [last] := by
  obtain ⟨l, ls, hs⟩ := exists_split cs
  have some : split cs ≠ [] := by rw [hs]; exact List.cons_ne_nil l ls
  exact ⟨(split cs).dropLast, (split cs).getLast some, (List.dropLast_concat_getLast some).symm⟩

/-- What is no newline stands on the first line. -/
theorem first_cons {c : Char} {cs here : List Char} {below : List (List Char)} (h : c ≠ '\n')
    (begins : split (c :: cs) = here :: below) : ∃ l, here = c :: l ∧ split cs = l :: below := by
  obtain ⟨l, ls, lines⟩ := exists_split cs
  rw [split_cons h lines] at begins
  cases begins
  exact ⟨l, rfl, lines⟩

/-- Lines hold what the text holds. -/
theorem mem_of_mem_split {cs l : List Char} {c : Char} (hl : l ∈ split cs) (hc : c ∈ l) :
    c ∈ cs := by
  induction cs generalizing l with
  | nil =>
      rw [split, List.mem_singleton] at hl
      rwa [hl] at hc
  | cons d ds ih =>
      obtain ⟨m, ms, hs⟩ := exists_split ds
      by_cases newline : d = '\n'
      · rw [newline, split_newline] at hl
        cases hl with
        | head => cases hc
        | tail _ hl => exact List.mem_cons_of_mem d (ih hl hc)
      · rw [split_cons newline hs] at hl
        cases hl with
        | head =>
            cases hc with
            | head => exact List.mem_cons_self
            | tail _ hc => exact List.mem_cons_of_mem d (ih (hs ▸ List.mem_cons_self) hc)
        | tail _ hl =>
            exact List.mem_cons_of_mem d (ih (hs ▸ List.mem_cons_of_mem m hl) hc)

/-- A text without newlines is a line. -/
theorem split_of_not_mem {cs : List Char} (h : '\n' ∉ cs) : split cs = [cs] := by
  induction cs with
  | nil => rfl
  | cons c cs ih =>
      rw [List.mem_cons, not_or] at h
      exact split_cons (fun same => h.1 same.symm) (ih h.2)

/-- The first line of a text is how its first line goes on if more is written behind it. -/
theorem first_prefix {as bs l m : List Char} {ls ms : List (List Char)}
    (h : split as = l :: ls) (h' : split (as ++ bs) = m :: ms) : l <+: m := by
  obtain ⟨above, last, ends⟩ := exists_last as
  obtain ⟨here, below, begins⟩ := exists_split bs
  have whole := split_append ends begins
  rw [h'] at whole
  rw [h] at ends
  -- the first line goes on only if it is the last as well
  cases above with
  | nil =>
      cases ends
      cases whole
      exact List.prefix_append l here
  | cons a above =>
      cases ends
      cases whole
      exact List.prefix_refl l

/-- A first line goes on with every word that the text begins with. -/
theorem word_prefix {word rest m : List Char} {ms : List (List Char)} (h : '\n' ∉ word)
    (h' : split (word ++ rest) = m :: ms) : word <+: m :=
  first_prefix (split_of_not_mem h) h'

/-! ## Places of parts -/

/-- The place behind a text is in its last line, at the end. -/
theorem after_origin {cs last : List Char} {above : List (List Char)}
    (h : split cs = above ++ [last]) :
    Position.origin.after cs = ⟨above.length + 1, last.length + 1⟩ := by
  induction cs using List.reverseRecOn generalizing above last with
  | nil =>
      cases above with
      | nil =>
          cases h
          rfl
      | cons a above => exact absurd (congrArg List.length h) (by simp [split])
  | append_singleton cs c ih =>
      obtain ⟨above', last', ends⟩ := exists_last cs
      rw [Position.after_append, ih ends, Position.after_cons, Position.after_nil,
        Position.advance]
      by_cases newline : c = '\n'
      · -- a newline opens an empty line under the last one
        have lines : split [c] = [] :: [[]] := by rw [newline, split_newline, split]
        have whole : above ++ [last] = (above' ++ [last']) ++ [[]] := by
          rw [← h, split_append ends lines, List.append_nil, List.append_assoc,
            List.singleton_append]
        obtain ⟨rfl, same⟩ := List.append_inj' whole rfl
        cases same
        simp [newline]
      · have lines : split [c] = [c] :: [] := split_cons newline rfl
        have whole := split_append ends lines
        rw [h] at whole
        obtain ⟨rfl, same⟩ := List.append_inj' whole rfl
        cases same
        simp [newline]

end Lines

end ScriptFront.Text

namespace ScriptFront.Position

open Text

/-- Read from the place `p` on, a text is at the place `q` when the rest is left of it. -/
def Reaches (p : Position) (text : List Char) (q : Position) (rest : List Char) : Prop :=
  ∃ before, text = before ++ rest ∧ q = p.after before

/-- Nothing is read yet. -/
theorem Reaches.refl (p : Position) (text : List Char) : p.Reaches text p text :=
  ⟨[], rfl, rfl⟩

/-- All is read. -/
theorem Reaches.last (p : Position) (text : List Char) : p.Reaches text (p.after text) [] :=
  ⟨text, (List.append_nil text).symm, rfl⟩

/-- A part is read first. -/
theorem Reaches.behind {p q : Position} {text rest : List Char} (part : List Char)
    (h : (p.after part).Reaches text q rest) : p.Reaches (part ++ text) q rest := by
  obtain ⟨before, rfl, rfl⟩ := h
  exact ⟨part ++ before, (List.append_assoc part before rest).symm,
    (p.after_append part before).symm⟩

/-- The place where the rest of a text begins, seen in the lines of the text: `above` are the lines
    above it, `front` and `here` what its line has before it and from it on. -/
theorem Reaches.exists_lines {q : Position} {text rest : List Char}
    (h : origin.Reaches text q rest) :
    ∃ above front here below, Lines.split text = above ++ (front ++ here) :: below
      ∧ q = ⟨above.length + 1, front.length + 1⟩ ∧ Lines.split rest = here :: below := by
  obtain ⟨before, rfl, rfl⟩ := h
  obtain ⟨above, front, ends⟩ := Lines.exists_last before
  obtain ⟨here, below, begins⟩ := Lines.exists_split rest
  exact ⟨above, front, here, below, Lines.split_append ends begins, Lines.after_origin ends, begins⟩

end ScriptFront.Position
