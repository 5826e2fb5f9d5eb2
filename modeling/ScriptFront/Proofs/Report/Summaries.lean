import Mathlib
import ScriptFront.Report.Summary

/-! # Summaries — the numbers are those of errors and warnings, the place is that of everything

    A summary tells how many errors and how many warnings there are (`summary_of_troubles`).  It
    tells besides where, and there the notes count as well: the files are those of all diagnostics
    (`placed_place`).  So a summary speaks of errors and warnings only as long as the notes stand in
    their files (`summary_counts_errors_and_warnings`), and a note in another file moves the place
    (`note_elsewhere_moves_place`). -/

namespace ScriptFront.Report

/-! ## Places -/

/-- Names of which the repetitions are erased are all different. -/
theorem nodup_eraseDups : ∀ names : List String, names.eraseDups.Nodup
  | [] => List.nodup_nil
  | name :: names => by
      rw [List.eraseDups_cons, List.nodup_cons]
      refine ⟨fun again => ?_, nodup_eraseDups (names.filter fun other => !other == name)⟩
      simp at again
termination_by names => names.length
decreasing_by exact Nat.lt_succ_of_le (List.length_filter_le _ _)

/-- The files that some diagnostics are about. -/
def files (ds : List Diagnostic) : Finset String := (ds.map fun d => d.location.file).toFinset

theorem mem_files {ds : List Diagnostic} {file : String} :
    file ∈ files ds ↔ ∃ d ∈ ds, d.location.file = file := by
  rw [files, List.mem_toFinset, List.mem_map]

theorem files_cons (d : Diagnostic) (ds : List Diagnostic) :
    files (d :: ds) = insert d.location.file (files ds) := by
  rw [files, List.map_cons, List.toFinset_cons, files]

/-- Where the files are: in a single one, or else in as many as there are. -/
def Placed (names : Finset String) (place : String) : Prop :=
  names = {place} ∨ names.card ≠ 1 ∧ place = toString names.card ++ " files"

/-- Files are in one place only. -/
theorem Placed.unique {names : Finset String} {p q : String} (hp : Placed names p)
    (hq : Placed names q) : p = q := by
  rcases hp with rfl | ⟨many, rfl⟩
  · rcases hq with same | ⟨many, -⟩
    · exact Finset.singleton_injective same
    · exact absurd (Finset.card_singleton p) many
  · rcases hq with rfl | ⟨-, rfl⟩
    · exact absurd (Finset.card_singleton q) many
    · rfl

/-- The place is that of all files, whatever is said about them. -/
theorem placed_place (ds : List Diagnostic) : Placed (files ds) (place ds) := by
  have same : files ds = (ds.map fun d => d.location.file).eraseDups.toFinset := by
    ext file
    rw [files, List.mem_toFinset, List.mem_toFinset, List.mem_eraseDups]
  have distinct := nodup_eraseDups (ds.map fun d => d.location.file)
  rw [Placed, same, List.toFinset_card_of_nodup distinct, place]
  cases (ds.map fun d => d.location.file).eraseDups with
  | nil => exact Or.inr ⟨Nat.zero_ne_one, rfl⟩
  | cons file others =>
      cases others with
      | nil => exact Or.inl rfl
      | cons other others => exact Or.inr ⟨by simp, rfl⟩

/-- The files of some of the diagnostics are among the files of all. -/
theorem files_mono {ds ds' : List Diagnostic} (sub : ds ⊆ ds') : files ds ⊆ files ds' := by
  intro file there
  obtain ⟨d, mem, rfl⟩ := mem_files.mp there
  exact mem_files.mpr ⟨d, sub mem, rfl⟩

/-- The place follows from the files. -/
theorem place_congr {ds ds' : List Diagnostic} (same : files ds = files ds') :
    place ds = place ds' :=
  (placed_place ds).unique (same ▸ placed_place ds')

/-! ## Numbers -/

/-- The errors and warnings among some diagnostics. -/
def troubles (ds : List Diagnostic) : List Diagnostic := ds.filter fun d => d.severity ≠ .note

/-- A number of things in words: one thing in the singular, any other number in the plural. -/
def inWords (noun : String) : Nat → String
  | 1 => "1 " ++ noun
  | n => toString n ++ " " ++ noun ++ "s"

/-- The numbers of errors and of warnings in words; a zero is left out. -/
def numbersInWords : Nat → Nat → String
  | errors, 0 => inWords "error" errors
  | 0, warnings => inWords "warning" warnings
  | errors, warnings => inWords "error" errors ++ " and " ++ inWords "warning" warnings

theorem counted_eq_inWords (n : Nat) (noun : String) :
    counted n noun (noun ++ "s") = inWords noun n := by
  rw [counted]
  by_cases one : n = 1
  · rw [if_pos one, one]
    rfl
  · rw [if_neg one, inWords]
    · exact String.append_assoc.symm
    · exact one

theorem countOf_eq_length (severity : Severity) (ds : List Diagnostic) :
    countOf severity ds = (ds.filter fun d => d.severity = severity).length :=
  List.countP_eq_length_filter

/-- Notes are not counted. -/
theorem countOf_troubles {severity : Severity} (counts : severity ≠ .note) (ds : List Diagnostic) :
    countOf severity (troubles ds) = countOf severity ds := by
  rw [countOf, troubles, List.countP_filter]
  refine List.countP_congr fun d _ => ?_
  by_cases own : d.severity = severity
  · simp [own, counts]
  · simp [own]

/-- There is no error and no warning exactly if there are none of either. -/
theorem troubles_eq_nil_iff (ds : List Diagnostic) :
    troubles ds = [] ↔ countOf .error ds = 0 ∧ countOf .warning ds = 0 := by
  rw [troubles, List.filter_eq_nil_iff, countOf, List.countP_eq_zero, countOf, List.countP_eq_zero,
    ← forall₂_and]
  refine forall₂_congr fun d _ => ?_
  cases d.severity with
  | _ => simp

theorem summary_of_no_troubles {ds : List Diagnostic} (none : troubles ds = []) :
    summary ds = "" := by
  obtain ⟨errors, warnings⟩ := (troubles_eq_nil_iff ds).mp none
  rw [summary, errors, warnings]
  rfl

/-- Numbers that are not both zero, joined as they are told. -/
theorem intercalate_counted {errors warnings : Nat} (some : ¬ (errors = 0 ∧ warnings = 0)) :
    let parts := countedIfAny errors "error" "errors"
      ++ countedIfAny warnings "warning" "warnings"
    parts.isEmpty = false ∧ " and ".intercalate parts = numbersInWords errors warnings := by
  have error := counted_eq_inWords errors "error"
  have warning := counted_eq_inWords warnings "warning"
  cases errors with
  | zero =>
      cases warnings with
      | zero => exact absurd ⟨rfl, rfl⟩ some
      | succ w => exact ⟨rfl, warning⟩
  | succ e =>
      cases warnings with
      | zero => exact ⟨rfl, error⟩
      | succ w =>
          refine ⟨rfl, ?_⟩
          rw [numbersInWords, ← error, ← warning]
          · rfl
          · exact Nat.succ_ne_zero e
          · exact Nat.succ_ne_zero w

/-- Where there is an error or a warning, the summary tells their numbers and the place. -/
theorem summary_of_troubles {ds : List Diagnostic} (some : troubles ds ≠ []) :
    summary ds = "Found " ++ numbersInWords (countOf .error ds) (countOf .warning ds) ++ " in "
      ++ place ds ++ "\n" := by
  rw [Ne, troubles_eq_nil_iff] at some
  obtain ⟨told, joined⟩ := intercalate_counted some
  simp only [summary, told, joined, Bool.false_eq_true, if_false]

/-! ## What a summary depends on -/

/-- The summary follows from the errors and warnings, in any order, and from all files. -/
theorem summary_congr {ds ds' : List Diagnostic} (same : (troubles ds).Perm (troubles ds'))
    (there : files ds = files ds') : summary ds = summary ds' := by
  by_cases none : troubles ds = []
  · have none' : troubles ds' = [] := List.nil_perm.mp (none ▸ same)
    rw [summary_of_no_troubles none, summary_of_no_troubles none']
  · have some' : troubles ds' ≠ [] := fun none' => none (List.perm_nil.mp (none' ▸ same))
    have counts : ∀ severity, severity ≠ .note → countOf severity ds = countOf severity ds' := by
      intro severity counts
      rw [← countOf_troubles counts ds, ← countOf_troubles counts ds']
      exact same.countP_eq _
    rw [summary_of_troubles none, summary_of_troubles some', counts .error nofun,
      counts .warning nofun, place_congr there]

/-- One more file leaves the place as it is only if the other one has the name of two. -/
theorem Placed.insert_iff {names : Finset String} {file p q : String} (some : names.Nonempty)
    (new : file ∉ names) (hp : Placed names p) (hq : Placed (insert file names) q) :
    q = p ↔ names = {"2 files"} := by
  have size := Finset.card_insert_of_notMem new
  have many : (insert file names).card ≠ 1 := by
    have := some.card_pos
    omega
  rcases hq with one | ⟨-, rfl⟩
  · exact absurd (one ▸ Finset.card_singleton q) many
  · rw [size]
    rcases hp with rfl | ⟨several, rfl⟩
    · rw [Finset.singleton_inj, Finset.card_singleton]
      exact eq_comm
    · refine iff_of_false (fun same => ?_) (fun one => ?_)
      · have next := Nat.repr_inj.mp ((String.append_left_inj _).mp same)
        omega
      · rw [one, Finset.card_singleton] at several
        exact several rfl

/-- A note leaves the summary as it is exactly if there is nothing to sum up, if the note is in a
    file of the others, or if the only file has the very name that two files are given. -/
theorem summary_insert_iff {front back : List Diagnostic} {note : Diagnostic}
    (isNote : note.severity = .note) :
    summary (front ++ note :: back) = summary (front ++ back)
      ↔ troubles (front ++ back) = [] ∨ note.location.file ∈ files (front ++ back)
        ∨ files (front ++ back) = {"2 files"} := by
  have same : troubles (front ++ note :: back) = troubles (front ++ back) := by
    simp [troubles, isNote]
  have more : files (front ++ note :: back)
      = insert note.location.file (files (front ++ back)) := by
    rw [← files_cons]
    exact List.toFinset_eq_of_perm _ _ (List.perm_middle.map _)
  by_cases none : troubles (front ++ back) = []
  · rw [summary_of_no_troubles none, summary_of_no_troubles (same.trans none)]
    exact iff_of_true rfl (Or.inl none)
  · by_cases there : note.location.file ∈ files (front ++ back)
    · refine iff_of_true ?_ (Or.inr (Or.inl there))
      refine summary_congr (same ▸ List.Perm.refl _) ?_
      rw [more, Finset.insert_eq_of_mem there]
    · have some : (files (front ++ back)).Nonempty := by
        obtain ⟨d, mem⟩ := List.exists_mem_of_ne_nil _ none
        exact ⟨_, mem_files.mpr ⟨d, List.mem_of_mem_filter mem, rfl⟩⟩
      have counts : ∀ severity, severity ≠ .note →
          countOf severity (front ++ note :: back) = countOf severity (front ++ back) := by
        intro severity counts
        rw [← countOf_troubles counts, same, countOf_troubles counts]
      rw [summary_of_troubles none, summary_of_troubles (same ▸ none), counts .error nofun,
        counts .warning nofun, String.append_left_inj, String.append_right_inj,
        (placed_place _).insert_iff some there (more ▸ placed_place _),
        or_iff_right none, or_iff_right there]

/-- Without errors and warnings there is no summary.  Otherwise it tells their exact numbers, in the
    singular for exactly one and without those that are zero, and the place of all files: that is
    the place of the errors and warnings if there is one of them in every file.  It follows from the
    errors and warnings, in any order, and from the files.  A note leaves it as it is exactly if
    there is nothing to sum up, if the note is in a file of the others, or if the only file has the
    very name that two files are given. -/
theorem summary_counts_errors_and_warnings (ds : List Diagnostic) :
    let errors := (ds.filter fun d => d.severity = .error).length
    let warnings := (ds.filter fun d => d.severity = .warning).length
    (troubles ds = [] → summary ds = "")
    ∧ (troubles ds ≠ [] → ∃ place,
        summary ds = "Found " ++ numbersInWords errors warnings ++ " in " ++ place ++ "\n"
        ∧ Placed (files ds) place
        ∧ (files ds ⊆ files (troubles ds) → Placed (files (troubles ds)) place))
    ∧ (∀ ds', (troubles ds').Perm (troubles ds) → files ds' = files ds →
        summary ds' = summary ds)
    ∧ ∀ front back note, ds = front ++ back → note.severity = .note →
        (summary (front ++ note :: back) = summary ds
          ↔ troubles ds = [] ∨ note.location.file ∈ files ds ∨ files ds = {"2 files"}) := by
  intro errors warnings
  refine ⟨summary_of_no_troubles, fun some => ?_, fun ds' => summary_congr, ?_⟩
  · refine ⟨place ds, ?_, placed_place ds, fun within => ?_⟩
    · rw [summary_of_troubles some, countOf_eq_length, countOf_eq_length]
    · have same := (files_mono (List.filter_subset_self ds)).antisymm within
      exact same ▸ placed_place ds
  · rintro front back note rfl isNote
    exact summary_insert_iff isNote

/-- Two errors and a warning in two files are summed up alike in any order, and with a note in one
    of the files between them. -/
theorem note_in_known_file_is_left_out :
    let error : Diagnostic := { severity := .error, message := "m", location := ⟨"a", 1, 1, 1⟩ }
    let warning : Diagnostic := { severity := .warning, message := "m", location := ⟨"b", 1, 1, 1⟩ }
    let note : Diagnostic := .note "n" "b" 1 1
    let ds := [error, warning, error]
    summary ds = "Found 2 errors and 1 warning in 2 files\n"
    ∧ summary [warning, error, error] = summary ds
    ∧ summary [error, note, warning, error] = summary ds := by
  intro error warning note ds
  obtain ⟨-, told, order, notes⟩ := summary_counts_errors_and_warnings ds
  obtain ⟨place, text, -, placed⟩ := told (List.cons_ne_nil error [warning, error])
  have two : place = "2 files" := (placed (by decide)).unique (Or.inr ⟨by decide, by decide⟩)
  refine ⟨?_, order [warning, error, error] (List.Perm.swap _ _ _) (by decide), ?_⟩
  · rw [text, two]
    decide
  · exact (notes [error] [warning, error] note rfl rfl).mpr (Or.inr (Or.inl (by decide)))

/-- A note in another file makes two files of the one that the error is in. -/
theorem note_elsewhere_moves_place :
    let error : Diagnostic := { severity := .error, message := "m", location := ⟨"a", 1, 1, 1⟩ }
    let note : Diagnostic := .note "n" "b" 1 1
    troubles [error, note] = troubles [error]
    ∧ summary [error] = "Found 1 error in a\n"
    ∧ summary [error, note] = "Found 1 error in 2 files\n" := by
  intro error note
  refine ⟨rfl, ?_, ?_⟩
  · decide +kernel
  · decide +kernel

end ScriptFront.Report
