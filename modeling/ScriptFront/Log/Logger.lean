import ScriptFront.Log.Record

/-! # The logger — where records go

    The logger has a least level that it lets through and the targets that are attached to it, each
    of which gets every record that is let through.  Setting the log up attaches one target, the
    console or a file, in place of those before.  A file is emptied whenever it is chosen, and what
    is written to it afterwards is appended.  Before the first set-up nothing is attached, and so
    nothing is delivered. -/

namespace ScriptFront.Log

/-- Where records are delivered. -/
inductive Target
  | console
  | file (name : String)
deriving DecidableEq, Repr

/-- A choice of target and level: verbose logs let everything through. -/
structure Setup where
  verbose : Bool
  target : Target
deriving DecidableEq, Repr

namespace Setup

/-- A set-up from an optional file name; an empty name means the console. -/
def ofFile (verbose : Bool) (file : Option String) : Setup where
  verbose
  target :=
    match file with
    | none => .console
    | some name => if name.isEmpty then .console else .file name

/-- The least level that is let through. -/
def level (s : Setup) : Level := if s.verbose then .debug else .info

/-- Whether a record is let through. -/
def admits (s : Setup) (r : Record) : Bool := s.level.rank ≤ r.level.rank

end Setup

/-- The logger and what was delivered so far. -/
structure Routing where
  level : Option Level := none
  handlers : List Target := []
  console : List Record := []
  files : List (String × List Record) := []
deriving DecidableEq, Repr

namespace Routing

/-- Empties a file: in its place, or last if it is new. -/
def truncate (name : String) : List (String × List Record) → List (String × List Record)
  | [] => [(name, [])]
  | (n, rs) :: files =>
    if n = name then (n, []) :: files else (n, rs) :: truncate name files

/-- Adds a record to a file. -/
def append (name : String) (r : Record) (files : List (String × List Record)) :
    List (String × List Record) :=
  files.map fun (n, rs) => (n, if n = name then rs ++ [r] else rs)

/-- Whether the logger lets a record through. -/
def admits (t : Routing) (r : Record) : Bool :=
  match t.level with
  | none => true
  | some l => l.rank ≤ r.level.rank

/-- Writes a record to a target. -/
def write (t : Routing) (r : Record) : Target → Routing
  | .console => { t with console := t.console ++ [r] }
  | .file name => { t with files := append name r t.files }

/-- Delivers a record to the targets that are attached. -/
def deliver (t : Routing) (r : Record) : Routing :=
  if t.admits r then t.handlers.foldl (fun t h => t.write r h) t else t

/-- Delivers some records in their order. -/
def deliverAll (t : Routing) (rs : List Record) : Routing := rs.foldl deliver t

/-- Opens a target: a file is emptied. -/
def openTarget (t : Routing) : Target → Routing
  | .console => t
  | .file name => { t with files := truncate name t.files }

/-- Detaches all targets. -/
def clearHandlers (t : Routing) : Routing := { t with handlers := [] }

/-- Attaches a target. -/
def addHandler (t : Routing) (target : Target) : Routing :=
  { t with handlers := t.handlers ++ [target] }

/-- Sets the least level. -/
def setLevel (t : Routing) (level : Level) : Routing := { t with level := some level }

/-- The record that tells that a log is verbose. -/
def greeting : Record := .debug .whole "Debug logging enabled."

/-- Attaches the target of a set-up in place of those before, with the level of the set-up. -/
def attach (t : Routing) (s : Setup) : Routing :=
  (((t.openTarget s.target).clearHandlers).addHandler s.target).setLevel s.level

/-- Sets the log up anew. -/
def setUp (t : Routing) (s : Setup) : Routing :=
  if s.verbose then (t.attach s).deliver greeting else t.attach s

/-- The name of the level in force. -/
def levelName (t : Routing) : String := (t.level.map Level.name).getD "NOTSET"

end Routing

end ScriptFront.Log
