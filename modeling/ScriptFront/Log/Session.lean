import ScriptFront.Log.Logged

/-! # Sessions — set-ups of the log and activities in turn -/

namespace ScriptFront.Log

/-- A step of a session: the log is set up, or the front end is used. -/
inductive Step
  | setUp (s : Setup)
  | activity (a : Activity)

namespace FrontEnd

/-- The front end with its log set up anew. -/
def setUp (e : FrontEnd) (s : Setup) : FrontEnd := { e with routing := e.routing.setUp s }

/-- The front end after a step. -/
def perform (e : FrontEnd) : Step → FrontEnd
  | .setUp s => e.setUp s
  | .activity a => (a.run.run e).2

/-- The front end after some steps. -/
def performAll (e : FrontEnd) (steps : List Step) : FrontEnd := steps.foldl perform e

end FrontEnd

end ScriptFront.Log
