/-! # Message templates — fixed text with named holes

    A template is filled in one go: the text put into a hole is never looked at again, so braces
    in it stay as they are.  If any hole has no text, the whole template is shown unfilled. -/

namespace ScriptFront.Text

/-- A piece of a template: fixed text, or a hole that a named argument fills. -/
inductive Template.Part
  | text (s : String)
  | hole (name : String)
deriving DecidableEq, Repr

/-- A message with named holes. -/
abbrev Template := List Template.Part

namespace Template

/-- Arguments by name. -/
abbrev Arguments := List (String × String)

/-- A part as written: a hole shows its name in braces. -/
def Part.raw : Part → String
  | .text s => s
  | .hole name => "\x7b" ++ name ++ "\x7d"

/-- A template as written. -/
def raw (t : Template) : String :=
  String.join (t.map Part.raw)

/-- A part with the hole filled; without an argument the hole stays. -/
def Part.fill (args : Arguments) : Part → String
  | .text s => s
  | .hole name => (args.lookup name).getD (Part.hole name).raw

/-- A template with all holes filled at once. -/
def fill (t : Template) (args : Arguments) : String :=
  String.join (t.map (Part.fill args))

/-- The name of a hole that has no argument. -/
def Part.unfilled? (args : Arguments) : Part → Option String
  | .text _ => none
  | .hole name => if (args.lookup name).isSome then none else some name

/-- The first hole that has no argument. -/
def unfilled? (t : Template) (args : Arguments) : Option String :=
  t.findSome? (Part.unfilled? args)

/-- The filled message, or the bare template if an argument is missing. -/
def format (t : Template) (args : Arguments) : String :=
  match t.unfilled? args with
  | none => t.fill args
  | some _ => t.raw

end Template

end ScriptFront.Text
