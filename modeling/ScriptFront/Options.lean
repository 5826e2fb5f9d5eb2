/-! # Options — two switches, read leniently

    A switch may be set by a truth value, by the number zero or one, or by a usual word in any
    letter case.  Everything that is wrong with given settings is reported at once: first the
    switches in their order, then the unknown keys in the order given. -/

namespace ScriptFront

/-- The switches of a run, with values of a type of the user's choice. -/
structure OptionsOf (α : Type) where
  strictTypes : α
  debugParser : α
deriving DecidableEq, Repr

/-- The switches of a run: whether an unknown type is an error, and whether every parser is made
    afresh. -/
abbrev Options := OptionsOf Bool

namespace OptionsOf

/-- Both switches are off by default. -/
def default : Options := ⟨false, false⟩

/-- The key of the first switch. -/
def strictTypesKey : String := "strict_types"

/-- The key of the second switch. -/
def debugParserKey : String := "debug_parser"

/-- Changes every value. -/
def map (f : α → β) (o : OptionsOf α) : OptionsOf β := ⟨f o.strictTypes, f o.debugParser⟩

/-- A copy in which the values of some keys are replaced as they are given. -/
def replace (o : OptionsOf α) (changes : List (String × α)) : OptionsOf α :=
  ⟨(changes.lookup strictTypesKey).getD o.strictTypes,
   (changes.lookup debugParserKey).getD o.debugParser⟩

end OptionsOf

/-! ## Reading settings -/

/-- A value given for a switch. -/
inductive Setting
  | bool (value : Bool)
  | integer (value : Int)
  | real (value : Float)
  | text (word : String)
  | other
deriving DecidableEq

/-- What is wrong with a setting. -/
inductive Setting.Fault
  | notUnderstood
  | notBoolean
  | unknownKey
  | frozen
deriving DecidableEq, Repr

namespace Setting

/-- The name of a fault. -/
def Fault.name : Fault → String
  | notUnderstood => "bool_parsing"
  | notBoolean => "bool_type"
  | unknownKey => "extra_forbidden"
  | frozen => "frozen_instance"

/-- The message of a fault. -/
def Fault.message : Fault → String
  | notUnderstood => "Input should be a valid boolean, unable to interpret input"
  | notBoolean => "Input should be a valid boolean"
  | unknownKey => "Extra inputs are not permitted"
  | frozen => "Instance is frozen"

/-- The words for off. -/
def offWords : List String := ["0", "off", "f", "false", "n", "no"]

/-- The words for on. -/
def onWords : List String := ["1", "on", "t", "true", "y", "yes"]

/-- The truth value of an integer.  One that has no place in 64 bits is not even a candidate. -/
def ofInteger (n : Int) : Except Fault Bool :=
  if n = 0 then .ok false
  else if n = 1 then .ok true
  else if -9223372036854775808 ≤ n ∧ n < 9223372036854775808 then .error .notUnderstood
  else .error .notBoolean

/-- The truth value of a double: that of the integer it is.  A double at the ends of the range of
    64 bits or with a fraction is not even a candidate. -/
def ofReal (x : Float) : Except Fault Bool :=
  if x == 0 then .ok false
  else if x == 1 then .ok true
  else if x.floor == x && x.abs < 9223372036854775808 then .error .notUnderstood
  else .error .notBoolean

/-- The truth value of a word. -/
def ofWord (word : String) : Except Fault Bool :=
  let lower := String.ofList (word.toList.map Char.toLower)
  if offWords.contains lower then .ok false
  else if onWords.contains lower then .ok true
  else .error .notUnderstood

/-- The truth value a setting stands for. -/
def toBool : Setting → Except Fault Bool
  | bool value => .ok value
  | integer value => ofInteger value
  | real value => ofReal value
  | text word => ofWord word
  | other => .error .notBoolean

end Setting

namespace Options

/-- A switch from given settings; off if it is not among them. -/
def switch (settings : List (String × Setting)) (key : String) : Except Setting.Fault Bool :=
  match settings.lookup key with
  | none => .ok false
  | some s => s.toBool

/-- The fault of a switch, with its key. -/
def faultOf (key : String) : Except Setting.Fault Bool → List (String × Setting.Fault)
  | .ok _ => []
  | .error fault => [(key, fault)]

/-- Whether a key is that of a switch. -/
def isKnown (key : String) : Bool :=
  key == OptionsOf.strictTypesKey || key == OptionsOf.debugParserKey

/-- Reads settings, or says all that is wrong with them. -/
def read (settings : List (String × Setting)) :
    Except (List (String × Setting.Fault)) Options :=
  let strict := switch settings OptionsOf.strictTypesKey
  let debug := switch settings OptionsOf.debugParserKey
  let unknown := settings.filter fun (key, _) => !isKnown key
  let faults :=
    faultOf OptionsOf.strictTypesKey strict ++ faultOf OptionsOf.debugParserKey debug
      ++ unknown.map fun (key, _) => (key, .unknownKey)
  match strict, debug, faults with
  | .ok strict, .ok debug, [] => .ok ⟨strict, debug⟩
  | _, _, faults => .error faults

/-- Options are never changed in place: setting one is a fault. -/
def set (_ : Options) (key : String) : List (String × Setting.Fault) :=
  [(key, .frozen)]

end Options

end ScriptFront
