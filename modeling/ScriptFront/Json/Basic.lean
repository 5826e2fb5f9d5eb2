/-! # JSON values — what a document is made of

    Numbers are whole.  The members of an object keep their order. -/

namespace ScriptFront

/-- A JSON value. -/
inductive Json
  | null
  | bool (b : Bool)
  | number (n : Int)
  | string (s : String)
  | array (items : List Json)
  | object (members : List (String × Json))
deriving Inhabited

end ScriptFront
