/-! # Symbol tables — what names stand for

    All names of a program live in one space.  A table keeps its symbols in the order in which
    their names were first defined; defining a name again replaces its symbol in place.  The
    builtin types are registered under names of their own, which no lookup of a name consults.  Who
    asks for all symbols gets a copy, and may empty it. -/

namespace ScriptFront

/-- What a name stands for. -/
inductive SymbolKind
  | variable
  | parameter
  | function
  | classType
deriving DecidableEq, Repr

namespace SymbolKind

/-- The name of a kind. -/
def name : SymbolKind → String
  | .variable => "VARIABLE"
  | .parameter => "PARAMETER"
  | .function => "FUNCTION"
  | .classType => "CLASS"

/-- The word for a kind. -/
def word : SymbolKind → String
  | .variable => "variable"
  | .parameter => "parameter"
  | .function => "function"
  | .classType => "class"

/-- The kind of a given name. -/
def ofName? (s : String) : Option SymbolKind :=
  [SymbolKind.variable, .parameter, .function, .classType].find? fun k => k.name == s

end SymbolKind

/-- A name, the builtin type of its values if it has one, and what it stands for. -/
structure Symbol where
  name : String
  type : Option String := none
  kind : SymbolKind := .variable
deriving DecidableEq, Repr

/-- The names of the builtin types. -/
def builtinTypes : List String := ["INTEGER", "REAL"]

/-- Builtin types and the names under which they are found. -/
structure Registry where
  entries : List (String × String)
deriving DecidableEq, Repr

namespace Registry

/-- Some builtin types, each under its own name. -/
def ofNames (names : List String) : Registry := ⟨names.map fun name => (name, name)⟩

/-- Names stand for the types that are found under them. -/
instance : Coe (List String) Registry := ⟨ofNames⟩

/-- The builtin type of a name. -/
def get? (r : Registry) (name : String) : Option String := r.entries.lookup name

/-- Of types that are found under their own names, each is found if it is one of them. -/
theorem get?_ofNames (names : List String) (name : String) :
    (ofNames names).get? name = if name ∈ names then some name else none := by
  rw [get?, ofNames]
  induction names with
  | nil => rfl
  | cons first names ih =>
      rw [List.map_cons, List.lookup_cons]
      by_cases same : name = first
      · simp [same]
      · rw [beq_false_of_ne same, ih]
        simp [same]

end Registry

/-- Symbols in the order of the first definition of their names, and the builtin types. -/
structure SymbolTable where
  builtins : Registry := builtinTypes
  symbols : List Symbol := []
deriving DecidableEq, Repr

/-- A copy of the symbols of a table. -/
structure Snapshot where
  symbols : List Symbol
deriving DecidableEq, Repr

namespace Snapshot

/-- Takes all symbols out of a copy. -/
def clear (c : Snapshot) : Snapshot := { c with symbols := [] }

/-- How many symbols a copy holds. -/
def size (c : Snapshot) : Nat := c.symbols.length

end Snapshot

namespace SymbolTable

/-- Puts a symbol in the place of its name, or last. -/
def put (s : Symbol) : List Symbol → List Symbol
  | [] => [s]
  | t :: ts => if t.name = s.name then s :: ts else t :: put s ts

/-- Defines a name. -/
def define (t : SymbolTable) (s : Symbol) : SymbolTable :=
  { t with symbols := put s t.symbols }

/-- The symbol of a name. -/
def lookup? (t : SymbolTable) (name : String) : Option Symbol :=
  t.symbols.find? fun s => s.name = name

/-- The builtin type of a name. -/
def builtin? (t : SymbolTable) (name : String) : Option String := t.builtins.get? name

/-- Whether a name is defined. -/
def contains (t : SymbolTable) (name : String) : Bool := (t.lookup? name).isSome

/-- How many names are defined. -/
def size (t : SymbolTable) : Nat := t.symbols.length

/-- The symbols of one kind. -/
def ofKind (t : SymbolTable) (kind : SymbolKind) : List Symbol :=
  t.symbols.filter fun s => s.kind = kind

/-- All symbols, as they are now. -/
def snapshot (t : SymbolTable) : Snapshot := ⟨t.symbols⟩

/-! ## Operations -/

/-- What can be asked of a table.  `all` takes a copy of the symbols, and `clearCopy` empties
    one. -/
inductive Operation
  | define (s : Symbol)
  | defineTyped (name : String) (typeName : String)
  | lookup (name : String)
  | builtin (name : String)
  | contains (name : String)
  | ofKind (kind : SymbolKind)
  | all
  | clearCopy

/-- What a table answers. -/
inductive Answer
  | symbol (s : Symbol)
  | found (s : Option Symbol)
  | builtin (name : Option String)
  | truth (b : Bool)
  | symbols (ss : List Symbol)
  | size (n : Nat)

/-- The answer to an operation and the table after it. -/
def perform (t : SymbolTable) : Operation → Answer × SymbolTable
  | .define s => (.symbol s, t.define s)
  | .defineTyped name typeName =>
      let s : Symbol := { name, type := t.builtin? typeName }
      (.symbol s, t.define s)
  | .lookup name => (.found (t.lookup? name), t)
  | .builtin name => (.builtin (t.builtin? name), t)
  | .contains name => (.truth (t.contains name), t)
  | .ofKind kind => (.symbols (t.ofKind kind), t)
  | .all => (.symbols t.snapshot.symbols, t)
  | .clearCopy => (.size t.snapshot.clear.size, t)

/-- The answers to some operations, each with the table after it. -/
def performAll (t : SymbolTable) : List Operation → List (Answer × SymbolTable)
  | [] => []
  | o :: os => t.perform o :: (t.perform o).2.performAll os

end SymbolTable

end ScriptFront
