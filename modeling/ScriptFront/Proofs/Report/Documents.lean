import Mathlib.Data.List.Basic
import ScriptFront.Proofs.Json.Reading
import ScriptFront.Report.Document

/-! # Documents read back — a report loses nothing of its errors and warnings

    A diagnostic is recovered from its JSON with all its fields and notes (`ofJson?_toJson`): a hint
    that is empty is a member of its own, one that is absent has none.  Written as a document,
    diagnostics are read back in their order, and so are the facts (`documents_are_read_back`). -/

namespace ScriptFront

/-! ## Members -/

/-- The member of a name, if it is a text. -/
def Json.text? (members : List (String × Json)) (key : String) : Option String :=
  match members.lookup key with
  | some (.string s) => some s
  | _ => none

/-- The member of a name, if it is a number. -/
def Json.number? (members : List (String × Json)) (key : String) : Option Int :=
  match members.lookup key with
  | some (.number n) => some n
  | _ => none

/-- The member of a name, if it is a text or absent. -/
def Json.optionalText? (members : List (String × Json)) (key : String) : Option (Option String) :=
  match members.lookup key with
  | none => some none
  | some (.string s) => some (some s)
  | _ => none

/-! ## Diagnostics -/

/-- The location that JSON says. -/
def Location.ofJson? : Json → Option Location
  | .object members => do
    return ⟨← Json.text? members "file", ← Json.number? members "line",
      ← Json.number? members "column", ← Json.number? members "length"⟩
  | _ => none

mutual

/-- The diagnostic that JSON says. -/
def Diagnostic.ofJson? : Json → Option Diagnostic
  | .object members => do
    let severity ← Severity.ofWord? (← Json.text? members "severity")
    let message ← Json.text? members "message"
    let location ← Location.ofJson? (← members.lookup "location")
    let code ← (← Json.optionalText? members "code").mapM ErrorCode.ofText?
    let help ← Json.optionalText? members "help"
    let related ← Diagnostic.relatedOf? members
    return { severity, message, location, code, help, related }
  | _ => none

/-- The diagnostics that some JSON values say. -/
def Diagnostic.ofJsons? : List Json → Option (List Diagnostic)
  | [] => some []
  | j :: js => do return (← Diagnostic.ofJson? j) :: (← Diagnostic.ofJsons? js)

/-- The related diagnostics among some members; there are none if there is no such member. -/
def Diagnostic.relatedOf? : List (String × Json) → Option (List Diagnostic)
  | [] => some []
  | (key, value) :: members =>
    if key = "related" then
      match value with
      | .array items => Diagnostic.ofJsons? items
      | _ => none
    else Diagnostic.relatedOf? members

end

theorem Severity.ofWord?_word (s : Severity) : Severity.ofWord? s.word = some s := by
  cases s <;> decide

theorem ErrorCode.ofText?_text (code : ErrorCode) : ErrorCode.ofText? code.text = some code := by
  cases code <;> decide

theorem Location.ofJson?_toJson (l : Location) : Location.ofJson? l.toJson = some l := rfl

namespace Diagnostic

/-- What the members of a diagnostic say, whichever of the last three it lacks. -/
theorem members_toJson (severity message : String) (location : Json) (code help : Option String)
    (related : List Json) :
    let members :=
      [("severity", Json.string severity), ("message", .string message), ("location", location)]
        ++ Json.optionalMember "code" code ++ Json.optionalMember "help" help
        ++ Json.listMember "related" related
    Json.text? members "severity" = some severity ∧ Json.text? members "message" = some message
    ∧ members.lookup "location" = some location
    ∧ Json.optionalText? members "code" = some code
    ∧ Json.optionalText? members "help" = some help
    ∧ relatedOf? members = ofJsons? related := by
  cases code <;> cases help <;> cases related <;> exact ⟨rfl, rfl, rfl, rfl, rfl, rfl⟩

mutual

/-- Nothing of a diagnostic is lost. -/
theorem ofJson?_toJson : ∀ d : Diagnostic, ofJson? d.toJson = some d
  | ⟨severity, message, location, code, help, related⟩ => by
      obtain ⟨severity', message', location', code', help', related'⟩ :=
        members_toJson severity.word message location.toJson (code.map ErrorCode.text) help
          (toJsons related)
      have known : (code.map ErrorCode.text).mapM ErrorCode.ofText? = some code := by
        cases code with
        | none => rfl
        | some code =>
            show (ErrorCode.ofText? code.text).map some = some (some code)
            rw [code.ofText?_text]
            rfl
      rw [toJson, ofJson?, severity', message', location', code', help', related',
        ofJsons?_toJsons related]
      simp only [Option.bind_eq_bind, Option.bind_some, severity.ofWord?_word,
        location.ofJson?_toJson, known]
      rfl

theorem ofJsons?_toJsons : ∀ ds : List Diagnostic, ofJsons? (toJsons ds) = some ds
  | [] => rfl
  | d :: ds => by
      rw [toJsons, ofJsons?, ofJson?_toJson d, ofJsons?_toJsons ds]
      rfl

end

end Diagnostic

/-! ## Documents -/

namespace Report

/-- The JSON of some diagnostics is that of each, in their order. -/
theorem toJsons_eq_map (ds : List Diagnostic) :
    Diagnostic.toJsons ds = ds.map Diagnostic.toJson := by
  induction ds with
  | nil => rfl
  | cons d ds ih => rw [Diagnostic.toJsons, ih, List.map_cons]

/-- A file is valid exactly if no diagnostic is an error. -/
theorem valid_iff (ds : List Diagnostic) :
    (ofSeverity .error ds).isEmpty = true ↔ ∀ d ∈ ds, d.severity ≠ .error := by
  rw [List.isEmpty_iff, ofSeverity, List.filter_eq_nil_iff]
  simp only [decide_eq_true_eq, ne_eq]

/-- A member of a document lists some diagnostics: its items are theirs in their order, and each can
    be recovered from its item. -/
structure Lists (members : List (String × Json)) (key : String) (ds : List Diagnostic) : Prop where
  items : members.lookup key = some (.array (ds.map Diagnostic.toJson))
  recovered : (ds.map Diagnostic.toJson).mapM Diagnostic.ofJson? = some ds

theorem mapM_toJson (ds : List Diagnostic) :
    (ds.map Diagnostic.toJson).mapM Diagnostic.ofJson? = some ds := by
  induction ds with
  | nil => rfl
  | cons d ds ih =>
      rw [List.map_cons, List.mapM_cons, d.ofJson?_toJson, ih]
      rfl

/-- For all diagnostics, names of files and facts, the text of their document is ASCII, and it is
    read back as an object: the file is named, it is valid exactly if there is no error, the errors
    and the warnings are listed in their order with all that they say, and the facts stand in their
    order unless there are none. -/
theorem documents_are_read_back (ds : List Diagnostic) (file : String) (facts : Facts) :
    (∀ c ∈ (document ds file facts).text.toList, c.toNat < 128)
    ∧ ∃ members, Json.read? (document ds file facts).text = some (.object members)
      ∧ members.map Prod.fst
        = ["version", "file", "valid", "errors", "warnings"]
          ++ (if facts = [] then [] else ["stats"])
      ∧ members.lookup "file" = some (.string file)
      ∧ (∃ valid, members.lookup "valid" = some (.bool valid)
        ∧ (valid = true ↔ ∀ d ∈ ds, d.severity ≠ .error))
      ∧ Lists members "errors" (ds.filter fun d => d.severity = .error)
      ∧ Lists members "warnings" (ds.filter fun d => d.severity = .warning)
      ∧ members.lookup "stats"
        = if facts = [] then none
          else some (.object (facts.map fun (key, fact) => (key, fact.toJson))) := by
  refine ⟨fun c mem => of_decide_eq_true (Json.text_ascii _ c mem), _, Json.read?_text _, ?_⟩
  rw [toJsons_eq_map, toJsons_eq_map]
  have valid := valid_iff ds
  -- the facts come last, so only their own member depends on whether there are any
  cases facts with
  | nil => exact ⟨rfl, rfl, ⟨_, rfl, valid⟩, ⟨rfl, mapM_toJson _⟩, ⟨rfl, mapM_toJson _⟩, rfl⟩
  | cons fact facts =>
      exact ⟨rfl, rfl, ⟨_, rfl, valid⟩, ⟨rfl, mapM_toJson _⟩, ⟨rfl, mapM_toJson _⟩, rfl⟩

/-- A character beyond the sixteen bits, one that is deleted, an empty hint and a note are kept. -/
theorem astral_message_is_kept :
    let d : Diagnostic :=
      { severity := .error, message := String.ofList ['\x7f', Char.ofNat 0x1F600],
        location := ⟨"f", 1, 1, 1⟩, help := some "", related := [.note "n" "f" 1 2] }
    (document [d] "f" []).text.toList.all Json.isAscii = true
    ∧ ∃ members, Json.read? (document [d] "f" []).text = some (.object members)
      ∧ Lists members "errors" [d] ∧ members.lookup "stats" = none := by
  intro d
  obtain ⟨ascii, members, read, -, -, -, errors, -, stats⟩ := documents_are_read_back [d] "f" []
  refine ⟨List.all_eq_true.mpr fun c mem => decide_eq_true (ascii c mem), members, read, ?_, stats⟩
  exact errors

end Report

end ScriptFront
