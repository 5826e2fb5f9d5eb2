import Mathlib.Data.Finset.Card
import Mathlib.Data.List.Dedup
import ScriptFront.Proofs.Analysis.Bindings

/-! # Histories of tables — what was defined is all that a table knows

    A history is the row of the symbols that some operations define (`SymbolTable.defined`).  A
    table that follows a history has its names in the order in which they first occur, and looks a
    name up as the last symbol with that name (`SymbolTable.Follows`).  A definition extends the
    history by its symbol and every other operation leaves the table as it is, so that a table
    follows the history of all operations on it (`SymbolTable.follows_after`).  So the history
    gives the answer to whatever is asked (`SymbolTable.Operation.answer`), and the rest is told
    from it as well (`tables_are_insertion_ordered`). -/

namespace ScriptFront

open Analysis (eraseDups_concat put_of_new)

namespace SymbolTable

/-! ## One definition -/

/-- The names of a table in their order. -/
def names (t : SymbolTable) : List String := t.symbols.map Symbol.name

theorem map_name_put_of_mem {s : Symbol} {ts : List Symbol} (h : s.name ∈ ts.map Symbol.name) :
    (put s ts).map Symbol.name = ts.map Symbol.name := by
  induction ts with
  | nil => cases h
  | cons t ts ih =>
      rw [put]
      by_cases same : t.name = s.name
      · rw [if_pos same, List.map_cons, List.map_cons, same]
      · rw [List.map_cons] at h
        have later := (List.mem_cons.mp h).resolve_left (Ne.symm same)
        rw [if_neg same, List.map_cons, List.map_cons, ih later]

/-- A name that is defined again stays in its place. -/
theorem names_define_of_mem {t : SymbolTable} {s : Symbol} (h : s.name ∈ t.names) :
    (t.define s).names = t.names :=
  map_name_put_of_mem h

/-- A new name comes last. -/
theorem names_define_of_new {t : SymbolTable} {s : Symbol} (h : s.name ∉ t.names) :
    (t.define s).names = t.names ++ [s.name] := by
  have new : ∀ u ∈ t.symbols, u.name ≠ s.name := by
    intro u mem same
    exact h (List.mem_map.mpr ⟨u, mem, same⟩)
  rw [names, define, put_of_new new, List.map_append, names]
  rfl

/-- The names before a definition are those with which the names behind it begin. -/
theorem names_prefix_define (t : SymbolTable) (s : Symbol) : t.names <+: (t.define s).names := by
  by_cases again : s.name ∈ t.names
  · rw [names_define_of_mem again]
  · rw [names_define_of_new again]
    exact List.prefix_append _ _

/-- A definition gives its name its symbol, and no other name another one. -/
theorem lookup?_define (t : SymbolTable) (s : Symbol) (name : String) :
    (t.define s).lookup? name = if s.name = name then some s else t.lookup? name := by
  rw [lookup?, define, lookup?]
  show (put s t.symbols).find? _ = _
  induction t.symbols with
  | nil =>
      by_cases same : s.name = name
      · simp [put, same]
      · simp [put, same]
  | cons u us ih =>
      rw [put]
      by_cases place : u.name = s.name
      · rw [if_pos place]
        by_cases same : s.name = name
        · simp [same]
        · have other : u.name ≠ name := place ▸ same
          simp [same, other]
      · rw [if_neg place]
        by_cases own : u.name = name
        · have other : s.name ≠ name := fun same => place (own.trans same.symm)
          simp [own, other]
        · rw [List.find?_cons_of_neg (by simpa using own), ih,
            List.find?_cons_of_neg (by simpa using own)]

/-! ## Histories -/

/-- The symbol that an operation defines, if it defines one: with the given builtin types. -/
def Operation.symbol? (builtins : Registry) : Operation → Option Symbol
  | define s => some s
  | defineTyped name typeName => some { name, type := builtins.get? typeName }
  | _ => none

/-- The symbols that some operations define, in their order. -/
def defined (builtins : Registry) (os : List Operation) : List Symbol :=
  os.filterMap (Operation.symbol? builtins)

/-- What a history comes to: the names in the order in which they first occur, and for each name
    the last symbol that has it. -/
def current (history : List Symbol) : List Symbol :=
  (history.map Symbol.name).eraseDups.filterMap fun name =>
    history.reverse.find? fun s => s.name = name

/-- The answer to an operation, told from the builtin types and the history alone. -/
def Operation.answer (builtins : Registry) (history : List Symbol) : Operation → Answer
  | define s => .symbol s
  | defineTyped name typeName => .symbol { name, type := builtins.get? typeName }
  | lookup name => .found (history.reverse.find? fun s => s.name = name)
  | builtin name => .builtin (builtins.get? name)
  | contains name => .truth (decide (name ∈ history.map Symbol.name))
  | ofKind kind => .symbols ((current history).filter fun s => s.kind = kind)
  | all => .symbols (current history)
  | clearCopy => .size 0

/-- The table after some operations. -/
def after (t : SymbolTable) (os : List Operation) : SymbolTable :=
  os.foldl (fun t o => (t.perform o).2) t

/-- The last operation is performed on the table that the others leave. -/
theorem after_concat (t : SymbolTable) (os : List Operation) (o : Operation) :
    t.after (os ++ [o]) = ((t.after os).perform o).2 := by
  rw [after, List.foldl_append, after]
  rfl

theorem defined_concat (builtins : Registry) (os : List Operation) (o : Operation) :
    defined builtins (os ++ [o]) = defined builtins os ++ (o.symbol? builtins).toList := by
  rw [defined, List.filterMap_append, defined]
  cases found : o.symbol? builtins with
  | none => simp [found]
  | some s => simp [found]

/-- The answers to some operations are those of each on the table that the ones before leave. -/
theorem performAll_concat (t : SymbolTable) (os : List Operation) (o : Operation) :
    t.performAll (os ++ [o]) = t.performAll os ++ [(t.after os).perform o] := by
  induction os generalizing t with
  | nil => rfl
  | cons first os ih => rw [List.cons_append, performAll, ih, performAll, List.cons_append]; rfl

/-- An operation that defines nothing leaves the table as it is. -/
theorem perform_of_none {t : SymbolTable} {o : Operation} (h : o.symbol? t.builtins = none) :
    (t.perform o).2 = t := by
  cases o with
  | define | defineTyped => cases h
  | lookup | builtin | contains | ofKind | all | clearCopy => rfl

/-- An operation that defines a symbol does nothing else to the table. -/
theorem perform_of_some {t : SymbolTable} {o : Operation} {s : Symbol}
    (h : o.symbol? t.builtins = some s) : (t.perform o).2 = t.define s := by
  cases o with
  | define | defineTyped =>
      cases h
      rfl
  | lookup | builtin | contains | ofKind | all | clearCopy => cases h

/-- A table knows what a history tells: the names, in the order in which they first occur, and for
    each name the last symbol that has it. -/
structure Follows (t : SymbolTable) (builtins : Registry) (history : List Symbol) : Prop where
  registry : t.builtins = builtins
  names_eq : t.names = (history.map Symbol.name).eraseDups
  order : t.names.Pairwise fun a b =>
    (history.map Symbol.name).idxOf a < (history.map Symbol.name).idxOf b
  latest : ∀ name, t.lookup? name = history.reverse.find? fun s => s.name = name

namespace Follows

variable {t : SymbolTable} {builtins : Registry} {history : List Symbol}

/-- The names of the table are those of the history. -/
theorem members (h : t.Follows builtins history) (name : String) :
    name ∈ t.names ↔ name ∈ history.map Symbol.name := by
  rw [h.names_eq, List.mem_eraseDups]

/-- What is known of a name does not become earlier or later when the history goes on. -/
theorem order_append (h : t.Follows builtins history) (s : Symbol) :
    t.names.Pairwise fun a b =>
      ((history ++ [s]).map Symbol.name).idxOf a < ((history ++ [s]).map Symbol.name).idxOf b := by
  refine h.order.imp_of_mem fun {a b} mem mem' before => ?_
  rw [List.map_append, List.idxOf_append_of_mem ((h.members a).mp mem),
    List.idxOf_append_of_mem ((h.members b).mp mem')]
  exact before

/-- A definition extends the history. -/
theorem define (h : t.Follows builtins history) (s : Symbol) :
    (t.define s).Follows builtins (history ++ [s]) where
  registry := h.registry
  names_eq := by
    rw [List.map_append, List.map_singleton, eraseDups_concat, ← h.names_eq]
    by_cases again : s.name ∈ t.names
    · rw [names_define_of_mem again, if_pos ((h.members _).mp again)]
    · rw [names_define_of_new again, if_neg (again ∘ (h.members _).mpr)]
  order := by
    by_cases again : s.name ∈ t.names
    · rw [names_define_of_mem again]
      exact h.order_append s
    · rw [names_define_of_new again]
      refine List.pairwise_append.mpr ⟨h.order_append s, List.pairwise_singleton _ _, ?_⟩
      intro a mem b last
      rw [List.mem_singleton.mp last, List.map_append,
        List.idxOf_append_of_mem ((h.members a).mp mem),
        List.idxOf_append_of_notMem (again ∘ (h.members s.name).mpr)]
      exact Nat.lt_add_right _ (List.idxOf_lt_length_of_mem ((h.members a).mp mem))
  latest := by
    intro name
    rw [lookup?_define, List.reverse_append, List.reverse_singleton, List.singleton_append,
      List.find?_cons, h.latest name]
    by_cases same : s.name = name
    · simp [same]
    · simp [same]

/-- An operation extends the history by what it defines. -/
theorem perform (h : t.Follows builtins history) (o : Operation) :
    (t.perform o).2.Follows builtins (history ++ (o.symbol? builtins).toList) := by
  cases found : o.symbol? builtins with
  | none =>
      rw [perform_of_none (h.registry ▸ found), Option.toList_none, List.append_nil]
      exact h
  | some s =>
      rw [perform_of_some (h.registry ▸ found)]
      exact h.define s

/-- No name is in the table twice. -/
theorem distinct (h : t.Follows builtins history) : t.names.Nodup := by
  refine h.order.imp ?_
  rintro a b before rfl
  exact Nat.lt_irrefl _ before

/-- A name is defined if it is in the history. -/
theorem contains_iff (h : t.Follows builtins history) {name : String} :
    t.contains name = true ↔ name ∈ history.map Symbol.name := by
  rw [Analysis.contains_iff, ← h.members, names, List.mem_map]

/-- A table has as many symbols as there are names in the history. -/
theorem size_eq (h : t.Follows builtins history) :
    t.size = (history.map Symbol.name).toFinset.card := by
  have same : t.names.toFinset = (history.map Symbol.name).toFinset := by
    ext name
    rw [List.mem_toFinset, List.mem_toFinset, h.members]
  rw [← same, List.toFinset_card_of_nodup h.distinct, names, List.length_map, size]

/-- Each symbol of the table is found under its name. -/
theorem lookup?_of_mem (h : t.Follows builtins history) {s : Symbol} (mem : s ∈ t.symbols) :
    t.lookup? s.name = some s := by
  have once : t.symbols.Pairwise fun a b => a.name ≠ b.name := List.pairwise_map.mp h.distinct
  obtain ⟨front, back, split⟩ := List.append_of_mem mem
  rw [split] at once
  obtain ⟨-, -, apart⟩ := List.pairwise_append.mp once
  rw [lookup?, split, List.find?_append, List.find?_eq_none.mpr]
  · simp
  · intro u front same
    exact apart u front s List.mem_cons_self (of_decide_eq_true same)

/-- The symbols of the table are what the history comes to. -/
theorem symbols_eq (h : t.Follows builtins history) : t.symbols = current history := by
  have look : (fun name => history.reverse.find? fun s => s.name = name) = t.lookup? :=
    funext fun name => (h.latest name).symm
  calc t.symbols
      = t.symbols.filterMap some := List.filterMap_some.symm
    _ = t.symbols.filterMap (t.lookup? ∘ Symbol.name) :=
        List.filterMap_congr fun s mem => (h.lookup?_of_mem mem).symm
    _ = t.names.filterMap t.lookup? := by rw [names, List.filterMap_map]
    _ = current history := by rw [current, ← h.names_eq, look]

/-- What is asked of the table is answered as the history tells. -/
theorem answer (h : t.Follows builtins history) (o : Operation) :
    (t.perform o).1 = o.answer builtins history := by
  cases o with
  | define s => rfl
  | defineTyped name typeName =>
      show Answer.symbol { name, type := t.builtins.get? typeName } = _
      rw [h.registry]
      rfl
  | lookup name => exact congrArg Answer.found (h.latest name)
  | builtin name =>
      show Answer.builtin (t.builtins.get? name) = _
      rw [h.registry]
      rfl
  | contains name =>
      have same : t.contains name = decide (name ∈ history.map Symbol.name) := by
        rw [Bool.eq_iff_iff, h.contains_iff, decide_eq_true_iff]
      exact congrArg Answer.truth same
  | ofKind kind =>
      show Answer.symbols (t.symbols.filter fun s => s.kind = kind) = _
      rw [h.symbols_eq]
      rfl
  | all => exact congrArg Answer.symbols h.symbols_eq
  | clearCopy => rfl

end Follows

/-- A table follows the history of all operations on it. -/
theorem follows_after (builtins : Registry) (os : List Operation) :
    (after { builtins } os).Follows builtins (defined builtins os) := by
  induction os using List.reverseRecOn with
  | nil => exact ⟨rfl, rfl, List.Pairwise.nil, fun _ => rfl⟩
  | append_singleton os o ih =>
      rw [after_concat, defined_concat]
      exact ih.perform o

/-! ## Kinds -/

/-- How often a symbol is among those of a kind. -/
theorem count_ofKind (t : SymbolTable) (kind : SymbolKind) (s : Symbol) :
    (t.ofKind kind).count s = if s.kind = kind then t.symbols.count s else 0 := by
  rw [ofKind]
  by_cases own : s.kind = kind
  · rw [if_pos own, List.count_filter (by simpa using own)]
  · rw [if_neg own, List.count_eq_zero]
    intro mem
    exact own (by simpa using (List.mem_filter.mp mem).2)

/-- The symbols of the four kinds are all symbols. -/
theorem perm_kinds (t : SymbolTable) :
    (t.ofKind .variable ++ t.ofKind .parameter ++ t.ofKind .function ++ t.ofKind .classType).Perm
      t.symbols := by
  refine List.perm_iff_count.mpr fun s => ?_
  simp only [List.count_append, count_ofKind]
  cases s.kind with
  | _ => simp

end SymbolTable

open SymbolTable (Operation)

/-- After any operations on a table that was empty, with any builtin types under any names: no name
    is in the table twice, and each symbol is found under its name.  The names stand in the order in
    which they were first defined.  A name that was defined is looked up as it was defined last,
    with that type and kind, and one that was not defined is not found, even if a builtin type is
    found under it.  There are as many symbols as names that were defined.  Each symbol is among
    those of one kind, which stand in the order of the table.  The builtin types are the same as
    before.  What is asked next is answered by this table, and the answer is the one that the
    history gives: an operation that defines nothing, such as emptying a copy of all symbols, leaves
    the table as it is, and one that defines a symbol leaves the builtin types, all other names and
    the order of names as they are. -/
theorem tables_are_insertion_ordered (builtins : Registry) (os : List Operation) :
    let t := SymbolTable.after { builtins } os
    let history := SymbolTable.defined builtins os
    t.names.Nodup ∧ (∀ s ∈ t.symbols, t.lookup? s.name = some s)
    ∧ (∀ name, name ∈ t.names ↔ name ∈ history.map Symbol.name)
    ∧ (t.names.Pairwise fun a b =>
        (history.map Symbol.name).idxOf a < (history.map Symbol.name).idxOf b)
    ∧ (∀ name, t.lookup? name = history.reverse.find? fun s => s.name = name)
    ∧ (∀ name, name ∉ history.map Symbol.name →
        t.lookup? name = none ∧ t.contains name = false)
    ∧ t.symbols = SymbolTable.current history
    ∧ t.size = (history.map Symbol.name).toFinset.card
    ∧ (t.ofKind .variable ++ t.ofKind .parameter ++ t.ofKind .function
        ++ t.ofKind .classType).Perm t.symbols
    ∧ (∀ kind, (t.ofKind kind).Sublist t.symbols ∧ ∀ s ∈ t.ofKind kind, s.kind = kind)
    ∧ t.builtins = builtins
    ∧ (∀ o, SymbolTable.performAll { builtins } (os ++ [o])
        = SymbolTable.performAll { builtins } os ++ [t.perform o])
    ∧ (∀ o : Operation, (t.perform o).1 = o.answer builtins history)
    ∧ (∀ o : Operation, o.symbol? builtins = none → (t.perform o).2 = t)
    ∧ ∀ (o : Operation) (s : Symbol), o.symbol? builtins = some s →
        (t.perform o).2.builtins = builtins
        ∧ (t.perform o).2.lookup? s.name = some s
        ∧ (∀ name, name ≠ s.name → (t.perform o).2.lookup? name = t.lookup? name)
        ∧ t.names <+: (t.perform o).2.names := by
  intro t history
  have follows : t.Follows builtins history := SymbolTable.follows_after builtins os
  refine ⟨follows.distinct, fun s => follows.lookup?_of_mem, follows.members, follows.order,
    follows.latest, ?_, follows.symbols_eq, follows.size_eq, t.perm_kinds, ?_, follows.registry,
    SymbolTable.performAll_concat { builtins } os, follows.answer, ?_, ?_⟩
  · intro name unknown
    have missing : t.contains name = false :=
      Bool.eq_false_iff.mpr (unknown ∘ follows.contains_iff.mp)
    exact ⟨by simpa [SymbolTable.contains] using missing, missing⟩
  · intro kind
    refine ⟨List.filter_sublist, fun s mem => ?_⟩
    simpa using (List.mem_filter.mp mem).2
  · intro o nothing
    exact SymbolTable.perform_of_none (follows.registry ▸ nothing)
  · intro o s defines
    rw [SymbolTable.perform_of_some (follows.registry ▸ defines)]
    refine ⟨follows.registry, ?_, ?_, t.names_prefix_define s⟩
    · rw [SymbolTable.lookup?_define, if_pos rfl]
    · intro name other
      rw [SymbolTable.lookup?_define, if_neg (Ne.symm other)]

/-- A name is defined anew behind another one, with a type: it stays first and has the new type and
    kind, also in a copy of the symbols.  The names of builtin types are not defined, but for one
    that is; under a third name a builtin type is found that is called otherwise. -/
theorem redefinition_keeps_its_place :
    let builtins : Registry := ⟨[("INTEGER", "INTEGER"), ("REAL", "REAL"), ("FLOAT", "REAL")]⟩
    let os : List Operation :=
      [.define { name := "x" }, .define { name := "REAL", kind := .function }, .clearCopy,
       .builtin "REAL", .define { name := "x", type := some "REAL", kind := .parameter }]
    let x : Symbol := { name := "x", type := some "REAL", kind := .parameter }
    let t := SymbolTable.after { builtins } os
    t.names = ["x", "REAL"]
    ∧ t.lookup? "x" = some x
    ∧ t.lookup? "INTEGER" = none
    ∧ t.size = 2
    ∧ (t.perform (.builtin "INTEGER")).2 = t
    ∧ (t.perform (.defineTyped "y" "FLOAT")).1 = .symbol { name := "y", type := some "REAL" }
    ∧ (t.perform (.defineTyped "y" "FLOAT")).2.lookup? "REAL" = t.lookup? "REAL"
    ∧ t.perform .clearCopy = (.size 0, t)
    ∧ t.perform .all = (.symbols [x, { name := "REAL", kind := .function }], t) := by
  intro builtins os x t
  obtain ⟨-, -, -, -, latest, missing, -, size, -, -, -, -, answer, others, defines⟩ :=
    tables_are_insertion_ordered builtins os
  have listed : SymbolTable.current (SymbolTable.defined builtins os)
      = [x, { name := "REAL", kind := .function }] := by decide
  refine ⟨by decide, ?_, (missing "INTEGER" (by decide)).1, ?_, others (.builtin "INTEGER") rfl,
    answer (.defineTyped "y" "FLOAT"),
    (defines (.defineTyped "y" "FLOAT") _ rfl).2.2.1 "REAL" (by decide),
    Prod.ext (answer .clearCopy) (others .clearCopy rfl), ?_⟩
  · rw [latest "x"]
    decide
  · rw [size]
    decide
  · refine Prod.ext ?_ (others .all rfl)
    rw [answer .all, SymbolTable.Operation.answer, listed]

end ScriptFront
