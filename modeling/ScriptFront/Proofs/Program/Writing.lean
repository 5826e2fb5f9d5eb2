import ScriptFront.Proofs.Program.Spelling

/-! # Writing — canonical programs have trees

    Tokens that fill the slots of a canonical program are the tokens of a tree which has this
    program for its value, and in which every `else` belongs to the nearest `if`.  Optional parts
    are one rule for each choice; an `else` is put behind a branch whose tree is closed because the
    branch is. -/

namespace ScriptFront

namespace Grammar

open Nonterminal TokenKind

/-- Some tokens of a statement, wherever it may stand. -/
structure SpelledStmt (s : Stmt) (ts : List Token) : Prop where
  declaration : Spelled declaration (.stmt s) ts
  statement : s.isStatement = true → Spelled statement (.stmt s) ts
  initializer : s.isInitializer = true → Spelled forInit (.init (some s)) ts

private theorem spelledStmt_of_statement {s : Stmt} {ts : List Token}
    (h : Spelled statement (.stmt s) ts) (no : s.isInitializer = false) : SpelledStmt s ts := by
  refine ⟨spelled_same (by decide) h, fun _ => h, fun yes => ?_⟩
  rw [no] at yes
  exact nomatch yes

private theorem spelledStmt_of_declaration {s : Stmt} {ts : List Token}
    (h : Spelled declaration (.stmt s) ts) (no : s.isStatement = false ∧ s.isInitializer = false) :
    SpelledStmt s ts := by
  refine ⟨h, fun yes => ?_, fun yes => ?_⟩
  · rw [no.1] at yes
    exact nomatch yes
  · rw [no.2] at yes
    exact nomatch yes

private theorem spelledStmt_expression {e : Expr} {us : List Token} {t : Token}
    (value : Spelled expression (.expr e) us) (kind : t.kind = semicolon) :
    SpelledStmt (.expression e) (us ++ [t]) := by
  have whole : Spelled Nonterminal.exprStmt (.stmt (.expression e)) (us ++ [t]) :=
    spelled_of_rule (r := ⟨Nonterminal.exprStmt, [expression, semicolon], .exprStmt⟩) (by decide)
      (.cons value (.token kind .nil)) rfl
  have statement : Spelled statement (.stmt (.expression e)) (us ++ [t]) :=
    spelled_same (by decide) whole
  refine ⟨spelled_same (by decide) statement, fun _ => statement, fun _ => ?_⟩
  exact spelled_of_rule (r := ⟨forInit, [Nonterminal.exprStmt], .someInit⟩) (by decide)
    (.last whole) rfl

private theorem spelled_print {t last : Token} {e : Expr} {us : List Token}
    (kind : t.kind = kwPrint) (value : Spelled expression (.expr e) us)
    (lastKind : last.kind = semicolon) :
    Spelled statement (.stmt (.print t e)) (t :: (us ++ [last])) :=
  spelled_same (m := printStmt) (by decide)
    (spelled_of_rule (r := ⟨printStmt, [kwPrint, expression, semicolon], .printStmt⟩) (by decide)
      (.token kind (.cons value (.token lastKind .nil))) rfl)

private theorem spelled_while {t l r : Token} {c : Expr} {s : Stmt} {us vs : List Token}
    (kind : t.kind = kwWhile) (kindL : l.kind = leftParen)
    (condition : Spelled expression (.expr c) us) (kindR : r.kind = rightParen)
    (body : Spelled statement (.stmt s) vs) :
    Spelled statement (.stmt (.whileLoop c s)) (t :: l :: (us ++ r :: vs)) :=
  spelled_same (m := whileStmt) (by decide)
    (spelled_of_rule
      (r := ⟨whileStmt, [kwWhile, leftParen, expression, rightParen, statement], .whileStmt⟩)
      (by decide)
      (.token kind (.token kindL (.cons condition (.token kindR (.last body))))) rfl)

private theorem spelled_shortIf {t l r : Token} {c : Expr} {s : Stmt} {us vs : List Token}
    (kind : t.kind = kwIf) (kindL : l.kind = leftParen)
    (condition : Spelled expression (.expr c) us) (kindR : r.kind = rightParen)
    (branch : Spelled statement (.stmt s) vs) :
    Spelled statement (.stmt (.conditional c s none)) (t :: l :: (us ++ r :: vs)) :=
  spelled_same (m := ifStmt) (by decide)
    (spelled_of_rule (r := shortIf) (by decide)
      (.token kind (.token kindL (.cons condition (.token kindR (.last branch))))) rfl)

/-- A statement of one keyword. -/
private theorem spelled_keyword {t last : Token} {k : TokenKind} {n : Nonterminal} {f : Form}
    {s : Stmt} (mem : (⟨n, [k, semicolon], f⟩ : Rule) ∈ grammar)
    (statementMem : (⟨statement, [n], .same⟩ : Rule) ∈ grammar)
    (build : f.build [.token t, .token last] = .ok (.stmt s)) (kind : t.kind = k)
    (lastKind : last.kind = semicolon) : Spelled statement (.stmt s) [t, last] := by
  refine spelled_same statementMem (spelled_of_rule ⟨mem, ?_⟩ ?_ build)
  · simp [fullIf]
  · exact .token kind (.token lastKind .nil)

private theorem spelled_return {t last : Token} {v : Option Expr} {us : List Token}
    (kind : t.kind = kwReturn) (canonical : ∀ e ∈ v, e.Canonical)
    (fills : Fills (Expr.slotsPart v) us) (lastKind : last.kind = semicolon) :
    Spelled statement (.stmt (.returnValue t v)) (t :: (us ++ [last])) := by
  cases v with
  | none =>
      cases fills
      exact spelled_keyword (n := returnStmt) (f := .returnStmt) (by decide) (by decide) rfl kind
        lastKind
  | some e =>
      have value := (canonical e rfl).spelled fills
      exact spelled_same (m := returnStmt) (by decide)
        (spelled_of_rule (r := ⟨returnStmt, [kwReturn, expression, semicolon], .returnStmt⟩)
          (by decide) (.token kind (.cons value (.token lastKind .nil))) rfl)

private theorem spelled_for {t l m r : Token} {i : Option Stmt} {c e : Option Expr} {s : Stmt}
    {us vs ws xs : List Token} (kind : t.kind = kwFor) (kindL : l.kind = leftParen)
    (first : Spelled forInit (.init i) us) (condition : ∀ x ∈ c, x.Canonical)
    (fillsC : Fills (Expr.slotsPart c) vs) (kindM : m.kind = semicolon)
    (increment : ∀ x ∈ e, x.Canonical) (fillsE : Fills (Expr.slotsPart e) ws)
    (kindR : r.kind = rightParen) (body : Spelled statement (.stmt s) xs) :
    Spelled statement (.stmt (.forLoop i c e s))
      (t :: l :: (us ++ (vs ++ m :: (ws ++ r :: xs)))) := by
  refine spelled_same (m := forStmt) (by decide) ?_
  -- one rule for each choice of the optional parts
  cases c with
  | none =>
      cases fillsC
      cases e with
      | none =>
          cases fillsE
          exact spelled_of_rule
            (r := ⟨forStmt, [kwFor, leftParen, forInit, semicolon, rightParen, statement],
              .forStmt⟩) (by decide)
            (.token kind (.token kindL (.cons first (.token kindM (.token kindR (.last body))))))
            rfl
      | some e =>
          have step := (increment e rfl).spelled fillsE
          exact spelled_of_rule
            (r := ⟨forStmt,
              [kwFor, leftParen, forInit, semicolon, expression, rightParen, statement],
              .forStmt⟩) (by decide)
            (.token kind (.token kindL (.cons first (.token kindM (.cons step
              (.token kindR (.last body))))))) rfl
  | some c =>
      have test := (condition c rfl).spelled fillsC
      cases e with
      | none =>
          cases fillsE
          exact spelled_of_rule
            (r := ⟨forStmt,
              [kwFor, leftParen, forInit, expression, semicolon, rightParen, statement],
              .forStmt⟩) (by decide)
            (.token kind (.token kindL (.cons first (.cons test (.token kindM
              (.token kindR (.last body))))))) rfl
      | some e =>
          have step := (increment e rfl).spelled fillsE
          exact spelled_of_rule
            (r := ⟨forStmt,
              [kwFor, leftParen, forInit, expression, semicolon, expression, rightParen, statement],
              .forStmt⟩) (by decide)
            (.token kind (.token kindL (.cons first (.cons test (.token kindM (.cons step
              (.token kindR (.last body)))))))) rfl

private theorem spelled_noInit {ts : List Token} (fills : Fills (Stmt.initializerSlots none) ts) :
    Spelled forInit (.init none) ts := by
  rw [Stmt.initializerSlots] at fills
  obtain _ | ⟨kind, ⟨⟩⟩ := fills
  have empty : Spelled emptyInit (.token _) [_] :=
    spelled_of_rule (r := ⟨emptyInit, [semicolon], .same⟩) (by decide)
      (.token kind .nil) rfl
  exact spelled_of_rule (r := ⟨forInit, [emptyInit], .noInit⟩) (by decide)
    (.last empty) rfl

private theorem spelledStmt_var {t name last : Token} {type : Option Token} {init : Option Expr}
    {us vs : List Token} (kind : t.kind = kwVar) (nameKind : name.kind = identifier)
    (typeKind : ∀ t ∈ type, t.kind = identifier) (fillsT : Fills (Stmt.nameSlots colon type) us)
    (canonical : ∀ e ∈ init, e.Canonical) (fillsV : Fills (Stmt.initialSlots init) vs)
    (lastKind : last.kind = semicolon) :
    SpelledStmt (.varDecl name type init) (t :: name :: (us ++ vs ++ [last])) := by
  have whole : Spelled varDecl (.stmt (.varDecl name type init))
      (t :: name :: (us ++ vs ++ [last])) := by
    -- one rule for each choice of the optional parts
    cases type with
    | none =>
        cases fillsT
        cases init with
        | none =>
            cases fillsV
            exact spelled_of_rule (r := ⟨varDecl, [kwVar, identifier, semicolon], .varStmt⟩)
              (by decide) (.token kind (.token nameKind (.token lastKind .nil))) rfl
        | some e =>
            obtain _ | ⟨kindE, fillsE⟩ := fillsV
            have value := (canonical e rfl).spelled fillsE
            exact spelled_of_rule
              (r := ⟨varDecl, [kwVar, identifier, equal, expression, semicolon], .varStmt⟩)
              (by decide)
              (.token kind (.token nameKind (.token kindE (.cons value (.token lastKind .nil)))))
              rfl
    | some type =>
        obtain _ | ⟨kindC, _ | ⟨rfl, ⟨⟩⟩⟩ := fillsT
        cases init with
        | none =>
            cases fillsV
            exact spelled_of_rule
              (r := ⟨varDecl, [kwVar, identifier, colon, identifier, semicolon], .varStmt⟩)
              (by decide)
              (.token kind (.token nameKind (.token kindC (.token (typeKind _ rfl)
                (.token lastKind .nil))))) rfl
        | some e =>
            obtain _ | ⟨kindE, fillsE⟩ := fillsV
            have value := (canonical e rfl).spelled fillsE
            exact spelled_of_rule
              (r := ⟨varDecl,
                [kwVar, identifier, colon, identifier, equal, expression, semicolon], .varStmt⟩)
              (by decide)
              (.token kind (.token nameKind (.token kindC (.token (typeKind _ rfl)
                (.token kindE (.cons value (.token lastKind .nil))))))) rfl
  refine ⟨spelled_same (by decide) whole, (fun yes => nomatch yes), fun _ => ?_⟩
  exact spelled_of_rule (r := ⟨forInit, [varDecl], .someInit⟩) (by decide)
    (.last whole) rfl

/-! ## Blocks, functions and classes -/

/-- Statements of which each is spelled. -/
private theorem spelled_declarations {ss : List Stmt}
    (each : ∀ s ∈ ss, ∀ ts, Fills s.slots ts → SpelledStmt s ts) (some : ss ≠ [])
    {ts : List Token} (fills : Fills (Stmt.slotsAll ss) ts) :
    Spelled declarations (.stmts ss) ts := by
  refine spelled_row (by rw [Stmt.slotsAll]) slotsAll_append ?_ ?_ some fills
  · intro s hs ts fillsS
    exact spelled_of_rule (r := ⟨declarations, [declaration], .oneStatement⟩) (by decide)
      (.last (each s hs ts fillsS).declaration) rfl
  · intro before s hs us vs spelled fillsS
    exact spelled_of_rule (r := ⟨declarations, [declarations, declaration], .moreStatements⟩)
      (by decide) (.cons spelled (.last (each s hs vs fillsS).declaration)) rfl

private theorem spelled_block {ss : List Stmt}
    (each : ∀ s ∈ ss, ∀ ts, Fills s.slots ts → SpelledStmt s ts) {ts : List Token}
    (fills : Fills (.mark leftBrace :: (Stmt.slotsAll ss ++ [.mark rightBrace])) ts) :
    Spelled block (.stmts ss) ts := by
  obtain _ | ⟨kindL, rest⟩ := fills
  obtain ⟨us, _, rfl, fillsS, _ | ⟨kindR, ⟨⟩⟩⟩ := Fills.exists_of_append rest
  by_cases none : ss = []
  · subst none
    rw [Stmt.slotsAll] at fillsS
    cases fillsS
    exact spelled_of_rule (r := ⟨block, [leftBrace, rightBrace], .braced⟩) (by decide)
      (.token kindL (.token kindR .nil)) rfl
  · have inner := spelled_declarations each none fillsS
    exact spelled_of_rule (r := ⟨block, [leftBrace, declarations, rightBrace], .braced⟩) (by decide)
      (.token kindL (.cons inner (.token kindR .nil))) rfl

/-- Names separated by commas. -/
private theorem spelled_names {ns : List Token} (kinds : ∀ t ∈ ns, t.kind = identifier)
    (some : ns ≠ []) {ts : List Token} (fills : Fills (Slot.ofNames ns) ts) :
    Spelled parameters (.names ns) ts := by
  obtain ⟨n, ns, rfl⟩ := List.exists_cons_of_ne_nil some
  obtain ⟨kind, more⟩ := List.forall_mem_cons.mp kinds
  obtain _ | ⟨rfl, fillsNs⟩ := fills
  by_cases none : ns = []
  · subst none
    cases fillsNs
    exact spelled_of_rule (r := ⟨parameters, [identifier], .names⟩) (by decide)
      (.token kind .nil) rfl
  · have rest : ∀ us, Fills (Slot.ofMore ns) us → Spelled moreParameters (.names ns) us := by
      intro us fillsNs
      refine spelled_row rfl ofMore_append ?_ ?_ none fillsNs
      · rintro t ht _ (_ | ⟨kindC, _ | ⟨rfl, ⟨⟩⟩⟩)
        exact spelled_of_rule (r := ⟨moreParameters, [comma, identifier], .names⟩) (by decide)
          (.token kindC (.token (more _ ht) .nil)) rfl
      · rintro before t ht us _ spelled (_ | ⟨kindC, _ | ⟨rfl, ⟨⟩⟩⟩)
        exact spelled_of_rule (r := ⟨moreParameters, [moreParameters, comma, identifier], .names⟩)
          (by decide) (.cons spelled (.token kindC (.token (more _ ht) .nil))) rfl
    exact spelled_of_rule (r := ⟨parameters, [identifier, moreParameters], .names⟩) (by decide)
      (.token kind (.last (rest _ fillsNs))) rfl

private theorem spelled_function {f : FunctionDecl Stmt} (names : f.NamesCanonical)
    (each : ∀ s ∈ f.body, ∀ ts, Fills s.slots ts → SpelledStmt s ts) {ts : List Token}
    (fills : Fills (Stmt.functionSlots f) ts) : Spelled funDecl (.function f) ts := by
  obtain ⟨name, ns, body⟩ := f
  rw [Stmt.functionSlots] at fills
  obtain _ | ⟨kind, _ | ⟨rfl, _ | ⟨kindL, rest⟩⟩⟩ := fills
  obtain ⟨us, _, rfl, fillsN, _ | ⟨kindR, fillsB⟩⟩ := Fills.exists_of_append rest
  have block := spelled_block each fillsB
  by_cases none : ns = []
  · subst none
    cases fillsN
    exact spelled_of_rule
      (r := ⟨funDecl, [kwDef, identifier, leftParen, rightParen, Nonterminal.block], .function⟩)
      (by decide)
      (.token kind (.token names.name (.token kindL (.token kindR (.last block))))) rfl
  · have parameters := spelled_names names.parameters none fillsN
    exact spelled_of_rule
      (r := ⟨funDecl,
        [kwDef, identifier, leftParen, Nonterminal.parameters, rightParen, Nonterminal.block],
        .function⟩) (by decide)
      (.token kind (.token names.name (.token kindL (.cons parameters (.token kindR
        (.last block)))))) rfl

/-- Functions of which each is spelled. -/
private theorem spelled_functions {fs : List (FunctionDecl Stmt)}
    (each : ∀ f ∈ fs, ∀ ts, Fills (Stmt.functionSlots f) ts → Spelled funDecl (.function f) ts)
    (some : fs ≠ []) {ts : List Token} (fills : Fills (Stmt.functionsSlots fs) ts) :
    Spelled functions (.functions fs) ts := by
  refine spelled_row (by rw [Stmt.functionsSlots]) functionsSlots_append ?_ ?_ some fills
  · intro f hf ts fillsF
    exact spelled_of_rule (r := ⟨functions, [funDecl], .oneFunction⟩) (by decide)
      (.last (each f hf ts fillsF)) rfl
  · intro before f hf us vs spelled fillsF
    exact spelled_of_rule (r := ⟨functions, [functions, funDecl], .moreFunctions⟩) (by decide)
      (.cons spelled (.last (each f hf vs fillsF))) rfl

private theorem spelled_class {t name l r : Token} {parent : Option Token}
    {fs : List (FunctionDecl Stmt)} {us vs : List Token} (kind : t.kind = kwClass)
    (nameKind : name.kind = identifier) (parentKind : ∀ t ∈ parent, t.kind = identifier)
    (fillsP : Fills (Stmt.nameSlots kwExtends parent) us) (kindL : l.kind = leftBrace)
    (each : ∀ f ∈ fs, ∀ ts, Fills (Stmt.functionSlots f) ts → Spelled funDecl (.function f) ts)
    (fills : Fills (Stmt.functionsSlots fs) vs) (kindR : r.kind = rightBrace) :
    Spelled classDecl (.stmt (.classDecl name parent fs))
      (t :: name :: (us ++ l :: (vs ++ [r]))) := by
  by_cases none : fs = []
  · subst none
    rw [Stmt.functionsSlots] at fills
    cases fills
    cases parent with
    | none =>
        cases fillsP
        exact spelled_of_rule
          (r := ⟨classDecl, [kwClass, identifier, leftBrace, rightBrace], .classStmt⟩) (by decide)
          (.token kind (.token nameKind (.token kindL (.token kindR .nil)))) rfl
    | some parent =>
        obtain _ | ⟨kindE, _ | ⟨rfl, ⟨⟩⟩⟩ := fillsP
        exact spelled_of_rule
          (r := ⟨classDecl, [kwClass, identifier, kwExtends, identifier, leftBrace, rightBrace],
            .classStmt⟩) (by decide)
          (.token kind (.token nameKind (.token kindE (.token (parentKind _ rfl)
            (.token kindL (.token kindR .nil)))))) rfl
  · have methods := spelled_functions each none fills
    cases parent with
    | none =>
        cases fillsP
        exact spelled_of_rule
          (r := ⟨classDecl, [kwClass, identifier, leftBrace, functions, rightBrace], .classStmt⟩)
          (by decide)
          (.token kind (.token nameKind (.token kindL (.cons methods (.token kindR .nil))))) rfl
    | some parent =>
        obtain _ | ⟨kindE, _ | ⟨rfl, ⟨⟩⟩⟩ := fillsP
        exact spelled_of_rule
          (r := ⟨classDecl,
            [kwClass, identifier, kwExtends, identifier, leftBrace, functions, rightBrace],
            .classStmt⟩) (by decide)
          (.token kind (.token nameKind (.token kindE (.token (parentKind _ rfl)
            (.token kindL (.cons methods (.token kindR .nil))))))) rfl

end Grammar

open Grammar in
/-- A canonical statement is spelled wherever it may stand. -/
theorem Stmt.Canonical.spelled {s : Stmt} (h : s.Canonical) :
    ∀ ts, Fills s.slots ts → SpelledStmt s ts := by
  induction h with
  | expression value =>
      intro ts fills
      rw [slots] at fills
      obtain ⟨us, _, rfl, fillsE, _ | ⟨kind, ⟨⟩⟩⟩ := fills.exists_of_append
      exact spelledStmt_expression (value.spelled fillsE) kind
  | print kind value =>
      intro ts fills
      rw [slots] at fills
      obtain _ | ⟨rfl, rest⟩ := fills
      obtain ⟨us, _, rfl, fillsE, _ | ⟨lastKind, ⟨⟩⟩⟩ := Fills.exists_of_append rest
      exact spelledStmt_of_statement (spelled_print kind (value.spelled fillsE) lastKind) rfl
  | varDecl kind typeKind value =>
      intro ts fills
      rw [slots] at fills
      obtain _ | ⟨kindV, _ | ⟨rfl, rest⟩⟩ := fills
      obtain ⟨_, _, rfl, front, _ | ⟨lastKind, ⟨⟩⟩⟩ := Fills.exists_of_append rest
      obtain ⟨us, vs, rfl, fillsT, fillsV⟩ := Fills.exists_of_append front
      exact spelledStmt_var kindV kind typeKind fillsT value fillsV lastKind
  | block _ ih =>
      intro ts fills
      rw [slots] at fills
      exact spelledStmt_of_statement
        (spelled_of_rule (r := ⟨.statement, [Nonterminal.block], .blockStmt⟩) (by decide)
          (.last (spelled_block ih fills)) rfl) rfl
  | short condition _ isStatement ih =>
      intro ts fills
      rw [slots, elseSlots, List.append_nil] at fills
      obtain _ | ⟨kind, _ | ⟨kindL, rest⟩⟩ := fills
      obtain ⟨us, _, rfl, fillsC, _ | ⟨kindR, fillsS⟩⟩ := Fills.exists_of_append rest
      exact spelledStmt_of_statement
        (spelled_shortIf kind kindL (condition.spelled fillsC) kindR
          ((ih _ fillsS).statement isStatement)) rfl
  | full condition _ isStatement closed _ otherIsStatement ih ihOther =>
      intro ts fills
      rw [slots, elseSlots] at fills
      obtain _ | ⟨kind, _ | ⟨kindL, rest⟩⟩ := fills
      obtain ⟨us, _, rfl, fillsC, _ | ⟨kindR, branches⟩⟩ := Fills.exists_of_append rest
      obtain ⟨vs, _, rfl, fillsS, _ | ⟨kindE, fillsO⟩⟩ := Fills.exists_of_append branches
      exact spelledStmt_of_statement
        (spelled_same (by decide) (spelled_fullIf kind kindL (condition.spelled fillsC) kindR
          ((ih _ fillsS).statement isStatement) closed kindE
          ((ihOther _ fillsO).statement otherIsStatement))) rfl
  | whileLoop condition _ isStatement ih =>
      intro ts fills
      rw [slots] at fills
      obtain _ | ⟨kind, _ | ⟨kindL, rest⟩⟩ := fills
      obtain ⟨us, _, rfl, fillsC, _ | ⟨kindR, fillsS⟩⟩ := Fills.exists_of_append rest
      exact spelledStmt_of_statement
        (spelled_while kind kindL (condition.spelled fillsC) kindR
          ((ih _ fillsS).statement isStatement)) rfl
  | @forLoop i c e s _ isInitializer condition increment _ isStatement ihInit ih =>
      intro ts fills
      rw [slots] at fills
      obtain _ | ⟨kind, _ | ⟨kindL, rest⟩⟩ := fills
      obtain ⟨us, _, rfl, fillsI, parts⟩ := Fills.exists_of_append rest
      obtain ⟨vs, _, rfl, fillsC, _ | ⟨kindM, step⟩⟩ := Fills.exists_of_append parts
      obtain ⟨ws, _, rfl, fillsE, _ | ⟨kindR, fillsS⟩⟩ := Fills.exists_of_append step
      have first : Spelled Nonterminal.forInit (.init i) us := by
        cases i with
        | none => exact spelled_noInit fillsI
        | some s =>
            rw [initializerSlots] at fillsI
            exact (ihInit s rfl us fillsI).initializer (isInitializer s rfl)
      exact spelledStmt_of_statement
        (spelled_for kind kindL first condition fillsC kindM increment fillsE kindR
          ((ih _ fillsS).statement isStatement)) rfl
  | breakLoop kind =>
      intro ts fills
      rw [slots] at fills
      obtain _ | ⟨rfl, _ | ⟨lastKind, ⟨⟩⟩⟩ := fills
      exact spelledStmt_of_statement
        (spelled_keyword (n := .breakStmt) (f := .breakStmt) (by decide) (by decide) rfl kind
          lastKind) rfl
  | continueLoop kind =>
      intro ts fills
      rw [slots] at fills
      obtain _ | ⟨rfl, _ | ⟨lastKind, ⟨⟩⟩⟩ := fills
      exact spelledStmt_of_statement
        (spelled_keyword (n := .continueStmt) (f := .continueStmt) (by decide) (by decide) rfl
          kind lastKind) rfl
  | returnValue kind value =>
      intro ts fills
      rw [slots] at fills
      obtain _ | ⟨rfl, rest⟩ := fills
      obtain ⟨us, _, rfl, fillsV, _ | ⟨lastKind, ⟨⟩⟩⟩ := Fills.exists_of_append rest
      exact spelledStmt_of_statement (spelled_return kind value fillsV lastKind) rfl
  | function names _ ih =>
      intro ts fills
      rw [slots] at fills
      exact spelledStmt_of_declaration
        (spelled_of_rule (r := ⟨.declaration, [Nonterminal.funDecl], .functionStmt⟩) (by decide)
          (.last (spelled_function names ih fills)) rfl) ⟨rfl, rfl⟩
  | classDecl kind superKind names _ ih =>
      intro ts fills
      rw [slots] at fills
      obtain _ | ⟨kindC, _ | ⟨rfl, rest⟩⟩ := fills
      obtain ⟨us, _, rfl, fillsP, _ | ⟨kindL, body⟩⟩ := Fills.exists_of_append rest
      obtain ⟨vs, _, rfl, fillsF, _ | ⟨kindR, ⟨⟩⟩⟩ := Fills.exists_of_append body
      exact spelledStmt_of_declaration
        (spelled_same (by decide)
          (spelled_class kindC kind superKind fillsP kindL
            (fun f hf ts fills => spelled_function (names f hf) (ih f hf) fills) fillsF kindR))
        ⟨rfl, rfl⟩

open Grammar in
/-- A canonical program is spelled by whatever it is written as. -/
theorem Program.Canonical.spelled {p : Program} (h : p.Canonical) {ts : List Token}
    (written : p.WrittenAs ts) : Spelled Nonterminal.program (.stmts p.statements) ts := by
  have each : ∀ s ∈ p.statements, ∀ ts, Fills s.slots ts → SpelledStmt s ts :=
    fun s hs => (h s hs).spelled
  by_cases none : p.statements = []
  · rw [WrittenAs, slots, none, Stmt.slotsAll] at written
    cases written
    rw [none]
    exact spelled_of_rule (r := ⟨.program, [], .emptyProgram⟩) (by decide) .nil rfl
  · exact spelled_same (by decide) (spelled_declarations each none written)

end ScriptFront
