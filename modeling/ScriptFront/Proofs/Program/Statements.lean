import ScriptFront.Proofs.Program.Standing

/-! # Rules of statements — each makes a canonical statement of canonical parts

    Optional parts are one rule for each choice; the rules of one statement share a lemma that
    leaves the choice open.  A conditional ends open if it has no `else` or its last branch does. -/

namespace ScriptFront.Grammar

open Nonterminal TokenKind

/-! ## Statements -/

theorem sound_exprStmt :
    Rule.Sound ⟨Nonterminal.exprStmt, [expression, semicolon], .exprStmt⟩ := by
  rintro _ us _ ⟨e, rfl, canonical, -, fills, -⟩ t kind
  refine ⟨_, rfl, .expression canonical, rfl, ?_, iff_of_false id nofun⟩
  rw [Stmt.slots]
  exact fills.append (.mark kind)

theorem sound_print :
    Rule.Sound ⟨printStmt, [kwPrint, expression, semicolon], .printStmt⟩ := by
  rintro keyword kind _ us _ ⟨e, rfl, canonical, -, fills, -⟩ t kind'
  refine ⟨_, rfl, .print kind canonical, rfl, ?_, iff_of_false id nofun⟩
  rw [Stmt.slots]
  exact .cons rfl (fills.append (.mark kind'))

theorem sound_while :
    Rule.Sound
      ⟨whileStmt, [kwWhile, leftParen, expression, rightParen, statement], .whileStmt⟩ := by
  rintro t kind l kindL _ us _ ⟨c, rfl, canonical, -, fills, -⟩ r kindR _ vs _
    ⟨s, rfl, canonicalS, isStatement, fillsS, ends⟩
  refine ⟨_, rfl, .whileLoop canonical canonicalS isStatement, rfl, ?_, ends⟩
  rw [Stmt.slots, List.append_nil]
  exact .cons kind (.cons kindL (fills.append (.cons kindR fillsS)))

/-- An optional expression and the tokens of it. -/
private def StandsPart (x : Option Expr) (ts : List Token) : Prop :=
  (∀ e ∈ x, e.Canonical) ∧ Fills (Expr.slotsPart x) ts

private theorem standsPart_none : StandsPart none [] := ⟨(fun _ h => nomatch h), .nil⟩

private theorem standsPart_some {v : Value} {ts : List Token} {o : Prop}
    (h : expression.Stands v ts o) : ∃ e, v = .expr e ∧ StandsPart (some e) ts := by
  obtain ⟨e, rfl, canonical, -, fills, -⟩ := h
  refine ⟨e, rfl, ?_, fills⟩
  rintro _ ⟨⟩
  exact canonical

/-- The four forms of a `for` differ in which of its expressions are there. -/
private theorem stands_forLoop {v w : Value} {t l m r : Token} {us vs ws xs : List Token}
    {o isOpen : Prop} (kind : t.kind = kwFor) (kindL : l.kind = leftParen)
    (first : forInit.Stands v us o) {c e : Option Expr} (condition : StandsPart c vs)
    (kindM : m.kind = semicolon) (increment : StandsPart e ws) (kindR : r.kind = rightParen)
    (body : statement.Stands w xs isOpen) :
    ∃ i s, v = .init i ∧ w = .stmt s ∧ forStmt.Stands (.stmt (.forLoop i c e s))
      (t :: l :: (us ++ (vs ++ m :: (ws ++ r :: (xs ++ []))))) isOpen := by
  obtain ⟨i, rfl, canonicalI, isInitializer, fillsI⟩ := first
  obtain ⟨s, rfl, canonicalS, isStatement, fillsS, ends⟩ := body
  refine ⟨i, s, rfl, rfl, _, rfl, .forLoop canonicalI isInitializer condition.1 increment.1
    canonicalS isStatement, rfl, ?_, ends⟩
  rw [Stmt.slots, List.append_nil]
  exact .cons kind (.cons kindL (fillsI.append
    (condition.2.append (.cons kindM (increment.2.append (.cons kindR fillsS))))))

theorem sound_for :
    Rule.Sound
      ⟨forStmt, [kwFor, leftParen, forInit, semicolon, rightParen, statement], .forStmt⟩ := by
  intro t kind l kindL _ us _ first m kindM r kindR _ xs _ body
  obtain ⟨i, s, rfl, rfl, stands⟩ :=
    stands_forLoop kind kindL first standsPart_none kindM standsPart_none kindR body
  exact stands

theorem sound_forWhile :
    Rule.Sound
      ⟨forStmt, [kwFor, leftParen, forInit, expression, semicolon, rightParen, statement],
        .forStmt⟩ := by
  intro t kind l kindL _ us _ first _ vs _ condition m kindM r kindR _ xs _ body
  obtain ⟨c, rfl, conditionPart⟩ := standsPart_some condition
  obtain ⟨i, s, rfl, rfl, stands⟩ :=
    stands_forLoop kind kindL first conditionPart kindM standsPart_none kindR body
  exact stands

theorem sound_forStep :
    Rule.Sound
      ⟨forStmt, [kwFor, leftParen, forInit, semicolon, expression, rightParen, statement],
        .forStmt⟩ := by
  intro t kind l kindL _ us _ first m kindM _ ws _ increment r kindR _ xs _ body
  obtain ⟨e, rfl, incrementPart⟩ := standsPart_some increment
  obtain ⟨i, s, rfl, rfl, stands⟩ :=
    stands_forLoop kind kindL first standsPart_none kindM incrementPart kindR body
  exact stands

theorem sound_forWhileStep :
    Rule.Sound
      ⟨forStmt,
        [kwFor, leftParen, forInit, expression, semicolon, expression, rightParen, statement],
        .forStmt⟩ := by
  intro t kind l kindL _ us _ first _ vs _ condition m kindM _ ws _ increment r kindR _ xs _ body
  obtain ⟨c, rfl, conditionPart⟩ := standsPart_some condition
  obtain ⟨e, rfl, incrementPart⟩ := standsPart_some increment
  obtain ⟨i, s, rfl, rfl, stands⟩ :=
    stands_forLoop kind kindL first conditionPart kindM incrementPart kindR body
  exact stands

theorem sound_someInit {n : Nonterminal} {p : Stmt → Bool}
    (stands : ∀ v ts o, n.Stands v ts o → StandsStmt p v ts o)
    (initial : ∀ s, p s = true → s.isInitializer = true) :
    Rule.Sound ⟨forInit, [n], .someInit⟩ := by
  intro v us o h
  obtain ⟨s, rfl, canonical, kind, fills, -⟩ := stands v us o h
  refine ⟨some s, rfl, ?_, ?_, ?_⟩
  · rintro _ ⟨⟩
    exact canonical
  · rintro _ ⟨⟩
    exact initial s kind
  · rw [Stmt.initializerSlots, List.append_nil]
    exact fills

theorem sound_noInit : Rule.Sound ⟨forInit, [emptyInit], .noInit⟩ := by
  rintro _ us _ ⟨t, rfl, fills⟩
  refine ⟨none, rfl, (fun _ h => nomatch h), (fun _ h => nomatch h), ?_⟩
  rw [Stmt.initializerSlots, List.append_nil]
  exact fills

theorem sound_emptyInit : Rule.Sound ⟨emptyInit, [semicolon], .same⟩ := by
  intro t kind
  exact ⟨t, rfl, .mark kind⟩

/-- An optional name behind a mark and the tokens of both. -/
private def StandsName (k : TokenKind) (x : Option Token) (ts : List Token) : Prop :=
  (∀ t ∈ x, t.kind = identifier) ∧ Fills (Stmt.nameSlots k x) ts

private theorem standsName_none (k : TokenKind) : StandsName k none [] :=
  ⟨(fun _ h => nomatch h), .nil⟩

private theorem standsName_some {k : TokenKind} {t name : Token} (kind : t.kind = k)
    (nameKind : name.kind = identifier) : StandsName k (some name) [t, name] := by
  refine ⟨?_, .cons kind (.cons rfl .nil)⟩
  rintro _ ⟨⟩
  exact nameKind

/-- An optional value of a variable and the tokens of it. -/
private def StandsInitial (x : Option Expr) (ts : List Token) : Prop :=
  (∀ e ∈ x, e.Canonical) ∧ Fills (Stmt.initialSlots x) ts

private theorem standsInitial_none : StandsInitial none [] := ⟨(fun _ h => nomatch h), .nil⟩

private theorem standsInitial_some {t : Token} (kind : t.kind = equal) {v : Value}
    {ts : List Token} {o : Prop} (h : expression.Stands v ts o) :
    ∃ e, v = .expr e ∧ StandsInitial (some e) (t :: ts) := by
  obtain ⟨e, rfl, canonical, fills⟩ := standsPart_some h
  exact ⟨e, rfl, canonical, .cons kind fills⟩

/-- The four forms of a variable differ in whether it has a type and a value. -/
private theorem stands_varDecl {t name last : Token} {us vs : List Token}
    (kind : t.kind = kwVar) (nameKind : name.kind = identifier) {type : Option Token}
    (typed : StandsName colon type us) {init : Option Expr} (value : StandsInitial init vs)
    (lastKind : last.kind = semicolon) :
    varDecl.Stands (.stmt (.varDecl name type init)) (t :: name :: (us ++ vs ++ [last])) False := by
  refine ⟨_, rfl, .varDecl nameKind typed.1 value.1, rfl, ?_, iff_of_false id nofun⟩
  rw [Stmt.slots]
  exact .cons kind (.cons rfl ((typed.2.append value.2).append (.mark lastKind)))

theorem sound_bareVar : Rule.Sound ⟨varDecl, [kwVar, identifier, semicolon], .varStmt⟩ := by
  intro t kind name nameKind last lastKind
  exact stands_varDecl kind nameKind (standsName_none _) standsInitial_none lastKind

theorem sound_varType :
    Rule.Sound ⟨varDecl, [kwVar, identifier, colon, identifier, semicolon], .varStmt⟩ := by
  intro t kind name nameKind c kindC type typeKind last lastKind
  exact stands_varDecl kind nameKind (standsName_some kindC typeKind) standsInitial_none lastKind

theorem sound_varValue :
    Rule.Sound ⟨varDecl, [kwVar, identifier, equal, expression, semicolon], .varStmt⟩ := by
  intro t kind name nameKind m kindM _ us _ value last lastKind
  obtain ⟨e, rfl, initial⟩ := standsInitial_some kindM value
  exact stands_varDecl kind nameKind (standsName_none _) initial lastKind

theorem sound_varTypeValue :
    Rule.Sound
      ⟨varDecl, [kwVar, identifier, colon, identifier, equal, expression, semicolon],
        .varStmt⟩ := by
  intro t kind name nameKind c kindC type typeKind m kindM _ us _ value last lastKind
  obtain ⟨e, rfl, initial⟩ := standsInitial_some kindM value
  exact stands_varDecl kind nameKind (standsName_some kindC typeKind) initial lastKind

theorem sound_break : Rule.Sound ⟨breakStmt, [kwBreak, semicolon], .breakStmt⟩ := by
  intro t kind last lastKind
  refine ⟨_, rfl, .breakLoop kind, rfl, ?_, iff_of_false id nofun⟩
  rw [Stmt.slots]
  exact .cons rfl (Fills.mark lastKind)

theorem sound_continue :
    Rule.Sound ⟨continueStmt, [kwContinue, semicolon], .continueStmt⟩ := by
  intro t kind last lastKind
  refine ⟨_, rfl, .continueLoop kind, rfl, ?_, iff_of_false id nofun⟩
  rw [Stmt.slots]
  exact .cons rfl (Fills.mark lastKind)

theorem sound_bareReturn : Rule.Sound ⟨returnStmt, [kwReturn, semicolon], .returnStmt⟩ := by
  intro t kind last lastKind
  refine ⟨_, rfl, .returnValue kind standsPart_none.1, rfl, ?_, iff_of_false id nofun⟩
  rw [Stmt.slots]
  exact .cons rfl (Fills.mark lastKind)

theorem sound_return :
    Rule.Sound ⟨returnStmt, [kwReturn, expression, semicolon], .returnStmt⟩ := by
  intro t kind _ us _ value last lastKind
  obtain ⟨e, rfl, part⟩ := standsPart_some value
  refine ⟨_, rfl, .returnValue kind part.1, rfl, ?_, iff_of_false id nofun⟩
  rw [Stmt.slots]
  exact .cons rfl (part.2.append (.mark lastKind))

/-- Without an `else`, a conditional ends open. -/
theorem sound_shortIf :
    Demands shortIf.right False fun vs ts _ =>
      shortIf.left.Outcome ts True (shortIf.form.build vs) := by
  rintro t kind l kindL _ us _ ⟨c, rfl, canonical, -, fills, -⟩ r kindR _ vs _
    ⟨s, rfl, canonicalS, isStatement, fillsS, -⟩
  show StandsStmt Stmt.isStatement (.stmt (.conditional c s none)) _ True
  refine ⟨_, rfl, .short canonical canonicalS isStatement, rfl, ?_, iff_of_true trivial rfl⟩
  rw [Stmt.slots, Stmt.elseSlots, List.append_nil, List.append_nil]
  exact .cons kind (.cons kindL (fills.append (.cons kindR fillsS)))

/-- With an `else`, its first branch must be closed. -/
theorem sound_fullIf :
    Demands fullIf.right False fun vs ts isOpen =>
      (∀ s, vs[4]? = some (.stmt s) → s.endsOpen = false) →
        fullIf.left.Outcome ts isOpen (fullIf.form.build vs) := by
  rintro t kind l kindL _ us _ ⟨c, rfl, canonical, -, fills, -⟩ r kindR _ vs _
    ⟨s, rfl, canonicalS, isStatement, fillsS, -⟩ m kindM _ ws o
    ⟨s', rfl, canonicalS', isStatement', fillsS', ends⟩ closed
  show StandsStmt Stmt.isStatement (.stmt (.conditional c s (some s'))) _ o
  -- the conditional ends as its second branch does
  refine ⟨_, rfl, .full canonical canonicalS isStatement (closed s rfl) canonicalS' isStatement',
    rfl, ?_, ends⟩
  rw [Stmt.slots, Stmt.elseSlots, List.append_nil]
  exact .cons kind (.cons kindL
    (fills.append (.cons kindR (fillsS.append (.cons kindM fillsS')))))

/-! ## Blocks, functions and classes -/

theorem slotsAll_append (ss : List Stmt) (s : Stmt) :
    Stmt.slotsAll (ss ++ [s]) = Stmt.slotsAll ss ++ s.slots := by
  induction ss with
  | nil => simp [Stmt.slotsAll]
  | cons x ss ih => simp [Stmt.slotsAll, ih]

theorem functionsSlots_append (fs : List (FunctionDecl Stmt)) (f : FunctionDecl Stmt) :
    Stmt.functionsSlots (fs ++ [f]) = Stmt.functionsSlots fs ++ Stmt.functionSlots f := by
  induction fs with
  | nil => simp [Stmt.functionsSlots]
  | cons x fs ih => simp [Stmt.functionsSlots, ih]

theorem sound_emptyProgram : Rule.Sound ⟨program, [], .emptyProgram⟩ := by
  refine ⟨[], rfl, List.forall_mem_nil _, ?_⟩
  rw [Stmt.slotsAll]
  exact .nil

theorem sound_oneStatement : Rule.Sound ⟨declarations, [declaration], .oneStatement⟩ := by
  rintro _ us _ ⟨s, rfl, canonical, -, fills, -⟩
  refine ⟨_, rfl, List.forall_mem_singleton.mpr canonical, ?_⟩
  rw [Stmt.slotsAll, Stmt.slotsAll]
  exact fills.append .nil

theorem sound_moreStatements :
    Rule.Sound ⟨declarations, [declarations, declaration], .moreStatements⟩ := by
  rintro _ us _ ⟨ss, rfl, all, fillsAll⟩ _ vs _ ⟨s, rfl, canonical, -, fills, -⟩
  refine ⟨_, rfl, List.forall_mem_append.mpr ⟨all, List.forall_mem_singleton.mpr canonical⟩, ?_⟩
  rw [slotsAll_append, List.append_nil]
  exact fillsAll.append fills

theorem sound_emptyBlock : Rule.Sound ⟨block, [leftBrace, rightBrace], .braced⟩ := by
  intro l kindL r kindR
  refine ⟨[], rfl, List.forall_mem_nil _, ?_, id⟩
  rw [Stmt.slotsAll]
  exact .cons kindL (Fills.mark kindR)

theorem sound_block : Rule.Sound ⟨block, [leftBrace, declarations, rightBrace], .braced⟩ := by
  rintro l kindL _ us _ ⟨ss, rfl, all, fills⟩ r kindR
  exact ⟨ss, rfl, all, .cons kindL (fills.append (.mark kindR)), id⟩

theorem sound_blockStmt : Rule.Sound ⟨statement, [block], .blockStmt⟩ := by
  rintro _ us _ ⟨ss, rfl, all, fills, closed⟩
  refine ⟨_, rfl, .block all, rfl, ?_, iff_of_false closed nofun⟩
  rw [Stmt.slots, List.append_nil]
  exact fills

theorem sound_functionStmt : Rule.Sound ⟨declaration, [funDecl], .functionStmt⟩ := by
  rintro _ us _ ⟨f, rfl, names, body, fills, closed⟩
  refine ⟨_, rfl, .function names body, rfl, ?_, iff_of_false closed nofun⟩
  rw [Stmt.slots, List.append_nil]
  exact fills

theorem sound_function :
    Rule.Sound
      ⟨funDecl, [kwDef, identifier, leftParen, parameters, rightParen, block], .function⟩ := by
  rintro t kind name nameKind l kindL _ us _ ⟨ns, rfl, all, fillsN⟩ r kindR _ vs _
    ⟨ss, rfl, canonical, fills, closed⟩
  refine ⟨_, rfl, ⟨nameKind, all⟩, canonical, ?_, closed⟩
  rw [Stmt.functionSlots, List.append_nil]
  exact .cons kind (.cons rfl (.cons kindL (fillsN.append (.cons kindR fills))))

theorem sound_bareFunction :
    Rule.Sound ⟨funDecl, [kwDef, identifier, leftParen, rightParen, block], .function⟩ := by
  rintro t kind name nameKind l kindL r kindR _ vs _ ⟨ss, rfl, canonical, fills, closed⟩
  refine ⟨_, rfl, ⟨nameKind, List.forall_mem_nil _⟩, canonical, ?_, closed⟩
  rw [Stmt.functionSlots, List.append_nil]
  exact .cons kind (.cons rfl (.cons kindL (.cons kindR fills)))

theorem sound_oneFunction : Rule.Sound ⟨functions, [funDecl], .oneFunction⟩ := by
  rintro _ us _ ⟨f, rfl, names, body, fills, -⟩
  refine ⟨_, rfl, List.forall_mem_singleton.mpr names, List.forall_mem_singleton.mpr body, ?_⟩
  rw [Stmt.functionsSlots, Stmt.functionsSlots]
  exact fills.append .nil

theorem sound_moreFunctions :
    Rule.Sound ⟨functions, [functions, funDecl], .moreFunctions⟩ := by
  rintro _ us _ ⟨fs, rfl, allNames, bodies, fillsAll⟩ _ vs _ ⟨f, rfl, names, body, fills, -⟩
  refine ⟨_, rfl, List.forall_mem_append.mpr ⟨allNames, List.forall_mem_singleton.mpr names⟩,
    List.forall_mem_append.mpr ⟨bodies, List.forall_mem_singleton.mpr body⟩, ?_⟩
  rw [functionsSlots_append, List.append_nil]
  exact fillsAll.append fills

/-- The four forms of a class differ in whether it has a superclass and methods. -/
private theorem stands_class {t name l r : Token} {us vs : List Token} {parent : Option Token}
    {v : Value} {o : Prop} (kind : t.kind = kwClass)
    (nameKind : name.kind = identifier) (super : StandsName kwExtends parent us)
    (kindL : l.kind = leftBrace) (methods : functions.Stands v vs o)
    (kindR : r.kind = rightBrace) :
    ∃ fs, v = .functions fs ∧ classDecl.Stands (.stmt (.classDecl name parent fs))
      (t :: name :: (us ++ l :: (vs ++ [r]))) False := by
  obtain ⟨fs, rfl, names, bodies, fills⟩ := methods
  refine ⟨fs, rfl, _, rfl, .classDecl nameKind super.1 names bodies, rfl, ?_, iff_of_false id nofun⟩
  rw [Stmt.slots]
  exact .cons kind (.cons rfl (super.2.append (.cons kindL (fills.append (.mark kindR)))))

private theorem stands_noFunctions : functions.Stands (.functions []) [] False := by
  refine ⟨[], rfl, List.forall_mem_nil _, List.forall_mem_nil _, ?_⟩
  rw [Stmt.functionsSlots]
  exact .nil

theorem sound_bareClass :
    Rule.Sound ⟨classDecl, [kwClass, identifier, leftBrace, rightBrace], .classStmt⟩ := by
  intro t kind name nameKind l kindL r kindR
  obtain ⟨_, ⟨⟩, stands⟩ :=
    stands_class kind nameKind (standsName_none _) kindL stands_noFunctions kindR
  exact stands

theorem sound_class :
    Rule.Sound
      ⟨classDecl, [kwClass, identifier, leftBrace, functions, rightBrace], .classStmt⟩ := by
  intro t kind name nameKind l kindL _ us _ methods r kindR
  obtain ⟨fs, rfl, stands⟩ := stands_class kind nameKind (standsName_none _) kindL methods kindR
  exact stands

theorem sound_bareSubclass :
    Rule.Sound
      ⟨classDecl, [kwClass, identifier, kwExtends, identifier, leftBrace, rightBrace],
        .classStmt⟩ := by
  intro t kind name nameKind m kindM parent parentKind l kindL r kindR
  obtain ⟨_, ⟨⟩, stands⟩ :=
    stands_class kind nameKind (standsName_some kindM parentKind) kindL stands_noFunctions kindR
  exact stands

theorem sound_subclass :
    Rule.Sound
      ⟨classDecl, [kwClass, identifier, kwExtends, identifier, leftBrace, functions, rightBrace],
        .classStmt⟩ := by
  intro t kind name nameKind m kindM parent parentKind l kindL _ us _ methods r kindR
  obtain ⟨fs, rfl, stands⟩ :=
    stands_class kind nameKind (standsName_some kindM parentKind) kindL methods kindR
  exact stands

end ScriptFront.Grammar
