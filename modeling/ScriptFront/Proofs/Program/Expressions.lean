import ScriptFront.Proofs.Program.Standing

/-! # Rules of expressions — each makes a canonical expression of canonical ones

    An operator stands between operands of the levels that its rule has; so the level of an
    expression is that of the rule it was made by, and the rules of one symbol only loosen it. -/

namespace ScriptFront.Grammar

open Nonterminal TokenKind

/-! ## Operators -/

/-- A tighter expression is an expression of a looser level. -/
theorem sound_tighter {l m : Level} (le : l ≤ m) :
    Rule.Sound ⟨l.nonterminal, [m.nonterminal], .same⟩ :=
  sound_same fun _ _ _ h => stands_level.mpr ((stands_level.mp h).weaken le)

/-- An operator between two operands. -/
private theorem sound_between {k : TokenKind} {o : Operator} {f : Form}
    {whole : Expr → Token → Expr → Expr} (kept : k ≠ kwNew)
    (build : ∀ l t r, f.build [.expr l, .token t, .expr r] = .ok (.expr (whole l t r)))
    (slots : ∀ l t r, (whole l t r).slots = l.slots ++ .token t :: r.slots)
    (level : ∀ l t r, t.kind = k → (whole l t r).level = o.level)
    (canonical : ∀ l t r, t.kind = k → l.Canonical → r.Canonical → o.left ≤ l.level →
      o.right ≤ r.level → (whole l t r).Canonical) :
    Rule.Sound ⟨o.level.nonterminal, [o.left.nonterminal, k, o.right.nonterminal], f⟩ := by
  intro l us _ left
  rw [demands_terminal kept]
  intro t kind r vs _ right
  obtain ⟨l, rfl, canonicalL, tightL, fillsL, -⟩ := stands_level.mp left
  obtain ⟨r, rfl, canonicalR, tightR, fillsR, closed⟩ := stands_level.mp right
  show Nonterminal.Outcome _ _ _ (f.build [.expr l, .token t, .expr r])
  rw [build]
  refine stands_level.mpr ⟨_, rfl, canonical l t r kind canonicalL canonicalR tightL tightR,
    ?_, ?_, closed⟩
  · rw [level l t r kind]
    exact Level.refl _
  · rw [slots, List.append_nil]
    exact fillsL.append (.cons rfl fillsR)

theorem sound_binary {k : TokenKind} {o : Operator} (kind : k.binary? = some o) :
    Rule.Sound ⟨o.level.nonterminal, [o.left.nonterminal, k, o.right.nonterminal], .binary⟩ := by
  refine sound_between ?_ (fun _ _ _ => rfl) (fun _ _ _ => by rw [Expr.slots]) ?_ ?_
  · rintro rfl
    exact nomatch kind
  · rintro l t r rfl
    simp only [Expr.level, kind, Option.map_some, Option.getD_some]
  · rintro l t r rfl
    exact .binary kind

theorem sound_logical {k : TokenKind} {o : Operator} (kind : k.logical? = some o) :
    Rule.Sound ⟨o.level.nonterminal, [o.left.nonterminal, k, o.right.nonterminal], .logical⟩ := by
  refine sound_between ?_ (fun _ _ _ => rfl) (fun _ _ _ => by rw [Expr.slots]) ?_ ?_
  · rintro rfl
    exact nomatch kind
  · rintro l t r rfl
    simp only [Expr.level, kind, Option.map_some, Option.getD_some]
  · rintro l t r rfl
    exact .logical kind

theorem sound_unary {k : TokenKind} (kind : k.isUnary = true) :
    Rule.Sound ⟨unary, [k, unary], .unary⟩ := by
  have kept : k ≠ kwNew := by
    rintro rfl
    exact nomatch kind
  show Demands [.terminal k, .nonterminal unary] False _
  rw [demands_terminal kept]
  rintro t rfl _ us _ ⟨e, rfl, canonical, tight, fills, closed⟩
  refine ⟨_, rfl, .unary kind canonical tight, Level.refl _, ?_, closed⟩
  rw [Expr.slots, List.append_nil]
  exact .cons rfl fills

theorem sound_literal {k : TokenKind} (kind : k.isLiteral = true) :
    Rule.Sound ⟨primary, [k], .literal⟩ := by
  have kept : k ≠ kwNew := by
    rintro rfl
    exact nomatch kind
  show Demands [.terminal k] False _
  rw [demands_terminal kept]
  rintro t rfl
  refine ⟨_, rfl, .literal _, Level.refl _, ?_, id⟩
  rw [Expr.slots]
  exact .cons ⟨kind, rfl⟩ .nil

theorem sound_assign : Rule.Sound ⟨assignment, [call, equal, assignment], .assign⟩ := by
  rintro _ us _ ⟨e, rfl, canonical, -, fills, -⟩ t kind _ vs _
    ⟨r, rfl, canonicalR, -, fillsR, closed⟩
  have misfit : assignment.Outcome (us ++ t :: (vs ++ [])) False
      (.error (.invalidTarget t)) := ⟨by simp, kind⟩
  -- only a variable and a property can be assigned to
  cases canonical with
  | var nameKind =>
      refine ⟨_, rfl, .assign nameKind canonicalR, Level.refl _, ?_, closed⟩
      rw [Expr.slots, List.append_nil]
      rw [Expr.slots] at fills
      exact fills.append (.cons kind fillsR)
  | get object tight nameKind =>
      refine ⟨_, rfl, .set object tight nameKind canonicalR, Level.refl _, ?_, closed⟩
      rw [Expr.slots] at fills
      have sign : Slot.Holds (.mark equal) t := kind
      have whole := fills.append (List.Forall₂.cons sign fillsR)
      rw [List.append_assoc] at whole
      rw [Expr.slots, List.append_nil]
      exact whole
  | _ => exact misfit

theorem sound_call : Rule.Sound ⟨call, [call, leftParen, arguments, rightParen], .call⟩ := by
  rintro _ us _ ⟨e, rfl, canonical, tight, fills, -⟩ t kind _ vs _ ⟨es, rfl, all, fillsAll⟩
    paren parenKind
  refine ⟨_, rfl, .call canonical tight parenKind all, Level.refl _, ?_, id⟩
  rw [Expr.slots]
  exact fills.append (.cons kind (fillsAll.append (.cons rfl .nil)))

theorem sound_bareCall : Rule.Sound ⟨call, [call, leftParen, rightParen], .call⟩ := by
  rintro _ us _ ⟨e, rfl, canonical, tight, fills, -⟩ t kind paren parenKind
  refine ⟨_, rfl, .call canonical tight parenKind (List.forall_mem_nil _), Level.refl _, ?_, id⟩
  rw [Expr.slots, Expr.argumentSlots]
  exact fills.append (.cons kind (.cons rfl .nil))

theorem sound_get : Rule.Sound ⟨call, [call, dot, identifier], .get⟩ := by
  rintro _ us _ ⟨e, rfl, canonical, tight, fills, -⟩ t kind name nameKind
  refine ⟨_, rfl, .get canonical tight nameKind, Level.refl _, ?_, id⟩
  rw [Expr.slots]
  exact fills.append (.cons kind (.cons rfl .nil))

theorem sound_this : Rule.Sound ⟨primary, [kwThis], .this⟩ := by
  intro t kind
  refine ⟨_, rfl, .this kind, Level.refl _, ?_, id⟩
  rw [Expr.slots]
  exact .cons rfl .nil

theorem sound_var : Rule.Sound ⟨primary, [identifier], .var⟩ := by
  intro t kind
  refine ⟨_, rfl, .var kind, Level.refl _, ?_, id⟩
  rw [Expr.slots]
  exact .cons rfl .nil

theorem sound_grouping :
    Rule.Sound ⟨primary, [leftParen, expression, rightParen], .grouping⟩ := by
  rintro t kind _ us _ ⟨e, rfl, canonical, -, fills, -⟩ t' kind'
  refine ⟨_, rfl, .grouping canonical, Level.refl _, ?_, id⟩
  rw [Expr.slots]
  exact .cons kind (fills.append (.mark kind'))

theorem sound_super : Rule.Sound ⟨primary, [kwSuper, dot, identifier], .super⟩ := by
  intro keyword kind t dotKind method methodKind
  refine ⟨_, rfl, .super kind methodKind, Level.refl _, ?_, id⟩
  rw [Expr.slots]
  exact .cons rfl (.cons dotKind (.cons rfl .nil))

/-- A creation is a call of the class, and its `new` is not kept. -/
theorem sound_new :
    Rule.Sound ⟨primary, [kwNew, identifier, leftParen, arguments, rightParen], .new⟩ := by
  rintro _ _ name nameKind t kind _ us _ ⟨es, rfl, all, fills⟩ paren parenKind
  refine ⟨_, rfl, .call (.var nameKind) (Level.refl _) parenKind all, Level.refl _, ?_, id⟩
  rw [Expr.slots, Expr.slots]
  exact .cons rfl (.cons kind (fills.append (.cons rfl .nil)))

theorem sound_bareNew :
    Rule.Sound ⟨primary, [kwNew, identifier, leftParen, rightParen], .new⟩ := by
  rintro _ _ name nameKind t kind paren parenKind
  refine ⟨_, rfl, .call (.var nameKind) (Level.refl _) parenKind (List.forall_mem_nil _),
    Level.refl _, ?_, id⟩
  rw [Expr.slots, Expr.slots, Expr.argumentSlots]
  exact .cons rfl (.cons kind (.cons rfl .nil))

/-! ## Rows of expressions and names -/

theorem moreSlots_append (es : List Expr) (e : Expr) :
    Expr.moreSlots (es ++ [e]) = Expr.moreSlots es ++ .mark comma :: e.slots := by
  induction es with
  | nil => simp [Expr.moreSlots]
  | cons x es ih => simp [Expr.moreSlots, ih]

theorem ofMore_append (ts : List Token) (t : Token) :
    Slot.ofMore (ts ++ [t]) = Slot.ofMore ts ++ [.mark comma, .token t] := by
  induction ts with
  | nil => rfl
  | cons x ts ih => simp [Slot.ofMore, ih]

theorem sound_argument : Rule.Sound ⟨arguments, [expression], .values⟩ := by
  rintro _ us _ ⟨e, rfl, canonical, -, fills, -⟩
  refine ⟨_, rfl, List.forall_mem_singleton.mpr canonical, ?_⟩
  rw [Expr.argumentSlots, Expr.moreSlots]
  exact fills.append .nil

theorem sound_arguments : Rule.Sound ⟨arguments, [expression, moreArguments], .values⟩ := by
  rintro _ us _ ⟨e, rfl, canonical, -, fills, -⟩ _ vs _ ⟨es, rfl, all, fillsAll⟩
  refine ⟨_, rfl, List.forall_mem_cons.mpr ⟨canonical, all⟩, ?_⟩
  rw [Expr.argumentSlots, List.append_nil]
  exact fills.append fillsAll

theorem sound_firstMore : Rule.Sound ⟨moreArguments, [comma, expression], .values⟩ := by
  rintro t kind _ us _ ⟨e, rfl, canonical, -, fills, -⟩
  refine ⟨_, rfl, List.forall_mem_singleton.mpr canonical, ?_⟩
  rw [Expr.moreSlots, Expr.moreSlots]
  exact .cons kind (fills.append .nil)

theorem sound_more :
    Rule.Sound ⟨moreArguments, [moreArguments, comma, expression], .values⟩ := by
  rintro _ us _ ⟨es, rfl, all, fillsAll⟩ t kind _ vs _ ⟨e, rfl, canonical, -, fills, -⟩
  refine ⟨_, rfl, List.forall_mem_append.mpr ⟨all, List.forall_mem_singleton.mpr canonical⟩, ?_⟩
  rw [moreSlots_append, List.append_nil]
  exact fillsAll.append (.cons kind fills)

theorem sound_name : Rule.Sound ⟨parameters, [identifier], .names⟩ := by
  intro t kind
  exact ⟨_, rfl, List.forall_mem_singleton.mpr kind, .cons rfl .nil⟩

theorem sound_names : Rule.Sound ⟨parameters, [identifier, moreParameters], .names⟩ := by
  rintro t kind _ us _ ⟨ns, rfl, all, fills⟩
  refine ⟨_, rfl, List.forall_mem_cons.mpr ⟨kind, all⟩, ?_⟩
  rw [Slot.ofNames, List.append_nil]
  exact .cons rfl fills

theorem sound_firstName : Rule.Sound ⟨moreParameters, [comma, identifier], .names⟩ := by
  intro t kind name nameKind
  exact ⟨_, rfl, List.forall_mem_singleton.mpr nameKind, .cons kind (.cons rfl .nil)⟩

theorem sound_moreNames :
    Rule.Sound ⟨moreParameters, [moreParameters, comma, identifier], .names⟩ := by
  rintro _ us _ ⟨ns, rfl, all, fills⟩ t kind name nameKind
  refine ⟨_, rfl, List.forall_mem_append.mpr ⟨all, List.forall_mem_singleton.mpr nameKind⟩, ?_⟩
  rw [ofMore_append]
  exact fills.append (.cons kind (.cons rfl .nil))

end ScriptFront.Grammar
