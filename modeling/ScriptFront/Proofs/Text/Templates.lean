import ScriptFront.ErrorCode

/-! # Filling templates — all holes at once, and with the very text of their arguments

    What filling means is said of the text of a template, in which a hole is a name in braces: from
    left to right every hole becomes its argument, and everything else is copied (`Filling`).  The
    text of an argument is not read again, so there is one way to fill a text (`Filling.unique`).  A
    template whose fixed texts and names hold no braces shows its holes and no others (`names_raw`),
    and its message is its text filled (`filling_format`) unless an argument is missing. -/

namespace ScriptFront.Text

/-- A text is cut at the first of some characters in one way. -/
theorem append_inj_at_first {stop : Char} {as bs u v : List Char} (outside : stop ∉ as)
    (outside' : stop ∉ bs) (same : as ++ stop :: u = bs ++ stop :: v) : as = bs ∧ u = v := by
  have taken : ∀ {cs rest : List Char}, stop ∉ cs →
      (cs ++ stop :: rest).takeWhile (· != stop) = cs := by
    intro cs rest outside
    have all : ∀ c ∈ cs, (c != stop) = true :=
      fun c mem => bne_iff_ne.mpr fun stops => outside (stops ▸ mem)
    rw [List.takeWhile_append_of_pos all, List.takeWhile_cons_of_neg (by simp), List.append_nil]
  have fronts := congrArg (List.takeWhile (· != stop)) same
  rw [taken outside, taken outside'] at fronts
  cases fronts
  exact ⟨rfl, (List.cons.inj (List.append_cancel_left same)).2⟩

namespace Template

/-! ## Texts with names in braces -/

/-- A text without braces. -/
def Bare (cs : List Char) : Prop := '\x7b' ∉ cs ∧ '\x7d' ∉ cs

instance (cs : List Char) : Decidable (Bare cs) := inferInstanceAs (Decidable (_ ∧ _))

/-- A text has a name in braces somewhere. -/
def Names (text : List Char) (name : String) : Prop :=
  Bare name.toList
  ∧ ∃ front back, text = front ++ '\x7b' :: (name.toList ++ '\x7d' :: back)

/-- What becomes of a text, read from left to right, when each name in braces is replaced by the
    argument of that name.  The argument is written down as it is; only what follows is read on. -/
inductive Filling (args : Arguments) : List Char → List Char → Prop
  | done : Filling args [] []
  | copied {c : Char} {text filled : List Char} (opens : c ≠ '\x7b') (closes : c ≠ '\x7d')
      (next : Filling args text filled) : Filling args (c :: text) (c :: filled)
  | hole {name value : String} {text filled : List Char} (bare : Bare name.toList)
      (given : args.lookup name = some value) (next : Filling args text filled) :
      Filling args ('\x7b' :: (name.toList ++ '\x7d' :: text)) (value.toList ++ filled)

variable {args : Arguments}

namespace Filling

/-- A text without braces is copied. -/
theorem behind {cs text filled : List Char} (bare : Bare cs) (h : Filling args text filled) :
    Filling args (cs ++ text) (cs ++ filled) := by
  induction cs with
  | nil => exact h
  | cons c cs ih =>
      obtain ⟨opens, closes⟩ := bare
      rw [List.mem_cons, not_or] at opens closes
      exact .copied (Ne.symm opens.1) (Ne.symm closes.1) (ih ⟨opens.2, closes.2⟩)

/-- Behind an opening brace there is a name up to the closing one, and it has an argument. -/
theorem of_hole {name : String} (bare : Bare name.toList) {text filled : List Char}
    (h : Filling args ('\x7b' :: (name.toList ++ '\x7d' :: text)) filled) :
    ∃ value rest, args.lookup name = some value ∧ filled = value.toList ++ rest
      ∧ Filling args text rest := by
  generalize whole : '\x7b' :: (name.toList ++ '\x7d' :: text) = cs at h
  cases h with
  | done => cases whole
  | copied opens _ _ => exact absurd (List.cons.inj whole).1.symm opens
  -- neither name holds a closing brace, so both end at the same one
  | @hole name' value text' filled' bare' given next =>
      obtain ⟨names, rfl⟩ := append_inj_at_first bare.2 bare'.2 (List.cons.inj whole).2
      cases String.toList_inj.mp names
      exact ⟨value, filled', given, rfl, next⟩

/-- There is one way to fill a text. -/
theorem unique {text filled filled' : List Char} (h : Filling args text filled)
    (h' : Filling args text filled') : filled = filled' := by
  -- on the first way; the first character tells which step the second one takes
  induction h generalizing filled' with
  | done =>
      cases h'
      rfl
  | copied opens _ _ ih =>
      cases h' with
      | copied _ _ next => rw [ih next]
      | hole => exact absurd rfl opens
  | hole bare given _ ih =>
      obtain ⟨value', rest, given', rfl, next⟩ := of_hole bare h'
      cases given.symm.trans given'
      rw [ih next]

end Filling

/-! ## Names that a text shows -/

theorem not_names_nil (name : String) : ¬ Names [] name := by
  rintro ⟨-, front, back, whole⟩
  cases front <;> cases whole

/-- A name in braces stands behind everything that has no opening brace. -/
theorem names_append {cs : List Char} (opens : '\x7b' ∉ cs) (text : List Char) (name : String) :
    Names (cs ++ text) name ↔ Names text name := by
  refine and_congr_right fun _ => ?_
  constructor
  · rintro ⟨front, back, whole⟩
    -- the opening brace of the name cannot stand in the part that has none
    rcases List.append_eq_append_iff.mp whole with ⟨mid, rfl, rest⟩ | ⟨mid, rfl, rest⟩
    · exact ⟨mid, back, rest⟩
    · cases mid with
      | nil => exact ⟨[], back, rest.symm⟩
      | cons c mid =>
          cases (List.cons.inj rest).1
          exact absurd (List.mem_append_right _ List.mem_cons_self) opens
  · rintro ⟨front, back, rfl⟩
    exact ⟨cs ++ front, back, (List.append_assoc cs front _).symm⟩

/-- A text that begins with a name in braces shows this name and those behind it. -/
theorem names_hole {own : String} (bare : Bare own.toList) (text : List Char) (name : String) :
    Names ('\x7b' :: (own.toList ++ '\x7d' :: text)) name ↔ name = own ∨ Names text name := by
  have opens : '\x7b' ∉ own.toList ++ ['\x7d'] := by
    rw [List.mem_append, not_or]
    exact ⟨bare.1, by decide⟩
  have behind := names_append opens text name
  rw [List.append_assoc, List.singleton_append] at behind
  constructor
  · rintro ⟨bare', front, back, whole⟩
    cases front with
    | nil =>
        have same := append_inj_at_first bare.2 bare'.2 (List.cons.inj whole).2
        exact Or.inl (String.toList_inj.mp same.1.symm)
    | cons c front => exact Or.inr (behind.mp ⟨bare', front, back, (List.cons.inj whole).2⟩)
  · rintro (rfl | later)
    · exact ⟨bare, [], text, rfl⟩
    · obtain ⟨bare', front, back, same⟩ := behind.mpr later
      exact ⟨bare', '\x7b' :: front, back, congrArg _ same⟩

/-! ## Templates whose text can be read -/

/-- The fixed text of a part, or the name of the hole. -/
def Part.word : Part → String
  | .text s => s
  | .hole name => name

/-- Only the braces around names are braces. -/
def Readable (t : Template) : Prop := ∀ part ∈ t, Bare part.word.toList

instance (t : Template) : Decidable t.Readable :=
  inferInstanceAs (Decidable (∀ part ∈ t, _))

theorem raw_text (s : String) (t : Template) :
    raw (.text s :: t) = s ++ raw t := String.join_cons

theorem toList_raw_hole (name : String) (t : Template) :
    (raw (.hole name :: t)).toList = '\x7b' :: (name.toList ++ '\x7d' :: t.raw.toList) := by
  simp [raw, Part.raw]

theorem fill_cons (part : Part) (t : Template) (args : Arguments) :
    fill (part :: t) args = part.fill args ++ t.fill args := String.join_cons

/-- A template shows its holes and no other names. -/
theorem names_raw {t : Template} (readable : t.Readable) (name : String) :
    Names t.raw.toList name ↔ .hole name ∈ t := by
  induction t with
  | nil => exact iff_of_false (not_names_nil name) List.not_mem_nil
  | cons part t ih =>
      obtain ⟨bare, rest⟩ := List.forall_mem_cons.mp readable
      rw [List.mem_cons, ← ih rest]
      cases part with
      | text s =>
          have opens : '\x7b' ∉ s.toList := bare.1
          rw [raw_text, String.toList_append, names_append opens]
          exact ⟨Or.inr, fun h => h.resolve_left nofun⟩
      | hole own =>
          have bare : Bare own.toList := bare
          rw [toList_raw_hole, names_hole bare, Part.hole.injEq]

/-- A template with an argument for every hole is its text filled. -/
theorem filling_fill {t : Template} (readable : t.Readable)
    (given : ∀ name, .hole name ∈ t → args.lookup name ≠ none) :
    Filling args t.raw.toList (t.fill args).toList := by
  induction t with
  | nil => exact .done
  | cons part t ih =>
      obtain ⟨bare, rest⟩ := List.forall_mem_cons.mp readable
      have filled := ih rest fun name mem => given name (List.mem_cons_of_mem part mem)
      rw [fill_cons, String.toList_append]
      cases part with
      | text s =>
          rw [raw_text, String.toList_append]
          exact .behind bare filled
      | hole name =>
          obtain ⟨value, found⟩ := Option.ne_none_iff_exists'.mp (given name List.mem_cons_self)
          rw [toList_raw_hole, Part.fill, found]
          exact .hole bare found filled

/-! ## Messages -/

/-- No hole is unfilled exactly if every hole has an argument. -/
theorem unfilled?_eq_none_iff {t : Template} :
    t.unfilled? args = none ↔ ∀ name, .hole name ∈ t → args.lookup name ≠ none := by
  rw [unfilled?, List.findSome?_eq_none_iff]
  constructor
  · intro none name mem missing
    have unfilled := none _ mem
    rw [Part.unfilled?, missing] at unfilled
    cases unfilled
  · intro given part mem
    cases part with
    | text s => rfl
    | hole name => exact if_pos (Option.isSome_iff_ne_none.mpr (given name mem))

/-- With an argument for every name that it shows, a template is formatted by filling its text. -/
theorem filling_format {t : Template} (readable : t.Readable)
    (given : ∀ name, Names t.raw.toList name → args.lookup name ≠ none) :
    Filling args t.raw.toList (t.format args).toList := by
  have all : ∀ name, .hole name ∈ t → args.lookup name ≠ none :=
    fun name mem => given name ((names_raw readable name).mpr mem)
  rw [format, unfilled?_eq_none_iff.mpr all]
  exact filling_fill readable all

/-- Only the arguments for the holes of a template matter. -/
theorem format_congr {t : Template} {args' : Arguments}
    (same : ∀ name, .hole name ∈ t → args.lookup name = args'.lookup name) :
    t.format args = t.format args' := by
  have parts : ∀ part ∈ t, part.fill args = part.fill args'
      ∧ part.unfilled? args = part.unfilled? args' := by
    intro part mem
    cases part with
    | text s => exact ⟨rfl, rfl⟩
    | hole name =>
        rw [Part.fill, Part.fill, Part.unfilled?, Part.unfilled?, same name mem]
        exact ⟨rfl, rfl⟩
  have fills : t.fill args = t.fill args' :=
    congrArg String.join (List.map_congr_left fun part mem => (parts part mem).1)
  have unfilled : t.unfilled? args = t.unfilled? args' := by
    have firsts := congrArg (List.findSome? id)
      (List.map_congr_left fun part mem => (parts part mem).2)
    rwa [List.findSome?_map, List.findSome?_map, Function.id_comp, Function.id_comp] at firsts
  rw [format, format, fills, unfilled]

/-- With an argument missing, a template is shown as it is. -/
theorem format_of_missing {t : Template} (readable : t.Readable) {name : String}
    (shown : Names t.raw.toList name) (missing : args.lookup name = none) :
    t.format args = t.raw := by
  have some : t.unfilled? args ≠ none := fun none =>
    unfilled?_eq_none_iff.mp none name ((names_raw readable name).mp shown) missing
  obtain ⟨first, found⟩ := Option.ne_none_iff_exists'.mp some
  rw [format, found]

end Template

end ScriptFront.Text

namespace ScriptFront.ErrorCode

/-- The wording of every code can be read. -/
theorem readable_template (code : ErrorCode) : code.template.Readable := by
  cases code <;> decide

end ScriptFront.ErrorCode
