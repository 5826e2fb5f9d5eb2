import ScriptFront.Proofs.Token.Lexemes

/-! # Longest lexemes — a munch goes as far as any lexeme of the text

    Which lexemes can begin at a character is decided by that character (`munch_of_digit` and its
    like).  Whatever lexeme the text begins with, the munch takes it or a longer one
    (`munch_extends`).  So what a munch takes is the longest lexeme there is (`longest_of_munch`),
    and of the longest lexeme it takes all and gives it its kind (`munch_of_longest`). -/

namespace ScriptFront

open Decimal (isDigit)
open Text (isBlank blankRanges)

/-! ## Classes of characters -/

theorem toNat_of_isDigit {c : Char} (h : isDigit c = true) : 48 ≤ c.toNat ∧ c.toNat ≤ 57 := by
  simp only [isDigit, Bool.and_eq_true, decide_eq_true_eq] at h
  exact h

theorem toNat_of_isLetter {c : Char} (h : isLetter c = true) : 65 ≤ c.toNat ∧ c.toNat ≤ 122 := by
  simp only [isLetter, Bool.or_eq_true, Bool.and_eq_true, decide_eq_true_eq] at h
  rcases h with (rfl | ⟨low, high⟩) | ⟨low, high⟩
  · decide
  · have low' : 97 ≤ c.toNat := low
    have high' : c.toNat ≤ 122 := high
    omega
  · have low' : 65 ≤ c.toNat := low
    have high' : c.toNat ≤ 90 := high
    omega

theorem toNat_of_isBlank {c : Char} (h : isBlank c = true) : c.toNat ≤ 32 ∨ 133 ≤ c.toNat := by
  obtain ⟨range, mem, within⟩ := List.any_eq_true.mp h
  simp only [Bool.and_eq_true, decide_eq_true_eq] at within
  have apart : ∀ r ∈ blankRanges, r.2 ≤ 32 ∨ 133 ≤ r.1 := by decide
  rcases apart range mem with before | behind
  · exact Or.inl (le_trans within.2 before)
  · exact Or.inr (le_trans behind within.1)

theorem isDigit_of_isLetter {c : Char} (h : isLetter c = true) : isDigit c = false := by
  refine Bool.eq_false_iff.mpr fun digit => ?_
  have := toNat_of_isLetter h
  have := toNat_of_isDigit digit
  omega

theorem isDigit_of_isBlank {c : Char} (h : isBlank c = true) : isDigit c = false := by
  refine Bool.eq_false_iff.mpr fun digit => ?_
  have := toNat_of_isBlank h
  have := toNat_of_isDigit digit
  omega

theorem isLetter_of_isBlank {c : Char} (h : isBlank c = true) : isLetter c = false := by
  refine Bool.eq_false_iff.mpr fun letter => ?_
  have := toNat_of_isBlank h
  have := toNat_of_isLetter letter
  omega

/-! ## The first character decides -/

/-- A table without characters of a class has no entry for a character of the class. -/
theorem lookup_of_apart {β : Type} {table : List (Char × β)} {P : Char → Bool} {c : Char}
    (apart : ∀ e ∈ table, P e.1 = false) (h : P c = true) : table.lookup c = none := by
  refine List.lookup_eq_none_iff.mpr fun e mem => bne_iff_ne.mpr ?_
  rintro rfl
  exact Bool.false_ne_true ((apart e mem).symm.trans h)

/-- Where no sign and no string begins, the class of the character decides. -/
theorem munch_of_apart {P : Char → Bool} {c : Char}
    (tables : (∀ e ∈ punctuation, P e.1 = false) ∧ ∀ e ∈ operators, P e.1 = false)
    (marks : P '/' = false ∧ P '"' = false) (h : P c = true) (cs : List Char) :
    munch c cs =
      if isDigit c then .number cs
      else if isLetter c then .word c cs
      else if isBlank c then ⟨.blank, [], cs⟩
      else ⟨.unexpected, [], cs⟩ := by
  have slash : c ≠ '/' := by
    rintro rfl
    exact Bool.false_ne_true (marks.1.symm.trans h)
  have quote : c ≠ '"' := by
    rintro rfl
    exact Bool.false_ne_true (marks.2.symm.trans h)
  rw [munch, lookup_of_apart tables.1 h, lookup_of_apart tables.2 h]
  show (if c = '/' then _ else if c = '"' then _ else _) = _
  rw [if_neg slash, if_neg quote]

theorem munch_of_punctuation {c : Char} {k : TokenKind} (h : (c, k) ∈ punctuation)
    (cs : List Char) : munch c cs = .one k cs := by
  have found : ∀ e ∈ punctuation, punctuation.lookup e.1 = some e.2 := by decide
  rw [munch, found _ h]

theorem munch_of_operator {c : Char} {single : TokenKind} {doubles : List (Char × TokenKind)}
    (h : (c, single, doubles) ∈ operators) (cs : List Char) :
    munch c cs = .operator single doubles cs := by
  have found : ∀ e ∈ operators,
      punctuation.lookup e.1 = none ∧ operators.lookup e.1 = some e.2 := by
    decide
  rw [munch, (found _ h).1, (found _ h).2]

theorem munch_of_digit {c : Char} (h : isDigit c = true) (cs : List Char) :
    munch c cs = .number cs := by
  rw [munch_of_apart (by decide) (by decide) h, if_pos h]

theorem munch_of_letter {c : Char} (h : isLetter c = true) (cs : List Char) :
    munch c cs = .word c cs := by
  have digit : ¬ isDigit c = true := Bool.eq_false_iff.mp (isDigit_of_isLetter h)
  rw [munch_of_apart (by decide) (by decide) h, if_neg digit, if_pos h]

theorem munch_of_blank {c : Char} (h : isBlank c = true) (cs : List Char) :
    munch c cs = ⟨.blank, [], cs⟩ := by
  have digit : ¬ isDigit c = true := Bool.eq_false_iff.mp (isDigit_of_isBlank h)
  have letter : ¬ isLetter c = true := Bool.eq_false_iff.mp (isLetter_of_isBlank h)
  rw [munch_of_apart (by decide) (by decide) h, if_neg digit, if_neg letter, if_pos h]

/-! ## Going on -/

/-- A munch takes a lexeme whose characters behind the first go on from `tail`; if they are no
    more than that, it is of the kind `k`. -/
def Munch.Extends (m : Munch) (k : TokenKind) (tail : List Char) : Prop :=
  ∃ kind more, m.piece = .lexeme kind ∧ m.tail = tail ++ more ∧ (more = [] → kind = k)

namespace Munch

theorem one_extends (k : TokenKind) (cs : List Char) : (Munch.one k cs).Extends k [] :=
  ⟨k, [], rfl, rfl, fun _ => rfl⟩

theorem operator_extends (single : TokenKind) (doubles : List (Char × TokenKind))
    (cs : List Char) : (Munch.operator single doubles cs).Extends single [] := by
  cases cs with
  | nil => exact one_extends single []
  | cons d rest =>
      rw [Munch.operator]
      split
      · rename_i kind _
        exact ⟨kind, [d], rfl, rfl, fun none => absurd none (List.cons_ne_nil d [])⟩
      · exact one_extends single (d :: rest)

theorem operator_extends_double {doubles : List (Char × TokenKind)} {d : Char} {k : TokenKind}
    (h : doubles.lookup d = some k) (single : TokenKind) (rest : List Char) :
    (Munch.operator single doubles (d :: rest)).Extends k [d] := by
  simp only [Munch.operator, h]
  exact ⟨k, [], rfl, rfl, fun _ => rfl⟩

theorem slash_extends (cs : List Char) : (Munch.slash cs).Extends .slash [] := by
  unfold Munch.slash
  split
  · rename_i rest
    exact ⟨.comment, _, rfl, rfl, fun none => absurd none (List.cons_ne_nil '/' _)⟩
  · exact one_extends .slash _

theorem slash_extends_comment {cs : List Char} (line : '\n' ∉ cs) (rest : List Char) :
    (Munch.slash ('/' :: (cs ++ rest))).Extends .comment ('/' :: cs) := by
  have goesOn : (cs ++ rest).takeWhile (· != '\n') = cs ++ rest.takeWhile (· != '\n') := by
    refine List.takeWhile_append_of_pos fun c mem => bne_iff_ne.mpr ?_
    rintro rfl
    exact line mem
  refine ⟨.comment, rest.takeWhile (· != '\n'), rfl, ?_, fun _ => rfl⟩
  show '/' :: (cs ++ rest).takeWhile (· != '\n') = _
  rw [goesOn, List.cons_append]

theorem quoted_extends {cs : List Char} (inner : '"' ∉ cs) (rest : List Char) :
    (Munch.quoted (cs ++ '"' :: rest)).Extends .string (cs ++ ['"']) := by
  have noQuote : ∀ c ∈ cs, (c != '"') = true := by
    intro c mem
    refine bne_iff_ne.mpr ?_
    rintro rfl
    exact inner mem
  have stops : (cs ++ '"' :: rest).dropWhile (· != '"') = '"' :: rest :=
    List.dropWhile_append_of_pos noQuote
  have taken : (cs ++ '"' :: rest).takeWhile (· != '"') = cs := by
    rw [List.takeWhile_append_of_pos noQuote]
    exact List.append_nil cs
  refine ⟨.string, [], ?_, ?_, fun _ => rfl⟩
  · rw [Munch.quoted, stops]
  · rw [Munch.quoted, stops, taken, List.append_nil]

theorem number_extends {ds : List Char} (digits : ∀ d ∈ ds, isDigit d = true)
    (rest : List Char) : (Munch.number (ds ++ rest)).Extends .number ds := by
  have goesOn : (ds ++ rest).takeWhile isDigit = ds ++ rest.takeWhile isDigit :=
    List.takeWhile_append_of_pos digits
  unfold Munch.number
  split
  · rename_i d after _
    by_cases digit : isDigit d = true
    · rw [if_pos digit]
      refine ⟨.number, rest.takeWhile isDigit ++ '.' :: d :: after.takeWhile isDigit, rfl, ?_,
        fun _ => rfl⟩
      show (ds ++ rest).takeWhile isDigit ++ _ = _
      rw [goesOn, List.append_assoc]
    · rw [if_neg digit]
      exact ⟨.number, rest.takeWhile isDigit, rfl, goesOn, fun _ => rfl⟩
  · exact ⟨.number, rest.takeWhile isDigit, rfl, goesOn, fun _ => rfl⟩

theorem number_extends_fraction {ds es : List Char} (digits : ∀ d ∈ ds, isDigit d = true)
    (more : es ≠ []) (moreDigits : ∀ e ∈ es, isDigit e = true) (rest : List Char) :
    (Munch.number (ds ++ '.' :: (es ++ rest))).Extends .number (ds ++ '.' :: es) := by
  obtain ⟨e, es, rfl⟩ := List.exists_cons_of_ne_nil more
  obtain ⟨digit, others⟩ := List.forall_mem_cons.mp moreDigits
  -- the point ends the first digits
  have stops : (ds ++ '.' :: e :: (es ++ rest)).dropWhile isDigit = '.' :: e :: (es ++ rest) :=
    List.dropWhile_append_of_pos digits
  have taken : (ds ++ '.' :: e :: (es ++ rest)).takeWhile isDigit = ds := by
    rw [List.takeWhile_append_of_pos digits]
    exact List.append_nil ds
  have goesOn : (es ++ rest).takeWhile isDigit = es ++ rest.takeWhile isDigit :=
    List.takeWhile_append_of_pos others
  refine ⟨.number, rest.takeWhile isDigit, ?_, ?_, fun _ => rfl⟩
  · simp only [Munch.number, List.cons_append, stops, if_pos digit]
  · simp only [Munch.number, List.cons_append, stops, if_pos digit, taken, goesOn,
      List.append_assoc]

theorem word_extends {c : Char} {cs : List Char} {k : TokenKind}
    (word : ∀ d ∈ cs, isWordChar d = true)
    (kind : (TokenKind.ofWord? (String.ofList (c :: cs))).getD .identifier = k)
    (rest : List Char) : (Munch.word c (cs ++ rest)).Extends k cs := by
  have goesOn : (cs ++ rest).takeWhile isWordChar = cs ++ rest.takeWhile isWordChar :=
    List.takeWhile_append_of_pos word
  refine ⟨_, rest.takeWhile isWordChar, rfl, goesOn, fun none => ?_⟩
  show (TokenKind.ofWord? (String.ofList (c :: (cs ++ rest).takeWhile isWordChar))).getD _ = k
  rw [goesOn, none, List.append_nil]
  exact kind

end Munch

/-! ## The longest lexeme -/

/-- A reserved word is a letter and word characters, and is found in its table. -/
theorem word_of_reserved {c : Char} {cs : List Char} {k : TokenKind}
    (h : (String.ofList (c :: cs), k) ∈ TokenKind.reserved) :
    isLetter c = true ∧ (∀ d ∈ cs, isWordChar d = true)
      ∧ TokenKind.ofWord? (String.ofList (c :: cs)) = some k := by
  have words : ∀ e ∈ TokenKind.reserved, e.1.toList.head?.all isLetter = true
      ∧ e.1.toList.all isWordChar = true ∧ TokenKind.ofWord? e.1 = some e.2 := by decide
  obtain ⟨first, all, found⟩ := words _ h
  rw [String.toList_ofList] at first all
  have word := List.all_eq_true.mp all
  exact ⟨first, fun d mem => word d (List.mem_cons_of_mem c mem), found⟩

/-- Where a text begins with a sign, the munch takes the sign or a longer lexeme. -/
theorem munch_extends_sign {c : Char} {cs : List Char} {k : TokenKind}
    (h : (c :: cs, k) ∈ signs) (rest : List Char) : (munch c (cs ++ rest)).Extends k cs := by
  rcases List.mem_append.mp h with first | operator
  · rcases List.mem_cons.mp first with slash | mark
    · cases slash
      exact Munch.slash_extends rest
    · obtain ⟨⟨d, kind⟩, mem, same⟩ := List.mem_map.mp mark
      cases same
      rw [munch_of_punctuation mem]
      exact Munch.one_extends k rest
  · obtain ⟨⟨d, single, doubles⟩, mem, spelled⟩ := List.mem_flatMap.mp operator
    rcases List.mem_cons.mp spelled with alone | double
    · cases alone
      rw [munch_of_operator mem]
      exact Munch.operator_extends k doubles rest
    · obtain ⟨⟨e, kind⟩, mem', same⟩ := List.mem_map.mp double
      cases same
      have found : ∀ o ∈ operators, ∀ e ∈ o.2.2, o.2.2.lookup e.1 = some e.2 := by decide
      rw [munch_of_operator mem]
      exact Munch.operator_extends_double (found _ mem _ mem') single rest

/-- Where a text begins with a lexeme, the munch takes that lexeme or a longer one. -/
theorem munch_extends {c : Char} {cs : List Char} {k : TokenKind} (h : Lexeme k (c :: cs))
    (rest : List Char) : (munch c (cs ++ rest)).Extends k cs := by
  generalize spelled : c :: cs = w at h
  cases h with
  | sign mem =>
      subst spelled
      exact munch_extends_sign mem rest
  | comment line =>
      cases spelled
      exact Munch.slash_extends_comment line rest
  | string inner =>
      cases spelled
      rw [List.append_assoc]
      exact Munch.quoted_extends inner rest
  | whole some digits =>
      subst spelled
      obtain ⟨first, others⟩ := List.forall_mem_cons.mp digits
      rw [munch_of_digit first]
      exact Munch.number_extends others rest
  | @fraction ds es some digits more moreDigits =>
      obtain ⟨d, ds, rfl⟩ := List.exists_cons_of_ne_nil some
      rw [List.cons_append] at spelled
      obtain ⟨rfl, rfl⟩ := List.cons.inj spelled
      obtain ⟨first, others⟩ := List.forall_mem_cons.mp digits
      rw [munch_of_digit first, List.append_assoc]
      exact Munch.number_extends_fraction others more moreDigits rest
  | reserved mem =>
      subst spelled
      obtain ⟨letter, word, found⟩ := word_of_reserved mem
      rw [munch_of_letter letter]
      exact Munch.word_extends word (by rw [found]; rfl) rest
  | identifier letter word free =>
      cases spelled
      rw [munch_of_letter letter]
      exact Munch.word_extends word (by rw [free]; rfl) rest

/-- Every lexeme has a first character. -/
theorem Lexeme.exists_cons {k : TokenKind} {w : List Char} (h : Lexeme k w) :
    ∃ c cs, w = c :: cs := by
  refine List.exists_cons_of_ne_nil ?_
  cases h with
  | sign mem =>
      have some : ∀ e ∈ signs, e.1 ≠ [] := by decide
      exact some _ mem
  | comment => exact List.cons_ne_nil _ _
  | string => exact List.cons_ne_nil _ _
  | whole some => exact some
  | fraction some => exact List.append_ne_nil_of_left_ne_nil some _
  | reserved mem =>
      have some : ∀ e ∈ TokenKind.reserved, e.1.toList ≠ [] := by decide
      have spelled := some _ mem
      rwa [String.toList_ofList] at spelled
  | identifier => exact List.cons_ne_nil _ _

/-- No lexeme is of the kind of the end of a text. -/
theorem Lexeme.kind_ne_eof {k : TokenKind} {w : List Char} (h : Lexeme k w) : k ≠ .eof := by
  cases h with
  | sign mem =>
      have none : ∀ e ∈ signs, e.2 ≠ .eof := by decide
      exact none _ mem
  | reserved mem =>
      have none : ∀ e ∈ TokenKind.reserved, e.2 ≠ .eof := by decide
      exact none _ mem
  | _ => nofun

/-- A lexeme is the longest of those that its text begins with; `rest` is the text behind it. -/
def Lexeme.Longest (k : TokenKind) (w rest : List Char) : Prop :=
  Lexeme k w ∧ ∀ k' w', Lexeme k' w' → w' <+: w ++ rest → w'.length ≤ w.length

/-- What a munch takes as a lexeme is the longest one. -/
theorem longest_of_munch {c : Char} {cs : List Char} {k : TokenKind}
    (piece : (munch c cs).piece = .lexeme k) :
    Lexeme.Longest k (c :: (munch c cs).tail) (munch c cs).rest := by
  refine ⟨munch_allowed_of_piece piece, fun k' w' lexeme begins => ?_⟩
  rw [List.cons_append, munch_append] at begins
  obtain ⟨rest', spelled⟩ := begins
  obtain ⟨d, ds, rfl⟩ := lexeme.exists_cons
  rw [List.cons_append] at spelled
  obtain ⟨rfl, rfl⟩ := List.cons.inj spelled
  obtain ⟨kind, more, -, tail, -⟩ := munch_extends lexeme rest'
  rw [tail, List.length_cons, List.length_cons, List.length_append]
  omega

/-- The longest lexeme is what a munch takes. -/
theorem munch_of_longest {k : TokenKind} {c : Char} {cs rest : List Char}
    (h : Lexeme.Longest k (c :: cs) rest) : munch c (cs ++ rest) = ⟨.lexeme k, cs, rest⟩ := by
  obtain ⟨kind, more, piece, tail, same⟩ := munch_extends h.1 rest
  have whole := munch_append c (cs ++ rest)
  have taken : Lexeme kind _ := munch_allowed_of_piece piece
  -- nothing longer begins there, so the munch takes no more
  have begins : c :: (munch c (cs ++ rest)).tail <+: c :: cs ++ rest :=
    ⟨(munch c (cs ++ rest)).rest, by rw [List.cons_append, whole, List.cons_append]⟩
  have short := h.2 kind _ taken begins
  have none : more = [] := by
    rw [tail, List.length_cons, List.length_cons, List.length_append] at short
    exact List.length_eq_zero_iff.mp (by omega)
  rw [tail, none, List.append_nil] at whole
  have left : (munch c (cs ++ rest)).rest = rest := List.append_cancel_left whole
  rw [same none] at piece
  rw [none, List.append_nil] at tail
  cases hm : munch c (cs ++ rest) with
  | mk piece' tail' rest' =>
      rw [hm] at piece tail left
      rw [show piece' = _ from piece, show tail' = _ from tail, show rest' = _ from left]

end ScriptFront
