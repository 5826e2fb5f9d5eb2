import ScriptFront.Proofs.Token.MaximalMunch

/-! # Offsets — every place is that of an offset of the text

    The scanner counts lines and columns as it goes on.  What it has counted is what the text in
    front gives at once: a line more than this has newlines, and a column more than it has
    characters behind the last of them (`after_eq_placeBehind`).  So each token, and each problem,
    stands at the place of the offset at which it starts, and the places of a scan increase
    (`positions_are_those_of_the_text`). -/

namespace ScriptFront

open Text (isBlank)

/-! ## Places of offsets -/

/-- The place behind some text that begins at the origin. -/
def placeBehind (front : List Char) : Position where
  line := 1 + front.count '\n'
  column := 1 + (front.reverse.takeWhile (· ≠ '\n')).length

/-- The place of an offset of a text. -/
def placeAt (text : List Char) (offset : Nat) : Position := placeBehind (text.take offset)

/-- The place that is counted is the place that the text gives. -/
theorem after_eq_placeBehind (front : List Char) :
    Position.origin.after front = placeBehind front := by
  induction front using List.reverseRecOn with
  | nil => rfl
  | append_singleton front c ih =>
      rw [Position.after_append, ih, Position.after_cons, Position.after_nil, Position.advance,
        placeBehind, placeBehind, List.count_append, List.reverse_append, List.reverse_singleton,
        List.singleton_append]
      by_cases newline : c = '\n'
      · rw [if_pos newline, newline, List.takeWhile_cons_of_neg (by decide)]
        simp [Int.add_assoc]
      · rw [if_neg newline, List.takeWhile_cons_of_pos (by simpa using newline)]
        simp [newline, Int.add_comm]

/-- A place that is reached is that of the offset of the rest. -/
theorem Position.Reaches.eq_placeAt {q : Position} {text rest : List Char}
    (h : origin.Reaches text q rest) :
    ∃ o ≤ text.length, text.drop o = rest ∧ q = placeAt text o := by
  obtain ⟨front, rfl, rfl⟩ := h
  refine ⟨front.length, ?_, List.drop_left, ?_⟩
  · rw [List.length_append]
    omega
  · rw [placeAt, List.take_left, after_eq_placeBehind]

/-! ## The order of places -/

namespace Position

/-- Places are ordered by their lines, and on one line by their columns. -/
instance : LT Position := ⟨fun p q => p.line < q.line ∨ p.line = q.line ∧ p.column < q.column⟩

theorem lt_iff {p q : Position} :
    p < q ↔ p.line < q.line ∨ p.line = q.line ∧ p.column < q.column := Iff.rfl

instance (p q : Position) : Decidable (p < q) := decidable_of_iff' _ lt_iff

protected theorem lt_trans {p q r : Position} (h : p < q) (h' : q < r) : p < r := by
  rw [lt_iff] at *
  omega

theorem lt_advance (p : Position) (c : Char) : p < p.advance c := by
  rw [lt_iff, advance]
  split
  · exact Or.inl (Int.lt_succ p.line)
  · exact Or.inr ⟨rfl, Int.lt_succ p.column⟩

/-- Behind some text the place is a later one. -/
theorem lt_after {p : Position} {cs : List Char} (some : cs ≠ []) : p < p.after cs := by
  induction cs generalizing p with
  | nil => exact absurd rfl some
  | cons c cs ih =>
      cases cs with
      | nil => exact p.lt_advance c
      | cons d ds => exact Position.lt_trans (p.lt_advance c) (ih (List.cons_ne_nil d ds))

/-- Behind some text, which may be empty, the place is no earlier one. -/
theorem lt_after_of_lt {p q : Position} (h : p < q) (cs : List Char) : p < q.after cs := by
  cases cs with
  | nil => exact h
  | cons c cs => exact Position.lt_trans h (lt_after (List.cons_ne_nil c cs))

end Position

/-! ## Where a token starts -/

/-- No lexeme begins with a blank. -/
theorem Lexeme.not_blank {k : TokenKind} {c : Char} {cs : List Char} (h : Lexeme k (c :: cs)) :
    isBlank c = false := by
  refine Bool.eq_false_iff.mpr fun blank => ?_
  obtain ⟨kind, _, piece, -⟩ := munch_extends h []
  rw [munch_of_blank blank] at piece
  cases piece

/-- A text does not begin with a blank. -/
def Sharp (text : List Char) : Prop := ∀ c ∈ text.head?, isBlank c = false

/-- A token starts at an offset of a text, behind the tokens `done`: in front of the offset are
    blanks and these tokens, each the longest lexeme in its place, and from there on the text goes
    on with the lexeme of the token and not with a blank. -/
def Token.StartsAt (t : Token) (text : List Char) (done : List Token) (offset : Nat) : Prop :=
  offset ≤ text.length ∧ Sharp (text.drop offset) ∧ t.lexeme.toList <+: text.drop offset
  ∧ ∃ q, Munched .origin text done q (text.drop offset)

namespace Munched

variable {p q : Position} {text rest : List Char} {ts : List Token}

/-- A reading reaches the place where it ends. -/
theorem reaches (h : Munched p text ts q rest) : p.Reaches text q rest := by
  induction h with
  | done p rest => exact .refl p rest
  | @blank p q c cs rest ts _ _ ih => exact ih.behind [c]
  | @lexeme p q k w cs rest v ts _ _ _ ih => exact ih.behind w

/-- A reading up to no blank leaves no blank in front of it. -/
theorem of_blank {c : Char} {cs : List Char} (blank : isBlank c = true)
    (h : Munched p (c :: cs) ts q rest) (sharp : Sharp rest) :
    Munched (p.advance c) cs ts q rest := by
  generalize spelled : c :: cs = text at h
  cases h with
  | done =>
      subst spelled
      exact nomatch blank.symm.trans (sharp c rfl)
  | blank _ next =>
      cases spelled
      exact next
  | lexeme longest =>
      obtain ⟨d, ds, rfl⟩ := longest.1.exists_cons
      cases spelled
      exact nomatch blank.symm.trans longest.1.not_blank

/-- A reading goes on behind its first token. -/
theorem of_lexeme {k : TokenKind} {w cs : List Char} (lexeme : Lexeme k w) {t : Token}
    (spelled : t.lexeme = String.ofList w) (h : Munched p (w ++ cs) (t :: ts) q rest) :
    Munched (p.after w) cs ts q rest := by
  generalize whole : w ++ cs = text at h
  cases h with
  | blank blank =>
      obtain ⟨c, tail, rfl⟩ := lexeme.exists_cons
      cases whole
      exact nomatch blank.symm.trans lexeme.not_blank
  | lexeme _ _ next =>
      cases String.ofList_inj.mp spelled
      cases List.append_cancel_left whole
      exact next

/-- Behind given tokens there is one offset only that is not at a blank. -/
theorem rest_unique (h : Munched p text ts q rest) (sharp : Sharp rest) {q' : Position}
    {rest' : List Char} (h' : Munched p text ts q' rest') (sharp' : Sharp rest') :
    rest' = rest := by
  induction h with
  | done p rest =>
      cases h' with
      | done => rfl
      | blank blank => exact nomatch blank.symm.trans (sharp _ rfl)
  | blank blank _ ih => exact ih sharp (h'.of_blank blank sharp')
  | lexeme longest _ _ ih => exact ih sharp (h'.of_lexeme longest.1 rfl)

/-- In front of each of its tokens a reading to the end has come to the place of the token; only
    the end token has nothing behind it. -/
theorem exists_start (h : Munched p text ts q rest) (ends : rest = []) {done more : List Token}
    {t : Token} (split : ts ++ [.endAt q] = done ++ t :: more) :
    ∃ left, Munched p text done t.position left ∧ Sharp left ∧ t.lexeme.toList <+: left
      ∧ (t.kind = .eof → left = []) := by
  induction h generalizing done with
  | done p rest =>
      subst ends
      cases done with
      | nil =>
          cases split
          exact ⟨[], .done p [], nofun, List.prefix_refl [], fun _ => rfl⟩
      | cons first done => exact absurd (congrArg List.length split) (by simp)
  | blank blank _ ih =>
      obtain ⟨left, read, starts⟩ := ih ends split
      exact ⟨left, .blank blank read, starts⟩
  | @lexeme p q k w cs rest v ts longest value _ ih =>
      cases done with
      | nil =>
          cases split
          refine ⟨w ++ cs, .done p _, ?_, ?_, fun eof => absurd eof longest.1.kind_ne_eof⟩
          · obtain ⟨c, tail, rfl⟩ := longest.1.exists_cons
            rintro _ ⟨⟩
            exact longest.1.not_blank
          · rw [String.toList_ofList]
            exact List.prefix_append w cs
      | cons first done =>
          rw [List.cons_append, List.cons_append, List.cons.injEq] at split
          obtain ⟨rfl, split⟩ := split
          obtain ⟨left, read, starts⟩ := ih ends split
          exact ⟨left, .lexeme longest value read, starts⟩

/-- What is read from a place on stands behind every earlier place. -/
theorem lt_of_mem (h : Munched p text ts q rest) {before : Position} (lt : before < p) :
    ∀ t ∈ ts ++ [.endAt q], before < t.position := by
  induction h with
  | done => exact List.forall_mem_singleton.mpr lt
  | @blank p q c cs rest ts _ _ ih => exact ih (Position.lt_trans lt (p.lt_advance c))
  | @lexeme p q k w cs rest v ts _ _ _ ih =>
      exact List.forall_mem_cons.mpr ⟨lt, ih (Position.lt_after_of_lt lt w)⟩

/-- The places of the tokens increase up to the place where the reading ends. -/
theorem increasing (h : Munched p text ts q rest) :
    (ts ++ [Token.endAt q]).Pairwise fun a b => a.position < b.position := by
  induction h with
  | done => exact List.pairwise_singleton _ _
  | blank _ _ ih => exact ih
  | lexeme longest _ next ih =>
      obtain ⟨c, tail, rfl⟩ := longest.1.exists_cons
      refine List.pairwise_cons.mpr ⟨next.lt_of_mem ?_, ih⟩
      exact Position.lt_after (List.cons_ne_nil c tail)

end Munched

/-- The offset at which a token starts, if what is in front of the token is read up to it. -/
theorem exists_offset {text rest : List Char} {done : List Token} {t : Token}
    (read : Munched .origin text done t.position rest) (sharp : Sharp rest)
    (begins : t.lexeme.toList <+: rest) :
    ∃ o, (∀ o', t.StartsAt text done o' ↔ o' = o) ∧ text.drop o = rest
      ∧ t.position = placeAt text o := by
  obtain ⟨o, le, rfl, place⟩ := read.reaches.eq_placeAt
  refine ⟨o, fun o' => ⟨?_, ?_⟩, rfl, place⟩
  · rintro ⟨le', sharp', -, q', read'⟩
    -- the rests are the same text, so they are of the same length
    have lengths := congrArg List.length (read.rest_unique sharp read' sharp')
    rw [List.length_drop, List.length_drop] at lengths
    omega
  · rintro rfl
    exact ⟨le, sharp, begins, _, read⟩

/-- A quote at which no lexeme begins has no second one behind it. -/
theorem Stuck.not_closed {cs : List Char} (h : Stuck '"' cs) : '"' ∉ cs := by
  intro mem
  obtain ⟨inner, rest, rfl, none⟩ := List.eq_append_cons_of_mem mem
  refine h.2 .string _ (.string none) ⟨rest, ?_⟩
  rw [List.cons_append, List.append_assoc, List.singleton_append]

/-! ## Scans -/

/-- The places of the tokens of a scan increase, that of the end token included. -/
theorem increasing_of_scan {source : String} {tokens : List Token}
    (ok : scan source = .ok tokens) : tokens.Pairwise fun a b => a.position < b.position := by
  rcases (scan_reads source).munched with ⟨ts, q, all, same⟩ | ⟨_, _, _, _, -, -, same⟩
  · cases ok.symm.trans same
    exact all.increasing
  · exact nomatch ok.symm.trans same

/-- Every token of a scan starts at one offset of the text, and its place is that of the offset: its
    line is one more than there are newlines in front of it, its column one more than there are
    characters behind the last of these.  The end token starts at the end of the text.  So the
    places of the tokens increase.

    A scan that fails has come to an offset at which no lexeme begins.  The problem stands at the
    place of this offset: it is the character there, or that character is a quote and there is no
    other behind it. -/
theorem positions_are_those_of_the_text (source : String) :
    (∀ tokens, scan source = .ok tokens →
      (∀ done t rest, tokens = done ++ t :: rest →
        ∃ o, (∀ o', t.StartsAt source.toList done o' ↔ o' = o)
          ∧ t.position = placeAt source.toList o
          ∧ (t.kind = .eof → o = source.toList.length))
      ∧ tokens.Pairwise fun a b => a.position < b.position)
    ∧ ∀ p, scan source = .error p →
      ∃ done q o c rest, Munched .origin source.toList done q (c :: rest) ∧ Stuck c rest
        ∧ source.toList.drop o = c :: rest
        ∧ (c ≠ '"' ∧ p = .ofCause (.unexpectedCharacter c.toString) (placeAt source.toList o)
          ∨ c = '"' ∧ '"' ∉ rest
            ∧ p = .ofCause .unterminatedString (placeAt source.toList o)) := by
  rcases (scan_reads source).munched with ⟨ts, q, all, same⟩ | ⟨ts, q, c, cs, part, stuck, same⟩
  · refine ⟨fun tokens ok => ?_, fun p failed => nomatch failed.symm.trans same⟩
    cases ok.symm.trans same
    refine ⟨fun done t rest split => ?_, increasing_of_scan same⟩
    obtain ⟨left, read, sharp, begins, atEnd⟩ := all.exists_start rfl split
    obtain ⟨o, only, rfl, place⟩ := exists_offset read sharp begins
    refine ⟨o, only, place, fun eof => ?_⟩
    have le := ((only o).mpr rfl).1
    have ge := List.drop_eq_nil_iff.mp (atEnd eof)
    omega
  · refine ⟨fun tokens ok => (nomatch ok.symm.trans same), fun p failed => ?_⟩
    cases failed.symm.trans same
    obtain ⟨o, -, rest, place⟩ := part.reaches.eq_placeAt
    refine ⟨ts, q, o, c, cs, part, stuck, rest, ?_⟩
    rw [← place, stuckProblem]
    by_cases quote : c = '"'
    · subst quote
      exact Or.inr ⟨rfl, stuck.not_closed, if_pos rfl⟩
    · exact Or.inl ⟨quote, if_neg quote⟩

/-- A name behind a string of two lines stands on the second of them; a string that is never closed
    is reported where it is opened. -/
theorem name_stands_behind_lines_of_string :
    let text : Token := ⟨.string, "\"a\nb\"", .text "a\nb", ⟨1, 1⟩⟩
    let name : Token := ⟨.identifier, "x", .null, ⟨2, 4⟩⟩
    let opened := Problem.ofCause .unterminatedString ⟨1, 3⟩
    scan "\"a\nb\" x" = .ok [text, name, .endAt ⟨2, 5⟩]
    ∧ (∃ o, (∀ o', name.StartsAt "\"a\nb\" x".toList [text] o' ↔ o' = o)
      ∧ (⟨2, 4⟩ : Position) = placeAt "\"a\nb\" x".toList o)
    ∧ text.position < name.position
    ∧ scan "x \"\n\n" = .error opened
    ∧ ∃ o, opened = .ofCause .unterminatedString (placeAt "x \"\n\n".toList o) := by
  intro text name opened
  have closed : scan "\"a\nb\" x" = .ok [text, name, .endAt ⟨2, 5⟩] := by decide +kernel
  have unclosed : scan "x \"\n\n" = .error opened := by decide +kernel
  obtain ⟨starts, increase⟩ := (positions_are_those_of_the_text _).1 _ closed
  obtain ⟨o, only, place, -⟩ := starts [text] name [.endAt ⟨2, 5⟩] rfl
  refine ⟨closed, ⟨o, only, place⟩, List.rel_of_pairwise_cons increase (by simp), unclosed, ?_⟩
  obtain ⟨_, _, o', c, _, -, -, -, cause⟩ := (positions_are_those_of_the_text _).2 _ unclosed
  rcases cause with ⟨-, other⟩ | ⟨-, -, same⟩
  · exact absurd (congrArg Problem.cause other) nofun
  · exact ⟨o', same⟩

end ScriptFront
