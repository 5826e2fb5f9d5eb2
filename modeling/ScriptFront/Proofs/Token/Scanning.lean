import ScriptFront.Proofs.Text.Places
import ScriptFront.Proofs.Token.Lexemes

/-! # Scanning — what a scan says about its text

    `Reads` says what becomes of a text, one munch after the other, and is all that is used of the
    scanner.  Every token of a scan is a lexeme of the text at its place, and the end token stands
    behind the text (`Reads.tokens`); a scan that fails does so at the first place where no lexeme
    begins (`Reads.problem`). -/

namespace ScriptFront

/-- What becomes of a text that is read from a place on. -/
inductive Reads : Position → List Char → Except Problem (List Token) → Prop
  | done (p : Position) : Reads p [] (.ok [.endAt p])
  | blank {p : Position} {c : Char} {cs : List Char} {result : Except Problem (List Token)}
      (piece : (munch c cs).piece = .blank)
      (next : Reads (p.after (c :: (munch c cs).tail)) (munch c cs).rest result) :
      Reads p (c :: cs) result
  | lexeme {p : Position} {c : Char} {cs : List Char} {result : Except Problem (List Token)}
      {k : TokenKind} (piece : (munch c cs).piece = .lexeme k)
      (next : Reads (p.after (c :: (munch c cs).tail)) (munch c cs).rest result) :
      Reads p (c :: cs) (result.map (Token.ofLexeme k (c :: (munch c cs).tail) p :: ·))
  | unexpected {p : Position} {c : Char} {cs : List Char}
      (piece : (munch c cs).piece = .unexpected) :
      Reads p (c :: cs) (.error (.ofCause (.unexpectedCharacter c.toString) p))
  | unterminated {p : Position} {c : Char} {cs : List Char}
      (piece : (munch c cs).piece = .unterminated) :
      Reads p (c :: cs) (.error (.ofCause .unterminatedString p))

namespace Scanner

theorem run_of_nil {s : Scanner} (h : s.unread = []) : s.run = (.ok [.endAt s.position], s) := by
  rw [run]
  split
  · rfl
  · rename_i c cs some
    cases h.symm.trans some

/-- One munch and what comes of it. -/
theorem run_of_cons {s : Scanner} {c : Char} {cs : List Char} (h : s.unread = c :: cs) :
    s.run = match (munch c cs).piece with
      | .blank => (s.take c (munch c cs)).run
      | .lexeme kind =>
          ((s.take c (munch c cs)).run.1.map ((s.take c (munch c cs)).token kind :: ·),
            (s.take c (munch c cs)).run.2)
      | .unexpected =>
          (.error ((s.take c (munch c cs)).problem (.unexpectedCharacter c.toString)),
            s.take c (munch c cs))
      | .unterminated =>
          (.error ((s.take c (munch c cs)).problem .unterminatedString),
            s.take c (munch c cs)) := by
  rw [run]
  split
  · rename_i none
    cases h.symm.trans none
  · rename_i d ds some
    cases h.symm.trans some
    rfl

/-- A scanner reads what is unread from its place on. -/
theorem run_reads (s : Scanner) : Reads s.position s.unread s.run.1 := by
  induction s using run.induct with
  | case1 s none =>
      rw [run_of_nil none, none]
      exact .done s.position
  | case2 s c cs some m s' _ piece ih =>
      rw [run_of_cons some, some]
      simp only [show (munch c cs).piece = .blank from piece]
      exact .blank piece ih
  | case3 s c cs some m s' _ k piece result last _ ih =>
      rw [run_of_cons some, some]
      simp only [show (munch c cs).piece = .lexeme k from piece]
      exact .lexeme piece ih
  | case4 s c cs some m _ piece =>
      rw [run_of_cons some, some]
      simp only [show (munch c cs).piece = .unexpected from piece]
      exact .unexpected piece
  | case5 s c cs some m _ piece =>
      rw [run_of_cons some, some]
      simp only [show (munch c cs).piece = .unterminated from piece]
      exact .unterminated piece

end Scanner

/-- A text is scanned by reading it from its first character on. -/
theorem scan_reads (source : String) : Reads .origin source.toList (scan source) :=
  Scanner.run_reads (Scanner.ofSource source).rewind

/-! ## Tokens and problems in their places -/

/-- A token is a lexeme of a text and stands where it says. -/
def Token.StandsIn (t : Token) (p : Position) (text : List Char) : Prop :=
  ∃ c cs, p.Reaches text t.position (c :: cs) ∧ (munch c cs).piece = .lexeme t.kind
    ∧ t = .ofLexeme t.kind (c :: (munch c cs).tail) t.position

/-- A problem is that no lexeme begins at its place, and says what begins there. -/
def Problem.StandsIn (q : Problem) (p : Position) (text : List Char) : Prop :=
  ∃ c cs place, p.Reaches text place (c :: cs)
    ∧ ((munch c cs).piece = .unexpected ∧ q = .ofCause (.unexpectedCharacter c.toString) place
      ∨ (munch c cs).piece = .unterminated ∧ q = .ofCause .unterminatedString place)

namespace Token.StandsIn

variable {t : Token} {p : Position} {text : List Char}

/-- A token that stands in a text is a lexeme of its kind. -/
theorem lexeme (h : t.StandsIn p text) : Lexeme t.kind t.lexeme.toList := by
  obtain ⟨c, cs, -, piece, same⟩ := h
  have allowed := munch_allowed c cs
  rw [Munch.Allowed, piece] at allowed
  rw [same]
  simpa [Token.ofLexeme] using allowed

/-- At the place of a token the text goes on with its lexeme. -/
theorem reaches (h : t.StandsIn p text) :
    ∃ rest, p.Reaches text t.position (t.lexeme.toList ++ rest) := by
  obtain ⟨c, cs, reaches, -, same⟩ := h
  refine ⟨(munch c cs).rest, ?_⟩
  have spelled : t.lexeme.toList = c :: (munch c cs).tail := by
    rw [same]
    simp [Token.ofLexeme]
  rwa [spelled, List.cons_append, munch_append]

end Token.StandsIn

/-- The rest of a text behind one munch. -/
theorem Position.Reaches.munched {p q : Position} {c : Char} {cs rest : List Char}
    (h : (p.after (c :: (munch c cs).tail)).Reaches (munch c cs).rest q rest) :
    p.Reaches (c :: cs) q rest := by
  have whole := h.behind (c :: (munch c cs).tail)
  rwa [List.cons_append, munch_append] at whole

theorem Token.StandsIn.munched {t : Token} {p : Position} {c : Char} {cs : List Char}
    (h : t.StandsIn (p.after (c :: (munch c cs).tail)) (munch c cs).rest) :
    t.StandsIn p (c :: cs) := by
  obtain ⟨d, ds, reaches, piece, same⟩ := h
  exact ⟨d, ds, reaches.munched, piece, same⟩

theorem Problem.StandsIn.munched {q : Problem} {p : Position} {c : Char} {cs : List Char}
    (h : q.StandsIn (p.after (c :: (munch c cs).tail)) (munch c cs).rest) :
    q.StandsIn p (c :: cs) := by
  obtain ⟨d, ds, place, reaches, cases⟩ := h
  exact ⟨d, ds, place, reaches.munched, cases⟩

namespace Reads

variable {p : Position} {text : List Char}

/-- The tokens of a text are its lexemes at their places, and an end token behind the text. -/
theorem tokens {result : Except Problem (List Token)} (h : Reads p text result)
    {tokens : List Token} (ok : result = .ok tokens) :
    ∃ ts, tokens = ts ++ [.endAt (p.after text)] ∧ ∀ t ∈ ts, t.StandsIn p text := by
  induction h generalizing tokens with
  | done p =>
      cases ok
      exact ⟨[], rfl, List.forall_mem_nil _⟩
  | @blank p c cs result piece _ ih =>
      obtain ⟨ts, rfl, stand⟩ := ih ok
      refine ⟨ts, ?_, fun t mem => (stand t mem).munched⟩
      rw [← Position.after_append, List.cons_append, munch_append]
  | @lexeme p c cs result k piece _ ih =>
      -- a lexeme is kept only if the rest of the text can be read
      cases result with
      | error q => cases ok
      | ok rest =>
          cases ok
          obtain ⟨ts, rfl, stand⟩ := ih rfl
          refine ⟨.ofLexeme k (c :: (munch c cs).tail) p :: ts, ?_, ?_⟩
          · rw [← Position.after_append, List.cons_append, munch_append]
            rfl
          · refine List.forall_mem_cons.mpr ⟨?_, fun t mem => (stand t mem).munched⟩
            exact ⟨c, cs, .refl p (c :: cs), piece, rfl⟩
  | unexpected => cases ok
  | unterminated => cases ok

/-- A text that is not read has a place at which no lexeme begins. -/
theorem problem {result : Except Problem (List Token)} (h : Reads p text result)
    {q : Problem} (failed : result = .error q) : q.StandsIn p text := by
  induction h generalizing q with
  | done p => cases failed
  | blank _ _ ih => exact (ih failed).munched
  | @lexeme p c cs result k _ _ ih =>
      cases result with
      | error q' =>
          cases failed
          exact (ih rfl).munched
      | ok rest => cases failed
  | @unexpected p c cs piece =>
      cases failed
      exact ⟨c, cs, p, .refl p (c :: cs), Or.inl ⟨piece, rfl⟩⟩
  | @unterminated p c cs piece =>
      cases failed
      exact ⟨c, cs, p, .refl p (c :: cs), Or.inr ⟨piece, rfl⟩⟩

end Reads

/-- The tokens of a scan stand in their text, all but the end token. -/
theorem stands_of_mem {source : String} {tokens : List Token} (ok : scan source = .ok tokens)
    {t : Token} (mem : t ∈ tokens) (kind : t.kind ≠ .eof) : t.StandsIn .origin source.toList := by
  obtain ⟨ts, rfl, stand⟩ := (scan_reads source).tokens ok
  rcases List.mem_append.mp mem with front | last
  · exact stand t front
  · rw [List.mem_singleton.mp last] at kind
    exact absurd rfl kind

end ScriptFront
