import Mathlib.Data.List.Forall2
import ScriptFront.Proofs.Token.Joining

/-! # Rejoining — lexemes on lines of their own are read back

    A lexeme by itself is a text of one token (`scan_lexeme`), and nothing is carried over a newline
    (`scan_join`).  So lexemes that are written one under the other are read back as they are,
    whatever text stands on the last line (`scan_lines`).  The tokens of a scan are lexemes, and so
    a text and the column of its lexemes have the same tokens but for their places. -/

namespace ScriptFront

/-- What a token is apart from its place. -/
def Token.content (t : Token) : TokenKind × String × Literal := (t.kind, t.lexeme, t.literal)

@[simp] theorem Token.content_move (m : Position → Position) (t : Token) :
    (t.move m).content = t.content := rfl

/-- A token is a lexeme with its kind, and has the value of the lexeme. -/
structure Token.Renders (t : Token) (k : TokenKind) (w : String) : Prop where
  kind : t.kind = k
  lexeme : t.lexeme = w
  value : Lexeme.Value k w.toList t.literal

namespace Token.Renders

variable {t : Token} {k : TokenKind} {w : String}

theorem move (h : t.Renders k w) (m : Position → Position) : (t.move m).Renders k w :=
  ⟨h.kind, h.lexeme, h.value⟩

/-- What a token is apart from its place is told from the lexeme. -/
theorem content_eq (h : t.Renders k w) : t.content = (k, w, .ofLexeme k w.toList) := by
  rw [Token.content, h.kind, h.lexeme, h.value.eq_ofLexeme]

end Token.Renders

/-- The token of a lexeme is the lexeme. -/
theorem Lexeme.renders {k : TokenKind} {w : String} (h : Lexeme k w.toList) (p : Position) :
    (Token.ofLexeme k w.toList p).Renders k w :=
  ⟨rfl, String.ofList_toList, h.value⟩

/-! ## One lexeme -/

/-- With nothing behind it, every lexeme is the longest one. -/
theorem Lexeme.longest_nil {k : TokenKind} {w : List Char} (h : Lexeme k w) :
    Lexeme.Longest k w [] := by
  refine ⟨h, fun _ w' _ begins => ?_⟩
  rw [List.append_nil] at begins
  exact begins.length_le

/-- A lexeme by itself is a text of one token. -/
theorem scan_lexeme {k : TokenKind} {w : String} (h : Lexeme k w.toList) :
    scan w = .ok [.ofLexeme k w.toList .origin, .endAt (Position.origin.after w.toList)] := by
  have munched := Munched.lexeme h.longest_nil h.value (.done (Position.origin.after w.toList) [])
  rw [List.append_nil] at munched
  exact (scan_reads w).unique (munched.reads (.done _))

/-- An empty text has no token but its end. -/
theorem scan_empty : scan "" = .ok [.endAt .origin] :=
  (scan_reads "").unique (.done .origin)

/-! ## Lexemes on lines of their own -/

/-- Some texts, each on lines of its own. -/
def onLines (texts : List String) : String := "\n".intercalate texts

theorem onLines_singleton (a : String) : onLines [a] = a := String.intercalate_singleton

theorem onLines_cons_concat (a b : String) (texts : List String) :
    onLines (a :: (texts ++ [b])) = a ++ "\n" ++ onLines (texts ++ [b]) := by
  cases texts with
  | nil => exact String.intercalate_cons_cons
  | cons c texts => exact String.intercalate_cons_cons

/-- Lexemes on lines of their own are read one by one, and a text on the last line becomes what it
    becomes by itself, further down. -/
theorem scan_lines {words : List (TokenKind × String)}
    (each : ∀ x ∈ words, Lexeme x.1 x.2.toList) {last : String} {others : List Token}
    (scanned : scan last = .ok others) :
    ∃ ts m, List.Forall₂ (fun x t => Token.Renders t x.1 x.2) words ts
      ∧ scan (onLines (words.map Prod.snd ++ [last])) = .ok (ts ++ others.map (Token.move m)) := by
  induction words with
  | nil =>
      refine ⟨[], id, .nil, ?_⟩
      have same : others.map (Token.move id) = others := List.map_id' others
      rw [List.map_nil, List.nil_append, onLines_singleton, List.nil_append, same]
      exact scanned
  | cons x words ih =>
      obtain ⟨first, rest⟩ := List.forall_mem_cons.mp each
      obtain ⟨ts, m, renders, below⟩ := ih rest
      have joined := scan_join (scan_lexeme first) below
      -- the tokens of the other lines stand lower by the lines of the first lexeme
      let lower := Position.lower (1 + x.2.toList.count '\n')
      refine ⟨.ofLexeme x.1 x.2.toList .origin :: ts.map (Token.move lower), lower ∘ m,
        .cons (first.renders .origin) ?_, ?_⟩
      · rw [List.forall₂_map_right_iff]
        exact renders.imp fun _ _ h => h.move lower
      · rw [List.map_cons, List.cons_append, onLines_cons_concat, joined, List.map_append,
          List.map_map]
        rfl

/-- Lexemes on lines of their own are read back with their kinds and values, and then there is the
    end of the text. -/
theorem scan_column {words : List (TokenKind × String)}
    (each : ∀ x ∈ words, Lexeme x.1 x.2.toList) :
    ∃ ts stop, List.Forall₂ (fun x t => Token.Renders t x.1 x.2) words ts
      ∧ scan (onLines (words.map Prod.snd)) = .ok (ts ++ [.endAt stop]) := by
  rcases List.eq_nil_or_concat words with rfl | ⟨front, x, rfl⟩
  · exact ⟨[], .origin, .nil, scan_empty⟩
  · rw [List.concat_eq_append] at each ⊢
    obtain ⟨before, own⟩ := List.forall_mem_append.mp each
    have lexeme := List.forall_mem_singleton.mp own
    obtain ⟨ts, m, renders, scanned⟩ := scan_lines before (scan_lexeme lexeme)
    refine ⟨ts ++ [(Token.ofLexeme x.1 x.2.toList .origin).move m],
      m (Position.origin.after x.2.toList), ?_, ?_⟩
    · exact List.rel_append renders (.cons ((lexeme.renders .origin).move m) .nil)
    · rw [List.map_append, List.map_singleton, scanned, List.append_assoc]
      rfl

/-! ## The lexemes of a text -/

/-- The tokens of a text are lexemes with their values, and there is one end token behind them. -/
theorem exists_renders_of_scan {source : String} {tokens : List Token}
    (scanned : scan source = .ok tokens) :
    ∃ ts stop, tokens = ts ++ [.endAt stop] ∧ (∀ t ∈ ts, Lexeme t.kind t.lexeme.toList)
      ∧ ∀ t ∈ ts, t.content = (t.kind, t.lexeme, .ofLexeme t.kind t.lexeme.toList) := by
  obtain ⟨ts, split, stand⟩ := (scan_reads source).tokens scanned
  refine ⟨ts, _, split, fun t mem => (stand t mem).lexeme, fun t mem => ?_⟩
  obtain ⟨c, cs, -, -, same⟩ := stand t mem
  rw [same]
  simp [Token.content, Token.ofLexeme]

/-- No token that is a lexeme is the end. -/
theorem kind_ne_eof_of_renders {words : List (TokenKind × String)} {ts : List Token}
    (each : ∀ x ∈ words, Lexeme x.1 x.2.toList)
    (renders : List.Forall₂ (fun x t => Token.Renders t x.1 x.2) words ts) :
    ∀ t ∈ ts, t.kind ≠ .eof := by
  induction renders with
  | nil => exact List.forall_mem_nil _
  | cons h _ ih =>
      obtain ⟨lexeme, rest⟩ := List.forall_mem_cons.mp each
      refine List.forall_mem_cons.mpr ⟨?_, ih rest⟩
      rw [h.kind]
      exact lexeme.kind_ne_eof

/-- Tokens that are the lexemes of others have the same content. -/
theorem content_of_renders {ts us : List Token}
    (renders : List.Forall₂ (fun x t => Token.Renders t x.1 x.2)
      (ts.map fun t => (t.kind, t.lexeme)) us)
    (values : ∀ t ∈ ts, t.content = (t.kind, t.lexeme, .ofLexeme t.kind t.lexeme.toList)) :
    us.map Token.content = ts.map Token.content := by
  induction ts generalizing us with
  | nil =>
      cases renders
      rfl
  | cons t ts ih =>
      obtain ⟨own, rest⟩ := List.forall_mem_cons.mp values
      cases renders with
      | cons h others => rw [List.map_cons, List.map_cons, ih others rest, own, h.content_eq]

/-- Lexemes of any kinds on lines of their own are read back one by one, each with its kind and its
    value, and then there is one end token.  So the lexemes of a text, with or without that of its
    end token, make a text with the same tokens but for their places. -/
theorem lexemes_on_lines_are_read_back :
    (∀ words : List (TokenKind × String), (∀ x ∈ words, Lexeme x.1 x.2.toList) →
      ∃ ts stop, scan (onLines (words.map Prod.snd)) = .ok (ts ++ [.endAt stop])
        ∧ List.Forall₂ (fun x t => t.kind = x.1 ∧ t.lexeme = x.2
          ∧ Lexeme.Value x.1 x.2.toList t.literal) words ts
        ∧ ∀ t ∈ ts, t.kind ≠ .eof)
    ∧ ∀ source tokens, scan source = .ok tokens →
      ∀ text, text = onLines (tokens.map Token.lexeme)
          ∨ text = onLines (tokens.dropLast.map Token.lexeme) →
        ∃ others, scan text = .ok others
          ∧ others.map Token.content = tokens.map Token.content := by
  refine ⟨fun words each => ?_, fun source tokens scanned text isColumn => ?_⟩
  · obtain ⟨ts, stop, renders, read⟩ := scan_column each
    exact ⟨ts, stop, read, renders.imp fun x t h => ⟨h.kind, h.lexeme, h.value⟩,
      kind_ne_eof_of_renders each renders⟩
  · obtain ⟨ts, stop, rfl, lexemes, values⟩ := exists_renders_of_scan scanned
    have each : ∀ x ∈ ts.map fun t => (t.kind, t.lexeme), Lexeme x.1 x.2.toList :=
      List.forall_mem_map.mpr lexemes
    have column : (ts.map fun t => (t.kind, t.lexeme)).map Prod.snd = ts.map Token.lexeme := by
      rw [List.map_map]
      rfl
    rcases isColumn with rfl | rfl
    · -- the end token adds an empty last line
      obtain ⟨us, m, renders, read⟩ := scan_lines each scan_empty
      rw [column] at read
      refine ⟨_, by rw [List.map_append]; exact read, ?_⟩
      rw [List.map_append, List.map_append, content_of_renders renders values]
      rfl
    · obtain ⟨us, stop', renders, read⟩ := scan_column each
      rw [column] at read
      refine ⟨_, by rw [List.dropLast_concat]; exact read, ?_⟩
      rw [List.map_append, List.map_append, content_of_renders renders values]
      rfl

/-- A comment with a quote, a string with a newline and slashes, a word that begins like a reserved
    one and two signs that would be one without the newline are read back; so are the lexemes of a
    text in which they stand close together. -/
theorem close_lexemes_are_read_back :
    (let words : List (TokenKind × String) := [(.kwIf, "if"), (.identifier, "iffy"),
        (.comment, "// \""), (.string, "\"\n//\""), (.equal, "="), (.equalEqual, "=="),
        (.number, "1.50")]
      ∃ ts stop, (∀ x ∈ words, Lexeme x.1 x.2.toList)
        ∧ scan (onLines (words.map Prod.snd)) = .ok (ts ++ [.endAt stop])
        ∧ List.Forall₂ (fun x t => t.kind = x.1 ∧ t.lexeme = x.2
          ∧ Lexeme.Value x.1 x.2.toList t.literal) words ts)
    ∧ ∃ tokens others, scan "a=\"\n\"==true//" = .ok tokens
      ∧ scan "a\n=\n\"\n\"\n==\ntrue\n//" = .ok others
      ∧ others.map Token.content = tokens.map Token.content := by
  constructor
  · intro words
    have each : ∀ x ∈ words, Lexeme x.1 x.2.toList := by
      intro x hx
      simp only [words, List.mem_cons, List.not_mem_nil, or_false] at hx
      rcases hx with rfl | rfl | rfl | rfl | rfl | rfl | rfl
      · exact .reserved (by decide)
      · exact String.toList_ofList ▸
          .identifier (by decide) (List.all_eq_true.mp (by decide)) (by decide)
      · exact String.toList_ofList ▸ .comment (by decide)
      · exact String.toList_ofList ▸ .string (by decide : '"' ∉ ['\n', '/', '/'])
      · exact .sign (by decide)
      · exact .sign (by decide)
      · have whole : ∀ d ∈ ['1'], Decimal.isDigit d = true := List.all_eq_true.mp (by decide)
        have more : ∀ d ∈ ['5', '0'], Decimal.isDigit d = true := List.all_eq_true.mp (by decide)
        exact String.toList_ofList ▸ .fraction (by decide) whole (by decide) more
    obtain ⟨ts, stop, read, renders, -⟩ := lexemes_on_lines_are_read_back.1 words each
    exact ⟨ts, stop, each, read, renders⟩
  · have scanned : scan "a=\"\n\"==true//" = .ok [⟨.identifier, "a", .null, ⟨1, 1⟩⟩,
        ⟨.equal, "=", .null, ⟨1, 2⟩⟩, ⟨.string, "\"\n\"", .text "\n", ⟨1, 3⟩⟩,
        ⟨.equalEqual, "==", .null, ⟨2, 2⟩⟩, ⟨.boolean, "true", .bool true, ⟨2, 4⟩⟩,
        ⟨.comment, "//", .null, ⟨2, 8⟩⟩, .endAt ⟨2, 10⟩] := by
      decide +kernel
    obtain ⟨others, read, same⟩ :=
      lexemes_on_lines_are_read_back.2 _ _ scanned "a\n=\n\"\n\"\n==\ntrue\n//" (by decide)
    exact ⟨_, others, scanned, read, same⟩

end ScriptFront
