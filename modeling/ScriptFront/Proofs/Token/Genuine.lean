import ScriptFront.Proofs.Decimal.Lexemes
import ScriptFront.Proofs.Program.Apparent
import ScriptFront.Proofs.Program.Placeless
import ScriptFront.Proofs.Program.RoundTrip
import ScriptFront.Proofs.Token.Scanning

/-! # Genuine tokens — what is known of a token that stands in a text

    A genuine token has a lexeme of its kind and the value of its lexeme.  Without its place, a
    genuine identifier is told from its lexeme (`Token.Genuine.eq_named`), and any other token that
    a program keeps from its kind alone (`Token.Genuine.eq_mark`). -/

namespace ScriptFront

open TokenKind
open Decimal (classify isDigit)

/-- A token has a lexeme of its kind, and the value of its lexeme. -/
structure Token.Genuine (t : Token) : Prop where
  lexeme : Lexeme t.kind t.lexeme.toList
  literal : t.literal = .ofLexeme t.kind t.lexeme.toList

/-- A token that stands in a text is genuine. -/
theorem genuine_of_stands {t : Token} {p : Position} {text : List Char} (h : t.StandsIn p text) :
    t.Genuine := by
  refine ⟨h.lexeme, ?_⟩
  obtain ⟨c, cs, -, -, same⟩ := h
  rw [same]
  simp [Token.ofLexeme]

/-! ## Spelling -/

/-- The signs and the reserved words with their kinds. -/
def spellings : List (String × TokenKind) :=
  signs.map (fun (w, k) => (String.ofList w, k)) ++ reserved

/-- The kind of a sign or of a reserved word. -/
def TokenKind.ofSpelling? (w : String) : Option TokenKind := spellings.lookup w

/-- The spelling of a kind, if it has just one. -/
def TokenKind.spelling (k : TokenKind) : String :=
  ((spellings.find? fun entry => entry.2 == k).map Prod.fst).getD ""

/-- Whether the lexemes of a kind are many. -/
def TokenKind.isOpen (k : TokenKind) : Bool :=
  [string, number, boolean, identifier, comment].contains k

/-- The token of a kind, without a place. -/
def Token.mark (k : TokenKind) : Token := { kind := k, lexeme := k.spelling }

theorem Lexeme.eq_spelling {k : TokenKind} {w : List Char} (h : Lexeme k w)
    (closed : k.isOpen = false) : String.ofList w = k.spelling := by
  cases h with
  | sign mem =>
      have one : ∀ e ∈ signs, String.ofList e.1 = e.2.spelling := by decide +kernel
      exact one _ mem
  | reserved mem =>
      have one : ∀ e ∈ TokenKind.reserved, e.2.isOpen = false → e.1 = e.2.spelling := by
        decide +kernel
      exact one _ mem closed
  | comment | string | whole | fraction | identifier => cases closed

namespace Token.Genuine

variable {t : Token}

/-- A genuine identifier is told from its lexeme. -/
theorem eq_named (h : t.Genuine) (kind : t.kind = identifier) : t.placeless = .named t.lexeme := by
  have literal := h.literal
  rw [kind] at literal
  obtain ⟨k, w, v, p⟩ := t
  cases kind
  cases literal
  rfl

/-- A genuine token of a kind with one lexeme is told from its kind. -/
theorem eq_mark (h : t.Genuine) (closed : t.kind.isOpen = false) :
    t.placeless = .mark t.kind ∧ t.lexeme = t.kind.spelling := by
  have spelled := h.lexeme.eq_spelling closed
  rw [String.ofList_toList] at spelled
  have literal : t.literal = .null := by
    rw [h.literal]
    unfold Literal.ofLexeme
    split
    · rename_i kind
      rw [kind] at closed
      cases closed
    · rename_i kind
      rw [kind] at closed
      cases closed
    · rename_i kind
      rw [kind] at closed
      cases closed
    · rfl
  refine ⟨?_, spelled⟩
  rw [Token.mark, ← spelled, ← literal]
  rfl

end Token.Genuine

/-! ## Values -/

/-- What is known of a value that is read: a number has no minus, and a string no quote. -/
def Literal.Genuine : Literal → Prop
  | .number x => (classify x).Unsigned
  | .text s => '"' ∉ s.toList
  | _ => True

/-- The value of a genuine literal is genuine. -/
theorem Token.Genuine.value {t : Token} (h : t.Genuine) : t.literal.Genuine := by
  obtain ⟨lexeme, literal⟩ := h
  rw [literal]
  generalize t.lexeme.toList = w at lexeme
  generalize t.kind = k at lexeme
  unfold Literal.ofLexeme
  split
  · cases lexeme with
    | sign mem =>
        have none : ∀ e ∈ signs, e.2 ≠ .string := by decide
        exact absurd rfl (none _ mem)
    | reserved mem =>
        have none : ∀ e ∈ TokenKind.reserved, e.2 ≠ .string := by decide
        exact absurd rfl (none _ mem)
    | @string cs inner =>
        show '"' ∉ (String.ofList (List.dropLast (cs ++ ['"']))).toList
        rwa [String.toList_ofList, List.dropLast_concat]
  · exact Decimal.unsigned_lexemeValue w
  · trivial
  · trivial

/-- What is known of what a program keeps in a slot. -/
def Slot.Genuine : Slot → Prop
  | mark _ => True
  | token t => t.Genuine
  | value v => v.Genuine

/-- What a program keeps of genuine tokens is genuine. -/
theorem genuine_of_fills {slots : List Slot} {ts : List Token}
    (fills : List.Forall₂ Slot.Holds slots ts) (genuine : ∀ t ∈ ts, t.Genuine) :
    ∀ s ∈ slots, s.Genuine := by
  induction fills with
  | nil => exact List.forall_mem_nil _
  | @cons slot t slots ts holds _ ih =>
      obtain ⟨first, rest⟩ := List.forall_mem_cons.mp genuine
      refine List.forall_mem_cons.mpr ⟨?_, ih rest⟩
      cases slot with
      | mark k => trivial
      | token u =>
          have same : t = u := holds
          exact same ▸ first
      | value v =>
          have same : t.literal = v := holds.2
          exact same ▸ first.value

/-- All that a program keeps of a text is genuine. -/
theorem genuine_of_parse {source : String} {tokens : List Token} {p : Program}
    (scanned : scan source = .ok tokens) (parsed : parse tokens = .ok p) :
    ∀ s ∈ p.slots, s.Genuine := by
  refine genuine_of_fills (canonical_of_parse parsed).2 fun t mem => ?_
  have significant := List.mem_of_mem_filter mem
  exact genuine_of_stands
    (stands_of_mem scanned (List.mem_of_mem_filter significant) (kind_ne_eof_of_mem t significant))

end ScriptFront
