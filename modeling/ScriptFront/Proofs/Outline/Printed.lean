import ScriptFront.Outline.Printed
import ScriptFront.Proofs.Outline.Phrases

/-! # Phrases of outlines — what a printed tree is made of

    A node is printed as a row that begins with the word of its head.  A name with its type and a
    class with its superclass are several words, and an infinite number is a word too
    (`Head.string_phrase`).  So the text of an outline is the text of one phrase
    (`Outline.text?_eq`). -/

namespace ScriptFront

open Phrase

namespace Phrase

/-- The text of a phrase as a string. -/
def string (p : Phrase) : String := String.ofList p.text

@[simp] theorem string_word (w : String) : (word w).string = w := String.ofList_toList

theorem inside_eq : ∀ ps : List Phrase,
    inside ps = (" ".intercalate (ps.map string)).toList ++ [')']
  | [] => rfl
  | [p] => by
      rw [List.map_singleton, String.intercalate_singleton, string, String.toList_ofList]
      rfl
  | p :: q :: ps => by
      have rest := inside_eq (q :: ps)
      rw [List.map_cons] at rest
      rw [List.map_cons, List.map_cons, String.intercalate_cons_cons, String.toList_append,
        String.toList_append, List.append_assoc, ← rest, string, String.toList_ofList]
      exact (List.append_assoc p.text [' '] (inside (q :: ps))).symm

/-- A row is its parts between parentheses, separated by blanks. -/
theorem string_row (ps : List Phrase) :
    (row ps).string = "(" ++ " ".intercalate (ps.map string) ++ ")" := by
  refine String.toList_injective ?_
  rw [string, String.toList_ofList, String.toList_append, String.toList_append, text, inside_eq]
  rfl

/-- A row that begins with a word. -/
theorem string_named (name : String) (ps : List Phrase) :
    (row (word name :: ps)).string = parenthesized name (ps.map string) := by
  rw [string_row, List.map_cons, string_word, parenthesized]

/-- A blank makes two parts of one. -/
theorem parenthesized_words (head a b : String) (parts : List String) :
    parenthesized head ((a ++ " " ++ b) :: parts) = parenthesized head (a :: b :: parts) := by
  rw [parenthesized, parenthesized, String.intercalate_cons_cons, String.intercalate_cons_cons,
    String.intercalate_cons_cons, String.intercalate_cons_append]

/-- The parts that are there. -/
def present (parts : List (Option Phrase)) : List Phrase := parts.filterMap id

@[simp] theorem present_nil : present [] = [] := rfl

@[simp] theorem present_none (parts : List (Option Phrase)) :
    present (none :: parts) = present parts := rfl

@[simp] theorem present_some (p : Phrase) (parts : List (Option Phrase)) :
    present (some p :: parts) = p :: present parts := rfl

theorem present_singleton (p : Option Phrase) : present [p] = p.toList := by
  cases p with
  | none => rfl
  | some p => rfl

theorem present_map_some (ps : List Phrase) : present (ps.map some) = ps := by
  rw [present, List.filterMap_map, Function.id_comp, List.filterMap_some]

theorem map_present (parts : List (Option Phrase)) :
    (present parts).map string = presentParts (parts.map (Option.map string)) := by
  rw [present, presentParts, List.map_filterMap, List.filterMap_map]
  rfl

end Phrase

/-! ## Heads -/

/-- The number that is too large for any other. -/
def Decimal.infinity : Float := 1.0 / 0.0

/-- The phrase of a value. -/
def Literal.phrase : Literal → Phrase
  | .null => .word "null"
  | .bool true => .word "true"
  | .bool false => .word "false"
  | .number x => if x = Decimal.infinity then .word "inf" else .number x
  | .text s => .quoted s

theorem Literal.string_phrase (v : Literal) : v.phrase.string = v.written := by
  cases v with
  | null => rfl
  | bool b =>
      cases b with
      | true => rfl
      | false => rfl
  | number x =>
      rw [Literal.phrase]
      split
      · rename_i infinite
        rw [infinite]
        decide +kernel
      · exact String.ofList_toList
  | text s =>
      refine String.toList_injective ?_
      rw [Literal.phrase, string, String.toList_ofList, Literal.written, String.toList_append,
        String.toList_append]
      rfl

namespace Head

/-- The phrase of a node, given the phrases of its children. -/
def phrase (parts : List (Option Phrase)) : Head → Phrase
  | assign name => .row (.word "=" :: .word name.lexeme :: present parts)
  | binary operator | logical operator | unary operator =>
    .row (.word operator.lexeme :: present parts)
  | call _ => .row (.word "call" :: present parts)
  | get name => .row (.word "." :: (present parts ++ [.word name.lexeme]))
  | grouping => .row (.word "group" :: present parts)
  | literal value => value.phrase
  | set name =>
    .row (.word "=." :: (present (parts.take 1) ++ .word name.lexeme :: present (parts.drop 1)))
  | super _ method => .row [.word "super", .word method.lexeme]
  | this _ => .word "this"
  | var name => .word name.lexeme
  | expression => .row (.word ";" :: present parts)
  | print _ => .row (.word "print" :: present parts)
  | varDecl name none => .row (.word "var" :: .word name.lexeme :: present parts)
  | varDecl name (some typeName) =>
    .row (.word "var" :: .word (name.lexeme ++ ":") :: .word typeName.lexeme :: present parts)
  | block => .row (.word "block" :: present parts)
  | conditional => .row (.word "if" :: present parts)
  | whileLoop => .row (.word "while" :: present parts)
  | forLoop =>
    .row (.word "for"
      :: ((parts.take 3).map (fun clause => clause.getD (.word "_")) ++ present (parts.drop 3)))
  | breakLoop _ => .row [.word "break"]
  | continueLoop _ => .row [.word "continue"]
  | returnValue _ => .row (.word "return" :: present parts)
  | function name parameters =>
    .row (.word "def" :: .word name.lexeme :: .row (parameters.map fun t => .word t.lexeme)
      :: present parts)
  | classDecl name =>
    match parts with
    | some superclass :: methods =>
      .row (.word "class" :: .word name.lexeme :: .word "<" :: superclass :: present methods)
    | parts => .row (.word "class" :: .word name.lexeme :: present parts)
  | program => .row (.word "program" :: present parts)

/-- The text of a node is that of its phrase. -/
theorem string_phrase (parts : List (Option Phrase)) (h : Head) :
    (h.phrase parts).string = h.text (parts.map (Option.map string)) := by
  cases h with
  | assign | binary | logical | unary | call | grouping | expression | print | block | conditional
  | whileLoop | returnValue | program =>
      simp only [phrase, text, string_named, List.map_cons, string_word, map_present]
  | get name =>
      simp only [phrase, text, string_named, List.map_append, List.map_singleton, string_word,
        map_present]
  | literal value => exact value.string_phrase
  | set name =>
      simp only [phrase, text, string_named, List.map_append, List.map_cons, string_word,
        map_present, List.map_take, List.map_drop]
  | super _ method => simp only [phrase, text, string_named, List.map_singleton, string_word]
  | this => rfl
  | var => exact string_word _
  | varDecl name typeName =>
      cases typeName with
      | none => simp only [phrase, text, string_named, List.map_cons, string_word, map_present]
      | some typeName =>
          have words : name.lexeme ++ ": " ++ typeName.lexeme
              = name.lexeme ++ ":" ++ " " ++ typeName.lexeme := by
            rw [← String.toList_inj]
            simp
          simp only [phrase, text, string_named, List.map_cons, string_word, map_present, words,
            parenthesized_words]
  | forLoop =>
      have clauses : ∀ clause : Option Phrase, (clause.getD (.word "_")).string
          = (clause.map string).getD "_" := by
        intro clause
        cases clause with
        | none => exact string_word "_"
        | some p => rfl
      simp only [phrase, text, string_named, List.map_append, map_present, List.map_drop,
        ← List.map_take, List.map_map, Function.comp_def, clauses]
  | breakLoop => rfl
  | continueLoop => rfl
  | function name parameters =>
      have names : (parameters.map fun t => Phrase.word t.lexeme).map string
          = parameters.map Token.lexeme := by
        rw [List.map_map]
        exact List.map_congr_left fun t _ => string_word t.lexeme
      rw [phrase, string_named, List.map_cons, List.map_cons, string_word, string_row, names,
        map_present, text]
  | classDecl name =>
      have words : ∀ superclass : String, name.lexeme ++ " < " ++ superclass
          = name.lexeme ++ " " ++ "<" ++ " " ++ superclass := by
        intro superclass
        rw [← String.toList_inj]
        simp
      cases parts with
      | nil =>
          simp only [phrase, text, string_named, List.map_cons, List.map_nil, string_word,
            map_present]
      | cons first methods =>
          cases first with
          | none =>
              simp only [phrase, text, string_named, List.map_cons, string_word, map_present,
                Option.map_none]
          | some superclass =>
              simp only [phrase, text, string_named, List.map_cons, string_word, map_present,
                Option.map_some, words, parenthesized_words]

end Head

/-! ## Outlines -/

namespace Outline

mutual

/-- The phrase of an outline; an absent one has none. -/
def phrase? : Outline → Option Phrase
  | absent => none
  | node head children => some (head.phrase (phrases children))

/-- The phrases of some outlines, each in its place. -/
def phrases : List Outline → List (Option Phrase)
  | [] => []
  | o :: os => o.phrase? :: phrases os

end

mutual

/-- The text of an outline is that of its phrase. -/
theorem text?_eq : ∀ o : Outline, o.text? = o.phrase?.map string
  | absent => rfl
  | node head children => by
      rw [text?, phrase?, texts_eq children, Option.map_some, head.string_phrase]

theorem texts_eq : ∀ os : List Outline, texts os = (phrases os).map (Option.map string)
  | [] => rfl
  | o :: os => by rw [texts, phrases, text?_eq o, texts_eq os, List.map_cons]

end

end Outline

end ScriptFront
