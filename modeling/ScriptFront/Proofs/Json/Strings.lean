import ScriptFront.Proofs.Token.Lexemes
import ScriptFront.Text.Escaped

/-! # Strings read back — escapes and surrogate pairs

    A reader of strings takes the short escapes, the escapes of UTF-16 units in hexadecimal digits
    of either case, and every character that is no control character for itself; the units are then
    decoded, a pair of surrogates to one character.  It reads every escaped string back
    (`readString?_quoted`). -/

namespace ScriptFront.Json

open Text

/-! ## The reader -/

/-- The value of a hexadecimal digit. -/
def hexValue? (c : Char) : Option Nat :=
  if '0' ≤ c ∧ c ≤ '9' then some (c.toNat - '0'.toNat)
  else if 'a' ≤ c ∧ c ≤ 'f' then some (c.toNat - 'a'.toNat + 10)
  else if 'A' ≤ c ∧ c ≤ 'F' then some (c.toNat - 'A'.toNat + 10)
  else none

/-- The unit of four hexadecimal digits. -/
def unit? (a b c d : Char) : Option Nat := do
  return (← hexValue? a) * 0x1000 + (← hexValue? b) * 0x100 + (← hexValue? c) * 0x10
    + (← hexValue? d)

/-- The letters of the short escapes, and the characters they stand for. -/
def escapes : List (Char × Char) :=
  [('"', '"'), ('\\', '\\'), ('/', '/'), ('b', '\x08'), ('f', '\x0c'), ('n', '\n'), ('r', '\r'),
   ('t', '\t')]

/-- Reads a string up to its closing quote, in UTF-16 units. -/
def readUnits? : List Char → Option (List Nat × List Char)
  | [] => none
  | '"' :: rest => some ([], rest)
  | '\\' :: 'u' :: a :: b :: c :: d :: rest => do
    let unit ← unit? a b c d
    let (units, rest) ← readUnits? rest
    return (unit :: units, rest)
  | '\\' :: letter :: rest => do
    let c ← escapes.lookup letter
    let (units, rest) ← readUnits? rest
    return (Escaped.units c ++ units, rest)
  | c :: rest => do
    if c.toNat < 0x20 then none
    let (units, rest) ← readUnits? rest
    return (Escaped.units c ++ units, rest)

/-- Whether a unit begins a pair of surrogates. -/
def isHigh (unit : Nat) : Bool := 0xD800 ≤ unit && unit < 0xDC00

/-- Whether a unit ends a pair of surrogates. -/
def isLow (unit : Nat) : Bool := 0xDC00 ≤ unit && unit < 0xE000

/-- Decodes UTF-16 units; surrogates must come in pairs. -/
def decode? : List Nat → Option (List Char)
  | [] => some []
  | unit :: units =>
    if isHigh unit then
      match units with
      | [] => none
      | low :: units =>
        if isLow low then do
          let c := Char.ofNat (0x10000 + (unit - 0xD800) * 0x400 + (low - 0xDC00))
          return c :: (← decode? units)
        else none
    else if isLow unit then none
    else do return Char.ofNat unit :: (← decode? units)

/-- Reads a string. -/
def readString? : List Char → Option (String × List Char)
  | '"' :: rest => do
    let (units, rest) ← readUnits? rest
    return (String.ofList (← decode? units), rest)
  | _ => none

/-! ## Escapes -/

/-- No character is a surrogate. -/
theorem toNat_cases (c : Char) : c.toNat < 0xD800 ∨ 0xDFFF < c.toNat ∧ c.toNat < 0x110000 :=
  c.valid

theorem hexValue?_hexDigit {n : Nat} (h : n < 16) : hexValue? (Escaped.hexDigit n) = some n := by
  have all : ∀ n < 16, hexValue? (Escaped.hexDigit n) = some n := by decide
  exact all n h

/-- Four digits say a unit. -/
theorem readUnits?_unitEscape {n : Nat} (h : n < 0x10000) (text : List Char) :
    readUnits? (Escaped.unitEscape n ++ text)
      = (readUnits? text).map fun (units, rest) => (n :: units, rest) := by
  have digits : n / 0x1000 % 16 * 0x1000 + n / 0x100 % 16 * 0x100 + n / 0x10 % 16 * 0x10 + n % 16
      = n := by omega
  have unit : unit? (Escaped.hexDigit (n / 0x1000 % 16)) (Escaped.hexDigit (n / 0x100 % 16))
      (Escaped.hexDigit (n / 0x10 % 16)) (Escaped.hexDigit (n % 16)) = some n := by
    rw [unit?, hexValue?_hexDigit (Nat.mod_lt _ (by decide)),
      hexValue?_hexDigit (Nat.mod_lt _ (by decide)), hexValue?_hexDigit (Nat.mod_lt _ (by decide)),
      hexValue?_hexDigit (Nat.mod_lt _ (by decide))]
    exact congrArg some digits
  show readUnits? ('\\' :: 'u' :: _ :: _ :: _ :: _ :: text) = _
  rw [readUnits?, unit]
  cases readUnits? text with
  | none => rfl
  | some read => rfl

/-- The letter of a short escape stands for the character that has it. -/
theorem readUnits?_shortEscape {c letter : Char} (h : Escaped.shortEscapes.lookup c = some letter)
    (text : List Char) :
    readUnits? ('\\' :: letter :: text)
      = (readUnits? text).map fun (units, rest) => (Escaped.units c ++ units, rest) := by
  have known : ∀ e ∈ Escaped.shortEscapes, escapes.lookup e.2 = some e.1 ∧ e.2 ≠ 'u' := by decide
  obtain ⟨found, other⟩ := known _ (mem_of_lookup h)
  rw [readUnits?, found]
  · cases readUnits? text with
    | none => rfl
    | some read => rfl
  · intro a b c d rest same
    exact absurd same other

/-- A character that has no escape stands for itself. -/
theorem readUnits?_plain {c : Char} (h : Escaped.shortEscapes.lookup c = none)
    (plain : Escaped.isPlain c = true) (text : List Char) :
    readUnits? (c :: text)
      = (readUnits? text).map fun (units, rest) => (Escaped.units c ++ units, rest) := by
  have visible : ¬ c.toNat < 0x20 := by
    simp only [Escaped.isPlain, Bool.and_eq_true, decide_eq_true_eq] at plain
    omega
  rw [readUnits?, if_neg visible]
  · cases readUnits? text with
    | none => rfl
    | some read => rfl
  · rintro rfl
    cases h
  · rintro a b c d rest rfl
    cases h
  · rintro letter rest rfl
    cases h

/-- A character is written in its units. -/
theorem readUnits?_char (c : Char) (text : List Char) :
    readUnits? (Escaped.char c ++ text)
      = (readUnits? text).map fun (units, rest) => (Escaped.units c ++ units, rest) := by
  rw [Escaped.char]
  cases short : Escaped.shortEscapes.lookup c with
  | some letter => exact readUnits?_shortEscape short text
  | none =>
      show readUnits? ((if Escaped.isPlain c then [c] else _) ++ text) = _
      split
      · rename_i plain
        exact readUnits?_plain short plain text
      · have bounds := toNat_cases c
        rw [Escaped.units]
        split
        · rename_i small
          rw [List.flatMap_singleton, readUnits?_unitEscape small]
          rfl
        · -- the escapes of a pair are read one after the other
          rw [List.flatMap_cons, List.flatMap_singleton, List.append_assoc,
            readUnits?_unitEscape (by omega), readUnits?_unitEscape (by omega), Option.map_map]
          rfl

/-- A string is written in the units of its characters. -/
theorem readUnits?_flatMap (cs rest : List Char) :
    readUnits? (cs.flatMap Escaped.char ++ '"' :: rest)
      = some (cs.flatMap Escaped.units, rest) := by
  induction cs with
  | nil => rfl
  | cons c cs ih =>
      rw [List.flatMap_cons, List.append_assoc, readUnits?_char, ih]
      rfl

/-! ## Surrogates -/

/-- A unit that is no surrogate is a character. -/
theorem decode?_single {unit : Nat} (high : isHigh unit = false) (low : isLow unit = false)
    (units : List Nat) :
    decode? (unit :: units) = (decode? units).map (Char.ofNat unit :: ·) := by
  rw [decode?.eq_def]
  simp only [high, low]
  cases decode? units with
  | none => rfl
  | some cs => rfl

/-- A pair of surrogates is one character. -/
theorem decode?_pair {unit next : Nat} (high : isHigh unit = true) (low : isLow next = true)
    (units : List Nat) :
    decode? (unit :: next :: units)
      = (decode? units).map
        (Char.ofNat (0x10000 + (unit - 0xD800) * 0x400 + (next - 0xDC00)) :: ·) := by
  rw [decode?.eq_def]
  simp only [high, low]
  cases decode? units with
  | none => rfl
  | some cs => rfl

/-- The units of a character are decoded to it. -/
theorem decode?_units (c : Char) (units : List Nat) :
    decode? (Escaped.units c ++ units) = (decode? units).map (c :: ·) := by
  have bounds := toNat_cases c
  rw [Escaped.units]
  split
  · have high : isHigh c.toNat = false := by
      simp only [isHigh, Bool.and_eq_false_iff, decide_eq_false_iff_not]
      omega
    have low : isLow c.toNat = false := by
      simp only [isLow, Bool.and_eq_false_iff, decide_eq_false_iff_not]
      omega
    have single := decode?_single high low units
    rwa [Char.ofNat_toNat] at single
  · have high : isHigh (0xD800 + (c.toNat - 0x10000) / 0x400) = true := by
      simp only [isHigh, Bool.and_eq_true, decide_eq_true_eq]
      omega
    have low : isLow (0xDC00 + (c.toNat - 0x10000) % 0x400) = true := by
      simp only [isLow, Bool.and_eq_true, decide_eq_true_eq]
      omega
    have whole : 0x10000 + (0xD800 + (c.toNat - 0x10000) / 0x400 - 0xD800) * 0x400
        + (0xDC00 + (c.toNat - 0x10000) % 0x400 - 0xDC00) = c.toNat := by omega
    have pair := decode?_pair high low units
    rwa [whole, Char.ofNat_toNat] at pair

theorem decode?_flatMap (cs : List Char) : decode? (cs.flatMap Escaped.units) = some cs := by
  induction cs with
  | nil => rfl
  | cons c cs ih =>
      rw [List.flatMap_cons, decode?_units, ih]
      rfl

/-- Every escaped string is read back. -/
theorem readString?_quoted (s : String) (rest : List Char) :
    readString? (Escaped.quoted s.toList ++ rest) = some (s, rest) := by
  show readString? ('"' :: (s.toList.flatMap Escaped.char ++ ['"']) ++ rest) = _
  rw [List.cons_append, List.append_assoc, List.singleton_append, readString?,
    readUnits?_flatMap]
  show (do return (String.ofList (← decode? _), rest)) = _
  rw [decode?_flatMap]
  show some (String.ofList s.toList, rest) = _
  rw [String.ofList_toList]

/-! ## Letters -/

/-- Whether a character is in ASCII. -/
def isAscii (c : Char) : Bool := c.toNat < 128

theorem hexDigit_ascii (n : Nat) : isAscii (Escaped.hexDigit (n % 16)) = true := by
  have all : ∀ d < 16, isAscii (Escaped.hexDigit d) = true := by decide
  exact all _ (Nat.mod_lt n (by decide))

theorem unitEscape_ascii (n : Nat) : ∀ c ∈ Escaped.unitEscape n, isAscii c = true := by
  have digits := hexDigit_ascii
  simp only [Escaped.unitEscape, List.forall_mem_cons]
  exact ⟨rfl, rfl, digits _, digits _, digits _, digits _, List.forall_mem_nil _⟩

theorem char_ascii (c : Char) : ∀ d ∈ Escaped.char c, isAscii d = true := by
  rw [Escaped.char]
  split
  · rename_i letter short
    have letters : ∀ e ∈ Escaped.shortEscapes, isAscii e.2 = true := by decide
    exact List.forall_mem_cons.mpr
      ⟨rfl, List.forall_mem_singleton.mpr (letters _ (mem_of_lookup short))⟩
  · split
    · rename_i plain
      refine List.forall_mem_singleton.mpr (decide_eq_true ?_)
      simp only [Escaped.isPlain, Bool.and_eq_true, decide_eq_true_eq] at plain
      omega
    · intro d mem
      obtain ⟨n, -, mem⟩ := List.mem_flatMap.mp mem
      exact unitEscape_ascii n d mem

/-- Escaped strings are written in ASCII. -/
theorem quoted_ascii (cs : List Char) : ∀ c ∈ Escaped.quoted cs, isAscii c = true := by
  show ∀ c ∈ '"' :: (cs.flatMap Escaped.char ++ ['"']), isAscii c = true
  refine List.forall_mem_cons.mpr ⟨rfl, List.forall_mem_append.mpr ⟨?_, ?_⟩⟩
  · intro d mem
    obtain ⟨c, -, mem⟩ := List.mem_flatMap.mp mem
    exact char_ascii c d mem
  · exact List.forall_mem_singleton.mpr rfl

end ScriptFront.Json
