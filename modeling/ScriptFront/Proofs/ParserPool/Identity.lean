import Mathlib.Data.Nat.Init
import ScriptFront.ParserPool

/-! # Identity — which of the parsers that a pool hands out are the same

    What one request can do to a pool is said once (`perform_cases`), and an invariant that a
    request keeps holds through any part of a history that is made of such requests
    (`holds_before`).  The parser that is kept stays until the pool is cleared (`kept_perform`), and
    a parser that is built and not kept is never handed out again (`Retired.perform`); so two
    parsers for everyday use are the same exactly if the pool is not cleared between them, and one
    for debugging is no other (`parsers_follow_history`). -/

namespace ScriptFront.ParserPool

/-- The parser that an answer hands out. -/
def Answer.number? : Answer → Option Nat
  | parser number _ _ => some number
  | cleared => none

/-- Whether the grammar is read for an answer. -/
def Answer.readsGrammar : Answer → Bool
  | parser _ _ readsGrammar => readsGrammar
  | cleared => false

/-! ## One request -/

/-- A request clears the pool, or hands out the parser that is kept, or builds one. -/
theorem perform_cases (p : ParserPool) (r : Request) :
    (r = .clear ∧ p.perform r = (.cleared, { p with grammarRead := false, kept := none }))
    ∨ (∃ n, r = .create false ∧ p.kept = some n ∧ p.perform r = (.parser n false false, p))
    ∨ ∃ debug, r = .create debug ∧ (debug = false → p.kept = none)
      ∧ p.perform r = p.build debug := by
  cases r with
  | clear => exact Or.inl ⟨rfl, rfl⟩
  | create debug =>
      cases debug with
      | true => exact Or.inr (Or.inr ⟨true, rfl, nofun, rfl⟩)
      | false =>
          cases kept : p.kept with
          | none =>
              refine Or.inr (Or.inr ⟨false, rfl, fun _ => rfl, ?_⟩)
              simp only [perform, kept]
          | some n =>
              refine Or.inr (Or.inl ⟨n, rfl, rfl, ?_⟩)
              simp only [perform, kept]

/-- A pool that is in order keeps only a parser that was built, and for that it has read the
    grammar. -/
structure Sound (p : ParserPool) : Prop where
  built : ∀ n, p.kept = some n → n < p.built
  read : ∀ n, p.kept = some n → p.grammarRead = true

/-- A pool is in order after a request. -/
theorem Sound.perform {p : ParserPool} (h : p.Sound) (r : Request) : (p.perform r).2.Sound := by
  rcases p.perform_cases r with ⟨-, done⟩ | ⟨n, -, -, done⟩ | ⟨debug, -, -, done⟩
  · rw [done]
    exact ⟨nofun, nofun⟩
  · rwa [done]
  · rw [done]
    refine ⟨fun n kept => ?_, fun _ _ => rfl⟩
    cases debug with
    | true => exact Nat.lt_succ_of_lt (h.built n kept)
    | false =>
        cases kept
        exact Nat.lt_succ_self p.built

/-- Whoever asks for a parser gets one. -/
theorem exists_number (p : ParserPool) (debug : Bool) :
    ∃ n, (p.perform (.create debug)).1.number? = some n := by
  rcases p.perform_cases (.create debug) with ⟨clear, -⟩ | ⟨n, -, -, done⟩ | ⟨_, -, -, done⟩
  · cases clear
  · rw [done]
    exact ⟨n, rfl⟩
  · rw [done]
    exact ⟨p.built, rfl⟩

/-- A parser that is handed out has been built. -/
theorem Sound.number_lt {p : ParserPool} (h : p.Sound) {r : Request} {n : Nat}
    (out : (p.perform r).1.number? = some n) : n < (p.perform r).2.built := by
  rcases p.perform_cases r with ⟨-, done⟩ | ⟨m, -, kept, done⟩ | ⟨debug, -, -, done⟩
  · rw [done] at out
    cases out
  · rw [done] at out ⊢
    cases out
    exact h.built n kept
  · rw [done] at out ⊢
    cases out
    exact Nat.lt_succ_self p.built

/-- What has been built stays built. -/
theorem built_le (p : ParserPool) (r : Request) : p.built ≤ (p.perform r).2.built := by
  rcases p.perform_cases r with ⟨-, done⟩ | ⟨n, -, -, done⟩ | ⟨debug, -, -, done⟩
  · simp only [done, Nat.le_refl]
  · simp only [done, Nat.le_refl]
  · rw [done]
    exact Nat.le_succ p.built

/-! ## The parser that is kept -/

/-- A parser for everyday use is kept. -/
theorem kept_create {p : ParserPool} {n : Nat}
    (out : (p.perform (.create false)).1.number? = some n) :
    (p.perform (.create false)).2.kept = some n := by
  rcases p.perform_cases (.create false) with
    ⟨clear, -⟩ | ⟨m, -, kept, done⟩ | ⟨debug, same, -, done⟩
  · cases clear
  · rw [done] at out ⊢
    exact kept.trans out
  · cases same
    rw [done] at out ⊢
    exact out

/-- A parser for everyday use is the one that is kept, if there is one. -/
theorem number_of_kept {p : ParserPool} {n : Nat} (kept : p.kept = some n) :
    (p.perform (.create false)).1.number? = some n := by
  rcases p.perform_cases (.create false) with
    ⟨clear, -⟩ | ⟨m, -, kept', done⟩ | ⟨debug, same, new, -⟩
  · cases clear
  · rw [done]
    exact kept'.symm.trans kept
  · cases same
    cases kept.symm.trans (new rfl)

/-- The parser that is kept stays unless the pool is cleared. -/
theorem kept_perform {p : ParserPool} {r : Request} {n : Nat} (other : r ≠ .clear)
    (kept : p.kept = some n) : (p.perform r).2.kept = some n := by
  rcases p.perform_cases r with ⟨clear, -⟩ | ⟨m, -, -, done⟩ | ⟨debug, -, new, done⟩
  · exact absurd clear other
  · rwa [done]
  · rw [done]
    cases debug with
    | true => exact kept
    | false => cases kept.symm.trans (new rfl)

/-- A parser for debugging leaves the one that is kept in its place. -/
theorem kept_debug (p : ParserPool) : (p.perform (.create true)).2.kept = p.kept := rfl

/-! ## Parsers that are not handed out again -/

/-- A parser that was built and is not kept. -/
def Retired (p : ParserPool) (n : Nat) : Prop := n < p.built ∧ p.kept ≠ some n

/-- A parser that is not kept is not handed out, and it does not come back. -/
theorem Retired.perform {p : ParserPool} {n : Nat} (h : p.Retired n) (r : Request) :
    (p.perform r).2.Retired n ∧ (p.perform r).1.number? ≠ some n := by
  obtain ⟨built, other⟩ := h
  rcases p.perform_cases r with ⟨-, done⟩ | ⟨m, -, kept, done⟩ | ⟨debug, -, -, done⟩
  · rw [done]
    exact ⟨⟨built, nofun⟩, nofun⟩
  · rw [done]
    exact ⟨⟨built, other⟩, fun out => other (kept.trans out)⟩
  · rw [done]
    have new : some p.built ≠ some n := fun same => Nat.ne_of_gt built (Option.some.inj same)
    refine ⟨⟨Nat.lt_succ_of_lt built, ?_⟩, new⟩
    cases debug with
    | true => exact other
    | false => exact new

/-- A parser for debugging is new, and not kept. -/
theorem Sound.retired_debug {p : ParserPool} (h : p.Sound) {n : Nat}
    (out : (p.perform (.create true)).1.number? = some n) :
    n = p.built ∧ (p.perform (.create true)).2.Retired n := by
  have new : p.built = n := Option.some.inj out
  refine ⟨new.symm, h.number_lt out, fun kept => ?_⟩
  rw [kept_debug] at kept
  exact Nat.ne_of_lt (h.built n kept) new.symm

/-- No parser is kept in a pool that is cleared. -/
theorem retired_clear {p : ParserPool} {n : Nat} (built : n < p.built) :
    (p.perform .clear).2.Retired n :=
  ⟨built, nofun⟩

/-! ## The grammar -/

/-- After a parser was handed out the grammar has been read. -/
theorem Sound.read_create {p : ParserPool} (h : p.Sound) (debug : Bool) :
    (p.perform (.create debug)).2.grammarRead = true := by
  rcases p.perform_cases (.create debug) with ⟨clear, -⟩ | ⟨n, -, kept, done⟩ | ⟨_, -, -, done⟩
  · cases clear
  · rw [done]
    exact h.read n kept
  · rw [done]
    rfl

/-- The grammar stays read unless the pool is cleared. -/
theorem read_perform {p : ParserPool} {r : Request} (other : r ≠ .clear)
    (read : p.grammarRead = true) : (p.perform r).2.grammarRead = true := by
  rcases p.perform_cases r with ⟨clear, -⟩ | ⟨n, -, -, done⟩ | ⟨debug, -, -, done⟩
  · exact absurd clear other
  · rwa [done]
  · rw [done]
    rfl

/-- The grammar is read for a parser exactly if it has not been read. -/
theorem Sound.readsGrammar_create {p : ParserPool} (h : p.Sound) (debug : Bool) :
    (p.perform (.create debug)).1.readsGrammar = !p.grammarRead := by
  rcases p.perform_cases (.create debug) with ⟨clear, -⟩ | ⟨n, -, kept, done⟩ | ⟨_, -, -, done⟩
  · cases clear
  · rw [done, h.read n kept]
    rfl
  · rw [done]
    rfl

/-! ## Histories -/

/-- The pool that the request at a place finds: those before it have been performed. -/
def before (p : ParserPool) (rs : List Request) (i : Nat) : ParserPool :=
  (rs.take i).foldl (fun p r => (p.perform r).2) p

section

variable {p : ParserPool} {rs : List Request} {i j : Nat}

theorem before_succ {r : Request} (here : rs[i]? = some r) :
    p.before rs (i + 1) = ((p.before rs i).perform r).2 := by
  rw [before, List.take_add_one, here, List.foldl_append]
  rfl

theorem before_succ_of_none (here : rs[i]? = none) : p.before rs (i + 1) = p.before rs i := by
  rw [before, List.take_add_one, here, Option.toList_none, List.append_nil]
  rfl

/-- Each request is answered by the pool that it finds. -/
theorem getElem?_performAll (p : ParserPool) (rs : List Request) (i : Nat) :
    (p.performAll rs)[i]? = rs[i]?.map fun r => ((p.before rs i).perform r).1 := by
  induction rs generalizing p i with
  | nil => rfl
  | cons r rs ih =>
      cases i with
      | zero => rfl
      | succ i => exact ih (p.perform r).2 i

/-- What the requests from one place to another keep holds at the second if it holds at
    the first. -/
theorem holds_before {I : ParserPool → Prop} {allowed : Request → Prop}
    (step : ∀ q r, allowed r → I q → I (q.perform r).2) (le : i ≤ j)
    (between : ∀ k r, i ≤ k → k < j → rs[k]? = some r → allowed r) (first : I (p.before rs i)) :
    I (p.before rs j) := by
  induction j, le using Nat.le_induction with
  | base => exact first
  | succ j le ih =>
      have last := ih fun k r le lt => between k r le (Nat.lt_succ_of_lt lt)
      cases here : rs[j]? with
      | none => rwa [before_succ_of_none here]
      | some r =>
          rw [before_succ here]
          exact step _ r (between j r le (Nat.lt_succ_self j) here) last

/-- What every request keeps holds from one place on if it holds there. -/
theorem holds_before_always {I : ParserPool → Prop} (step : ∀ q r, I q → I (q.perform r).2)
    (le : i ≤ j) (first : I (p.before rs i)) : I (p.before rs j) :=
  holds_before (fun q r _ => step q r) le (fun _ _ _ _ _ => trivial) first

/-- What every request but clearing keeps holds as long as the pool is not cleared. -/
theorem holds_until_clear {I : ParserPool → Prop}
    (step : ∀ q r, r ≠ .clear → I q → I (q.perform r).2) (le : i ≤ j)
    (uncleared : ∀ k, i ≤ k → k < j → rs[k]? ≠ some .clear) (first : I (p.before rs i)) :
    I (p.before rs j) := by
  refine holds_before step le (fun k r after until' here => ?_) first
  rintro rfl
  exact uncleared k after until' here

/-- A pool stays in order. -/
theorem Sound.before (sound : p.Sound) (i : Nat) : (p.before rs i).Sound :=
  holds_before_always (fun _ r h => h.perform r) (Nat.zero_le i) sound

/-- The parser that is handed out at a place. -/
def numberAt? (p : ParserPool) (rs : List Request) (i : Nat) : Option Nat :=
  (p.performAll rs)[i]?.bind Answer.number?

theorem numberAt?_eq {r : Request} (here : rs[i]? = some r) :
    p.numberAt? rs i = ((p.before rs i).perform r).1.number? := by
  rw [numberAt?, getElem?_performAll, here]
  rfl

/-- A parser that is handed out anywhere before a place has been built there. -/
theorem Sound.numberAt?_lt (sound : p.Sound) (lt : i < j) {n : Nat}
    (out : p.numberAt? rs i = some n) : n < (p.before rs j).built := by
  cases here : rs[i]? with
  | none =>
      rw [numberAt?, getElem?_performAll, here] at out
      cases out
  | some r =>
      rw [numberAt?_eq here] at out
      have built := (sound.before i).number_lt out
      rw [← before_succ here] at built
      exact holds_before_always (I := fun q => n < q.built)
        (fun q r h => Nat.lt_of_lt_of_le h (q.built_le r)) lt built

/-- A parser that is not kept is not handed out from then on. -/
theorem Retired.numberAt?_ne {n : Nat} (h : (p.before rs i).Retired n) (le : i ≤ j) :
    p.numberAt? rs j ≠ some n := by
  have still : (p.before rs j).Retired n :=
    holds_before_always (I := fun q => q.Retired n) (fun _ r h => (h.perform r).1) le h
  cases here : rs[j]? with
  | none =>
      rw [numberAt?, getElem?_performAll, here]
      exact nofun
  | some r =>
      rw [numberAt?_eq here]
      exact (still.perform r).2

/-- Two parsers for everyday use are the same exactly if the pool is not cleared between them. -/
theorem Sound.numberAt?_eq_iff (sound : p.Sound) (lt : i < j)
    (first : rs[i]? = some (.create false))
    (second : rs[j]? = some (.create false)) :
    p.numberAt? rs i = p.numberAt? rs j ↔ ∀ k, i < k → k < j → rs[k]? ≠ some .clear := by
  obtain ⟨n, out⟩ := exists_number (p.before rs i) false
  have number : p.numberAt? rs i = some n := (numberAt?_eq first).trans out
  constructor
  · -- what is kept when the pool is cleared is retired, and so not handed out later
    intro same k after until' clear
    have built := sound.numberAt?_lt after number
    have retired : (p.before rs (k + 1)).Retired n := by
      rw [before_succ clear]
      exact retired_clear built
    exact retired.numberAt?_ne until' (same.symm.trans number)
  · intro uncleared
    have kept : (p.before rs (i + 1)).kept = some n := by
      rw [before_succ first]
      exact kept_create out
    have still : (p.before rs j).kept = some n :=
      holds_until_clear (I := fun q => q.kept = some n) (fun q r => kept_perform) lt uncleared kept
    rw [number, numberAt?_eq second, number_of_kept still]

/-- A parser for debugging is handed out nowhere else. -/
theorem Sound.numberAt?_debug_ne (sound : p.Sound) (other : i ≠ j)
    (here : rs[i]? = some (.create true)) : p.numberAt? rs i ≠ p.numberAt? rs j := by
  obtain ⟨n, out⟩ := exists_number (p.before rs i) true
  obtain ⟨new, retired⟩ := (sound.before i).retired_debug out
  rw [numberAt?_eq here, out]
  intro same
  -- later on it is retired; earlier it was not yet built
  rcases Nat.lt_or_gt_of_ne other with later | earlier
  · rw [← before_succ here] at retired
    exact retired.numberAt?_ne later same.symm
  · have built := sound.numberAt?_lt earlier same.symm
    exact Nat.ne_of_lt built new

/-- The grammar has been read exactly if a parser was handed out since the pool was cleared last. -/
theorem Sound.grammarRead_before_iff (sound : p.Sound) (unread : p.grammarRead = false) :
    (p.before rs j).grammarRead = true ↔ ∃ i debug, i < j ∧ rs[i]? = some (.create debug)
      ∧ ∀ k, i < k → k < j → rs[k]? ≠ some .clear := by
  constructor
  · -- the pool is new at first; then the last request decides, or leaves it to those before
    intro read
    induction j with
    | zero => cases unread.symm.trans read
    | succ j ih =>
        cases here : rs[j]? with
        | none =>
            rw [before_succ_of_none here] at read
            obtain ⟨i, debug, lt, created, uncleared⟩ := ih read
            refine ⟨i, debug, Nat.lt_succ_of_lt lt, created, fun k after until' clear => ?_⟩
            rcases Nat.lt_succ_iff_lt_or_eq.mp until' with earlier | rfl
            · exact uncleared k after earlier clear
            · cases here.symm.trans clear
        | some r =>
            cases r with
            | clear =>
                rw [before_succ here] at read
                cases read
            | create debug =>
                refine ⟨j, debug, Nat.lt_succ_self j, here, fun k after until' => ?_⟩
                omega
  · rintro ⟨i, debug, lt, created, uncleared⟩
    have read : (p.before rs (i + 1)).grammarRead = true := by
      rw [before_succ created]
      exact (sound.before i).read_create debug
    exact holds_until_clear (I := fun q => q.grammarRead = true) (fun q r => read_perform) lt
      uncleared read

/-- The grammar is read for a parser exactly if none was handed out since the pool was cleared
    last. -/
theorem Sound.readsGrammar_iff (sound : p.Sound) (unread : p.grammarRead = false) :
    (∃ a, (p.performAll rs)[j]? = some a ∧ a.readsGrammar = true)
      ↔ (∃ debug, rs[j]? = some (.create debug))
        ∧ ∀ i debug, i < j → rs[i]? = some (.create debug) →
          ∃ k, i < k ∧ k < j ∧ rs[k]? = some .clear := by
  have pool : (p.before rs j).grammarRead = true ↔ _ := sound.grammarRead_before_iff unread
  rw [getElem?_performAll]
  constructor
  · rintro ⟨a, answered, reads⟩
    obtain ⟨r, here, rfl⟩ := Option.map_eq_some_iff.mp answered
    cases r with
    | clear => cases reads
    | create debug =>
        rw [(sound.before j).readsGrammar_create, Bool.not_eq_true'] at reads
        refine ⟨⟨debug, here⟩, fun i debug' lt created => ?_⟩
        refine Classical.byContradiction fun uncleared => ?_
        have read := pool.mpr ⟨i, debug', lt, created,
          fun k after until' clear => uncleared ⟨k, after, until', clear⟩⟩
        cases reads.symm.trans read
  · rintro ⟨⟨debug, here⟩, cleared⟩
    refine ⟨_, congrArg (Option.map _) here, ?_⟩
    rw [(sound.before j).readsGrammar_create, Bool.not_eq_true', ← Bool.not_eq_true]
    intro read
    obtain ⟨i, debug', lt, created, uncleared⟩ := pool.mp read
    obtain ⟨k, after, until', clear⟩ := cleared i debug' lt created
    exact uncleared k after until' clear

end

/-- Whoever asks a new pool for a parser gets one.  Two parsers for everyday use are the same
    exactly if the pool is not cleared between them.  A parser for debugging is handed out nowhere
    else, and the parser that is kept stays in its place.  The grammar is read for the first parser
    of all and for the first after the pool was cleared, of whichever kind, and for no other. -/
theorem parsers_follow_history (path : String) (rs : List Request) :
    let p : ParserPool := { grammarPath := path }
    (∀ i debug, rs[i]? = some (.create debug) → ∃ n, p.numberAt? rs i = some n)
    ∧ (∀ i j, i < j → rs[i]? = some (.create false) → rs[j]? = some (.create false) →
        (p.numberAt? rs i = p.numberAt? rs j ↔ ∀ k, i < k → k < j → rs[k]? ≠ some .clear))
    ∧ (∀ i, rs[i]? = some (.create true) →
        (∀ j, i ≠ j → p.numberAt? rs i ≠ p.numberAt? rs j)
        ∧ (p.before rs (i + 1)).kept = (p.before rs i).kept)
    ∧ ∀ j : Nat, (∃ a, (p.performAll rs)[j]? = some a ∧ a.readsGrammar = true)
        ↔ (∃ debug, rs[j]? = some (.create debug))
          ∧ ∀ i debug, i < j → rs[i]? = some (.create debug) →
            ∃ k, i < k ∧ k < j ∧ rs[k]? = some .clear := by
  intro p
  have sound : p.Sound := ⟨nofun, nofun⟩
  refine ⟨fun i debug here => ?_, fun i j => sound.numberAt?_eq_iff,
    fun i here => ⟨fun j other => ?_, ?_⟩, fun j => sound.readsGrammar_iff rfl⟩
  · rw [numberAt?_eq here]
    exact exists_number _ debug
  · exact sound.numberAt?_debug_ne other here
  · rw [before_succ here, kept_debug]

/-- A parser for debugging comes between two requests for the same parser, and is the first after
    the pool is cleared; the next one for everyday use is new, but the grammar is not read
    for it. -/
theorem cleared_pool_builds_anew :
    let p : ParserPool := { grammarPath := "grammar" }
    let rs : List Request :=
      [.create false, .create true, .create false, .clear, .create true, .create false]
    p.numberAt? rs 0 = p.numberAt? rs 2
    ∧ p.numberAt? rs 2 ≠ p.numberAt? rs 5
    ∧ p.numberAt? rs 1 ≠ p.numberAt? rs 4
    ∧ (p.before rs 5).kept = none
    ∧ (∃ a, (p.performAll rs)[4]? = some a ∧ a.readsGrammar = true)
    ∧ ¬ ∃ a, (p.performAll rs)[5]? = some a ∧ a.readsGrammar = true := by
  intro p rs
  obtain ⟨-, same, debug, grammar⟩ := parsers_follow_history "grammar" rs
  refine ⟨?_, fun again => ?_, (debug 1 rfl).1 4 (by decide), (debug 4 rfl).2, ?_, fun reads => ?_⟩
  · refine (same 0 2 (by decide) rfl rfl).mpr fun k after before => ?_
    obtain rfl : k = 1 := by omega
    decide
  · exact (same 2 5 (by decide) rfl rfl).mp again 3 (by decide) (by decide) rfl
  · refine (grammar 4).mpr ⟨⟨true, rfl⟩, fun i debug before created => ?_⟩
    rcases Nat.lt_or_eq_of_le (Nat.le_of_lt_succ before) with earlier | rfl
    · exact ⟨3, earlier, by decide, rfl⟩
    · cases created
  · obtain ⟨k, after, before, clear⟩ := ((grammar 5).mp reads).2 4 true (by decide) rfl
    omega

end ScriptFront.ParserPool
