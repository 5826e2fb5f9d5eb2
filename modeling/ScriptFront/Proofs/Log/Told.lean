import ScriptFront.Log.Logged
import ScriptFront.Proofs.Token.Rescanning

/-! # What a logged program tells — results and records, whatever the routing

    A program of the front end delivers its records one by one, while it works.  Here each program
    gets one lemma that says what it comes to, which parsers it leaves and what it tells; none of
    this may depend on where the log goes, and the lemmas are assembled as the programs are. -/

namespace ScriptFront.Log

open Activity

variable {α β : Type} {p p' p'' : ParserPool} {rs rs' : List Record}

/-- Records are delivered one after the other. -/
theorem Routing.deliverAll_append (t : Routing) (rs rs' : List Record) :
    t.deliverAll (rs ++ rs') = (t.deliverAll rs).deliverAll rs' :=
  List.foldl_append

/-- With the parsers of a pool, a program comes to a result, leaves the parsers of another pool and
    delivers some records, whatever the routing. -/
def Tells (p : ParserPool) (m : Logged α) (a : α) (p' : ParserPool) (rs : List Record) : Prop :=
  ∀ t, m.run ⟨p, t⟩ = (a, ⟨p', t.deliverAll rs⟩)

namespace Tells

/-! ## Programs in sequence -/

/-- A program that does nothing tells nothing. -/
theorem pure (p : ParserPool) (a : α) : Tells p (Pure.pure a) a p [] := fun _ => rfl

/-- Programs in sequence tell what the one tells and then what the other does. -/
theorem bind {m : Logged α} {f : α → Logged β} {a : α} {b : β} (first : Tells p m a p' rs)
    (second : Tells p' (f a) b p'' rs') : Tells p (m >>= f) b p'' (rs ++ rs') := by
  intro t
  rw [StateT.run_bind, first t, Routing.deliverAll_append]
  exact second (t.deliverAll rs)

/-- What is made of the result of a program tells nothing more. -/
theorem map {m : Logged α} {a : α} (first : Tells p m a p' rs) (f : α → β) :
    Tells p (do let x ← m; Pure.pure (f x)) (f a) p' rs := by
  have both := first.bind (f := fun x => Pure.pure (f x)) (.pure p' (f a))
  rwa [List.append_nil] at both

end Tells

namespace Logged

/-! ## Records -/

end Logged

open Logged

/-! ## Activities -/

end ScriptFront.Log
