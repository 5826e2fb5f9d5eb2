import ScriptFront.Problem
import ScriptFront.Program.Building

/-! # Parsing — from tokens to programs

    Comments and end tokens are passed over; what is left must be a text of the grammar.  A token
    that is refused is reported at its place, an early end at the place of the last token given.
    Only a text that is read to its end is looked at for invalid targets. -/

namespace ScriptFront

/-- The automaton of the language. -/
def automaton : Grammar.Automaton := .ofRules grammar

/-- Whether the grammar looks at a token. -/
def Token.isSignificant (t : Token) : Bool :=
  t.kind ≠ .comment && t.kind ≠ .eof

/-- The place at which an early end is reported. -/
def endPosition (tokens : List Token) : Position :=
  (tokens.getLast?.map Token.position).getD .origin

/-- The program that some tokens form. -/
def parse (tokens : List Token) : Except Problem Program :=
  match automaton.read [] (tokens.filter Token.isSignificant) with
  | .accepted tree =>
    match tree.toProgram with
    | .ok p => .ok p
    | .error (.invalidTarget equal) => .error (.ofCause .invalidTarget equal.position)
    | .error .malformed => .error (.ofCause (.general "malformed tree" none) .origin)
  | .refused (t :: _) expected =>
    .error (.ofCause (.unexpectedToken t.lexeme expected) t.position)
  | .refused [] expected => .error (.ofCause (.unexpectedEnd expected) (endPosition tokens))
  | .stuck => .error (.ofCause (.general "stuck" none) .origin)

end ScriptFront
