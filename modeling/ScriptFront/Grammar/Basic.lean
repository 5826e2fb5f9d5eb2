import ScriptFront.Token

/-! # The grammar — symbols, rules and the language's rules

    A rule replaces a nonterminal by a row of symbols.  Its form says what a tree with this rule
    at the root stands for in the program.  Optional parts are written out as one rule for each
    choice, and a part that repeats has a nonterminal of its own which grows to the right.

    Two rules compete on `else`: an `if` without `else` may be followed by one.  Elsewhere the
    grammar is unambiguous. -/

namespace ScriptFront.Grammar

/-- The nonterminals, from the whole text down to the tightest expressions.  The names in `more…`
    stand for the repeated part of a list, separators included. -/
inductive Nonterminal
  | text | program | declarations | declaration
  | classDecl | functions | funDecl | parameters | moreParameters
  | statement | ifStmt | whileStmt | forStmt | forInit | emptyInit | varDecl | exprStmt
  | printStmt | breakStmt | continueStmt | returnStmt | block
  | arguments | moreArguments | expression | assignment | logicOr | logicAnd | equality
  | comparison | term | factor | unary | power | call | primary
deriving DecidableEq, Repr, Inhabited

/-- A terminal is a token kind; `eof` is the end of the text. -/
inductive Symbol
  | terminal (kind : TokenKind)
  | nonterminal (name : Nonterminal)
deriving DecidableEq, Repr, Inhabited

instance : Coe TokenKind Symbol := ⟨.terminal⟩

instance : Coe Nonterminal Symbol := ⟨.nonterminal⟩

/-- What a tree stands for in the program, apart from the value of its subtrees. -/
inductive Form
  | same
  | emptyProgram | oneStatement | moreStatements
  | blockStmt | functionStmt
  | classStmt | oneFunction | moreFunctions | function | names | varStmt
  | exprStmt | printStmt | ifStmt | whileStmt | forStmt | someInit | noInit
  | breakStmt | continueStmt | returnStmt | braced
  | assign | logical | binary | unary | call | get | values
  | literal | this | var | grouping | super | new
deriving DecidableEq, Repr, Inhabited

/-- The nonterminal `left` may be replaced by the row `right`. -/
structure Rule where
  left : Nonterminal
  right : List Symbol
  form : Form
deriving DecidableEq, Repr, Inhabited

end ScriptFront.Grammar

namespace ScriptFront

open Grammar Grammar.Nonterminal TokenKind in
/-- The rules of the language; the first one closes the text with its end. -/
def grammar : List Grammar.Rule :=
  [⟨text, [program, eof], .same⟩,
   -- programs and declarations
   ⟨program, [], .emptyProgram⟩,
   ⟨program, [declarations], .same⟩,
   ⟨declarations, [declaration], .oneStatement⟩,
   ⟨declarations, [declarations, declaration], .moreStatements⟩,
   ⟨declaration, [classDecl], .same⟩,
   ⟨declaration, [funDecl], .functionStmt⟩,
   ⟨declaration, [varDecl], .same⟩,
   ⟨declaration, [statement], .same⟩,
   ⟨classDecl, [kwClass, identifier, leftBrace, rightBrace], .classStmt⟩,
   ⟨classDecl, [kwClass, identifier, leftBrace, functions, rightBrace], .classStmt⟩,
   ⟨classDecl, [kwClass, identifier, kwExtends, identifier, leftBrace, rightBrace], .classStmt⟩,
   ⟨classDecl, [kwClass, identifier, kwExtends, identifier, leftBrace, functions, rightBrace],
     .classStmt⟩,
   ⟨functions, [funDecl], .oneFunction⟩,
   ⟨functions, [functions, funDecl], .moreFunctions⟩,
   ⟨funDecl, [kwDef, identifier, leftParen, rightParen, block], .function⟩,
   ⟨funDecl, [kwDef, identifier, leftParen, parameters, rightParen, block], .function⟩,
   ⟨parameters, [identifier], .names⟩,
   ⟨parameters, [identifier, moreParameters], .names⟩,
   ⟨moreParameters, [comma, identifier], .names⟩,
   ⟨moreParameters, [moreParameters, comma, identifier], .names⟩,
   -- statements
   ⟨statement, [exprStmt], .same⟩,
   ⟨statement, [printStmt], .same⟩,
   ⟨statement, [ifStmt], .same⟩,
   ⟨statement, [whileStmt], .same⟩,
   ⟨statement, [forStmt], .same⟩,
   ⟨statement, [breakStmt], .same⟩,
   ⟨statement, [continueStmt], .same⟩,
   ⟨statement, [returnStmt], .same⟩,
   ⟨statement, [block], .blockStmt⟩,
   ⟨ifStmt, [kwIf, leftParen, expression, rightParen, statement], .ifStmt⟩,
   ⟨ifStmt, [kwIf, leftParen, expression, rightParen, statement, kwElse, statement], .ifStmt⟩,
   ⟨whileStmt, [kwWhile, leftParen, expression, rightParen, statement], .whileStmt⟩,
   ⟨forStmt, [kwFor, leftParen, forInit, semicolon, rightParen, statement], .forStmt⟩,
   ⟨forStmt, [kwFor, leftParen, forInit, expression, semicolon, rightParen, statement],
     .forStmt⟩,
   ⟨forStmt, [kwFor, leftParen, forInit, semicolon, expression, rightParen, statement],
     .forStmt⟩,
   ⟨forStmt,
     [kwFor, leftParen, forInit, expression, semicolon, expression, rightParen, statement],
     .forStmt⟩,
   ⟨forInit, [varDecl], .someInit⟩,
   ⟨forInit, [Nonterminal.exprStmt], .someInit⟩,
   ⟨forInit, [emptyInit], .noInit⟩,
   ⟨emptyInit, [semicolon], .same⟩,
   ⟨varDecl, [kwVar, identifier, semicolon], .varStmt⟩,
   ⟨varDecl, [kwVar, identifier, colon, identifier, semicolon], .varStmt⟩,
   ⟨varDecl, [kwVar, identifier, equal, expression, semicolon], .varStmt⟩,
   ⟨varDecl, [kwVar, identifier, colon, identifier, equal, expression, semicolon], .varStmt⟩,
   ⟨exprStmt, [expression, semicolon], .exprStmt⟩,
   ⟨printStmt, [kwPrint, expression, semicolon], .printStmt⟩,
   ⟨breakStmt, [kwBreak, semicolon], .breakStmt⟩,
   ⟨continueStmt, [kwContinue, semicolon], .continueStmt⟩,
   ⟨returnStmt, [kwReturn, semicolon], .returnStmt⟩,
   ⟨returnStmt, [kwReturn, expression, semicolon], .returnStmt⟩,
   ⟨block, [leftBrace, rightBrace], .braced⟩,
   ⟨block, [leftBrace, declarations, rightBrace], .braced⟩,
   -- expressions, the loosest first
   ⟨arguments, [expression], .values⟩,
   ⟨arguments, [expression, moreArguments], .values⟩,
   ⟨moreArguments, [comma, expression], .values⟩,
   ⟨moreArguments, [moreArguments, comma, expression], .values⟩,
   ⟨expression, [assignment], .same⟩,
   ⟨assignment, [call, equal, assignment], .assign⟩,
   ⟨assignment, [logicOr], .same⟩,
   ⟨logicOr, [logicAnd], .same⟩,
   ⟨logicOr, [logicOr, kwOr, logicAnd], .logical⟩,
   ⟨logicAnd, [equality], .same⟩,
   ⟨logicAnd, [logicAnd, kwAnd, equality], .logical⟩,
   ⟨equality, [comparison], .same⟩,
   ⟨equality, [equality, bangEqual, comparison], .binary⟩,
   ⟨equality, [equality, equalEqual, comparison], .binary⟩,
   ⟨comparison, [term], .same⟩,
   ⟨comparison, [comparison, greater, term], .binary⟩,
   ⟨comparison, [comparison, greaterEqual, term], .binary⟩,
   ⟨comparison, [comparison, less, term], .binary⟩,
   ⟨comparison, [comparison, lessEqual, term], .binary⟩,
   ⟨term, [factor], .same⟩,
   ⟨term, [term, minus, factor], .binary⟩,
   ⟨term, [term, plus, factor], .binary⟩,
   ⟨factor, [unary], .same⟩,
   ⟨factor, [factor, slash, unary], .binary⟩,
   ⟨factor, [factor, star, unary], .binary⟩,
   ⟨unary, [bang, unary], .unary⟩,
   ⟨unary, [minus, unary], .unary⟩,
   ⟨unary, [plusPlus, unary], .unary⟩,
   ⟨unary, [minusMinus, unary], .unary⟩,
   ⟨unary, [power], .same⟩,
   ⟨power, [call], .same⟩,
   ⟨power, [call, starStar, unary], .binary⟩,
   ⟨call, [primary], .same⟩,
   ⟨call, [call, leftParen, rightParen], .call⟩,
   ⟨call, [call, leftParen, arguments, rightParen], .call⟩,
   ⟨call, [call, dot, identifier], .get⟩,
   ⟨primary, [boolean], .literal⟩,
   ⟨primary, [kwNull], .literal⟩,
   ⟨primary, [number], .literal⟩,
   ⟨primary, [string], .literal⟩,
   ⟨primary, [kwThis], .this⟩,
   ⟨primary, [identifier], .var⟩,
   ⟨primary, [leftParen, expression, rightParen], .grouping⟩,
   ⟨primary, [kwSuper, dot, identifier], .super⟩,
   ⟨primary, [kwNew, identifier, leftParen, rightParen], .new⟩,
   ⟨primary, [kwNew, identifier, leftParen, arguments, rightParen], .new⟩]

end ScriptFront
