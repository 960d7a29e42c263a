import Badger.Source.Diagnostic
import Badger.Token.Stream
import Badger.Tree.Basic

/-!
# Parsing

From tokens to trees, by recursive descent. An error inside a declaration is recorded, and
parsing goes on at the next place where a statement may start.

The grammar, from the loosest to the tightest construction:

    program     = declaration*
    declaration = variable | function | statement
    variable    = ("num" | "str" | "bool" | "var") IDENT ("=" expression)? ";"
    function    = "fxn" IDENT "(" (IDENT ("," IDENT)*)? ")" block
    statement   = "return" expression ";" | block | "if" "(" expression ")" statement
                  ("else" statement)? | "while" "(" expression ")" statement | expression ";"
    block       = "{" declaration* "}"
    expression  = IDENT "=" expression | operators
    operators   = one level for each entry of `levels`, left-associative
    unary       = ("!" | "-") unary | call
    call        = primary ("(" (expression ("," expression)*)? ")")*
    primary     = "true" | "false" | NUMBER | STRING | IDENT | "@" IDENT | "(" expression ")"

## Main definitions

* `Parsed`: what a parser makes of tokens, with the tokens left over
* `Parser`, `Recovering`: parsers of expressions, and parsers that record errors on the way
* `Parser.expression`, `Parser.program`: the two entry points on a list of tokens
* `Program`: statements and syntax errors; `Program.ofTokens` reads them

## Design notes

Parsers look at the tokens ahead and at nothing else; positions enter only through the
offsets of tokens. The parsers of `Badger.Tree.Reader` have a cursor in all tokens instead, and
read the same. Each function that may call itself on the same tokens counts down a
budget; the entry points supply more than any input can use, so `Parsed.outOfFuel` never
comes out of them.
-/

namespace Badger

/-- **What a parser makes of tokens.** Both success and failure say which tokens are left;
after a failure they are the tokens that were ahead when it was noticed. -/
inductive Parsed (α : Type) where
  | ok (value : α) (rest : List Token)
  | fail (error : Finding) (rest : List Token)
  | outOfFuel

/-- A parser that stops at the first error. -/
def Parser (α : Type) : Type := List Token → Parsed α

namespace Parser

instance : Monad Parser where
  pure a := fun ts => .ok a ts
  bind p f := fun ts =>
    match p ts with
    | .ok a rest => f a rest
    | .fail e rest => .fail e rest
    | .outOfFuel => .outOfFuel

/-! ### Single tokens -/

/-- The token ahead; where there is none, the end. -/
def current (ts : List Token) : Token := ts.headD (Token.endAt 0)

/-- The tokens after the one ahead; the end is never passed. -/
def advance : List Token → List Token
  | [] => []
  | t :: ts => if t.kind = .eof then t :: ts else ts

/-- The token ahead, left in place. -/
def peek : Parser Token := fun ts => .ok (current ts) ts

/-- The token ahead, consumed unless it is the end. -/
def take : Parser Token := fun ts => .ok (current ts) (advance ts)

/-- No result within the budget. -/
def exhausted {α : Type} : Parser α := fun _ => .outOfFuel

/-- Failure with a problem at a given offset. -/
def failAt {α : Type} (problem : Problem) (offset : Int) : Parser α :=
  fun ts => .fail ⟨problem, offset⟩ ts

/-- Failure because something else was expected here. -/
def failHere {α : Type} (what : Expectation) : Parser α :=
  fun ts => .fail ⟨.expected what, (current ts).offset⟩ ts

/-- Consumes a token of the given kind. -/
def expect (kind : TokenKind) (what : Expectation) : Parser Token := fun ts =>
  if (current ts).kind = kind then take ts else failHere what ts

/-- Consumes a token of the given kind if it is ahead, and says whether it was. -/
def accept (kind : TokenKind) : Parser Bool := fun ts =>
  if (current ts).kind = kind then .ok true (advance ts) else .ok false ts

/-! ### Expressions -/

/-- The binary operators, from the loosest level to the tightest. -/
def levels : List (List TokenKind) :=
  [[.and, .or], [.eq, .neq], [.gt, .gte, .lt, .lte], [.plus, .minus],
    [.star, .slash, .percent]]

/-- The operator that a token denotes; the logical ones have several spellings. -/
def binaryOp (t : Token) : BinaryOp :=
  match t.kind with
  | .and => .and
  | .or => .or
  | _ => BinaryOp.ofLexeme t.lexeme

mutual

/-- An expression: an assignment, or operators. What stands before `=` is read as an
expression first, and must turn out to be a name. -/
def expr : Nat → Parser Expr
  | 0 => exhausted
  | fuel + 1 => do
    let target ← operators fuel levels
    if (← peek).kind = .assign then
      let equals ← take
      let value ← expr fuel
      match target with
      | .ident pos name => pure (.assign pos name value)
      | _ => failAt .invalidTarget equals.offset
    else pure target

/-- Operators of the given levels. -/
def operators : Nat → List (List TokenKind) → Parser Expr
  | 0, _ => exhausted
  | fuel + 1, [] => unary fuel
  | fuel + 1, level :: tighter => do
    let left ← operators fuel tighter
    operatorsAfter fuel level tighter left

/-- Operators of one level after a left operand; they associate to the left. -/
def operatorsAfter : Nat → List TokenKind → List (List TokenKind) → Expr → Parser Expr
  | 0, _, _, _ => exhausted
  | fuel + 1, level, tighter, left => do
    if level.contains (← peek).kind then
      let op ← take
      let right ← operators fuel tighter
      operatorsAfter fuel level tighter (.binary op.offset (binaryOp op) left right)
    else pure left

/-- Unary operators, or a call. -/
def unary : Nat → Parser Expr
  | 0 => exhausted
  | fuel + 1 => do
    let t ← peek
    if t.kind = .bang || t.kind = .minus then
      let op ← take
      let operand ← unary fuel
      pure (.unary op.offset (UnaryOp.ofLexeme op.lexeme) operand)
    else
      let callee ← primary fuel
      calls fuel callee

/-- The argument lists after a callee. -/
def calls : Nat → Expr → Parser Expr
  | 0, _ => exhausted
  | fuel + 1, callee => do
    if (← peek).kind = .lparen then
      let paren ← take
      let args ← if (← peek).kind = .rparen then pure [] else arguments fuel
      let _ ← expect .rparen .parenthesisAfterArguments
      calls fuel (.call paren.offset callee args)
    else pure callee

/-- Expressions separated by commas. -/
def arguments : Nat → Parser (List Expr)
  | 0 => exhausted
  | fuel + 1 => do
    let first ← expr fuel
    if ← accept .comma then
      let others ← arguments fuel
      pure (first :: others)
    else pure [first]

/-- Literals, names and parentheses. -/
def primary : Nat → Parser Expr
  | 0 => exhausted
  | fuel + 1 => do
    let t ← peek
    match t.kind with
    | .falseWord => let _ ← take; pure (.bool t.offset false)
    | .trueWord => let _ ← take; pure (.bool t.offset true)
    | .number => let _ ← take; pure (.num t.offset t.number)
    | .string => let _ ← take; pure (.str t.offset t.lexeme)
    | .ident => let _ ← take; pure (.ident t.offset t.lexeme)
    | .at =>
      let _ ← take
      let name ← expect .ident .symbolName
      pure (.symbol t.offset name.lexeme)
    | .lparen =>
      let _ ← take
      let inner ← expr fuel
      let _ ← expect .rparen .parenthesisAfterExpression
      pure (.group t.offset inner)
    | _ => failHere .expression

end

end Parser

/-! ### Statements -/

/-- A parser that records the errors it recovers from. -/
def Recovering (α : Type) : Type := List Token → Parsed α × List Finding

namespace Recovering

instance : Monad Recovering where
  pure a := fun ts => (.ok a ts, [])
  bind p f := fun ts =>
    match p ts with
    | (.ok a rest, log) =>
      let (result, more) := f a rest
      (result, log ++ more)
    | (.fail e rest, log) => (.fail e rest, log)
    | (.outOfFuel, log) => (.outOfFuel, log)

/-- A parser that records nothing. -/
def ofParser {α : Type} (p : Parser α) : Recovering α := fun ts => (p ts, [])

instance {α : Type} : Coe (Parser α) (Recovering α) := ⟨ofParser⟩

instance : MonadLift Parser Recovering := ⟨ofParser⟩

/-- Whether a statement may start with a token of this kind, so that recovery stops
before it. -/
def startsStatement : TokenKind → Bool
  | .fxn | .ifWord | .whileWord | .returnWord | .num | .str | .bool | .var => true
  | _ => false

/-- Passes over tokens until a semicolon has been passed or a statement may start. -/
def skipAfter (previous : TokenKind) : List Token → List Token
  | [] => []
  | t :: ts =>
    if t.kind = .eof || previous = .semi || startsStatement t.kind then t :: ts
    else skipAfter t.kind ts

/-- **Recovery.** Passes over the offending token and then to the next boundary between
statements. -/
def synchronize : List Token → List Token
  | [] => []
  | t :: ts => if t.kind = .eof then t :: ts else skipAfter t.kind ts

/-- Records the failure of a declaration, leaves a missing statement in its place, and
goes on at the next boundary. -/
def recover (p : Recovering Stmt) : Recovering Stmt := fun ts =>
  match p ts with
  | (.ok s rest, log) => (.ok s rest, log)
  | (.fail e rest, log) => (.ok .missing (synchronize rest), log ++ [e])
  | (.outOfFuel, log) => (.outOfFuel, log)

/-- The value of a variable that is declared without one. -/
def zeroValue (type : DeclaredType) (pos : Int) : Expr :=
  match type with
  | .bool => .bool pos false
  | .str => .str pos []
  | _ => .num pos 0

/-- A variable declaration. -/
def variableDeclaration (fuel : Nat) : Parser Stmt := do
  let type := DeclaredType.ofName (← Parser.take).lexeme
  let name ← Parser.expect .ident .variableName
  let init ← if ← Parser.accept .assign then Parser.expr fuel
    else pure (zeroValue type name.offset)
  let _ ← Parser.expect .semi .semicolonAfterDeclaration
  pure (.declare name.offset type name.lexeme init)

/-- Names separated by commas. -/
def parameters : Nat → Parser (List Text)
  | 0 => Parser.exhausted
  | fuel + 1 => do
    let first ← Parser.expect .ident .parameterName
    if ← Parser.accept .comma then
      let others ← parameters fuel
      pure (first.lexeme :: others)
    else pure [first.lexeme]

/-- The head of a function declaration, up to and including the opening brace: the name
and the parameters. -/
def functionHead (fuel : Nat) : Parser (Token × List Text) := do
  let _ ← Parser.take
  let name ← Parser.expect .ident .functionName
  let _ ← Parser.expect .lparen .parenthesisAfterFunctionName
  let params ← if (← Parser.peek).kind = .rparen then pure [] else parameters fuel
  let _ ← Parser.expect .rparen .parenthesisAfterParameters
  let _ ← Parser.expect .lbrace .functionBody
  pure (name, params)

/-- The keyword and the condition of an `if` or a `while`. -/
def condition (fuel : Nat) (opening : Expectation) : Parser (Token × Expr) := do
  let keyword ← Parser.take
  let _ ← Parser.expect .lparen opening
  let cond ← Parser.expr fuel
  let _ ← Parser.expect .rparen .parenthesisAfterCondition
  pure (keyword, cond)

/-- A return statement. -/
def returnStatement (fuel : Nat) : Parser Stmt := do
  let keyword ← Parser.take
  let value ← Parser.expr fuel
  let _ ← Parser.expect .semi .semicolonAfterValue
  pure (.ret keyword.offset value)

/-- An expression statement. -/
def exprStatement (fuel : Nat) : Parser Stmt := do
  let first ← Parser.peek
  let e ← Parser.expr fuel
  let _ ← Parser.expect .semi .semicolonAfterValue
  pure (.expr first.offset e)

mutual

/-- A declaration, or a missing statement and a recorded error. -/
def declaration : Nat → Recovering Stmt
  | 0 => Parser.exhausted
  | fuel + 1 => recover do
    let t ← Parser.peek
    if t.kind.isType then variableDeclaration fuel
    else if t.kind = .fxn then
      let (name, params) ← functionHead fuel
      let body ← block fuel
      pure (.fxn name.offset name.lexeme params body)
    else statement fuel

/-- A statement that is no declaration. -/
def statement : Nat → Recovering Stmt
  | 0 => Parser.exhausted
  | fuel + 1 => do
    let t ← Parser.peek
    match t.kind with
    | .returnWord => returnStatement fuel
    | .lbrace =>
      let brace ← Parser.take
      let body ← block fuel
      pure (.block brace.offset body)
    | .ifWord =>
      let (keyword, cond) ← condition fuel .parenthesisAfterIf
      let yes ← statement fuel
      if ← Parser.accept .elseWord then
        let no ← statement fuel
        pure (.ifElse keyword.offset cond yes no)
      else pure (.ifThen keyword.offset cond yes)
    | .whileWord =>
      let (keyword, cond) ← condition fuel .parenthesisAfterWhile
      let body ← statement fuel
      pure (.loop keyword.offset cond body)
    | _ => exprStatement fuel

/-- Declarations up to and including the closing brace; those that failed are left out. -/
def block : Nat → Recovering (List Stmt)
  | 0 => Parser.exhausted
  | fuel + 1 => do
    let t ← Parser.peek
    if t.kind = .rbrace || t.kind = .eof then
      let _ ← Parser.expect .rbrace .braceAfterBlock
      pure []
    else
      let first ← declaration fuel
      let others ← block fuel
      pure (if first.isMissing then others else first :: others)

end

/-- Declarations up to the end of the tokens; those that failed are missing statements. -/
def declarations : Nat → Recovering (List Stmt)
  | 0 => Parser.exhausted
  | fuel + 1 => do
    if (← Parser.peek).kind = .eof then pure []
    else
      let first ← declaration fuel
      let others ← declarations fuel
      pure (first :: others)

end Recovering

/-! ### Entry points -/

namespace Parser

/-- A budget that parsing these tokens cannot use up. -/
def budget (ts : List Token) : Nat := 16 * (ts.length + 2)

/-- The tokens with an end token supplied if they lack one, at the offset of the last
token. -/
def complete (ts : List Token) : List Token :=
  match ts.getLast? with
  | none => [Token.endAt 0]
  | some last => if last.kind = .eof then ts else ts ++ [Token.endAt last.offset]

/-- The completed tokens from the position `start` on; a position outside the list is that
of the last token. -/
def startAt (ts : List Token) (start : Int) : List Token :=
  let all := complete ts
  if start < 0 || (all.length : Int) ≤ start then all.drop (all.length - 1)
  else all.drop start.toNat

/-- **An expression** at the front of tokens; what follows it is ignored. -/
def expression (ts : List Token) : Parsed Expr := expr (budget ts) ts

/-- **A program**: all declarations of a list of tokens, and the errors on the way. -/
def program (ts : List Token) : Parsed (List Stmt) × List Finding :=
  Recovering.declarations (budget ts) ts

end Parser

/-- **A program as read.** Its statements, missing ones where recovery took place, and the
syntax errors in the order in which they were recorded. -/
structure Program where
  stmts : List Stmt
  errors : List Finding

namespace Program

/-- The program that a list of tokens holds from the position `start` on. -/
def ofTokens (ts : List Token) (start : Int) : Program :=
  match Parser.program (Parser.startAt ts start) with
  | (.ok stmts _, errors) => ⟨stmts, errors⟩
  | (.fail e _, errors) => ⟨[], errors ++ [e]⟩
  | (.outOfFuel, errors) => ⟨[], errors⟩

/-- The syntax errors of a program, placed by the line breaks of its text. -/
def diagnostics (p : Program) (lines : LineTable) : List Diagnostic :=
  p.errors.map (Finding.diagnostic lines)

end Program

end Badger
