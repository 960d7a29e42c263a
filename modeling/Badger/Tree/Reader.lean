import Badger.Tree.Parser

/-!
# Parsing with a cursor

The parser as a machine: an array of tokens, the place in it that is read next, and the errors that
were recorded so far. It looks at the token at the cursor and, in recovery, at the one before it.
The parsers of `Badger.Tree.Parser` are given the tokens ahead instead; both read the same.

## Main definitions

* `Reader`: tokens, cursor and errors
* `Reading`: what is done with a reader
* `Reading.current`, `Reading.previous`, `Reading.next`: the cursor
* `Reading.synchronize`: recovery
* `Reading.expr`, `Reading.declarations`: expressions and programs
* `Reader.newAt`, `Reader.parseProgram`, `Reader.parseExpression`: the entry points

## Design notes

Looking for a token where there is none stops a reader for good, as does running out of the budget;
neither can be recovered from, and neither ever happens.
-/

namespace Badger

/-- **A reader.** -/
structure Reader where
  tokens : Array Token
  /-- The place of the token that is read next. -/
  cursor : Nat
  /-- The errors recorded so far, first one first. -/
  errors : List Finding := []

/-- **Why reading stops.** -/
inductive Stop where
  /-- Something is wrong with what is read. -/
  | failed (error : Finding)
  /-- There is no token at this place. -/
  | outside (place : Nat)
  | outOfFuel

/-- **Reading.** What is done with a reader; it keeps its place if reading stops. -/
abbrev Reading (α : Type) : Type := EStateM Stop Reader α

namespace Reading

/-! ### The cursor -/

/-- The token at a place. -/
def tokenAt (place : Nat) : Reading Token := fun r =>
  match r.tokens[place]? with
  | some t => .ok t r
  | none => .error (.outside place) r

/-- The token at the cursor. -/
def current : Reading Token := do tokenAt (← get).cursor

/-- The token before the cursor, or the first one if there is none before. -/
def previous : Reading Token := do tokenAt ((← get).cursor - 1)

/-- Whether the cursor is at an end token. -/
def atEnd : Reading Bool := return (← current).kind = .eof

/-- The token at the cursor, which moves on unless that is an end token. -/
def next : Reading Token := do
  let t ← current
  if !(← atEnd) then modify fun r => { r with cursor := r.cursor + 1 }
  return t

/-- Failure with a problem at a given offset. -/
def failAt {α : Type} (problem : Problem) (offset : Int) : Reading α :=
  throw (.failed ⟨problem, offset⟩)

/-- Failure because something else was expected here. -/
def failHere {α : Type} (what : Expectation) : Reading α := do
  failAt (.expected what) (← current).offset

/-- Reads a token of the given kind. -/
def expect (kind : TokenKind) (what : Expectation) : Reading Token := do
  if (← current).kind = kind && !(← atEnd) then next else failHere what

/-- Reads a token of the given kind if it is at the cursor, and says whether it was. -/
def accept (kind : TokenKind) : Reading Bool := do
  if (← current).kind = kind && !(← atEnd) then
    let _ ← next
    return true
  else return false

/-- No result within the budget. -/
def exhausted {α : Type} : Reading α := throw .outOfFuel

/-! ### Expressions -/

mutual

/-- An expression: an assignment, or operators. -/
def expr : Nat → Reading Expr
  | 0 => exhausted
  | fuel + 1 => do
    let target ← operators fuel Parser.levels
    if (← current).kind = .assign then
      let equals ← next
      let value ← expr fuel
      match target with
      | .ident pos name => return .assign pos name value
      | _ => failAt .invalidTarget equals.offset
    else return target

/-- Operators of the given levels. -/
def operators : Nat → List (List TokenKind) → Reading Expr
  | 0, _ => exhausted
  | fuel + 1, [] => unary fuel
  | fuel + 1, level :: tighter => do
    let left ← operators fuel tighter
    operatorsAfter fuel level tighter left

/-- Operators of one level after a left operand. -/
def operatorsAfter : Nat → List TokenKind → List (List TokenKind) → Expr → Reading Expr
  | 0, _, _, _ => exhausted
  | fuel + 1, level, tighter, left => do
    if level.contains (← current).kind then
      let op ← next
      let right ← operators fuel tighter
      operatorsAfter fuel level tighter (.binary op.offset (Parser.binaryOp op) left right)
    else return left

/-- Unary operators, or a call. -/
def unary : Nat → Reading Expr
  | 0 => exhausted
  | fuel + 1 => do
    let t ← current
    if t.kind = .bang || t.kind = .minus then
      let op ← next
      let operand ← unary fuel
      return .unary op.offset (UnaryOp.ofLexeme op.lexeme) operand
    else
      let callee ← primary fuel
      calls fuel callee

/-- The argument lists after a callee. -/
def calls : Nat → Expr → Reading Expr
  | 0, _ => exhausted
  | fuel + 1, callee => do
    if (← current).kind = .lparen then
      let paren ← next
      let args ← if (← current).kind = .rparen then pure [] else arguments fuel
      let _ ← expect .rparen .parenthesisAfterArguments
      calls fuel (.call paren.offset callee args)
    else return callee

/-- Expressions separated by commas. -/
def arguments : Nat → Reading (List Expr)
  | 0 => exhausted
  | fuel + 1 => do
    let first ← expr fuel
    if ← accept .comma then
      let others ← arguments fuel
      return first :: others
    else return [first]

/-- Literals, names and parentheses. -/
def primary : Nat → Reading Expr
  | 0 => exhausted
  | fuel + 1 => do
    let t ← current
    match t.kind with
    | .falseWord => let _ ← next; return .bool t.offset false
    | .trueWord => let _ ← next; return .bool t.offset true
    | .number => let _ ← next; return .num t.offset t.number
    | .string => let _ ← next; return .str t.offset t.lexeme
    | .ident => let _ ← next; return .ident t.offset t.lexeme
    | .at =>
      let _ ← next
      let name ← expect .ident .symbolName
      return .symbol t.offset name.lexeme
    | .lparen =>
      let _ ← next
      let inner ← expr fuel
      let _ ← expect .rparen .parenthesisAfterExpression
      return .group t.offset inner
    | _ => failHere .expression

end

/-! ### Recovery -/

/-- Moves on until a semicolon has been passed or a statement may start. -/
def skip : Nat → Reading Unit
  | 0 => exhausted
  | fuel + 1 => do
    if ← atEnd then return
    if (← previous).kind = .semi then return
    if Recovering.startsStatement (← current).kind then return
    let _ ← next
    skip fuel

/-- **Recovery.** Moves past the offending token and then to the next boundary between
statements. -/
def synchronize : Reading Unit := do
  let _ ← next
  skip (← get).tokens.size

/-- Records the failure of a declaration, leaves a missing statement in its place, and goes on at
the next boundary. -/
def recover (p : Reading Stmt) : Reading Stmt := fun r =>
  match p r with
  | .ok s r => .ok s r
  | .error (.failed e) r =>
    let goOn : Reading Stmt := do synchronize; return .missing
    goOn { r with errors := r.errors ++ [e] }
  | .error stop r => .error stop r

/-! ### Statements -/

/-- A variable declaration. -/
def variableDeclaration (fuel : Nat) : Reading Stmt := do
  let type := DeclaredType.ofName (← next).lexeme
  let name ← expect .ident .variableName
  let init ← if ← accept .assign then expr fuel
    else pure (Recovering.zeroValue type name.offset)
  let _ ← expect .semi .semicolonAfterDeclaration
  return .declare name.offset type name.lexeme init

/-- Names separated by commas. -/
def parameters : Nat → Reading (List Text)
  | 0 => exhausted
  | fuel + 1 => do
    let first ← expect .ident .parameterName
    if ← accept .comma then
      let others ← parameters fuel
      return first.lexeme :: others
    else return [first.lexeme]

/-- The head of a function declaration, up to and including the opening brace. -/
def functionHead (fuel : Nat) : Reading (Token × List Text) := do
  let _ ← next
  let name ← expect .ident .functionName
  let _ ← expect .lparen .parenthesisAfterFunctionName
  let params ← if (← current).kind = .rparen then pure [] else parameters fuel
  let _ ← expect .rparen .parenthesisAfterParameters
  let _ ← expect .lbrace .functionBody
  return (name, params)

/-- The keyword and the condition of an `if` or a `while`. -/
def condition (fuel : Nat) (opening : Expectation) : Reading (Token × Expr) := do
  let keyword ← next
  let _ ← expect .lparen opening
  let cond ← expr fuel
  let _ ← expect .rparen .parenthesisAfterCondition
  return (keyword, cond)

/-- A return statement. -/
def returnStatement (fuel : Nat) : Reading Stmt := do
  let keyword ← next
  let value ← expr fuel
  let _ ← expect .semi .semicolonAfterValue
  return .ret keyword.offset value

/-- An expression statement. -/
def exprStatement (fuel : Nat) : Reading Stmt := do
  let first ← current
  let e ← expr fuel
  let _ ← expect .semi .semicolonAfterValue
  return .expr first.offset e

mutual

/-- A declaration, or a missing statement and a recorded error. -/
def declaration : Nat → Reading Stmt
  | 0 => exhausted
  | fuel + 1 => recover do
    let t ← current
    if t.kind.isType then variableDeclaration fuel
    else if t.kind = .fxn then
      let (name, params) ← functionHead fuel
      let body ← block fuel
      return .fxn name.offset name.lexeme params body
    else statement fuel

/-- A statement that is no declaration. -/
def statement : Nat → Reading Stmt
  | 0 => exhausted
  | fuel + 1 => do
    let t ← current
    match t.kind with
    | .returnWord => returnStatement fuel
    | .lbrace =>
      let brace ← next
      let body ← block fuel
      return .block brace.offset body
    | .ifWord =>
      let (keyword, cond) ← condition fuel .parenthesisAfterIf
      let yes ← statement fuel
      if ← accept .elseWord then
        let no ← statement fuel
        return .ifElse keyword.offset cond yes no
      else return .ifThen keyword.offset cond yes
    | .whileWord =>
      let (keyword, cond) ← condition fuel .parenthesisAfterWhile
      let body ← statement fuel
      return .loop keyword.offset cond body
    | _ => exprStatement fuel

/-- Declarations up to and including the closing brace; those that failed are left out. -/
def block : Nat → Reading (List Stmt)
  | 0 => exhausted
  | fuel + 1 => do
    let t ← current
    if t.kind = .rbrace || t.kind = .eof then
      let _ ← expect .rbrace .braceAfterBlock
      return []
    else
      let first ← declaration fuel
      let others ← block fuel
      return if first.isMissing then others else first :: others

end

/-- Declarations up to the end of the tokens; those that failed are missing statements. -/
def declarations : Nat → Reading (List Stmt)
  | 0 => exhausted
  | fuel + 1 => do
    if ← atEnd then return []
    else
      let first ← declaration fuel
      let others ← declarations fuel
      return first :: others

end Reading

/-! ### Entry points -/

namespace Reader

/-- **A reader for a list of tokens**, an end token supplied if it lacks one, at the place `start`;
a place outside the list is that of the last token. -/
def newAt (ts : List Token) (start : Int) : Reader :=
  let tokens := (Parser.complete ts).toArray
  { tokens
    cursor := if start < 0 || (tokens.size : Int) ≤ start then tokens.size - 1 else start.toNat }

/-- A budget that reading these tokens cannot use up. -/
def budget (r : Reader) : Nat := Parser.budget r.tokens.toList

/-- **A program**: all declarations from the cursor on. The errors are left in the reader. -/
def parseProgram (r : Reader) : EStateM.Result Stop Reader (List Stmt) :=
  (Reading.declarations r.budget).run r

/-- **An expression** at the cursor; what follows it is not read. -/
def parseExpression (r : Reader) : EStateM.Result Stop Reader Expr := (Reading.expr r.budget).run r

end Reader

end Badger
