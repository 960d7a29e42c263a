import Badger.Text.Quoted

/-!
# What can go wrong

Every problem that the language reports, as a cause and not as a message. The wording of
each problem stands in one place, `Problem.message`.

## Main definitions

* `Tag`: the four types of values, by which problems name them
* `Expectation`: what the grammar asks for at some point
* `ScopeProblem`: what can go wrong with a name
* `Problem`: all problems; `Problem.message` words them
* `Category`: the classes of problems that callers tell apart
-/

namespace Badger

/-- The types of values. -/
inductive Tag where
  | num
  | str
  | bool
  | fxn
deriving DecidableEq, Repr

/-- The name of a type in programs and in messages. -/
def Tag.name : Tag → Text
  | .num => utf8 "num"
  | .str => utf8 "str"
  | .bool => utf8 "bool"
  | .fxn => utf8 "fxn"

/-- What the grammar asks for where something else stands. -/
inductive Expectation where
  | variableName
  | semicolonAfterDeclaration
  | functionName
  | parenthesisAfterFunctionName
  | parameterName
  | parenthesisAfterParameters
  | functionBody
  | semicolonAfterValue
  | braceAfterBlock
  | parenthesisAfterIf
  | parenthesisAfterWhile
  | parenthesisAfterCondition
  | parenthesisAfterArguments
  | parenthesisAfterExpression
  | symbolName
  | expression
deriving DecidableEq, Repr

/-- The wording of an expectation. -/
def Expectation.message : Expectation → Text
  | .variableName => utf8 "Expected variable name"
  | .semicolonAfterDeclaration => utf8 "Expected ';' after variable declaration"
  | .functionName => utf8 "Expected function name after 'fxn'"
  | .parenthesisAfterFunctionName => utf8 "Expected '(' after function name"
  | .parameterName => utf8 "Expected parameter name"
  | .parenthesisAfterParameters => utf8 "Expected ')' after parameters"
  | .functionBody => utf8 "Expected '\x7b' before function body"
  | .semicolonAfterValue => utf8 "Expected ';' after value"
  | .braceAfterBlock => utf8 "Expected '\x7d' after block"
  | .parenthesisAfterIf => utf8 "Expected '(' after 'if'"
  | .parenthesisAfterWhile => utf8 "Expected '(' after 'while'"
  | .parenthesisAfterCondition => utf8 "Expected ')' after condition"
  | .parenthesisAfterArguments => utf8 "Expected ')' after arguments"
  | .parenthesisAfterExpression => utf8 "Expected ')' after expression"
  | .symbolName => utf8 "Expected symbol name after '@'"
  | .expression => utf8 "Expected expression"

/-- What can go wrong with a name in a scope. -/
inductive ScopeProblem where
  /-- No scope in reach declares the name. -/
  | undefined (name : Text)
  /-- The scope declares the name already. -/
  | redeclared (name : Text)
  /-- A value of type `given` cannot replace the value of type `held`. -/
  | mismatch (given : Tag) (name : Text) (held : Tag)
  /-- The name was not found within `limit` enclosing scopes, and there are more. -/
  | tooDeep (limit : Nat)
deriving DecidableEq, Repr

/-- The wording of a problem with a name. -/
def ScopeProblem.message : ScopeProblem → Text
  | .undefined name => utf8 "Symbol " ++ Quoted.text name ++ utf8 " does not exist"
  | .redeclared name =>
    utf8 "Identifier " ++ Quoted.text name ++ utf8 " already declared in this scope"
  | .mismatch given name held =>
    utf8 "Cannot assign " ++ given.name ++ utf8 " to variable " ++ Quoted.text name ++
      utf8 " of type " ++ held.name
  | .tooDeep limit => utf8 "Scope chain depth exceeded hard limit of " ++ Text.ofNat limit

/-- The longest string, in bytes, that repetition may produce. -/
def maxRepetition : Nat := 67108864

/-- **Problems.** Everything that reading, running or lowering a program can report. -/
inductive Problem where
  /-- A character that starts no token. -/
  | unexpectedCharacter (c : Char)
  /-- A numeral above every number. -/
  | invalidNumber (lexeme : Text)
  /-- The grammar asks for something else. -/
  | expected (what : Expectation)
  /-- Only a name can be assigned to. -/
  | invalidTarget
  /-- A name cannot be used in this way. -/
  | scope (p : ScopeProblem)
  /-- An initial value of a type that the declaration does not admit. -/
  | unexpectedType (given : Tag)
  /-- Negation of a value that is not a number. -/
  | negation (given : Tag)
  /-- A unary operator outside the language. -/
  | unknownUnary (lexeme : Text)
  /-- An operator that is not defined for these types. -/
  | operation (lexeme : Text) (left right : Tag)
  /-- A string cannot be repeated a negative or broken number of times. -/
  | repetitionCount
  /-- A repeated string would exceed `maxRepetition` bytes. -/
  | repetitionSize
  /-- Only functions can be called. -/
  | notCallable
  /-- A call with a wrong number of arguments. -/
  | arity (wanted given : Nat)
  /-- Too many calls are active. -/
  | callDepth
  /-- A missing node has no instructions. -/
  | lowerMissing
  /-- A function inside a function has no place in a listing. -/
  | lowerNested (name : Text)
  /-- A listing has no such unary operator. -/
  | lowerUnary
  /-- A listing has no such binary operator. -/
  | lowerBinary
  /-- A problem worded elsewhere. -/
  | other (message : Text)
deriving DecidableEq, Repr

/-- **The wording of a problem.** -/
def Problem.message : Problem → Text
  | .unexpectedCharacter c => utf8 "Unexpected character " ++ Quoted.char c
  | .invalidNumber lexeme => utf8 "Invalid number " ++ Quoted.text lexeme
  | .expected what => what.message
  | .invalidTarget => utf8 "Invalid assignment target"
  | .scope p => p.message
  | .unexpectedType given =>
    utf8 "Expression is not of expected type (" ++ given.name ++ utf8 ")"
  | .negation given => utf8 "Operation '-' is not defined for " ++ given.name
  | .unknownUnary lexeme => utf8 "Unknown unary operator " ++ Quoted.text lexeme
  | .operation lexeme left right =>
    utf8 "Operation '" ++ lexeme ++ utf8 "' is not defined for " ++ left.name ++ utf8 " and " ++
      right.name
  | .repetitionCount => utf8 "String repetition count must be a non-negative integer"
  | .repetitionSize =>
    utf8 "String repetition count is too large (result over " ++ Text.ofNat maxRepetition ++
      utf8 " bytes)"
  | .notCallable => utf8 "Cannot treat this value as callable"
  | .arity wanted given =>
    utf8 "Expected " ++ Text.ofNat wanted ++ utf8 " arguments but got " ++ Text.ofNat given
  | .callDepth => utf8 "Call stack depth exceeded"
  | .lowerMissing => utf8 "Cannot lower <nil>"
  | .lowerNested name => utf8 "Cannot lower nested fxn " ++ name
  | .lowerUnary => utf8 "Illegal unary operation"
  | .lowerBinary => utf8 "Illegal binary operation"
  | .other message => message

/-- The classes of problems that callers tell apart. -/
inductive Category where
  | undefined
  | redeclared
  | typeMismatch
  | depthExceeded
deriving DecidableEq, Repr

/-- The class of a problem with a name. -/
def ScopeProblem.category : ScopeProblem → Category
  | .undefined _ => .undefined
  | .redeclared _ => .redeclared
  | .mismatch _ _ _ => .typeMismatch
  | .tooDeep _ => .depthExceeded

/-- The class of a problem, if it concerns a name. -/
def Problem.category? : Problem → Option Category
  | .scope p => some p.category
  | _ => none

end Badger
