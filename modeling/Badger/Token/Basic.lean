import Badger.Number.Decimal
import Badger.Source.LineTable
import Badger.Text.Quoted

/-!
# Tokens

The words of the language.

## Main definitions

* `TokenKind`: the kinds of tokens, with their names in listings
* `TokenKind.ofWord`: keywords are told from other names by a table
* `TokenKind.single?`, `TokenKind.double?`: operators of one and of two characters
* `Token`: a kind, the text it was written as, and where
* `Token.dump`: a listing of tokens with line numbers
-/

namespace Badger

/-- **The kinds of tokens.** -/
inductive TokenKind where
  | eof
  | semi
  | ident
  | number
  | string
  | lparen
  | rparen
  | lbracket
  | rbracket
  | lbrace
  | rbrace
  | colon
  | period
  | comma
  | query
  | at
  | plus
  | minus
  | star
  | slash
  | percent
  | gt
  | gte
  | lt
  | lte
  | eq
  | neq
  | and
  | or
  | bang
  | assign
  | ifWord
  | elseWord
  | whileWord
  | fxn
  | returnWord
  | num
  | str
  | bool
  | var
  | trueWord
  | falseWord
  | null
  | importWord
  | exportWord
  | breakWord
  | continueWord
deriving DecidableEq, Repr

namespace TokenKind

/-- The name of a kind in listings. -/
def name : TokenKind → String
  | .eof => "EOF"
  | .semi => "SEMI"
  | .ident => "IDENT"
  | .number => "NUMBER"
  | .string => "STRING"
  | .lparen => "LPAREN"
  | .rparen => "RPAREN"
  | .lbracket => "LBRACKET"
  | .rbracket => "RBRACKET"
  | .lbrace => "LBRACE"
  | .rbrace => "RBRACE"
  | .colon => "COLON"
  | .period => "PERIOD"
  | .comma => "COMMA"
  | .query => "QUERY"
  | .at => "AT"
  | .plus => "PLUS"
  | .minus => "MINUS"
  | .star => "STAR"
  | .slash => "SLASH"
  | .percent => "PERCENT"
  | .gt => "GT"
  | .gte => "GTE"
  | .lt => "LT"
  | .lte => "LTE"
  | .eq => "EQ"
  | .neq => "NEQ"
  | .and => "AND"
  | .or => "OR"
  | .bang => "BANG"
  | .assign => "ASSIGN"
  | .ifWord => "IF"
  | .elseWord => "ELSE"
  | .whileWord => "WHILE"
  | .fxn => "FXN"
  | .returnWord => "RETURN"
  | .num => "NUM"
  | .str => "STR"
  | .bool => "BOOL"
  | .var => "VAR"
  | .trueWord => "TRUE"
  | .falseWord => "FALSE"
  | .null => "NULL"
  | .importWord => "IMPORT"
  | .exportWord => "EXPORT"
  | .breakWord => "BREAK"
  | .continueWord => "CONTINUE"

/-- The keywords and their kinds. -/
def keywords : List (Text × TokenKind) :=
  [(utf8 "if", .ifWord), (utf8 "else", .elseWord), (utf8 "while", .whileWord),
    (utf8 "fxn", .fxn), (utf8 "return", .returnWord), (utf8 "num", .num), (utf8 "str", .str),
    (utf8 "bool", .bool), (utf8 "var", .var), (utf8 "true", .trueWord),
    (utf8 "false", .falseWord), (utf8 "null", .null), (utf8 "import", .importWord),
    (utf8 "export", .exportWord), (utf8 "break", .breakWord), (utf8 "continue", .continueWord),
    (utf8 "and", .and), (utf8 "or", .or)]

/-- The kind of a word: a keyword's own, else `ident`. -/
def ofWord (word : Text) : TokenKind := (keywords.lookup word).getD .ident

/-- The operators of one character. -/
def singles : List (Char × TokenKind) :=
  [(';', .semi), (':', .colon), ('.', .period), (',', .comma), ('?', .query), ('@', .at),
    ('(', .lparen), (')', .rparen), ('[', .lbracket), (']', .rbracket), ('\x7b', .lbrace),
    ('\x7d', .rbrace), ('+', .plus), ('-', .minus), ('*', .star), ('/', .slash), ('%', .percent),
    ('&', .and), ('|', .or), ('>', .gt), ('<', .lt), ('!', .bang), ('=', .assign)]

/-- The operators of two characters. -/
def doubles : List ((Char × Char) × TokenKind) :=
  [(('>', '='), .gte), (('<', '='), .lte), (('=', '='), .eq), (('!', '='), .neq),
    (('&', '&'), .and), (('|', '|'), .or)]

/-- The kind of the operator written as one character. -/
def single? (c : Char) : Option TokenKind := singles.lookup c

/-- The kind of the operator written as two characters. -/
def double? (c d : Char) : Option TokenKind := doubles.lookup (c, d)

/-- Whether the kind opens a variable declaration. -/
def isType : TokenKind → Bool
  | .num | .str | .bool | .var => true
  | _ => false

end TokenKind

/-- **A token.** For a string `lexeme` is the value of the literal, for any other kind the
text as written; `number` is the value of a numeral. -/
structure Token where
  kind : TokenKind
  lexeme : Text
  number : Float := 0
  offset : Int
deriving DecidableEq

namespace Token

/-- The token that ends every token list. -/
def endAt (offset : Int) : Token := ⟨.eof, [], 0, offset⟩

/-- A token in a listing. -/
def render (t : Token) : Text :=
  let shown := match t.kind with
    | .string => utf8 "(" ++ Quoted.text t.lexeme ++ utf8 ")"
    | .ident | .number => utf8 "(" ++ t.lexeme ++ utf8 ")"
    | _ => []
  utf8 t.kind.name ++ shown ++ utf8 " @ " ++ Text.ofInt t.offset

/-- **A listing of tokens**, one per line, each after its line number. -/
def dump (tokens : List Token) (lines : LineTable) : Text :=
  (tokens.map fun t =>
    Text.padLeft 4 (Text.ofNat (lines.lineOf t.offset)) ++ utf8 "  " ++ t.render ++
      [Text.newline]).flatten

end Token

end Badger
