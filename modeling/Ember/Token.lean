import Ember.Position
import Ember.Text.Escape

/-!
# Tokens

The kinds of tokens with their names, the keyword table, and tokens themselves: a lexeme, a kind
and a position. `Token.dump` writes a token on one line, and `Token.stringValue` decodes a string
literal.
-/

namespace Ember

/-- The reserved words. -/
inductive Keyword where
  | if_
  | then_
  | else_
  | end_
  | true_
  | false_
  | and_
  | or_
  | while_
  | do_
  | for_
  | func_
  | null_
  | print_
  | return_
deriving DecidableEq

namespace Keyword

/-- Every keyword, in the order of the keyword table. -/
def all : List Keyword :=
  [.if_, .then_, .else_, .end_, .true_, .false_, .and_, .or_, .while_, .do_, .for_, .func_,
    .null_, .print_, .return_]

/-- The word itself. -/
def word : Keyword → String
  | if_ => "if"
  | then_ => "then"
  | else_ => "else"
  | end_ => "end"
  | true_ => "true"
  | false_ => "false"
  | and_ => "and"
  | or_ => "or"
  | while_ => "while"
  | do_ => "do"
  | for_ => "for"
  | func_ => "func"
  | null_ => "null"
  | print_ => "print"
  | return_ => "return"

/-- The name of the keyword in dumps and messages. -/
def name : Keyword → String
  | if_ => "KW_IF"
  | then_ => "KW_THEN"
  | else_ => "KW_ELSE"
  | end_ => "KW_END"
  | true_ => "KW_TRUE"
  | false_ => "KW_FALSE"
  | and_ => "KW_AND"
  | or_ => "KW_OR"
  | while_ => "KW_WHILE"
  | do_ => "KW_DO"
  | for_ => "KW_FOR"
  | func_ => "KW_FUNC"
  | null_ => "KW_NULL"
  | print_ => "KW_PRINT"
  | return_ => "KW_RETURN"

/-- The keyword with exactly these letters. -/
def ofWord? (w : String) : Option Keyword := all.find? (fun k => k.word = w)

end Keyword

/-- What kind of token a lexeme is. -/
inductive TokenKind where
  | leftParen
  | rightParen
  | leftBrace
  | rightBrace
  | leftBracket
  | rightBracket
  | comma
  | dot
  | semicolon
  | colon
  | plus
  | minus
  | star
  | slash
  | percent
  | ampersand
  | pipe
  | caret
  | tilde
  | bang
  | bangEqual
  | equal
  | equalEqual
  | greater
  | greaterEqual
  | greaterGreater
  | less
  | lessEqual
  | lessLess
  | integer
  | float
  | string
  | identifier
  | keyword (k : Keyword)
  /-- Blanks and comments. -/
  | insignificant
  /-- No token at all. -/
  | unknown
deriving DecidableEq

namespace TokenKind

/-- Every kind, punctuation first, then operators, literals, keywords and the two kinds that no
scanned token has. -/
def all : List TokenKind :=
  [.leftParen, .rightParen, .leftBrace, .rightBrace, .leftBracket, .rightBracket, .comma, .dot,
    .semicolon, .colon, .plus, .minus, .star, .slash, .percent, .ampersand, .pipe, .caret, .tilde,
    .bang, .bangEqual, .equal, .equalEqual, .greater, .greaterEqual, .greaterGreater, .less,
    .lessEqual, .lessLess, .integer, .float, .string, .identifier]
  ++ Keyword.all.map .keyword ++ [.insignificant, .unknown]

/-- The upper-case name of the kind in dumps and messages. -/
def name : TokenKind → String
  | leftParen => "LEFT_PAREN"
  | rightParen => "RIGHT_PAREN"
  | leftBrace => "LEFT_BRACE"
  | rightBrace => "RIGHT_BRACE"
  | leftBracket => "LEFT_BRACKET"
  | rightBracket => "RIGHT_BRACKET"
  | comma => "COMMA"
  | dot => "DOT"
  | semicolon => "SEMICOLON"
  | colon => "COLON"
  | plus => "PLUS"
  | minus => "MINUS"
  | star => "STAR"
  | slash => "SLASH"
  | percent => "PERCENT"
  | ampersand => "AMPERSAND"
  | pipe => "PIPE"
  | caret => "CARET"
  | tilde => "TILDE"
  | bang => "BANG"
  | bangEqual => "BANG_EQUAL"
  | equal => "EQUAL"
  | equalEqual => "EQUAL_EQUAL"
  | greater => "GREATER"
  | greaterEqual => "GREATER_EQUAL"
  | greaterGreater => "GREATER_GREATER"
  | less => "LESS"
  | lessEqual => "LESS_EQUAL"
  | lessLess => "LESS_LESS"
  | integer => "INTEGER"
  | float => "FLOAT"
  | string => "STRING"
  | identifier => "IDENTIFIER"
  | keyword k => k.name
  | insignificant => "INSIGNIFICANT"
  | unknown => "UNKNOWN"

/-- The kind of a given name. -/
def ofName? (n : String) : Option TokenKind := all.find? (fun k => k.name = n)

/-- Whether the kind is that of a reserved word. -/
def isKeyword : TokenKind → Bool
  | keyword _ => true
  | _ => false

/-- The kind of a word: that of the keyword it spells, or else an identifier. -/
def ofWord (w : String) : TokenKind :=
  match Keyword.ofWord? w with
  | some k => keyword k
  | none => identifier

end TokenKind

/-- A lexeme with its kind and the place of its first character. -/
structure Token where
  /-- The characters of the source that the token covers. -/
  lexeme : String
  kind : TokenKind
  /-- Where the lexeme starts. -/
  position : Position
deriving DecidableEq

namespace Token

/-- A token on one line: kind, escaped lexeme, line and column. -/
def dump (t : Token) : String :=
  "(" ++ t.kind.name ++ ", \"" ++ (Text.escape t.lexeme).content ++ "\", "
    ++ Nat.repr t.position.line.toNat ++ ", " ++ Nat.repr t.position.column.toNat ++ ")"

/-- The characters between an opening and a closing quote. -/
def unquote? : List Char → Option (List Char)
  | '"' :: cs => if cs.getLast? = some '"' then some cs.dropLast else none
  | _ => none

/-- What a string literal stands for; `none` for any other kind of token. A lexeme that is not in
quotes counts as its own inside. -/
def stringValue (t : Token) : Option Text :=
  if t.kind = .string then
    some (Text.unescape (((unquote? t.lexeme.toList).map String.ofList).getD t.lexeme))
  else
    none

end Token

end Ember
