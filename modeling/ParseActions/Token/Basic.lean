import ParseActions.Number.Decimal
import ParseActions.Text.Source

/-!
# Tokens

The tokens of the language of action bodies. Module names such as `math` are ordinary identifiers,
so that a binding of that name can shadow the module.

## Main definitions

* `Keyword`, `Keyword.ofWord?`: the reserved words
* `Symbol`: operators and punctuation
* `Token.Kind`, `Token`: a token's kind, and a token with its place
-/

namespace ParseActions

/-- The reserved words. -/
inductive Keyword where
  | letWord
  | ifWord
  | elseWord
  | forWord
  | inWord
  | returnWord
  | assertWord
  | throwWord
  | trueWord
  | falseWord
  | nilWord
  | notWord
  | andWord
  | orWord
  deriving DecidableEq

namespace Keyword

/-- All reserved words, statements first. -/
def all : List Keyword :=
  [letWord, ifWord, elseWord, forWord, inWord, returnWord, assertWord, throwWord, trueWord,
    falseWord, nilWord, notWord, andWord, orWord]

/-- The word as it is written. -/
def word : Keyword → String
  | letWord => "let"
  | ifWord => "if"
  | elseWord => "else"
  | forWord => "for"
  | inWord => "in"
  | returnWord => "return"
  | assertWord => "assert"
  | throwWord => "throw"
  | trueWord => "true"
  | falseWord => "false"
  | nilWord => "nil"
  | notWord => "not"
  | andWord => "and"
  | orWord => "or"

/-- The reserved word of the given spelling. -/
def ofWord? (s : String) : Option Keyword :=
  all.find? fun k => k.word == s

end Keyword

/-- Operators and punctuation. -/
inductive Symbol where
  | plus
  | minus
  | star
  | slash
  | percent
  | equalEqual
  | bangEqual
  | less
  | greater
  | lessEqual
  | greaterEqual
  | questionQuestion
  | leftParen
  | rightParen
  | leftBrace
  | rightBrace
  | leftBracket
  | rightBracket
  | comma
  | colon
  | dot
  | equal
  | semicolon
  deriving DecidableEq

namespace Symbol

/-- The symbol as it is written. -/
def text : Symbol → String
  | plus => "+"
  | minus => "-"
  | star => "*"
  | slash => "/"
  | percent => "%"
  | equalEqual => "=="
  | bangEqual => "!="
  | less => "<"
  | greater => ">"
  | lessEqual => "<="
  | greaterEqual => ">="
  | questionQuestion => "??"
  | leftParen => "("
  | rightParen => ")"
  | leftBrace => "\x7b"
  | rightBrace => "\x7d"
  | leftBracket => "["
  | rightBracket => "]"
  | comma => ","
  | colon => ":"
  | dot => "."
  | equal => "="
  | semicolon => ";"

end Symbol

namespace Token

/-- The kinds of tokens. A string with holes is a run of tokens: its start, then for each hole the
opening and closing marks around the hole's own tokens, with parts of the text in between, and its
end. -/
inductive Kind where
  | number (value : Float)
  /-- A string without holes. -/
  | string (text : String)
  /-- The text of a string before its first hole. -/
  | stringStart (text : String)
  /-- The text between two holes. -/
  | stringPart (text : String)
  /-- The text after the last hole. -/
  | stringEnd (text : String)
  /-- The mark that opens a hole. -/
  | holeStart
  /-- The brace that closes a hole. -/
  | holeEnd
  | identifier (name : String)
  | keyword (k : Keyword)
  | symbol (s : Symbol)
  | newline
  | eof
  deriving DecidableEq

namespace Kind

/-- Newlines and semicolons both end a statement. -/
def isSeparator : Kind → Bool
  | newline => true
  | symbol .semicolon => true
  | _ => false

/-- Whether the token is a reserved word. -/
def isKeyword : Kind → Bool
  | keyword _ => true
  | _ => false

/-- The token as it is named in messages. -/
def display : Kind → String
  | number value => Decimal.ofDouble value
  | string text => "\"" ++ text ++ "\""
  | stringStart text => "\"" ++ text ++ "$\x7b"
  | stringPart text => "\x7d" ++ text ++ "$\x7b"
  | stringEnd text => "\x7d" ++ text ++ "\""
  | holeStart => "$\x7b"
  | holeEnd => "\x7d"
  | identifier name => name
  | keyword k => k.word
  | symbol s => s.text
  | newline => "newline"
  | eof => "end of input"

end Kind

end Token

/-- A token and where it stands. -/
structure Token where
  kind : Token.Kind
  span : Span
  deriving DecidableEq

end ParseActions
