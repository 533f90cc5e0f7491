import ScriptLab.Program.Dialect
import ScriptLab.Text.Position

/-!
# Tokens

The words, literals and symbols that a program is made of, and how messages name them.
-/

namespace ScriptLab.Program

/-- A symbol with a fixed spelling. -/
inductive Symbol where
  | leftParen
  | rightParen
  | leftBrace
  | rightBrace
  | leftBracket
  | rightBracket
  | comma
  | dot
  | colon
  | semicolon
  | atSign
  | out
  | metadata
  | hash
  | dollar
  | leftArrow
  | assign
  | addAssign
  | subAssign
  | plus
  | minus
  | star
  | slash
  | percent
  | bang
  | equal
  | notEqual
  | less
  | lessEqual
  | greater
  | greaterEqual
  | andAnd
  | orOr
deriving DecidableEq

namespace Symbol

/-- The characters of a symbol. -/
def spelling : Symbol → String
  | leftParen => "("
  | rightParen => ")"
  | leftBrace => "\x7b"
  | rightBrace => "\x7d"
  | leftBracket => "["
  | rightBracket => "]"
  | comma => ","
  | dot => "."
  | colon => ":"
  | semicolon => ";"
  | atSign => "@"
  | out => "<:"
  | metadata => "###"
  | hash => "#"
  | dollar => "$"
  | leftArrow => "<-"
  | assign => "="
  | addAssign => "+="
  | subAssign => "-="
  | plus => "+"
  | minus => "-"
  | star => "*"
  | slash => "/"
  | percent => "%"
  | bang => "!"
  | equal => "=="
  | notEqual => "!="
  | less => "<"
  | lessEqual => "<="
  | greater => ">"
  | greaterEqual => ">="
  | andAnd => "&&"
  | orOr => "||"

/-- The symbols of both dialects, longer spellings first. -/
def shared : List Symbol :=
  [metadata, out, lessEqual, greaterEqual, equal, notEqual, andAnd, orOr, leftParen, rightParen,
    leftBrace, rightBrace, leftBracket, rightBracket, comma, dot, colon, semicolon, atSign, assign, plus,
    minus, star, slash, percent, bang, less, greater]

/-- The symbols of a dialect. A symbol whose spelling begins another one stands behind it. -/
def ofDialect : Dialect → List Symbol
  | .legacy => leftArrow :: shared ++ [hash, dollar]
  | .modern => addAssign :: subAssign :: shared

end Symbol

/-- What a token is. -/
inductive TokenKind where
  | name (word : String)
  | number (value : Float)
  | text (value : String)
  | keyword (word : Keyword)
  | symbol (symbol : Symbol)
  | done
deriving DecidableEq

/-- How messages name a token. -/
def TokenKind.describe : TokenKind → String
  | name word => "identifier `" ++ word ++ "`"
  | number _ => "number"
  | text _ => "string"
  | keyword word => "keyword `" ++ word.name ++ "`"
  | symbol s => "`" ++ s.spelling ++ "`"
  | done => "end of input"

/-- A token, where its first character stands, and whether a line break lies between it and the
token before. -/
structure Token where
  kind : TokenKind
  pos : Text.Pos
  afterBreak : Bool
deriving DecidableEq

end ScriptLab.Program
