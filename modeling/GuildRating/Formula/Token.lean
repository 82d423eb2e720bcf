/-
# Tokens of a formula

A formula is a row of numbers, names and symbols, each with the place of its first character,
counted in characters from zero.  A name may have several segments joined by points, as in
`Math.max`.
-/

import GuildRating.Decimal.Style

namespace GuildRating
namespace Formula

/-- The operators and marks of the language. -/
inductive Symbol where
  | plus
  | minus
  | star
  | slash
  | percent
  | openParen
  | closeParen
  | comma
  | less
  | lessEqual
  | greater
  | greaterEqual
  | equalEqual
  | notEqual
  | andAnd
  | orOr
  | bang
  | question
  | colon
deriving DecidableEq, Repr

/-- A symbol as it is written. -/
def Symbol.text : Symbol → String
  | plus => "+"
  | minus => "-"
  | star => "*"
  | slash => "/"
  | percent => "%"
  | openParen => "("
  | closeParen => ")"
  | comma => ","
  | less => "<"
  | lessEqual => "<="
  | greater => ">"
  | greaterEqual => ">="
  | equalEqual => "=="
  | notEqual => "!="
  | andAnd => "&&"
  | orOr => "||"
  | bang => "!"
  | question => "?"
  | colon => ":"

/-- What a token is, without its place. -/
inductive Lexeme where
  | number (value : Double)
  | name (text : String)
  | symbol (s : Symbol)
deriving DecidableEq

/-- A lexeme as messages show it. -/
def Lexeme.text : Lexeme → String
  | number value => "number " ++ value.text
  | name text => "'" ++ text ++ "'"
  | symbol s => "'" ++ s.text ++ "'"

/-- A lexeme and the place of its first character. -/
structure Token where
  lexeme : Lexeme
  pos : Nat
deriving DecidableEq

/-- Why a text cannot be split into tokens. -/
inductive ScanError where
  /-- A character that starts no token, or a point in a name that no segment follows. -/
  | unexpectedCharacter (pos : Nat) (char : Char)
  | tooLong (length limit : Nat)
  /-- A number that ends in its point or is too large for a double. -/
  | invalidNumber (pos : Nat) (literal : String)
deriving DecidableEq, Repr

/-- The message of an error, with its place in the text. -/
def ScanError.message : ScanError → String
  | unexpectedCharacter pos char =>
    "unexpected character '" ++ char.toString ++ "' at position " ++ toString pos
  | tooLong length limit =>
    "formula is " ++ toString length ++ " characters long, the maximum is " ++ toString limit
  | invalidNumber pos literal =>
    "malformed number '" ++ literal ++ "' at position " ++ toString pos

end Formula
end GuildRating
