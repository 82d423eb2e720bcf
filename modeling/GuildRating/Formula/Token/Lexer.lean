/-
# Splitting a formula into tokens

From left to right, blanks are skipped and the longest lexeme at each place is taken.  The first
character tells which kind it is: a digit or a point starts a number, a letter or an underscore a
name, anything else must be a symbol.
-/

import GuildRating.Decimal.Basic
import GuildRating.Formula.Token
import GuildRating.Text.Basic

namespace GuildRating
namespace Formula

/-- The character may start a segment of a name. -/
def startsSegment (c : Char) : Bool := c.isAlpha || c = '_'

/-- The character may stand in a segment of a name. -/
def inSegment (c : Char) : Bool := c.isAlphanum || c = '_'

/-- How many characters of the text continue a name; or how many stand before a point that no
segment follows. -/
def nameLength : List Char → Except Nat Nat
  | [] => .ok 0
  | c :: rest =>
    if inSegment c then further (nameLength rest)
    else if c = '.' then
      match rest with
      | d :: _ => if startsSegment d then further (nameLength rest) else .error 0
      | [] => .error 0
    else .ok 0
where
  /-- One character more, on either outcome. -/
  further : Except Nat Nat → Except Nat Nat
    | .ok n => .ok (n + 1)
    | .error n => .error (n + 1)

/-- The name that starts with `c`, and how many characters of `rest` it takes. -/
def nameAt (pos : Nat) (c : Char) (rest : List Char) : Except ScanError (Lexeme × Nat) :=
  match nameLength rest with
  | .ok n => .ok (.name (String.ofList (c :: rest.take n)), n)
  | .error n => .error (.unexpectedCharacter (pos + 1 + n) '.')

/-- The number with the given digits, provided that it is finite. -/
def numberOf (pos : Nat) (literal whole fraction : List Char) :
    Except ScanError (Lexeme × Nat) :=
  let value := (Decimal.ofLiteral whole fraction).toDouble false
  if value.isFinite then .ok (.number value, literal.length - 1)
  else .error (.invalidNumber pos (String.ofList literal))

/-- The number at the front of a text that starts with a digit or a point, and how many characters
after the first it takes. -/
def numberAt (pos : Nat) (text : List Char) : Except ScanError (Lexeme × Nat) :=
  let (whole, after) := Decimal.splitDigits text
  match after with
  | '.' :: tail =>
    let fraction := (Decimal.splitDigits tail).1
    let literal := whole ++ '.' :: fraction
    if fraction.isEmpty then .error (.invalidNumber pos (String.ofList literal))
    else numberOf pos literal whole fraction
  | _ => numberOf pos whole whole []

/-- The symbol that starts with `c`, and how many characters of `rest` it takes. -/
def symbol? (c : Char) (rest : List Char) : Option (Symbol × Nat) :=
  match c, rest with
  | '+', _ => some (.plus, 0)
  | '-', _ => some (.minus, 0)
  | '*', _ => some (.star, 0)
  | '/', _ => some (.slash, 0)
  | '%', _ => some (.percent, 0)
  | '(', _ => some (.openParen, 0)
  | ')', _ => some (.closeParen, 0)
  | ',', _ => some (.comma, 0)
  | '?', _ => some (.question, 0)
  | ':', _ => some (.colon, 0)
  | '<', '=' :: _ => some (.lessEqual, 1)
  | '<', _ => some (.less, 0)
  | '>', '=' :: _ => some (.greaterEqual, 1)
  | '>', _ => some (.greater, 0)
  | '!', '=' :: _ => some (.notEqual, 1)
  | '!', _ => some (.bang, 0)
  | '=', '=' :: _ => some (.equalEqual, 1)
  | '&', '&' :: _ => some (.andAnd, 1)
  | '|', '|' :: _ => some (.orOr, 1)
  | _, _ => none

/-- The longest lexeme that starts with `c`, and how many characters of `rest` it takes. -/
def lexemeAt (pos : Nat) (c : Char) (rest : List Char) : Except ScanError (Lexeme × Nat) :=
  if c.isDigit || c = '.' then numberAt pos (c :: rest)
  else if startsSegment c then nameAt pos c rest
  else match symbol? c rest with
    | some (symbol, more) => .ok (.symbol symbol, more)
    | none => .error (.unexpectedCharacter pos c)

/-- The tokens of a text whose first character stands at `pos`. -/
def scanFrom (pos : Nat) : List Char → Except ScanError (List Token)
  | [] => .ok []
  | c :: rest =>
    if Text.isBlank c then scanFrom (pos + 1) rest
    else do
      let (lexeme, more) ← lexemeAt pos c rest
      let tokens ← scanFrom (pos + 1 + more) (rest.drop more)
      return ⟨lexeme, pos⟩ :: tokens
termination_by text => text.length
decreasing_by all_goals simp; try omega

/-- The tokens of a formula of at most `limit` characters. -/
def scan (limit : Nat) (source : String) : Except ScanError (List Token) :=
  let text := source.toList
  if limit < text.length then .error (.tooLong text.length limit) else scanFrom 0 text

end Formula
end GuildRating
