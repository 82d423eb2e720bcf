/-
# JSON string literals

A literal is read in two passes: first into pieces, a character or the 16-bit unit of a `\u`
escape, then the units are joined, a high surrogate with the low one right after it.  Writing
escapes the quote, the backslash and the control characters.
-/

import GuildRating.Text.Basic

namespace GuildRating
namespace Json

/-- A piece of a literal. -/
inductive Piece where
  | char (c : Char)
  | unit (n : Nat)
deriving DecidableEq

/-- The value of a hexadecimal digit. -/
def hexDigit? (c : Char) : Option Nat :=
  if c.isDigit then some (c.toNat - '0'.toNat)
  else if 'a' ≤ c && c ≤ 'f' then some (c.toNat - 'a'.toNat + 10)
  else if 'A' ≤ c && c ≤ 'F' then some (c.toNat - 'A'.toNat + 10)
  else none

/-- The unit of four hexadecimal digits. -/
def unitOfHex? (digits : List Char) : Option Nat :=
  digits.foldlM (fun n c => (hexDigit? c).map (16 * n + ·)) 0

/-- The character of an escape of two characters. -/
def escaped? : Char → Option Char
  | '\x22' => some '\x22'
  | '\\' => some '\\'
  | '/' => some '/'
  | 'b' => some '\x08'
  | 'f' => some '\x0c'
  | 'n' => some '\n'
  | 'r' => some '\r'
  | 't' => some '\t'
  | _ => none

/-- Reads the pieces up to the closing quote onto `done`, which holds those read before in
reverse. -/
def pieces? (done : List Piece) : (text : List Char) → Option (Front text (List Piece))
  | [] => none
  | '\x22' :: rest => some ⟨done.reverse, rest, by simp⟩
  | '\\' :: 'u' :: a :: b :: c :: d :: rest =>
    match unitOfHex? [a, b, c, d] with
    | some n => (pieces? (.unit n :: done) rest).map (·.widen (by simp; omega))
    | none => none
  | '\\' :: c :: rest =>
    match escaped? c with
    | some e => (pieces? (.char e :: done) rest).map (·.widen (by simp; omega))
    | none => none
  | c :: rest =>
    if c = '\\' || c.toNat < 0x20 then none
    else (pieces? (.char c :: done) rest).map (·.widen (by simp))

/-- The unit is the first half of a surrogate pair. -/
def isHigh (n : Nat) : Bool := 0xd800 ≤ n && n < 0xdc00

/-- The unit is the second half of a surrogate pair. -/
def isLow (n : Nat) : Bool := 0xdc00 ≤ n && n < 0xe000

/-- The character of a surrogate pair. -/
def ofPair (high low : Nat) : Char :=
  Char.ofNat (0x10000 + (high - 0xd800) * 0x400 + (low - 0xdc00))

/-- Joins the pieces; none if half of a pair stands alone. -/
def join? (done : List Char) : List Piece → Option (List Char)
  | [] => some done.reverse
  | .char c :: rest => join? (c :: done) rest
  | .unit n :: .unit m :: rest =>
    if isHigh n then
      if isLow m then join? (ofPair n m :: done) rest else none
    else if isLow n then none
    else join? (Char.ofNat n :: done) (.unit m :: rest)
  | .unit n :: rest =>
    if isHigh n || isLow n then none else join? (Char.ofNat n :: done) rest

/-- Reads a literal whose opening quote is already taken. -/
def literal? (text : List Char) : Option (Front text (Option String)) :=
  (pieces? [] text).map (·.map fun pieces => (join? [] pieces).map String.ofList)

/-- A hexadecimal digit in lower case. -/
def hexChar (n : Nat) : Char :=
  if n < 10 then Char.ofNat ('0'.toNat + n) else Char.ofNat ('a'.toNat + n - 10)

/-- A character inside a literal. -/
def escape (c : Char) : List Char :=
  match c with
  | '\x22' => ['\\', '\x22']
  | '\\' => ['\\', '\\']
  | '\x08' => ['\\', 'b']
  | '\x0c' => ['\\', 'f']
  | '\n' => ['\\', 'n']
  | '\r' => ['\\', 'r']
  | '\t' => ['\\', 't']
  | c =>
    if c.toNat < 0x20 then
      ['\\', 'u', '0', '0', hexChar (c.toNat / 16), hexChar (c.toNat % 16)]
    else [c]

/-- A text as a literal with its quotes. -/
def quote (text : String) : String :=
  String.ofList ('\x22' :: (text.toList.flatMap escape ++ ['\x22']))

end Json
end GuildRating
