/-
# Environment files

A file of settings, one `NAME=value` to a line, where blanks around a line count for nothing.  A
value may be quoted, `\` escapes a character, `$NAME` and `${NAME}` stand for what is set already,
and `#` starts a comment on a line of its own or behind a blank.  Settings come into force line by
line, each only if its name is not set yet, up to the first line that is not in order.
-/

import GuildRating.Text.Alphanumeric
import GuildRating.Text.Basic

namespace GuildRating
namespace Command

/-- Variables of the environment. -/
abbrev Environment := List (String × String)

namespace EnvFile

/-- The quotes that a value may stand in. -/
inductive Quote where
  | single
  | double
deriving DecidableEq

/-- A reference to a variable of which the name is being read. -/
inductive Reference where
  | bare (name : List Char)
  | braced (name : List Char)

/-- How far a value has been read; lists of characters are in reverse. -/
structure Progress where
  output : List Char
  quote : Option Quote
  escaped : Bool
  reference : Option Reference
  /-- Only blanks and a comment may follow. -/
  ended : Bool

/-- What a name stands for, nothing if it is not set.  The name is looked for in front of an equals
sign in the texts `NAME=value`, so one that holds an equals sign reaches into a value. -/
def substitute (environment : Environment) (name : List Char) : List Char :=
  (environment.findSome? fun setting =>
    (name.reverse ++ ['=']).isPrefixOf? (setting.1 ++ "=" ++ setting.2).toList).getD []

/-- The character after a backslash. -/
def escaped? (c : Char) : Option Char :=
  if c = 'n' then some '\n'
  else if c = '\\' || c = '\x27' || c = '\x22' || c = '$' || c = ' ' then some c
  else none

/-- Puts the value of a name behind what was read. -/
def Progress.resolve (p : Progress) (environment : Environment) (name : List Char) : Progress :=
  { p with output := (substitute environment name).reverse ++ p.output, reference := none }

/-- One more character of the value. -/
def Progress.push (p : Progress) (c : Char) : Progress := { p with output := c :: p.output }

/-- Reads one more character while a name is being read.  The name of a bare reference is a run of
letters and numbers of any script. -/
def Progress.refer (p : Progress) (environment : Environment) (c : Char) :
    Reference → Progress
  | .bare name =>
    if Text.isAlphanumeric c then { p with reference := some (.bare (c :: name)) }
    else if c = '\x7b' && name.isEmpty then { p with reference := some (.braced []) }
    else if c = '$' then { p.resolve environment name with reference := some (.bare []) }
    else (p.resolve environment name).push c
  | .braced name =>
    if c = '\x7d' then p.resolve environment name
    else { p with reference := some (.braced (c :: name)) }

/-- Reads one more character outside single quotes, escapes and names. -/
def Progress.take (p : Progress) (c : Char) : Progress :=
  if c = '$' then { p with reference := some (.bare []) }
  else if c = '\\' then { p with escaped := true }
  else if p.quote = some .double then
    if c = '\x22' then { p with quote := none } else p.push c
  else if c = '\x27' then { p with quote := some .single }
  else if c = '\x22' then { p with quote := some .double }
  else if c = ' ' || c = '\t' then { p with ended := true }
  else p.push c

/-- The value of a text, read from the state `p` on. -/
def valueFrom? (environment : Environment) (p : Progress) : List Char → Option String
  | [] =>
    match p.reference with
    | some (.braced _) => none
    | some (.bare name) =>
      if p.quote.isSome then none
      else some (String.ofList (p.resolve environment name).output.reverse)
    | none => if p.quote.isSome then none else some (String.ofList p.output.reverse)
  | c :: rest =>
    if p.ended then
      if c = ' ' || c = '\t' then valueFrom? environment p rest
      else if c = '#' then some (String.ofList p.output.reverse)
      else none
    else if p.escaped then
      match escaped? c with
      | some e => valueFrom? environment { p.push e with escaped := false } rest
      | none => none
    else if p.quote = some .single then
      if c = '\x27' then valueFrom? environment { p with quote := none } rest
      else valueFrom? environment (p.push c) rest
    else match p.reference with
      | some reference => valueFrom? environment (p.refer environment c reference) rest
      | none => valueFrom? environment (p.take c) rest

/-- The value that a text behind the equals sign stands for. -/
def value? (environment : Environment) (text : List Char) : Option String :=
  valueFrom? environment ⟨[], none, false, none, false⟩ text

/-- The text from its first character that is not blank. -/
def skipBlanks (text : List Char) : List Char := text.dropWhile Text.isBlank

/-- The text up to its last character that is not blank. -/
def dropLastBlanks (text : List Char) : List Char := (skipBlanks text.reverse).reverse

/-- A name at the front of a text, and the rest. -/
def name? (text : List Char) : Option (List Char × List Char) :=
  match text with
  | [] => none
  | c :: _ =>
    if c.isAlpha || c = '_' then
      let inName := fun c : Char => c.isAlphanum || c = '_' || c = '.'
      some (text.takeWhile inName, text.dropWhile inName)
    else none

/-- The text behind an equals sign. -/
def afterEquals? : List Char → Option (List Char)
  | '=' :: rest => some rest
  | _ => none

/-- The name of a setting and the text of its value.  The word `export` may stand before a name,
and is a name itself when the equals sign follows it. -/
def setting? (text : List Char) : Option (List Char × List Char) := do
  let (name, rest) ← name? text
  let rest := skipBlanks rest
  match afterEquals? rest with
  | some value => return (name, skipBlanks value)
  | none =>
    if name = "export".toList then
      let (name, rest) ← name? rest
      return (name, skipBlanks (← afterEquals? (skipBlanks rest)))
    else none

/-- The text holds nothing but perhaps a comment. -/
def isVoid : List Char → Bool
  | [] => true
  | c :: _ => c = '#'

/-- A line: none if it is not in order, and nothing set if it is void.  The blanks at its end are
no part of it even behind a backslash, which then escapes nothing. -/
def line? (environment : Environment) (text : List Char) :
    Option (Option (String × String)) := do
  let text := skipBlanks (dropLastBlanks text)
  if isVoid text then return none
  else
    let (name, value) ← setting? text
    if isVoid value then return some (String.ofList name, "")
    else return some (String.ofList name, ← value? environment value)

/-- The environment after the settings of the lines came into force.  A value that holds the
character NUL cannot, and then there is none. -/
def loadLines (environment : Environment) : List (List Char) → Option Environment
  | [] => some environment
  | text :: rest =>
    match line? environment text with
    | none => some environment
    | some none => loadLines environment rest
    | some (some (name, value)) =>
      if (environment.lookup name).isSome then loadLines environment rest
      else if value.toList.contains '\x00' then none
      else loadLines ((name, value) :: environment) rest

/-- The environment after a file was loaded. -/
def load (environment : Environment) (text : String) : Option Environment :=
  loadLines environment (text.toList.splitOn '\n')

end EnvFile
end Command
end GuildRating
