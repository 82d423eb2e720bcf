/-
# What a run does

A run ends with an exit code; it may print a value, log lines and write one file.  A failure is told
by one line of the log.

A line of the log is its level and a text.  `Line.render` writes it so that it cannot steer a
terminal: escape, bell, backspace, form feed, delete and the control characters behind ASCII are
written as their codes.
-/

import GuildRating.Command.Arguments
import GuildRating.Json.Text
import GuildRating.Rating.Basic

namespace GuildRating
namespace Command

/-! ### The log -/

/-- A line of the log. -/
structure Line where
  level : Level
  text : String
deriving DecidableEq

namespace Line

/-- A character of ASCII that a terminal may take for an order. -/
def isOrder (c : Char) : Bool :=
  c = '\x1b' || c = '\x07' || c = '\x08' || c = '\x0c' || c = '\x7f'

/-- A control character behind ASCII. -/
def isFarControl (c : Char) : Bool := 0x80 ≤ c.toNat && c.toNat ≤ 0x9f

/-- A character as it is written. -/
def escape (c : Char) : List Char :=
  let code := [Json.hexChar (c.toNat / 16), Json.hexChar (c.toNat % 16)]
  if isOrder c then '\\' :: 'x' :: code
  else if isFarControl c then '\\' :: 'u' :: '\x7b' :: code ++ ['\x7d']
  else [c]

/-- The line as it is written. -/
def render (line : Line) : String :=
  line.level.label ++ " " ++ String.ofList (line.text.toList.flatMap escape)

end Line

/-! ### Effects -/

/-- Why a request failed. -/
inductive Failure where
  | inaccessible (path : String)
  | invalidJson (path : String)
  | config (error : Config.Error)
  | rating (error : Rating.Error)
deriving DecidableEq

/-- The message of a failure, as the log shows it. -/
def Failure.message : Failure → String
  | inaccessible path => "failed to access " ++ path
  | invalidJson path => "invalid JSON in " ++ path
  | config e => "invalid configuration: " ++ e.message
  | rating e => e.message

/-- What sets one run apart from another. -/
structure Stamp where
  runId : String
  calculatedAt : String

/-- What a run does. -/
structure Effect where
  exit : Nat
  output : Option Json
  log : List Line
  /-- A path and what is written there. -/
  written : Option (String × Json)

namespace Effect

/-- A run that prints a value. -/
def print (succeeded : Bool) (value : Json) (log : List Line) : Effect :=
  ⟨if succeeded then 0 else 1, some value, log, none⟩

/-- A run that fails. -/
def failed (failure : Failure) (log : List Line) : Effect :=
  ⟨1, none, log ++ [⟨.error, failure.message⟩], none⟩

/-- A command line that is not in order. -/
def usage : Effect := ⟨2, none, [], none⟩

/-- A run without an environment. -/
def aborted : Effect := ⟨101, none, [], none⟩

/-- The effect of a request that may fail before it logs anything. -/
def ofExcept : Except Failure Effect → Effect
  | .ok effect => effect
  | .error failure => failed failure []

/-- The effect with only the lines that the level lets through. -/
def withLevel (effect : Effect) (least : Level) : Effect :=
  { effect with log := effect.log.filter fun line => line.level.shownFrom least }

end Effect

end Command
end GuildRating
