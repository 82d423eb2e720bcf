/-
# The program

Everything that a run does is decided by `Command.run`; here its arguments, its environment and
its files are fetched, and its effect is carried out.
-/

import GuildRating.Command.Run
import GuildRating.Json.Printer
import Std.Time

namespace GuildRating
namespace Program

open Command

/-- The contents of those files that can be read. -/
def fetch (paths : List String) : IO (List (String × String)) := do
  let mut contents : List (String × String) := []
  for path in paths do
    try
      contents := (path, ← IO.FS.readFile path) :: contents
    catch _ => pure ()
  return contents

/-- Fetched files, and whether a file could be written. -/
def filesOf (contents : List (String × String)) (canWrite : Bool) : Files :=
  ⟨fun path => contents.lookup path, fun _ => canWrite⟩

/-- The paths that a request reads from. -/
def pathsOf : Request → List String
  | .testFormula _ (some inputs) => [inputs]
  | .calculate config inputs => [config, inputs]
  | .batch input _ => [input]
  | _ => []

/-- Hexadecimal digits drawn at random. -/
def randomHex (count : Nat) : IO String := do
  let mut digits : List Char := []
  for _ in [0:count] do
    digits := Json.hexChar (← IO.rand 0 15) :: digits
  return String.ofList digits

/-- The time, which is told in UTC. -/
def drawTime : IO String := do
  let now ← Std.Time.Timestamp.now
  let date := Std.Time.PlainDateTime.ofWallTime (now.toWallTime .zero)
  return date.toLeanDateTimeString ++ "Z"

/-- A random run id and the time. -/
def drawStamp : IO Stamp := do
  let id := "-".intercalate [← randomHex 8, ← randomHex 4, "4" ++ (← randomHex 3),
    "a" ++ (← randomHex 3), ← randomHex 12]
  return ⟨id, ← drawTime⟩

/-- Writes the file of an effect, if there is one, and says whether that succeeded. -/
def write (effect : Effect) : IO Bool := do
  match effect.written with
  | none => return true
  | some (path, value) =>
    try
      IO.FS.writeFile path value.pretty
      return true
    catch _ => return false

/-- Logs and prints what an effect says. -/
def tell (effect : Effect) : IO UInt32 := do
  for line in effect.log do
    IO.eprintln line.render
  if let some value := effect.output then
    IO.println value.pretty
  if effect.exit = 2 then
    IO.eprintln "error: invalid arguments"
  if effect.exit = 101 then
    IO.eprintln "error: a setting in .env cannot be put into force"
  return UInt32.ofNat effect.exit

/-- A run with the given arguments. -/
def start (args : List String) : IO UInt32 := do
  let environment : Environment :=
    match ← IO.getEnv levelVariable with
    | some level => [(levelVariable, level)]
    | none => []
  let settings ← fetch [".env"]
  let paths :=
    match invocation? (filesOf settings true) environment args with
    | some invocation => pathsOf invocation.request
    | none => []
  let contents := settings ++ (← fetch paths)
  let stamp ← drawStamp
  let effect := run (filesOf contents true) environment stamp args
  if ← write effect then tell effect
  else tell (run (filesOf contents false) environment stamp args)

end Program
end GuildRating

/-- The program as a whole. -/
def main (args : List String) : IO UInt32 := GuildRating.Program.start args
