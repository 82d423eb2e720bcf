/-
# Running the program

`Command.run` says what a run does: its exit code, what it prints, what it logs and which file it
writes.  A command line that is not in order ends with code 2 before anything else happens, a
failure with code 1 and one line in the log.  Settings that cannot come into force end the run with
code 101 before the command line is looked at.
-/

import GuildRating.Batch.Record
import GuildRating.Command.Directory
import GuildRating.Command.EnvFile
import GuildRating.Command.Effect
import GuildRating.Formula.Answers
import GuildRating.Json.Parser

namespace GuildRating
namespace Command

/-- Reads a file as JSON of some kind. -/
def readFile {α : Type} (files : Files) (read? : Json → Option α) (path : String) :
    Except Failure α :=
  match files.read path with
  | none => .error (.inaccessible path)
  | some text =>
    match (Json.ofText? text).bind read? with
    | some value => .ok value
    | none => .error (.invalidJson path)

/-- An event of a batch as a line of the log. -/
def lineOfEvent (stamp : Stamp) : Batch.Event → Line
  | .started guilds players =>
    ⟨.info, "Starting batch " ++ stamp.runId ++ " (" ++ toString guilds ++ " guilds, " ++
      toString players ++ " players)"⟩
  | .invalidConfig guild e =>
    ⟨.warn, "Guild " ++ guild ++ " has an invalid configuration: " ++ e.message⟩
  | .repeatedPlayer guild player =>
    ⟨.warn, "Guild " ++ guild ++ ": duplicate player " ++ player ++ ", keeping the last entry"⟩
  | .guildRated guild algorithm rated failed =>
    ⟨.debug, "Guild " ++ guild ++ " rated with " ++ algorithm.name ++ ": " ++ toString rated ++
      " ok, " ++ toString failed ++ " failed"⟩
  | .repeatedGuild guild => ⟨.warn, "Duplicate guild " ++ guild ++ ", keeping the last entry"⟩
  | .completed rated failed compiled =>
    ⟨.info, "Batch " ++ stamp.runId ++ " complete: " ++ toString rated ++ " rated, " ++
      toString failed ++ " failed, " ++ toString compiled ++ " formulas compiled"⟩

/-- The report of a batch with its stamp. -/
def stamped (stamp : Stamp) (report : Batch.Report) : Json :=
  .record [("runId", .text stamp.runId), ("calculatedAt", .text stamp.calculatedAt),
    ("guilds", report.toJson)]

/-- Prints the verdict on a formula, and succeeds if it is accepted. -/
def validate (source : String) : Effect :=
  let verdict := Formula.judge .standard source
  .print verdict.isAccepted verdict.toJson []

/-- Prints the preview of a formula with the player of a file, or else with the sample player, and
succeeds if it has a value. -/
def testFormula (files : Files) (source : String) (inputs : Option String) :
    Except Failure Effect := do
  let player ←
    match inputs with
    | some path => readFile files Player.ofJson? path
    | none => .ok .sample
  let preview := Formula.preview source player
  return .print preview.result?.isSome preview.toJson []

/-- Prints the rating of one player by one configuration, which is checked first. -/
def calculate (files : Files) (config inputs : String) : Except Failure Effect := do
  let config ← readFile files Config.ofJson? config
  let player ← readFile files Player.ofJson? inputs
  config.check.mapError Failure.config
  let rating ← (Rating.rate config player).mapError Failure.rating
  return .print true
    (.record [("algorithm", .text config.algorithm.name), ("rating", .double rating)])
    [⟨.info, "Calculated " ++ config.algorithm.name ++ " rating: " ++ rating.text⟩]

/-- Rates the guilds of a file and prints the report or writes it to a file.  The log tells the
events of the batch in either case, also if the file cannot be written. -/
def batch (files : Files) (stamp : Stamp) (input : String) (output : Option String) :
    Except Failure Effect := do
  let guilds ← readFile files Batch.ofJson? input
  let (report, events, _) := Batch.run (.empty .standard) guilds
  let log := events.map (lineOfEvent stamp)
  let value := stamped stamp report
  match output with
  | none => return .print true value log
  | some path =>
    if files.canWrite path then
      let line : Line := ⟨.info, "Report " ++ stamp.runId ++ " written to " ++ path⟩
      return ⟨0, none, log ++ [line], some (path, value)⟩
    else return .failed (.inaccessible path) log

/-- The effect of a request, with all lines of the log. -/
def perform (files : Files) (stamp : Stamp) : Request → Effect
  | .validate source => validate source
  | .testFormula source inputs => .ofExcept (testFormula files source inputs)
  | .calculate config inputs => .ofExcept (calculate files config inputs)
  | .batch input output => .ofExcept (batch files stamp input output)
  | .reference => .print true Formula.reference []

/-- The variable that chooses the log level. -/
def levelVariable : String := "RUST_LOG"

/-- The environment after the working directory's own settings were loaded.  Settings that are not
all UTF-8 count as absent here; read line by line, the lines before the first bad one would come
into force. -/
def environmentOf? (files : Files) (environment : Environment) : Option Environment :=
  match files.read ".env" with
  | some text => EnvFile.load environment text
  | none => some environment

/-- The invocation that a command line stands for in an environment. -/
def invocation? (files : Files) (environment : Environment) (args : List String) :
    Option Invocation := do
  let environment ← environmentOf? files environment
  read? (environment.lookup levelVariable) args

/-- The effect of a run. -/
def run (files : Files) (environment : Environment) (stamp : Stamp) (args : List String) :
    Effect :=
  match invocation? files environment args with
  | some invocation => (perform files stamp invocation.request).withLevel invocation.level
  | none => if (environmentOf? files environment).isSome then .usage else .aborted

end Command
end GuildRating
