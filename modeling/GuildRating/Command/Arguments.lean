/-
# Command lines

A command line is a subcommand with its own options and arguments; the option for the log level may
stand before the subcommand and behind it.  An option's value follows it as the next argument or is
attached: `--inputs=file`, `-i=file`, `-ifile`.  An argument that begins with `-` is an option,
unless it is `-` alone or stands behind `--`.  Nothing may be given twice.
-/

import GuildRating.Text.Basic

namespace GuildRating
namespace Command

/-- How much is logged, the most first. -/
inductive Level where
  | trace
  | debug
  | info
  | warn
  | error
deriving DecidableEq, Repr

namespace Level

/-- All levels, the least serious one first. -/
def all : List Level := [trace, debug, info, warn, error]

/-- The name by which a level is chosen. -/
def name : Level → String
  | trace => "trace"
  | debug => "debug"
  | info => "info"
  | warn => "warn"
  | error => "error"

/-- The name in front of a log line. -/
def label : Level → String
  | trace => "TRACE"
  | debug => "DEBUG"
  | info => "INFO"
  | warn => "WARN"
  | error => "ERROR"

/-- The level with a name. -/
def ofName? (name : String) : Option Level := all.find? fun level => level.name = name

/-- How serious a level is. -/
def rank : Level → Nat
  | trace => 0
  | debug => 1
  | info => 2
  | warn => 3
  | error => 4

/-- A line of this level is shown when the log starts at `least`. -/
def shownFrom (level least : Level) : Bool := least.rank ≤ level.rank

end Level

/-- What the program is asked to do.  Files are given by their paths. -/
inductive Request where
  | validate (formula : String)
  | testFormula (formula : String) (inputs : Option String)
  | calculate (config inputs : String)
  | batch (input : String) (output : Option String)
  | reference
deriving DecidableEq, Repr

/-- What a command line stands for: a request, and the level from which lines of the log are shown.
-/
structure Invocation where
  request : Request
  level : Level
deriving DecidableEq, Repr

/-- The options there are. -/
inductive Flag where
  | logLevel
  | inputs
  | config
  | input
  | output
deriving DecidableEq, Repr

namespace Flag

/-- The long name of a flag, which stands behind `--`. -/
def long : Flag → String
  | logLevel => "log-level"
  | inputs => "inputs"
  | config => "config"
  | input => "input"
  | output => "output"

/-- The letter of a flag, which stands behind `-`. -/
def short : Flag → Char
  | logLevel => 'l'
  | inputs => 'i'
  | config => 'c'
  | input => 'i'
  | output => 'o'

end Flag

/-- An argument by its form. -/
inductive Argument where
  /-- The argument `--`: all that follows is no option. -/
  | separator
  | long (name : String) (attached : Option String)
  | short (letter : Char) (attached : Option String)
  | plain (text : String)
deriving DecidableEq, Repr

/-- The form of an argument. -/
def Argument.ofText (text : String) : Argument :=
  match text.toList with
  | ['-', '-'] => .separator
  | '-' :: '-' :: rest =>
    let name := rest.takeWhile fun c => c ≠ '='
    match rest.drop name.length with
    | [] => .long (String.ofList name) none
    | _ :: value => .long (String.ofList name) (some (String.ofList value))
  | '-' :: letter :: rest =>
    match rest with
    | [] => .short letter none
    | '=' :: value => .short letter (some (String.ofList value))
    | value => .short letter (some (String.ofList value))
  | _ => .plain text

/-- The options and plain arguments of one part of a command line. -/
structure Given where
  options : List (Flag × String)
  plain : List String

namespace Given

/-- Nothing given. -/
def none : Given := ⟨[], []⟩

/-- The value of an option, if it is given. -/
def value? (given : Given) (flag : Flag) : Option String := given.options.lookup flag

/-- With an option more; refused if it is there already. -/
def add? (given : Given) (flag : Flag) (value : String) : Option Given :=
  if (given.value? flag).isSome then .none
  else some { given with options := (flag, value) :: given.options }

end Given

/-- The option among `flags` that a form names, and its attached value. -/
def flag? (flags : List Flag) : Argument → Option (Flag × Option String)
  | .long name attached => (flags.find? fun f => f.long = name).map (·, attached)
  | .short letter attached => (flags.find? fun f => f.short = letter).map (·, attached)
  | _ => none

/-- Takes arguments until the line ends or, with `stopAtPlain`, up to the first plain one, which
stays at the front of the rest. -/
def take? (flags : List Flag) (stopAtPlain : Bool) (given : Given) :
    List String → Option (Given × List String)
  | [] => some (given, [])
  | text :: rest =>
    match Argument.ofText text with
    | .separator =>
      if stopAtPlain then none else some ({ given with plain := given.plain ++ rest }, [])
    | .plain _ =>
      if stopAtPlain then some (given, text :: rest)
      else take? flags stopAtPlain { given with plain := given.plain ++ [text] } rest
    | form =>
      match flag? flags form with
      | none => none
      | some (flag, some value) =>
        match given.add? flag value with
        | some given => take? flags stopAtPlain given rest
        | none => none
      | some (flag, none) =>
        match rest with
        | [] => none
        | next :: rest =>
          match Argument.ofText next, given.add? flag next with
          | .plain _, some given => take? flags stopAtPlain given rest
          | _, _ => none

/-- A path that is not empty. -/
def path? (text : String) : Option String := if text.isEmpty then none else some text

/-- The path of an option that must be given. -/
def requiredPath? (given : Given) (flag : Flag) : Option String :=
  (given.value? flag).bind path?

/-- The path of an option that may be missing. -/
def optionalPath? (given : Given) (flag : Flag) : Option (Option String) :=
  match given.value? flag with
  | none => some none
  | some text => (path? text).map some

/-- The options of each subcommand. -/
def flagsOf? : String → Option (List Flag)
  | "validate" => some [.logLevel]
  | "test-formula" => some [.logLevel, .inputs]
  | "calculate" => some [.logLevel, .config, .inputs]
  | "batch" => some [.logLevel, .input, .output]
  | "reference" => some [.logLevel]
  | _ => none

/-- The request of a subcommand. -/
def request? (name : String) (given : Given) : Option Request :=
  match name, given.plain with
  | "validate", [formula] => some (.validate formula)
  | "test-formula", [formula] => (optionalPath? given .inputs).map (.testFormula formula)
  | "calculate", [] => do
    return .calculate (← requiredPath? given .config) (← requiredPath? given .inputs)
  | "batch", [] => do
    return .batch (← requiredPath? given .input) (← optionalPath? given .output)
  | "reference", [] => some .reference
  | _, _ => none

/-- The level chosen by one part of the line, which falls back on the environment. -/
def levelOf? (environment : Option String) (given : Given) : Option (Option Level) :=
  match given.value? .logLevel, environment with
  | some name, _ => (Level.ofName? name).map some
  | none, some name => (Level.ofName? name).map some
  | none, none => some none

/-- The level of the whole line: behind the subcommand, before it, from the environment, `info`.
Each part that does not choose a level looks at the environment, so a bad name there is an error
unless both parts choose one. -/
def level? (environment : Option String) (before behind : Given) : Option Level := do
  let first ← levelOf? environment before
  let second ← levelOf? environment behind
  if (behind.value? .logLevel).isSome then return second.getD .info
  else return first.getD .info

/-- Reads a command line; none if it is not in order. -/
def read? (environment : Option String) (args : List String) : Option Invocation := do
  let (before, rest) ← take? [.logLevel] true .none args
  match rest with
  | [] => none
  | name :: rest =>
    let flags ← flagsOf? name
    let (behind, _) ← take? flags false .none rest
    return ⟨← request? name behind, ← level? environment before behind⟩

end Command
end GuildRating
