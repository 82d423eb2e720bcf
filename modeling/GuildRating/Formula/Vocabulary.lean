/-
# The names a formula may use

A formula sees a player through nine variables and computes with eight functions.  A `Vocabulary`
says which of them are allowed; a function may also be called by its name after `Math.`.
-/

import GuildRating.Double.Power
import GuildRating.Player.Basic

namespace GuildRating
namespace Formula

/-- What a formula can ask of a player. -/
inductive Variable where
  | rating (playlist : Playlist)
  | games (playlist : Playlist)
  | totalGames
deriving DecidableEq, Repr

namespace Variable

/-- All variables in their order. -/
def all : List Variable :=
  Playlist.all.map rating ++ Playlist.all.map games ++ [totalGames]

/-- The name of a variable in a formula. -/
def name : Variable → String
  | rating playlist => playlist.name
  | games playlist => playlist.name ++ "Games"
  | totalGames => "totalGames"

/-- How the reference describes a playlist's mode. -/
def mode : Playlist → String
  | .ones => "1v1"
  | .twos => "2v2"
  | .threes => "3v3"
  | .fours => "4v4"

/-- What the reference says of a variable. -/
def description : Variable → String
  | rating playlist => "Current " ++ mode playlist ++ " rating"
  | games playlist => "Games played in " ++ mode playlist
  | totalGames => "Games played across all playlists"

/-- The variable with a name. -/
def ofName? (name : String) : Option Variable := all.find? fun v => v.name = name

end Variable

/-- A value for each variable. -/
abbrev Bindings := Variable → Double

/-- What the variables stand for with a given player. -/
def Bindings.ofPlayer (player : Player) : Bindings
  | .rating playlist => (player.standings.get playlist).current
  | .games playlist => .ofNat (player.games.get playlist).toNat
  | .totalGames => .ofNat player.totalGames

/-- How many arguments a function takes. -/
inductive Arity where
  | exactly (n : Nat)
  | atLeast (n : Nat)
deriving DecidableEq, Repr

namespace Arity

/-- So many arguments are allowed. -/
def accepts : Arity → Nat → Bool
  | exactly n, count => count = n
  | atLeast n, count => n ≤ count

/-- The number of arguments in words. -/
def text : Arity → String
  | exactly n => "exactly " ++ toString n
  | atLeast n => "at least " ++ toString n

end Arity

/-- What a formula can call. -/
inductive Function where
  | abs
  | max
  | min
  | sqrt
  | pow
  | floor
  | ceil
  | round
deriving DecidableEq, Repr

namespace Function

/-- All functions in their order. -/
def all : List Function := [abs, max, min, sqrt, pow, floor, ceil, round]

/-- The name of a function in a formula, without the alias before it. -/
def name : Function → String
  | abs => "abs"
  | max => "max"
  | min => "min"
  | sqrt => "sqrt"
  | pow => "pow"
  | floor => "floor"
  | ceil => "ceil"
  | round => "round"

/-- What the reference says of a function. -/
def description : Function → String
  | abs => "Absolute value"
  | max => "Largest of the arguments"
  | min => "Smallest of the arguments"
  | sqrt => "Square root"
  | pow => "First argument raised to the power of the second"
  | floor => "Round down to an integer"
  | ceil => "Round up to an integer"
  | round => "Round to the nearest integer, halves up"

/-- How many arguments a function takes. -/
def arity : Function → Arity
  | max | min => .atLeast 2
  | pow => .exactly 2
  | _ => .exactly 1

/-- The function's value, if it takes that many arguments. -/
def value? : Function → List Double → Option Double
  | abs, [x] => some x.abs
  | sqrt, [x] => some x.sqrt
  | floor, [x] => some x.floor
  | ceil, [x] => some x.ceil
  | round, [x] => some x.round
  | pow, [x, y] => some (x.pow y)
  | max, x :: y :: rest => some ((x :: y :: rest).foldl Double.larger (.infinity true))
  | min, x :: y :: rest => some ((x :: y :: rest).foldl Double.smaller (.infinity false))
  | _, _ => none

/-- A function has a value exactly where its arity accepts the arguments. -/
theorem isSome_value? (f : Function) (args : List Double) :
    (f.value? args).isSome = f.arity.accepts args.length := by
  cases f <;> rcases args with _ | ⟨x, _ | ⟨y, _ | ⟨z, rest⟩⟩⟩ <;>
    simp [value?, arity, Arity.accepts]

end Function

/-- What may stand before the name of a function. -/
def mathAlias : List Char := "Math.".toList

/-- A function's name without `Math.`. -/
def bareName (name : String) : String :=
  let text := name.toList
  if text.take mathAlias.length = mathAlias then String.ofList (text.drop mathAlias.length)
  else name

/-- The variables and functions that formulas may use, in the order in which they are listed. -/
structure Vocabulary where
  knownVariables : List Variable
  knownFunctions : List Function
deriving DecidableEq, Repr

namespace Vocabulary

/-- Everything there is. -/
def full : Vocabulary := ⟨Variable.all, Function.all⟩

/-- The known variable with a name. -/
def findVariable? (v : Vocabulary) (name : String) : Option Variable :=
  v.knownVariables.find? fun x => x.name = name

/-- The known function with a name, which may stand behind the alias. -/
def findFunction? (v : Vocabulary) (name : String) : Option Function :=
  v.knownFunctions.find? fun f => f.name = bareName name

/-- The variables as messages list them. -/
def variableNames (v : Vocabulary) : String := ", ".intercalate (v.knownVariables.map Variable.name)

/-- The functions as messages list them. -/
def functionNames (v : Vocabulary) : String := ", ".intercalate (v.knownFunctions.map Function.name)

/-- The vocabulary of the names that are known, each at its first place.  A list left out means
everything. -/
def ofNames (varNames funNames : Option (List String)) : Vocabulary where
  knownVariables :=
    match varNames with
    | some names => (names.filterMap full.findVariable?).eraseDups
    | none => full.knownVariables
  knownFunctions :=
    match funNames with
    | some names => (names.filterMap full.findFunction?).eraseDups
    | none => full.knownFunctions

end Vocabulary
end Formula
end GuildRating
