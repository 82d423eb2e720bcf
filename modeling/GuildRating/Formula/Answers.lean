/-
# Answers about formulas

What is said to those who write formulas.  A verdict answers the question whether a formula may be
stored: with the normal form to store, or with the reason against it.  A preview shows the verdict
and, if the formula is accepted, its value or its error for one player, so that a formula can be
tried before it is stored.  The reference is a table of what the language offers: variables,
operators and functions.
-/

import GuildRating.Formula.Basic
import GuildRating.Player.Record

namespace GuildRating
namespace Formula

/-! ### Verdicts -/

/-- Whether a formula may be stored: accepted with the normal form to store, or refused for a
reason. -/
inductive Verdict where
  | accepted (normalized : String)
  | refused (reason : Error)
deriving DecidableEq

namespace Verdict

/-- The formula may be stored. -/
def isAccepted : Verdict → Bool
  | accepted _ => true
  | refused _ => false

/-- Writes a verdict with the normal form or the message of the reason. -/
def toJson : Verdict → Json
  | accepted normalized =>
    .record [("valid", .bool true), ("normalizedFormula", .text normalized)]
  | refused reason => .record [("valid", .bool false), ("error", .text reason.message)]

end Verdict

/-- The verdict on a text. -/
def judge (limits : Limits) (source : String) : Verdict :=
  match compile limits source with
  | .ok formula => .accepted formula.normalized
  | .error reason => .refused reason

/-- The verdict on a tree under the standard limits; its normal form is its rendering. -/
def Expr.judge (v : Vocabulary) (tree : Expr) : Verdict :=
  match tree.check v .standard with
  | .ok () => .accepted tree.render
  | .error reason => .refused (.check reason)

/-! ### Previews -/

/-- A verdict and, beyond it, what the formula gives for one player. -/
structure Preview where
  verdict : Verdict
  /-- The formula's value, or why it has none; nothing for a formula that was refused. -/
  outcome : Option (Except Error Double)
  player : Player

namespace Preview

/-- The value of the formula, if it has one. -/
def result? (preview : Preview) : Option Double :=
  match preview.outcome with
  | some (.ok value) => some value
  | _ => none

/-- Why an accepted formula has no value. -/
def error? (preview : Preview) : Option Error :=
  match preview.outcome with
  | some (.error e) => some e
  | _ => none

/-- Writes a preview, with the player whose numbers were used. -/
def toJson (preview : Preview) : Json :=
  .record ([("validation", preview.verdict.toJson)] ++
    Json.optional "result" (preview.result?.map .double) ++
    Json.optional "error" (preview.error?.map fun e => .text e.message) ++
    [("inputs", preview.player.toJson)])

end Preview

/-- The preview of a text with a player. -/
def preview (source : String) (player : Player) : Preview :=
  match compile .standard source with
  | .ok formula => ⟨.accepted formula.normalized, some (formula.evaluate player), player⟩
  | .error reason => ⟨.refused reason, none, player⟩

/-! ### The reference -/

/-- The symbols that operators are written with. -/
def operatorSymbols : List Symbol :=
  [.plus, .minus, .star, .slash, .percent, .less, .lessEqual, .greater, .greaterEqual,
    .equalEqual, .notEqual, .andAnd, .orOr, .bang, .question, .colon]

/-- All that a formula may use, each with what there is to know about it. -/
def reference : Json :=
  .record [
    ("variables", .array (Vocabulary.full.knownVariables.map fun v =>
      .record [("name", .text v.name), ("description", .text v.description)])),
    ("operators", .array (operatorSymbols.map fun s => .text s.text)),
    ("functions", .array (Vocabulary.full.knownFunctions.map fun f =>
      .record [("name", .text f.name), ("arity", .text f.arity.text),
        ("description", .text f.description)]))]

end Formula
end GuildRating
