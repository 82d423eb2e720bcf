/-
# Writing JSON

`Json.compact` writes a value on one line and `Json.pretty` one item or field to a line.  Doubles
keep a point or an exponent, so that a reader can tell them from whole numbers, and the values
that are not finite are written as null.
-/

import GuildRating.Decimal.Style
import GuildRating.Json.Text
import GuildRating.Json.Value

namespace GuildRating
namespace Json

/-- Numbers in JSON: positional from `10⁻⁵` up to `10¹⁶`, elsewhere with a signed exponent. -/
def numberStyle : NumberStyle := ⟨.toEven, fun first => -5 ≤ first && first < 16, ".0", "+"⟩

/-- The text of a number. -/
def Number.render : Number → String
  | .natural n => toString n
  | .negative n => "-" ++ toString n
  | .double x => if x.isFinite then numberStyle.render x else "null"
  | .outOfRange => "null"

/-- The text of a string; one without a text is written as null. -/
def renderText (s : Option String) : String := (s.map quote).getD "null"

mutual

/-- The value on one line. -/
def compact : Json → String
  | .null => "null"
  | .bool b => if b then "true" else "false"
  | .number n => n.render
  | .string s => renderText s
  | .array items => "[" ++ ",".intercalate (compactItems items) ++ "]"
  | .object fields => "\x7b" ++ ",".intercalate (compactFields fields) ++ "\x7d"

/-- The items of an array on one line. -/
def compactItems : List Json → List String
  | [] => []
  | item :: rest => item.compact :: compactItems rest

/-- The fields of an object on one line. -/
def compactFields : List (Option String × Json) → List String
  | [] => []
  | (name, value) :: rest => (renderText name ++ ":" ++ value.compact) :: compactFields rest

end

/-- Lines between two brackets, one step further in than the brackets. -/
def block (margin opening closing : String) (lines : List String) : String :=
  if lines.isEmpty then opening ++ closing
  else
    let inner := "\n" ++ margin ++ "  "
    opening ++ inner ++ ("," ++ inner).intercalate lines ++ "\n" ++ margin ++ closing

mutual

/-- The value with one item or field to a line, at the given margin. -/
def prettyAt (margin : String) : Json → String
  | .array items => block margin "[" "]" (prettyItems margin items)
  | .object fields => block margin "\x7b" "\x7d" (prettyFields margin fields)
  | value => value.compact

/-- The items of an array, each on lines of its own. -/
def prettyItems (margin : String) : List Json → List String
  | [] => []
  | item :: rest => item.prettyAt (margin ++ "  ") :: prettyItems margin rest

/-- The fields of an object, each on lines of its own. -/
def prettyFields (margin : String) : List (Option String × Json) → List String
  | [] => []
  | (name, value) :: rest =>
    (renderText name ++ ": " ++ value.prettyAt (margin ++ "  ")) :: prettyFields margin rest

end

/-- The value with one item or field to a line. -/
def pretty (value : Json) : String := value.prettyAt ""

end Json
end GuildRating
