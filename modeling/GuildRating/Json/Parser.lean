/-
# Reading JSON

`Json.ofText?` reads one value that takes up all of a text, blanks around it aside.  Fields keep
their order and may repeat; what a repetition means is for the reader of the object to say.
-/

import GuildRating.Json.Number
import GuildRating.Json.Text

namespace GuildRating
namespace Json

/-- The blanks of JSON. -/
def isSpace (c : Char) : Bool := c = ' ' || c = '\t' || c = '\n' || c = '\r'

/-- The text from its first character that is not blank. -/
def skipSpace (text : List Char) : List Char := text.dropWhile isSpace

/-- Skipping blanks leaves no more than there was. -/
theorem length_skipSpace_le (text : List Char) : (skipSpace text).length ≤ text.length :=
  (List.dropWhile_sublist _).length_le

/-- A character that a number may contain. -/
def isNumberChar (c : Char) : Bool :=
  c.isDigit || c = '-' || c = '+' || c = '.' || c = 'e' || c = 'E'

/-- Takes a word off the front. -/
def word? (word : List Char) (value : Json) (text : List Char) : Option (Front text Json) :=
  if h : (text.drop word.length).length < text.length then
    if text.take word.length = word then some ⟨value, text.drop word.length, h⟩ else none
  else none

/-- Takes a number off the front: all characters up to the first that no number contains. -/
def number? (text : List Char) : Option (Front text Json) :=
  match text with
  | [] => none
  | c :: rest =>
    (Number.ofText? (c :: rest.takeWhile isNumberChar)).map fun n =>
      ⟨.number n, rest.dropWhile isNumberChar,
        Nat.lt_succ_of_le (List.dropWhile_sublist _).length_le⟩

mutual

/-- Reads a value off the front of a text that does not start with a blank. -/
def value? (text : List Char) : Option (Front text Json) :=
  match text with
  | '\x22' :: rest => (literal? rest).map fun s => (s.map Json.string).widen (by simp)
  | '[' :: rest =>
    match h : skipSpace rest with
    | ']' :: after =>
      some ⟨.array [], after, by
        have := length_skipSpace_le rest; simp [h] at this ⊢; omega⟩
    | first =>
      (items? first).map fun items => (items.map Json.array).widen (by
        have := length_skipSpace_le rest; simp [h] at this ⊢; omega)
  | '\x7b' :: rest =>
    match h : skipSpace rest with
    | '\x7d' :: after =>
      some ⟨.object [], after, by
        have := length_skipSpace_le rest; simp [h] at this ⊢; omega⟩
    | first =>
      (fields? first).map fun fields => (fields.map Json.object).widen (by
        have := length_skipSpace_le rest; simp [h] at this ⊢; omega)
  | 'n' :: rest => word? ['n', 'u', 'l', 'l'] .null ('n' :: rest)
  | 't' :: rest => word? ['t', 'r', 'u', 'e'] (.bool true) ('t' :: rest)
  | 'f' :: rest => word? ['f', 'a', 'l', 's', 'e'] (.bool false) ('f' :: rest)
  | text => number? text
termination_by 2 * text.length
decreasing_by all_goals
  have := length_skipSpace_le rest
  simp [h] at this ⊢
  omega

/-- Reads items up to the closing bracket; the first one is due. -/
def items? (text : List Char) : Option (Front text (List Json)) :=
  match value? text with
  | none => none
  | some item =>
    match h : skipSpace item.rest with
    | ']' :: after =>
      some ⟨[item.value], after, by
        have := length_skipSpace_le item.rest; have := item.shorter
        simp [h] at *; omega⟩
    | ',' :: after =>
      (items? (skipSpace after)).map fun items =>
        (items.map (item.value :: ·)).widen (by
          have := length_skipSpace_le item.rest; have := length_skipSpace_le after
          have := item.shorter
          simp [h] at *; omega)
    | _ => none
termination_by 2 * text.length + 1
decreasing_by
  · omega
  · have := length_skipSpace_le item.rest
    have := length_skipSpace_le after
    have := item.shorter
    simp [h] at *
    omega

/-- Reads fields up to the closing brace; the first one is due. -/
def fields? (text : List Char) : Option (Front text (List (Option String × Json))) :=
  match text with
  | '\x22' :: rest =>
    match literal? rest with
    | none => none
    | some name =>
      match h : skipSpace name.rest with
      | ':' :: after =>
        match value? (skipSpace after) with
        | none => none
        | some value =>
          match h' : skipSpace value.rest with
          | '\x7d' :: last =>
            some ⟨[(name.value, value.value)], last, by
              have := length_skipSpace_le name.rest; have := length_skipSpace_le after
              have := length_skipSpace_le value.rest
              have := name.shorter; have := value.shorter
              simp [h, h'] at *; omega⟩
          | ',' :: next =>
            (fields? (skipSpace next)).map fun fields =>
              (fields.map ((name.value, value.value) :: ·)).widen (by
                have := length_skipSpace_le name.rest; have := length_skipSpace_le after
                have := length_skipSpace_le value.rest; have := length_skipSpace_le next
                have := name.shorter; have := value.shorter
                simp [h, h'] at *; omega)
          | _ => none
      | _ => none
  | _ => none
termination_by 2 * text.length + 1
decreasing_by
  · have := length_skipSpace_le name.rest
    have := length_skipSpace_le after
    have := name.shorter
    simp [h] at *
    omega
  · have := length_skipSpace_le name.rest
    have := length_skipSpace_le after
    have := length_skipSpace_le value.rest
    have := length_skipSpace_le next
    have := name.shorter
    have := value.shorter
    simp [h, h'] at *
    omega

end

/-- Reads the value that takes up all of a text. -/
def ofText? (text : String) : Option Json :=
  (value? (skipSpace text.toList)).bind fun front =>
    if (skipSpace front.rest).isEmpty then some front.value else none

end Json
end GuildRating
