/-
# Words of a text, and reading from its front

`Text.isBlank` is the property White_Space of Unicode.  A text is *collapsed* when its words, the
runs of characters that are not blank, are joined by single spaces; `Text.collapse` brings any text
into that form.

A step of a reader takes something off the front of a list and leaves a shorter rest.  The proof
that it is shorter travels with the rest, so that readers that call each other end by the length of
what is left.
-/

namespace GuildRating

/-! ### Blanks and words -/

namespace Text

/-- The characters with the property White_Space, as ranges of code points. -/
def blankRanges : List (Nat × Nat) :=
  [(0x0009, 0x000d), (0x0020, 0x0020), (0x0085, 0x0085), (0x00a0, 0x00a0), (0x1680, 0x1680),
   (0x2000, 0x200a), (0x2028, 0x2029), (0x202f, 0x202f), (0x205f, 0x205f), (0x3000, 0x3000)]

/-- The character is blank. -/
def isBlank (c : Char) : Bool :=
  blankRanges.any fun range => range.1 ≤ c.toNat && c.toNat ≤ range.2

/-- The words of a text, the word that `text` begins with being continued from `word`, whose
characters are in reverse order. -/
def wordsFrom (word : List Char) : List Char → List (List Char)
  | [] => if word.isEmpty then [] else [word.reverse]
  | c :: rest =>
    if isBlank c then
      if word.isEmpty then wordsFrom [] rest else word.reverse :: wordsFrom [] rest
    else wordsFrom (c :: word) rest

/-- The words of a text in order. -/
def words (text : List Char) : List (List Char) := wordsFrom [] text

/-- The words of a text joined by single spaces. -/
def collapse (text : String) : String :=
  String.ofList ([' '].intercalate (words text.toList))

/-- The text holds no word. -/
def allBlank (text : String) : Bool := text.toList.all isBlank

end Text

/-! ### The front of a list -/

/-- A value read off the front of `input`, and the rest. -/
structure Front {α : Type} (input : List α) (β : Type) where
  value : β
  rest : List α
  shorter : rest.length < input.length

namespace Front

variable {α β γ : Type} {input : List α}

/-- The same reading with its value changed. -/
def map (f : β → γ) (front : Front input β) : Front input γ :=
  ⟨f front.value, front.rest, front.shorter⟩

/-- A reading of a shorter input is one of the whole input. -/
def widen {whole : List α} (front : Front input β) (h : input.length ≤ whole.length) :
    Front whole β :=
  ⟨front.value, front.rest, Nat.lt_of_lt_of_le front.shorter h⟩

end Front

end GuildRating
