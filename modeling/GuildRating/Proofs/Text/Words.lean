/-
# Collapsed texts

The words of a text split at every blank (`wordsFrom_append_blank`), and a word has no blank in it
(`isWord_of_mem_words`).  So collapsing a text changes none of its words (`words_collapse`), a
collapsed text stays as it is (`collapse_collapse`), and no text grows (`length_collapse_le`).
-/

import GuildRating.Text.Basic

namespace GuildRating
namespace Text

/-- Characters that can be a word of a text: one at least, and no blank. -/
def IsWord (word : List Char) : Prop := word ≠ [] ∧ ∀ c ∈ word, isBlank c = false

theorem isBlank_space : isBlank ' ' = true := by decide

/-- A blank ends the word that stands before it. -/
theorem wordsFrom_append_blank {c : Char} (hc : isBlank c = true) (word text rest : List Char) :
    wordsFrom word (text ++ c :: rest) = wordsFrom word text ++ words rest := by
  induction text generalizing word with
  | nil =>
    rw [List.nil_append, wordsFrom, wordsFrom, if_pos hc]
    split <;> rfl
  | cons d text ih =>
    rw [List.cons_append, wordsFrom, wordsFrom]
    split
    · split
      · exact ih []
      · rw [ih [], List.cons_append]
    · exact ih (d :: word)

/-- A text of blanks has no words. -/
theorem words_of_blank {text : List Char} (h : ∀ c ∈ text, isBlank c = true) : words text = [] := by
  induction text with
  | nil => rfl
  | cons c text ih =>
    rw [List.forall_mem_cons] at h
    rw [words, wordsFrom, if_pos h.1]
    exact ih h.2

/-- Blanks at the end are not seen in the collapsed text. -/
theorem collapse_append_of_blank (text : String) {blanks : List Char}
    (h : ∀ c ∈ blanks, isBlank c = true) :
    collapse (text ++ String.ofList blanks) = collapse text := by
  rw [collapse, collapse, String.toList_append, String.toList_ofList]
  cases blanks with
  | nil => rw [List.append_nil]
  | cons c blanks =>
    rw [List.forall_mem_cons] at h
    rw [words, wordsFrom_append_blank h.1, words_of_blank h.2, List.append_nil, words]

/-- Without a blank the word that was begun takes the whole text. -/
theorem wordsFrom_of_no_blank {word text : List Char} (h : ∀ c ∈ text, isBlank c = false)
    (hne : word ≠ [] ∨ text ≠ []) : wordsFrom word text = [word.reverse ++ text] := by
  induction text generalizing word with
  | nil =>
    rcases hne with hne | hne
    · simp [wordsFrom, hne]
    · exact absurd rfl hne
  | cons c text ih =>
    rw [List.forall_mem_cons] at h
    rw [wordsFrom, if_neg (by simp [h.1]), ih h.2 (.inl (List.cons_ne_nil _ _))]
    simp

theorem isWord_of_mem_wordsFrom {word text w : List Char} (hword : ∀ c ∈ word, isBlank c = false)
    (hw : w ∈ wordsFrom word text) : IsWord w := by
  induction text generalizing word with
  | nil =>
    rw [wordsFrom] at hw
    split at hw
    · cases hw
    · next hne =>
      obtain rfl := List.mem_singleton.1 hw
      exact ⟨by simpa using hne, by simpa using hword⟩
  | cons c text ih =>
    rw [wordsFrom] at hw
    split at hw
    · split at hw
      · exact ih (by simp) hw
      · next hne =>
        rcases List.mem_cons.1 hw with rfl | hw
        · exact ⟨by simpa using hne, by simpa using hword⟩
        · exact ih (by simp) hw
    · next hc => exact ih (List.forall_mem_cons.2 ⟨by simpa using hc, hword⟩) hw

/-- A word of a text is not empty and has no blank in it. -/
theorem isWord_of_mem_words {text w : List Char} (h : w ∈ words text) : IsWord w :=
  isWord_of_mem_wordsFrom (by simp) h

/-- **Words joined by single spaces are read back.** -/
theorem words_intercalate {ws : List (List Char)} (h : ∀ w ∈ ws, IsWord w) :
    words ([' '].intercalate ws) = ws := by
  induction ws with
  | nil => rfl
  | cons w ws ih =>
    rw [List.forall_mem_cons] at h
    obtain ⟨⟨hne, hblank⟩, hws⟩ := h
    have alone : words w = [w] := wordsFrom_of_no_blank hblank (.inr hne)
    cases ws with
    | nil => rwa [List.intercalate_singleton]
    | cons w' ws =>
      rw [List.intercalate_cons_cons, List.append_assoc, List.singleton_append, words,
        wordsFrom_append_blank isBlank_space, ih hws]
      exact congrArg (· ++ w' :: ws) alone

/-- **Collapsing a text keeps its words.** -/
theorem words_collapse (text : String) : words (collapse text).toList = words text.toList := by
  rw [collapse, String.toList_ofList]
  exact words_intercalate fun _ => isWord_of_mem_words

/-- **A collapsed text stays as it is.** -/
theorem collapse_collapse (text : String) : collapse (collapse text) = collapse text := by
  rw [collapse, words_collapse, ← collapse]

/-- Each word but the first costs the space before it, which stood in the text too. -/
theorem length_intercalate_wordsFrom_le (word text : List Char) :
    ([' '].intercalate (wordsFrom word text)).length ≤ word.length + text.length := by
  induction text generalizing word with
  | nil =>
    rw [wordsFrom]
    split <;> simp
  | cons c text ih =>
    rw [wordsFrom]
    have := ih []
    split
    · split
      · simp only [List.length_cons, List.length_nil] at *
        omega
      · generalize wordsFrom [] text = ws at this
        cases ws with
        | nil => simp
        | cons w ws =>
          rw [List.intercalate_cons_cons]
          simp only [List.length_append, List.length_cons, List.length_nil,
            List.length_reverse] at *
          omega
    · have := ih (c :: word)
      simp only [List.length_cons] at *
      omega

/-- **Collapsing a text never makes it longer.** -/
theorem length_collapse_le (text : String) : (collapse text).length ≤ text.length := by
  rw [← String.length_toList, ← String.length_toList, collapse, String.toList_ofList]
  have := length_intercalate_wordsFrom_le [] text.toList
  rwa [List.length_nil, Nat.zero_add] at this

end Text
end GuildRating
