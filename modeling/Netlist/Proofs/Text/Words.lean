/-
Module: Netlist.Proofs.Text.Words
Layer: Proofs
Purpose: Words of a text. Wherever words are read character by character, what is read are the pieces
  between separators that are not empty. A separator cuts a text into two that can be read by themselves.
Imports: Netlist.Text.Blank
Main exports: Text.wordsBy, Text.wordsBy_append_cons, Text.words_eq_wordsBy
-/
import Netlist.Text.Blank

namespace Netlist.Text

/-- The pieces of a list between separators, without the empty ones. -/
def wordsBy {α : Type} (separates : α → Bool) (text : List α) : List (List α) :=
  (text.splitOnP separates).filter (fun word => !word.isEmpty)

/-- The words on both sides of a separator are those of the whole. -/
theorem wordsBy_append_cons {α : Type} {separates : α → Bool} {a : α} (h : separates a = true)
    (before after : List α) :
    wordsBy separates (before ++ a :: after) = wordsBy separates before ++ wordsBy separates after := by
  simp only [wordsBy, List.splitOnP_append_cons _ _ h, List.filter_append]

theorem closeWord_eq (gathered : List Char) (later : List (List Char)) :
    closeWord gathered (later.filter (fun word => !word.isEmpty)) =
      (gathered.reverse :: later).filter (fun word => !word.isEmpty) := by
  cases gathered with
  | nil => rfl
  | cons c rest => simp [closeWord]

/-- Words that are gathered character by character are the pieces between blanks. -/
theorem wordsFrom_eq (gathered text : List Char) :
    wordsFrom gathered text =
      (text.splitOnPPrepend isBlank gathered).filter (fun word => !word.isEmpty) := by
  induction text generalizing gathered with
  | nil => exact closeWord_eq gathered []
  | cons c rest ih =>
      unfold wordsFrom
      by_cases hblank : isBlank c = true
      · rw [if_pos hblank, ih, List.splitOnPPrepend_cons_pos hblank, List.splitOnPPrepend_nil_right]
        exact closeWord_eq gathered (rest.splitOnP isBlank)
      · rw [if_neg hblank, ih, List.splitOnPPrepend_cons_neg (by simpa using hblank)]

theorem words_eq_wordsBy (text : List Char) : words text = wordsBy isBlank text := by
  unfold words
  rw [wordsFrom_eq, List.splitOnPPrepend_nil_right]
  rfl

end Netlist.Text
