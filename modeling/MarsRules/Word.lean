/-! Words of the catalog. A closed vocabulary is a list of terms and the way each term is written; a word
stands for the term that is written so. -/

namespace MarsRules

/-- The term of `terms` that is written `word`. -/
def termOf? {α : Type} (write : α → String) (terms : List α) (word : String) : Option α :=
  terms.find? (write · == word)

variable {α : Type} {write : α → String} {terms : List α} {word : String}

theorem write_termOf? {t : α} (h : termOf? write terms word = some t) : write t = word := by
  simpa using List.find?_some h

/-- What stands before an ending, if the word ends so. -/
def stem? (ending word : String) : Option String :=
  if ending.toList.isSuffixOf word.toList then
    some (String.ofList (word.toList.take (word.length - ending.length)))
  else none

theorem append_of_stem? {ending stem : String} (h : stem? ending word = some stem) :
    stem ++ ending = word := by
  unfold stem? at h
  split at h
  · next hends =>
    cases h
    obtain ⟨front, hfront⟩ := List.isSuffixOf_iff_suffix.mp hends
    have hlength : word.length - ending.length = front.length := by
      rw [← String.length_toList, ← String.length_toList, ← hfront, List.length_append]
      omega
    refine String.toList_inj.mp ?_
    rw [String.toList_append, String.toList_ofList, hlength, ← hfront, List.take_left]
  · cases h

end MarsRules
