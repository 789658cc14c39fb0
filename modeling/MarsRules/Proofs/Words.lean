import MarsRules.Card.Basic
import MarsRules.Proofs.Substitutes

/-! The open vocabularies of the catalog. Each is read by one table and written by another, and the two
are inverse to each other (`vocabularies_open`): every term the rules model has a word of its own, and
any other word, however near it comes to one of these, is kept as it is. -/

namespace MarsRules

/-- Words are read as the `known` terms, and those of no known term as terms of their own. -/
structure OpenVocabulary {α : Type} (read : String → α) (write : α → String) (known : List α)
    (other : String → α) : Prop where
  write_read : ∀ w, write (read w) = w
  /-- No two words are read as one term. -/
  apart : ∀ v w, read v = read w → v = w
  read_write : ∀ t, (∃ w, read w = t) → read (write t) = t
  read_known : ∀ t ∈ known, read (write t) = t
  read_other : ∀ w, (∀ t ∈ known, write t ≠ w) → read w = other w

section OpenVocabulary

variable {α : Type} {read : String → α} {write : α → String} {known : List α} {other : String → α}

theorem apart_of_write_read (h : ∀ w, write (read w) = w) {v w : String} (hvw : read v = read w) :
    v = w :=
  calc v = write (read v) := (h v).symm
    _ = write (read w) := congrArg write hvw
    _ = w := h w

theorem read_other_of_write_read (h : ∀ w, write (read w) = w) (hother : ∀ w, write (other w) = w)
    (hterms : ∀ t, t ∈ known ∨ ∃ w, t = other w) {w : String} (hw : ∀ t ∈ known, write t ≠ w) :
    read w = other w := by
  rcases hterms (read w) with hknown | ⟨v, hv⟩
  · exact absurd (h w) (hw _ hknown)
  · have hsame : v = w := by rw [← hother v, ← hv, h w]
    rw [hv, hsame]

theorem OpenVocabulary.of_write_read (h : ∀ w, write (read w) = w) (hother : ∀ w, write (other w) = w)
    (hterms : ∀ t, t ∈ known ∨ ∃ w, t = other w) (hknown : ∀ t ∈ known, read (write t) = t) :
    OpenVocabulary read write known other where
  write_read := h
  apart _ _ := apart_of_write_read h
  read_write t := by
    rintro ⟨w, rfl⟩
    rw [h w]
  read_known := hknown
  read_other _ := read_other_of_write_read h hother hterms

end OpenVocabulary

theorem ResourceKind.known_or_unknown (k : ResourceKind) : k ∈ known ∨ ∃ w, k = unknown w := by
  cases h : k.isUnknown with
  | true => exact .inr (eq_unknown h)
  | false => exact .inl (mem_known h)

/-- Whatever a catalog writes for a kind of line item, a tag, a condition, a requirement or victory points
is written again as it was read, and no two words come to mean the same. -/
theorem vocabularies_open :
    OpenVocabulary ResourceKind.ofWord ResourceKind.word ResourceKind.known .unknown ∧
    OpenVocabulary Tag.ofWord Tag.word Tag.known .unknown ∧
    OpenVocabulary ConditionKind.ofWord ConditionKind.word ConditionKind.known .unknown ∧
    OpenVocabulary RequirementKind.ofWord RequirementKind.word RequirementKind.known .unknown ∧
    OpenVocabulary VictoryKind.ofWord VictoryKind.word VictoryKind.known .unknown := by
  refine ⟨.of_write_read ResourceKind.word_ofWord (fun _ => rfl) ResourceKind.known_or_unknown
      (by decide +kernel),
    .of_write_read Tag.word_ofWord (fun _ => rfl) (fun t => ?_) (by decide),
    .of_write_read ConditionKind.word_ofWord (fun _ => rfl) (fun t => ?_) (by decide),
    .of_write_read RequirementKind.word_ofWord (fun _ => rfl) (fun t => ?_) (by decide),
    .of_write_read VictoryKind.word_ofWord (fun _ => rfl) (fun t => ?_) (by decide)⟩
  · cases t <;> simp [Tag.known]
  · cases t <;> simp [ConditionKind.known]
  · cases t <;> simp [RequirementKind.known]
  · cases t <;> simp [VictoryKind.known]

/-- A word that only ends as the word of a known kind does. -/
example : ResourceKind.ofWord "colony-tile" = .unknown "colony-tile" := by decide

example : ResourceKind.ofWord "x-production" = .unknown "x-production" := by decide

end MarsRules
