import Mathlib.Data.List.Basic
/-!
# The words of a text

`words sep l` are the maximal parts of `l` without a separator. They hold all the other elements of the text,
in order (`flatten_words`), and words put together with a separator between them come apart into the same words
(`words_intercalate`).
-/

namespace Words

variable {α : Type*} {sep : α → Bool} {l w : List α} {b : α}

/-- The parts of a text between the separators, without the empty ones. -/
def words (sep : α → Bool) (l : List α) : List (List α) := (l.splitOnP sep).filter fun w => !w.isEmpty

theorem flatten_splitOnP (l : List α) : (l.splitOnP sep).flatten = l.filter fun a => !sep a := by
  induction l with
  | nil => rfl
  | cons a l ih =>
    rw [List.splitOnP_cons_eq_if_modifyHead]
    by_cases ha : sep a = true
    · simp [ha, ih]
    · obtain ⟨w, ws, hws⟩ := List.exists_cons_of_ne_nil (List.splitOnP_ne_nil sep l)
      rw [hws] at ih ⊢
      rw [if_neg ha, List.modifyHead_cons, List.filter_cons_of_pos (by simp [ha]), ← ih]
      simp

theorem flatten_words (l : List α) : (words sep l).flatten = l.filter fun a => !sep a := by
  rw [words, List.flatten_filter_not_isEmpty, flatten_splitOnP]

theorem of_mem_words {a : α} (hw : w ∈ words sep l) (ha : a ∈ w) : a ∈ l ∧ sep a = false := by
  have hmem : a ∈ (words sep l).flatten := List.mem_flatten.mpr ⟨w, hw, ha⟩
  rw [flatten_words, List.mem_filter] at hmem
  simpa using hmem

theorem words_single (hw : w ≠ []) (hsep : ∀ a ∈ w, sep a = false) : words sep w = [w] := by
  rw [words, List.splitOnP_eq_singleton hsep]
  simp [hw]

theorem words_append_cons (hb : sep b = true) (hw : w ≠ []) (hsep : ∀ a ∈ w, sep a = false) :
    words sep (w ++ b :: l) = w :: words sep l := by
  rw [words, List.splitOnP_append_cons_of_forall_mem hsep b hb l]
  simp [hw, words]

/-- **Words with separators between them.** -/
theorem words_intercalate (hb : sep b = true) {ws : List (List α)}
    (hws : ∀ w ∈ ws, w ≠ [] ∧ ∀ a ∈ w, sep a = false) : words sep (List.intercalate [b] ws) = ws := by
  induction ws with
  | nil => rfl
  | cons w ws ih =>
    obtain ⟨hw, hsep⟩ := hws w List.mem_cons_self
    cases ws with
    | nil =>
      rw [List.intercalate_singleton]
      exact words_single hw hsep
    | cons v ws =>
      rw [List.intercalate_cons_cons, List.append_assoc, List.singleton_append, words_append_cons hb hw hsep]
      rw [ih fun u hu => hws u (List.mem_cons_of_mem w hu)]

end Words
