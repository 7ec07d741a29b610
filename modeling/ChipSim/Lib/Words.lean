import Mathlib.Data.List.Basic

/-!
# Words

A list is cut into words at the elements that are separators; runs of separators count as one.
-/

namespace Lib

variable {α : Type*} {p : α → Bool} {a : α} {w s : List α}

/-- The words of a list. -/
def words (p : α → Bool) (s : List α) : List (List α) :=
  (s.splitOnP p).filter fun w => !w.isEmpty

theorem filter_words_cons (hne : w ≠ []) (ws : List (List α)) :
    (w :: ws).filter (fun w => !w.isEmpty) = w :: ws.filter fun w => !w.isEmpty :=
  List.filter_cons_of_pos (by simpa using hne)

theorem words_append_cons (hw : ∀ c ∈ w, p c = false) (hne : w ≠ []) (ha : p a = true)
    (s : List α) : words p (w ++ a :: s) = w :: words p s := by
  have hsingle : w.splitOnP p = [w] := List.splitOnP_eq_singleton hw
  unfold words
  rw [List.splitOnP_append_cons _ _ ha, hsingle, List.singleton_append, filter_words_cons hne]

theorem words_cons_of_sep (ha : p a = true) (s : List α) : words p (a :: s) = words p s := by
  have hsplit := List.splitOnP_append_cons [] s ha
  unfold words
  rw [List.nil_append] at hsplit
  rw [hsplit]
  simp

theorem words_eq_singleton (hw : ∀ c ∈ w, p c = false) (hne : w ≠ []) : words p w = [w] := by
  unfold words
  rw [List.splitOnP_eq_singleton hw, filter_words_cons hne]
  rfl

/-- A run of separators before a word is skipped. -/
theorem words_replicate_append (ha : p a = true) (k : ℕ) (s : List α) :
    words p (List.replicate k a ++ s) = words p s := by
  induction k with
  | zero => rfl
  | succ k ih => rw [List.replicate_succ, List.cons_append, words_cons_of_sep ha, ih]

/-! ## Counting words -/

/-- The first piece of a list is empty when there is no word at its start. -/
theorem head?_splitOnP (p : α → Bool) (s : List α) :
    ∃ w ws, s.splitOnP p = w :: ws ∧ (w = [] ↔ ∀ c ∈ s.head?, p c = true) := by
  cases s with
  | nil => exact ⟨[], [], by simp, by simp⟩
  | cons c s =>
    rw [List.splitOnP_cons_eq_if_modifyHead]
    split
    · next hc => exact ⟨[], _, rfl, by simp [hc]⟩
    · next hc =>
      cases hs : s.splitOnP p with
      | nil => exact absurd hs (List.splitOnP_ne_nil p s)
      | cons w ws => exact ⟨c :: w, ws, rfl, by simp [hc]⟩

/-- One more element that is no separator begins a word or belongs to the next one. -/
theorem length_words_cons (ha : p a = false) (s : List α) [Decidable (∀ c ∈ s.head?, p c = true)] :
    (words p (a :: s)).length =
      (words p s).length + if ∀ c ∈ s.head?, p c = true then 1 else 0 := by
  obtain ⟨w, ws, hsplit, hnil⟩ := head?_splitOnP p s
  unfold words
  rw [List.splitOnP_cons_eq_if_modifyHead, if_neg (by rw [ha]; decide), hsplit,
    List.modifyHead_cons, filter_words_cons (List.cons_ne_nil a w), List.length_cons]
  by_cases hw : w = []
  · rw [if_pos (hnil.mp hw), hw, List.filter_cons_of_neg (by simp)]
  · rw [if_neg (mt hnil.mpr hw), filter_words_cons hw, List.length_cons]

/-- Cutting a list in two adds at most one word. -/
theorem length_words_add_le (s t : List α) :
    (words p s).length + (words p t).length ≤ (words p (s ++ t)).length + 1 := by
  classical
  induction s with
  | nil =>
    show 0 + (words p t).length ≤ (words p t).length + 1
    omega
  | cons c s ih =>
    by_cases hc : p c = true
    · rw [List.cons_append, words_cons_of_sep hc, words_cons_of_sep hc]
      exact ih
    · rw [Bool.not_eq_true] at hc
      rw [List.cons_append, length_words_cons hc, length_words_cons hc]
      cases s with
      | nil =>
        have hnil : (words p ([] : List α)).length = 0 := rfl
        rw [hnil, if_pos (by simp), List.nil_append]
        omega
      | cons d s =>
        rw [List.cons_append, List.head?_cons, List.head?_cons]
        rw [List.cons_append] at ih
        omega

theorem length_words_cons_pos (ha : p a = false) (s : List α) :
    0 < (words p (a :: s)).length := by
  classical
  induction s generalizing a with
  | nil =>
    rw [length_words_cons ha, if_pos (by simp)]
    omega
  | cons c s ih =>
    rw [length_words_cons ha]
    by_cases hc : p c = true
    · rw [if_pos (by simpa using hc)]
      omega
    · exact Nat.add_pos_left (ih (Bool.eq_false_iff.mpr hc)) _

/-- A list with an element that is no separator has a word. -/
theorem length_words_pos {c : α} (hc : c ∈ s) (hp : p c = false) : 0 < (words p s).length := by
  induction s with
  | nil => cases hc
  | cons d s ih =>
    by_cases hd : p d = true
    · rw [words_cons_of_sep hd]
      refine ih ((List.mem_cons.mp hc).resolve_left ?_)
      rintro rfl
      rw [hd] at hp
      cases hp
    · exact length_words_cons_pos (Bool.eq_false_iff.mpr hd) s

/-- The first part of a list has no more words than the whole. -/
theorem length_words_le_append (s t : List α) :
    (words p s).length ≤ (words p (s ++ t)).length := by
  classical
  induction s with
  | nil => exact Nat.zero_le _
  | cons c s ih =>
    by_cases hc : p c = true
    · rw [List.cons_append, words_cons_of_sep hc, words_cons_of_sep hc]
      exact ih
    · rw [Bool.not_eq_true] at hc
      cases s with
      | nil =>
        rw [length_words_cons hc, if_pos (by simp)]
        exact length_words_cons_pos hc t
      | cons d s =>
        rw [List.cons_append, length_words_cons hc, length_words_cons hc, List.cons_append,
          List.head?_cons, List.head?_cons]
        exact Nat.add_le_add_right ih _

end Lib
