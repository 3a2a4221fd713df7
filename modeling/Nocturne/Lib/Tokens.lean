import Mathlib.Algebra.GroupWithZero.Nat
import Mathlib.Data.List.Basic

/-!
# Tokens between separators

A list is cut at its separators, and the empty pieces are dropped. Joining pieces and cutting them
again gives the pieces exactly when none is empty or has a separator, and what is cut out of a list
is, joined, no longer than the list.
-/

namespace Lib.Tokens

variable {α : Type} [DecidableEq α] {sep : α} {xs : List α} {parts : List (List α)}

/-- The pieces between separators that are not empty. -/
def tokens (sep : α) (xs : List α) : List (List α) := (xs.splitOn sep).filter fun part ↦ part ≠ []

/-- The parts have no separator. -/
theorem notMem_of_mem_splitOn {part : List α} (h : part ∈ xs.splitOn sep) : sep ∉ part := by
  induction xs generalizing part with
  | nil =>
    rw [List.splitOn_nil, List.mem_singleton] at h
    simp [h]
  | cons x xs ih =>
    rw [List.splitOn_cons_eq_if_modifyHead] at h
    split at h
    · rcases List.mem_cons.mp h with rfl | hpart
      · simp
      · exact ih hpart
    · next hx =>
      obtain ⟨first, others, hsplit⟩ := List.exists_cons_of_ne_nil (List.splitOn_ne_nil sep xs)
      rw [hsplit] at h ih
      rcases List.mem_cons.mp h with rfl | hpart
      · have hfirst : sep ∉ first := ih (.head _)
        have hne : sep ≠ x := fun he ↦ hx (by simp [he])
        simp [hne, hfirst]
      · exact ih (.tail _ hpart)

/-- A token is not empty and has no separator. -/
theorem mem_tokens {part : List α} (h : part ∈ tokens sep xs) : part ≠ [] ∧ sep ∉ part := by
  obtain ⟨hsplit, hne⟩ := List.mem_filter.mp h
  exact ⟨of_decide_eq_true hne, notMem_of_mem_splitOn hsplit⟩

/-- Joined pieces are cut into the pieces. -/
theorem tokens_intercalate (h : ∀ part ∈ parts, part ≠ [] ∧ sep ∉ part) :
    tokens sep ([sep].intercalate parts) = parts := by
  by_cases hnil : parts = []
  · rw [hnil]
    simp [tokens]
  · rw [tokens, List.splitOn_intercalate sep (fun part hpart ↦ (h part hpart).2) hnil]
    exact List.filter_eq_self.mpr fun part hpart ↦ decide_eq_true (h part hpart).1

omit [DecidableEq α] in
/-- What is joined has the elements of the pieces. -/
theorem mem_intercalate {x : α} (hne : x ≠ sep) :
    x ∈ [sep].intercalate parts ↔ ∃ part ∈ parts, x ∈ part := by
  induction parts with
  | nil => simp
  | cons part parts ih =>
    cases parts with
    | nil => simp
    | cons next parts =>
      rw [List.intercalate_cons_cons, List.mem_append, List.mem_append, ih, List.mem_singleton]
      simp [hne]

/-! ### Lengths -/

/-- The length of some pieces with a separator behind each. -/
def width (parts : List (List α)) : Nat := (parts.map fun part ↦ part.length + 1).sum

omit [DecidableEq α] in
/-- The width of one more part. -/
theorem width_cons (part : List α) : width (part :: parts) = part.length + 1 + width parts := by
  simp [width]

omit [DecidableEq α] in
/-- Fewer parts are no wider. -/
theorem width_le_of_sublist {parts' : List (List α)} (h : parts.Sublist parts') :
    width parts ≤ width parts' := by
  induction h with
  | slnil => exact Nat.le_refl _
  | cons part _ ih =>
    rw [width_cons]
    omega
  | cons_cons part _ ih =>
    rw [width_cons, width_cons]
    omega

omit [DecidableEq α] in
/-- The last piece has no separator behind it. -/
theorem length_intercalate (sep : α) (parts : List (List α)) :
    ([sep].intercalate parts).length = width parts - 1 := by
  induction parts with
  | nil => simp [width]
  | cons part parts ih =>
    cases parts with
    | nil => simp [width]
    | cons next parts =>
      have hwidth : width (next :: parts) = next.length + 1 + width parts := width_cons next
      rw [List.intercalate_cons_cons, List.length_append, List.length_append, ih, width_cons part,
        hwidth, List.length_singleton]
      omega

/-- The parts are wider by one than the list. -/
theorem width_splitOn (sep : α) (xs : List α) : width (xs.splitOn sep) = xs.length + 1 := by
  induction xs with
  | nil => simp [width]
  | cons x xs ih =>
    rw [List.splitOn_cons_eq_if_modifyHead]
    split
    · rw [width_cons, ih, List.length_nil, List.length_cons]
      omega
    · obtain ⟨first, others, hsplit⟩ := List.exists_cons_of_ne_nil (List.splitOn_ne_nil sep xs)
      rw [hsplit, width_cons] at ih
      rw [hsplit, List.modifyHead_cons, width_cons, List.length_cons, List.length_cons]
      omega

/-- What is cut out of a list is, joined, no longer than it. -/
theorem length_intercalate_le (h : parts.Sublist (tokens sep xs)) :
    ([sep].intercalate parts).length ≤ xs.length := by
  have hle : width parts ≤ width (xs.splitOn sep) :=
    width_le_of_sublist (h.trans List.filter_sublist)
  rw [width_splitOn] at hle
  rw [length_intercalate]
  omega

end Lib.Tokens
