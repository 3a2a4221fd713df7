import Mathlib.Data.List.Nodup

/-!
# Edited lists of pairs

A key that is edited is looked up first, and put at the end with a default value where it is new. After
any number of edits the value at a key is what the edits of this key make of the first one.
-/

namespace Lib

variable {K V : Type} [BEq K] [LawfulBEq K]

section Lookup

variable {k : K} {v : V} {l : List (K × V)}

/-- Where no key occurs twice, an element is what its key is looked up to. -/
theorem lookup_of_mem (hnd : (l.map Prod.fst).Nodup) (h : (k, v) ∈ l) :
    l.lookup k = some v := by
  induction l with
  | nil => cases h
  | cons e l ih =>
    rw [List.map_cons, List.nodup_cons] at hnd
    rcases List.mem_cons.mp h with rfl | h
    · simp
    · have hne : k ≠ e.1 := by
        rintro rfl
        exact hnd.1 (List.mem_map.mpr ⟨_, h, rfl⟩)
      rw [← ih hnd.2 h, List.lookup_cons, beq_false_of_ne hne]

theorem mem_of_lookup (h : l.lookup k = some v) : (k, v) ∈ l := by
  obtain ⟨l₁, l₂, rfl, -⟩ := List.lookup_eq_some_iff.mp h
  exact List.mem_append_right l₁ List.mem_cons_self

theorem isSome_lookup : (l.lookup k).isSome ↔ k ∈ l.map Prod.fst := by
  simp

end Lookup

variable [DecidableEq K]

/-- Edit the value at `k`, which is `d` where `k` is new. -/
def touch (d : V) (k : K) (f : V → V) : List (K × V) → List (K × V)
  | [] => [(k, f d)]
  | (k', v) :: l => if k' = k then (k', f v) :: l else (k', v) :: touch d k f l

/-- Edits one after another. -/
def touchAll (d : V) (l : List (K × V)) (edits : List (K × (V → V))) : List (K × V) :=
  edits.foldl (fun l e ↦ touch d e.1 e.2 l) l

/-- The edits of one key. -/
def editsOf (k : K) (edits : List (K × (V → V))) : List (V → V) :=
  (edits.filter fun e ↦ decide (e.1 = k)).map Prod.snd

/-- What edits make of a value. -/
def editAll (fs : List (V → V)) (v : V) : V := fs.foldl (fun v f ↦ f v) v

variable {d : V} {k k' : K} {f : V → V} {l : List (K × V)}

theorem lookup_touch : (touch d k f l).lookup k' =
    if k' = k then some (f ((l.lookup k).getD d)) else l.lookup k' := by
  induction l with
  | nil =>
    unfold touch
    by_cases hk : k' = k
    · rw [if_pos hk, hk]
      simp
    · rw [if_neg hk]
      simp [List.lookup_cons, beq_false_of_ne hk]
  | cons e l ih =>
    obtain ⟨k₀, v⟩ := e
    unfold touch
    by_cases h₀ : k₀ = k
    · rw [if_pos h₀, h₀]
      by_cases hk : k' = k
      · rw [if_pos hk, hk]
        simp
      · rw [if_neg hk]
        simp [List.lookup_cons, beq_false_of_ne hk]
    · rw [if_neg h₀, List.lookup_cons, List.lookup_cons, List.lookup_cons, ih]
      rw [beq_false_of_ne (Ne.symm h₀)]
      by_cases hk : k' = k₀
      · subst hk
        simp [h₀]
      · rw [beq_false_of_ne hk]

theorem fst_touch : (touch d k f l).map Prod.fst =
    if k ∈ l.map Prod.fst then l.map Prod.fst else l.map Prod.fst ++ [k] := by
  induction l with
  | nil => rfl
  | cons e l ih =>
    obtain ⟨k₀, v⟩ := e
    unfold touch
    by_cases h₀ : k₀ = k
    · rw [if_pos h₀, h₀]
      simp
    · rw [if_neg h₀, List.map_cons, ih, List.map_cons]
      simp only [List.mem_cons, Ne.symm h₀, false_or]
      split <;> rfl

theorem nodup_touch (h : (l.map Prod.fst).Nodup) : ((touch d k f l).map Prod.fst).Nodup := by
  rw [fst_touch]
  split
  · exact h
  · next hk => exact List.nodup_append.mpr ⟨h, List.nodup_singleton k, by
      intro a ha b hb
      rw [List.mem_singleton.mp hb]
      exact fun he ↦ hk (he ▸ ha)⟩

/-- An edited key has the value that its edits make of the first one. -/
theorem lookup_touchAll (edits : List (K × (V → V))) (l : List (K × V)) (k : K) :
    (touchAll d l edits).lookup k =
      if editsOf k edits = [] then l.lookup k
      else some (editAll (editsOf k edits) ((l.lookup k).getD d)) := by
  induction edits generalizing l with
  | nil => rfl
  | cons e edits ih =>
    show (touchAll d (touch d e.1 e.2 l) edits).lookup k = _
    rw [ih, lookup_touch]
    by_cases he : k = e.1
    · have hof : editsOf k (e :: edits) = e.2 :: editsOf k edits := by
        simp [editsOf, ← he]
      rw [hof, if_pos he, if_neg (List.cons_ne_nil _ _), ← he]
      by_cases hnil : editsOf k edits = []
      · rw [if_pos hnil, hnil]
        rfl
      · rw [if_neg hnil]
        rfl
    · have hof : editsOf k (e :: edits) = editsOf k edits := by
        simp [editsOf, Ne.symm he]
      rw [hof, if_neg he]

end Lib
