import Mathlib.Data.List.Induction
import Nocturne.Lib.Table

/-!
# Groups

One pass over a list keeps an accumulator for each key that it meets. What an accumulator holds in
the end is what its group says, in the order of the list: `collect_rule` proves it element by
element. `fill` writes rows under their own keys.
-/

namespace Lib.Groups

section Collect

variable {α K V : Type} [DecidableEq K]

/-- Change what stands under a key, or begin with `new`. -/
def enter (t : Table K V) (k : K) (new : V) (change : V → V) : Table K V :=
  t.put k (change ((t.get? k).getD new))

/-- One element enters the accumulator of its key; an element without a key enters none. -/
def enterOne (key : α → Option K) (new : α → V) (add : V → α → V) (t : Table K V) (x : α) :
    Table K V :=
  match key x with
  | none => t
  | some k => enter t k (new x) (add · x)

/-- The accumulators after a pass. -/
def collect (key : α → Option K) (new : α → V) (add : V → α → V) (xs : List α) : Table K V :=
  xs.foldl (enterOne key new add) .empty

/-- The elements with a key. -/
def group (key : α → Option K) (k : K) (xs : List α) : List α := xs.filter fun x ↦ key x = some k

variable {key : α → Option K} {new : α → V} {add : V → α → V} {xs : List α} {k : K}

theorem mem_group {x : α} : x ∈ group key k xs ↔ x ∈ xs ∧ key x = some k := by
  unfold group
  rw [List.mem_filter, decide_eq_true_iff]

theorem group_concat (x : α) :
    group key k (xs ++ [x]) = if key x = some k then group key k xs ++ [x] else group key k xs := by
  unfold group
  rw [List.filter_append]
  split
  · next h => rw [List.filter_cons_of_pos (by simpa using h)]; rfl
  · next h => rw [List.filter_cons_of_neg (by simpa using h)]; simp

theorem collect_concat (x : α) :
    collect key new add (xs ++ [x]) = enterOne key new add (collect key new add xs) x := by
  unfold collect
  rw [List.foldl_concat]

/-- What an element changes. -/
theorem get?_collect_concat (x : α) : (collect key new add (xs ++ [x])).get? k =
    if key x = some k then some (add (((collect key new add xs).get? k).getD (new x)) x)
    else (collect key new add xs).get? k := by
  rw [collect_concat, enterOne]
  cases hx : key x with
  | none => simp
  | some k' =>
    dsimp only
    rw [enter, Table.get?_put]
    by_cases hk : k = k'
    · subst hk
      simp
    · have hk' : ¬ some k' = some k := fun h ↦ hk (Option.some.inj h).symm
      rw [if_neg hk, if_neg hk']

/-- A key without an element has no accumulator, and no other key. -/
theorem get?_collect_eq_none : (collect key new add xs).get? k = none ↔ group key k xs = [] := by
  induction xs using List.reverseRecOn with
  | nil => exact iff_of_true rfl rfl
  | append_singleton xs x ih =>
    rw [get?_collect_concat, group_concat]
    by_cases hx : key x = some k
    · simp [hx]
    · rw [if_neg hx, if_neg hx]
      exact ih

/-- A property of a group and its accumulator that the first element establishes and each further
one keeps. -/
theorem collect_rule {P : List α → V → Prop} (hfirst : ∀ x, key x = some k → P [x] (add (new x) x))
    (hmore : ∀ ys v x, key x = some k → P ys v → P (ys ++ [x]) (add v x)) {v : V}
    (h : (collect key new add xs).get? k = some v) : P (group key k xs) v := by
  induction xs using List.reverseRecOn generalizing v with
  | nil => cases h
  | append_singleton xs x ih =>
    rw [get?_collect_concat] at h
    rw [group_concat]
    by_cases hx : key x = some k
    · rw [if_pos hx] at h ⊢
      cases hold : (collect key new add xs).get? k with
      | none =>
        rw [hold] at h
        cases h
        rw [get?_collect_eq_none.mp hold]
        exact hfirst x hx
      | some old =>
        rw [hold] at h
        cases h
        exact hmore _ _ _ hx (ih hold)
    · rw [if_neg hx] at h ⊢
      exact ih h

end Collect

section Fill

variable {K V : Type} [DecidableEq K]

/-- Write rows under their keys; a later row replaces an earlier one. -/
def fill (key : V → K) (t : Table K V) (rows : List V) : Table K V :=
  rows.foldl (fun t row ↦ t.put (key row) row) t

variable {key : V → K} {rows : List V} {k : K}

/-- The last row with a key is found under it. -/
theorem get?_fill (t : Table K V) : (fill key t rows).get? k =
    (rows.reverse.find? fun row ↦ key row = k).or (t.get? k) := by
  induction rows using List.reverseRecOn with
  | nil => rfl
  | append_singleton rows row ih =>
    have hstep : fill key t (rows ++ [row]) = (fill key t rows).put (key row) row := by
      unfold fill
      rw [List.foldl_concat]
    rw [hstep, Table.get?_put, List.reverse_append]
    by_cases hk : key row = k
    · rw [if_pos hk.symm]
      simp [hk]
    · rw [if_neg (Ne.symm hk), ih]
      simp [hk]

theorem fill_append (t : Table K V) (rows' : List V) :
    fill key t (rows ++ rows') = fill key (fill key t rows) rows' := by
  unfold fill
  rw [List.foldl_append]

/-- Rows with keys of their own are all there, and no others. -/
theorem get?_fill_eq_some (h : (rows.map key).Nodup) {row : V} :
    (fill key .empty rows).get? k = some row ↔ row ∈ rows ∧ key row = k := by
  rw [get?_fill, Table.get?_empty, Option.or_none]
  constructor
  · intro hf
    exact ⟨List.mem_reverse.mp (List.mem_of_find?_eq_some hf), by simpa using List.find?_some hf⟩
  · rintro ⟨hrow, rfl⟩
    cases hf : rows.reverse.find? fun row' ↦ key row' = key row with
    | none =>
      have hn := List.find?_eq_none.mp hf row (List.mem_reverse.mpr hrow)
      simp at hn
    | some row' =>
      have hrow' := List.mem_reverse.mp (List.mem_of_find?_eq_some hf)
      have hkey : key row' = key row := by simpa using List.find?_some hf
      rw [List.inj_on_of_nodup_map h hrow' hrow hkey]

/-- A table is its rows, in some order. -/
theorem perm_rows_fill (h : (rows.map key).Nodup) :
    ((fill key .empty rows).rows.map Prod.snd).Perm rows := by
  have hnodup : ((fill key .empty rows).rows.map Prod.snd).Nodup := by
    have hkeys := Table.nodup_keys (fill key .empty rows)
    apply List.Nodup.of_map key
    rw [List.map_map]
    refine (List.map_congr_left fun r hr ↦ ?_) ▸ hkeys
    exact ((get?_fill_eq_some h).mp (Table.mem_rows.mp hr)).2.symm
  apply (List.perm_ext_iff_of_nodup hnodup (List.Nodup.of_map key h)).mpr
  intro row
  rw [List.mem_map]
  constructor
  · rintro ⟨r, hr, rfl⟩
    exact ((get?_fill_eq_some h).mp (Table.mem_rows.mp hr)).1
  · intro hrow
    exact ⟨(key row, row), Table.mem_rows.mpr ((get?_fill_eq_some h).mpr ⟨hrow, rfl⟩), rfl⟩

/-- A table of rows made from the rows of another one that has them under the same keys. -/
theorem get?_fill_rows {W : Type} {t : Table K W} {f : W → V}
    (h : ∀ k w, t.get? k = some w → key (f w) = k) :
    (fill key .empty (t.rows.map fun r ↦ f r.2)).get? k = (t.get? k).map f := by
  have hkeys : ((t.rows.map fun r ↦ f r.2).map key).Nodup := by
    rw [List.map_map]
    refine (List.map_congr_left fun r hr ↦ ?_) ▸ t.nodup_keys
    exact (h r.1 r.2 (Table.mem_rows.mp hr)).symm
  ext v
  rw [get?_fill_eq_some hkeys, List.mem_map, Option.map_eq_some_iff]
  constructor
  · rintro ⟨⟨r, hr, rfl⟩, rfl⟩
    have hrow := Table.mem_rows.mp hr
    exact ⟨r.2, by rw [h r.1 r.2 hrow, hrow], rfl⟩
  · rintro ⟨w, hw, rfl⟩
    exact ⟨⟨(k, w), Table.mem_rows.mpr hw, rfl⟩, h k w hw⟩

end Fill

end Lib.Groups
