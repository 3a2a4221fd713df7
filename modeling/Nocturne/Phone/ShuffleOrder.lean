import Mathlib.Data.List.Nodup
import Nocturne.Phone.Resume

/-!
# The shuffle order of a resumed queue

The saved order is a permutation of the slots of the saved queue. What the player gets is the order
of the slots that are left, renumbered.
-/

namespace Nocturne

open Lib

namespace Resume

variable {savedOrder : List Int} {savedSize : Int} {kept : List Nat} {order : List Nat}

/-- A permutation of the slots of a queue that is not empty. -/
def IsPermutation (savedOrder : List Int) (savedSize : Int) : Prop :=
  0 < savedSize ∧ savedOrder.Perm ((List.range savedSize.toNat).map Int.ofNat)

/-- `a` comes before `b`. -/
def Before {α : Type} (a b : α) (order : List α) : Prop := [a, b].Sublist order

/-- The loop passes the lists of different slots that it has not seen. -/
theorem isOrder_eq_true {seen : List Int} : isOrder savedSize seen savedOrder = true ↔
    savedOrder.Nodup ∧ ∀ i ∈ savedOrder, 0 ≤ i ∧ i < savedSize ∧ i ∉ seen := by
  induction savedOrder generalizing seen with
  | nil => simp [isOrder]
  | cons i savedOrder ih =>
    rw [isOrder, List.nodup_cons, List.forall_mem_cons]
    by_cases hi : i < 0 ∨ savedSize ≤ i ∨ i ∈ seen
    · rw [if_pos hi]
      simp only [Bool.false_eq_true, false_iff]
      rintro ⟨-, ⟨hpos, hlt, hseen⟩, -⟩
      rcases hi with hneg | hbig | hmem
      · omega
      · omega
      · exact hseen hmem
    · rw [if_neg hi, ih]
      simp only [not_or, Int.not_lt, Int.not_le] at hi
      simp only [List.mem_cons, not_or]
      constructor
      · rintro ⟨hnodup, hrest⟩
        exact ⟨⟨fun h ↦ (hrest i h).2.2.1 rfl, hnodup⟩, hi,
          fun j hj ↦ ⟨(hrest j hj).1, (hrest j hj).2.1, (hrest j hj).2.2.2⟩⟩
      · rintro ⟨⟨hnew, hnodup⟩, -, hrest⟩
        refine ⟨hnodup, fun j hj ↦ ⟨(hrest j hj).1, (hrest j hj).2.1, ?_, (hrest j hj).2.2⟩⟩
        rintro rfl
        exact hnew hj

/-- With as many slots as the queue has, those are the permutations. -/
theorem isOrder_iff (hlength : (savedOrder.length : Int) = savedSize) :
    isOrder savedSize [] savedOrder = true ↔
      savedOrder.Perm ((List.range savedSize.toNat).map Int.ofNat) := by
  rw [isOrder_eq_true]
  have hall : ((List.range savedSize.toNat).map Int.ofNat).Nodup :=
    List.nodup_range.map fun a b h ↦ Int.ofNat.inj h
  constructor
  · rintro ⟨hnodup, hrange⟩
    have hsub : savedOrder ⊆ (List.range savedSize.toNat).map Int.ofNat := by
      intro i hi
      obtain ⟨hpos, hlt, -⟩ := hrange i hi
      exact List.mem_map.mpr ⟨i.toNat, List.mem_range.mpr (by omega), Int.toNat_of_nonneg hpos⟩
    apply (hnodup.subperm hsub).perm_of_length_le
    rw [List.length_map, List.length_range]
    omega
  · intro hperm
    refine ⟨hperm.nodup_iff.mpr hall, fun i hi ↦ ?_⟩
    obtain ⟨n, hn, rfl⟩ := List.mem_map.mp (hperm.mem_iff.mp hi)
    rw [List.mem_range] at hn
    simp only [Int.ofNat_eq_natCast, List.not_mem_nil, not_false_iff, and_true]
    omega

/-- An order is refused exactly where it is no permutation. -/
theorem remapShuffleOrder_eq_none : remapShuffleOrder savedOrder savedSize kept = none ↔
    ¬ IsPermutation savedOrder savedSize := by
  rw [remapShuffleOrder, IsPermutation]
  by_cases hguard : (savedOrder.length : Int) ≠ savedSize ∨ savedSize = 0
  · simp only [if_pos hguard, true_iff, not_and]
    intro hpos hperm
    have hlength := hperm.length_eq
    rw [List.length_map, List.length_range] at hlength
    omega
  · rw [if_neg hguard]
    simp only [not_or, not_not] at hguard
    rw [← isOrder_iff hguard.1]
    have hpos : 0 < savedSize := by omega
    cases isOrder savedSize [] savedOrder <;> simp [hpos]

/-! ### The slots that are left -/

/-- Each slot that is left has the number of its place among them. -/
theorem newIndexOf_eq_some (hkept : kept.Nodup) {i j : Nat} :
    newIndexOf kept i = some j ↔ kept[j]? = some i := by
  -- The numbers of the slots of a list that is extended at its end.
  have hconcat : ∀ (xs : List Nat) (x : Nat), newIndexOf (xs ++ [x]) =
      Function.update (newIndexOf xs) x (some xs.length) := by
    intro xs x
    simp [newIndexOf, List.zipIdx_append]
  induction kept using List.reverseRecOn with
  | nil => simp [newIndexOf]
  | append_singleton xs x ih =>
    rw [List.nodup_append] at hkept
    rw [hconcat, List.getElem?_append]
    by_cases hi : i = x
    · subst hi
      have hnew : i ∉ xs := fun h ↦ hkept.2.2 i h i (List.mem_singleton_self i) rfl
      rw [Function.update_self, Option.some.injEq]
      split
      · next hj =>
        constructor
        · omega
        · exact fun h ↦ absurd (List.mem_of_getElem? h) hnew
      · next hj => simp [List.getElem?_singleton]; omega
    · rw [Function.update_of_ne hi]
      apply (ih hkept.1).trans
      split
      · rfl
      · next hj =>
        have hnone : xs[j]? = none := List.getElem?_eq_none (by omega)
        simp [hnone, List.getElem?_singleton, Ne.symm hi]

/-- Where a partial renumbering can be undone, what is renumbered was there in the same order. -/
theorem sublist_of_filterMap {α β : Type} {f : α → Option β} {g : β → α} {xs : List α}
    (h : ∀ x ∈ xs, ∀ y, f x = some y → g y = x) : ((xs.filterMap f).map g).Sublist xs := by
  induction xs with
  | nil => exact List.Sublist.slnil
  | cons x xs ih =>
    obtain ⟨hfirst, hrest⟩ := List.forall_mem_cons.mp h
    cases hx : f x with
    | none =>
      rw [List.filterMap_cons_none hx]
      exact (ih hrest).cons x
    | some y =>
      rw [List.filterMap_cons_some hx, List.map_cons, hfirst y hx]
      exact (ih hrest).cons_cons x

/-- The slot of an item that is left, as the saved order has it. -/
def slotOf (kept : List Nat) (newIdx : Nat) : Int := (kept[newIdx]?.getD 0 : Nat)

/-- What is returned for a permutation. -/
theorem remapShuffleOrder_eq_some (h : remapShuffleOrder savedOrder savedSize kept = some order) :
    IsPermutation savedOrder savedSize ∧
      order = savedOrder.filterMap fun i ↦ newIndexOf kept i.toNat := by
  have hperm : IsPermutation savedOrder savedSize := by
    by_contra hno
    rw [remapShuffleOrder_eq_none.mpr hno] at h
    cases h
  refine ⟨hperm, ?_⟩
  rw [remapShuffleOrder] at h
  split at h
  · cases h
  · split at h
    · exact (Option.some.inj h).symm
    · cases h

section Remapped

variable (hkept : kept.Pairwise (· < ·)) (hbelow : ∀ i ∈ kept, (i : Int) < savedSize)
include hkept

theorem nodup_kept : kept.Nodup := hkept.imp fun h ↦ by omega

theorem slotOf_newIndexOf (hperm : IsPermutation savedOrder savedSize) :
    ∀ i ∈ savedOrder, ∀ j, newIndexOf kept i.toNat = some j → slotOf kept j = i := by
  intro i hi j hj
  obtain ⟨n, -, rfl⟩ := List.mem_map.mp (hperm.2.mem_iff.mp hi)
  rw [newIndexOf_eq_some (nodup_kept hkept)] at hj
  rw [slotOf, hj]
  rfl

/-- Two slots that are left keep their order. -/
theorem before_remapped (h : remapShuffleOrder savedOrder savedSize kept = some order)
    {a b i j : Nat} (ha : kept[a]? = some i) (hb : kept[b]? = some j) :
    Before a b order ↔ Before (i : Int) j savedOrder := by
  obtain ⟨hperm, rfl⟩ := remapShuffleOrder_eq_some h
  have hnodup := nodup_kept hkept
  constructor
  · intro hbefore
    have hslots := (hbefore.map (slotOf kept)).trans
      (sublist_of_filterMap (slotOf_newIndexOf hkept hperm))
    simpa [Before, slotOf, ha, hb] using hslots
  · intro hbefore
    have hrenumbered := hbefore.filterMap fun i ↦ newIndexOf kept i.toNat
    rw [List.filterMap_cons_some (by exact (newIndexOf_eq_some hnodup).mpr ha),
      List.filterMap_cons_some (by exact (newIndexOf_eq_some hnodup).mpr hb)] at hrenumbered
    exact hrenumbered

include hbelow

/-- The restored indices are permuted. -/
theorem perm_remapped (h : remapShuffleOrder savedOrder savedSize kept = some order) :
    order.Perm (List.range kept.length) := by
  obtain ⟨hperm, rfl⟩ := remapShuffleOrder_eq_some h
  have hnodup := nodup_kept hkept
  apply (hperm.2.filterMap _).trans
  rw [List.filterMap_map, List.perm_ext_iff_of_nodup]
  · intro j
    simp only [List.mem_filterMap, List.mem_range, Function.comp, Int.ofNat_eq_natCast,
      Int.toNat_natCast, newIndexOf_eq_some hnodup]
    constructor
    · rintro ⟨i, -, hj⟩
      exact (List.getElem?_eq_some_iff.mp hj).1
    · intro hj
      have hlt := hbelow kept[j] (List.getElem_mem hj)
      exact ⟨kept[j], by omega, List.getElem?_eq_getElem hj⟩
  · apply List.nodup_range.filterMap
    intro i i' j hi hi'
    simp only [Function.comp, Int.ofNat_eq_natCast, Int.toNat_natCast, Option.mem_def,
      newIndexOf_eq_some hnodup] at hi hi'
    rw [hi] at hi'
    exact Option.some.inj hi'
  · exact List.nodup_range

end Remapped

/-- The projection of a saved order on the slots that are left. -/
theorem remap_projects (savedOrder : List Int) (savedSize : Int) (kept : List Nat)
    (hkept : kept.Pairwise (· < ·)) (hbelow : ∀ i ∈ kept, (i : Int) < savedSize) :
    (remapShuffleOrder savedOrder savedSize kept = none ↔ ¬ IsPermutation savedOrder savedSize) ∧
      ∀ order, remapShuffleOrder savedOrder savedSize kept = some order →
        order.Perm (List.range kept.length) ∧
          ∀ a b i j : Nat, kept[a]? = some i → kept[b]? = some j →
            (Before a b order ↔ Before (i : Int) j savedOrder) := by
  refine ⟨remapShuffleOrder_eq_none, fun order h ↦ ⟨perm_remapped hkept hbelow h, ?_⟩⟩
  intro a b i j ha hb
  exact before_remapped hkept h ha hb

/-- The queue `[x, y, z]`, played `z, x, y`, without `y`. -/
theorem remap_projects_dropped : remapShuffleOrder [2, 0, 1] 3 [0, 2] = some [1, 0] ∧
    [1, 0].Perm (List.range 2) := by
  have hsome : remapShuffleOrder [2, 0, 1] 3 [0, 2] = some [1, 0] := by decide
  exact ⟨hsome, ((remap_projects [2, 0, 1] 3 [0, 2] (by decide) (by decide)).2 _ hsome).1⟩

/-! ### The slots that `restore` keeps -/

/-- The loop keeps slots in their order, from the one on at which it begins. -/
theorem pairwise_resolvedFrom (tracks : Table Text PhoneTrack) (n : Nat) (mediaIds : List Text) :
    ((resolvedFrom tracks n mediaIds).map Prod.fst).Pairwise (· < ·) ∧
      ∀ i ∈ (resolvedFrom tracks n mediaIds).map Prod.fst, n ≤ i ∧ i < n + mediaIds.length := by
  induction mediaIds generalizing n with
  | nil => simp [resolvedFrom]
  | cons mediaId mediaIds ih =>
    obtain ⟨hsorted, hrange⟩ := ih (n + 1)
    have hrest : ∀ i ∈ (resolvedFrom tracks (n + 1) mediaIds).map Prod.fst,
        n < i ∧ i < n + (mediaId :: mediaIds).length := by
      intro i hi
      have := hrange i hi
      rw [List.length_cons]
      omega
    rw [resolvedFrom]
    split
    · rw [List.map_cons, List.pairwise_cons, List.forall_mem_cons]
      refine ⟨⟨fun i hi ↦ (hrest i hi).1, hsorted⟩, ⟨le_refl n, ?_⟩, fun i hi ↦ ?_⟩
      · rw [List.length_cons]
        omega
      · exact ⟨(hrest i hi).1.le, (hrest i hi).2⟩
    · exact ⟨hsorted, fun i hi ↦ ⟨(hrest i hi).1.le, (hrest i hi).2⟩⟩

/-- A resumed queue is played in the order of what is left of the saved one. -/
theorem perm_restore (tracks : Table Text PhoneTrack) (saved : SavedQueue)
    (h : (restore tracks saved).shuffleOrder = some order) :
    order.Perm (List.range (restore tracks saved).mediaIds.length) := by
  obtain ⟨hsorted, hrange⟩ := pairwise_resolvedFrom tracks 0 saved.mediaIds
  revert h
  rw [restore]
  by_cases hempty : (resolvedFrom tracks 0 saved.mediaIds).isEmpty
  · simp [hempty]
  · simp only [hempty]
    intro h
    have hperm := perm_remapped hsorted (fun i hi ↦ by have := hrange i hi; omega) h
    simpa using hperm

end Resume

end Nocturne
