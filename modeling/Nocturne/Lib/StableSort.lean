import Mathlib.Data.List.Nodup
import Mathlib.Data.List.Perm.Basic

/-!
# Sorting by a comparator

A stable sort leaves elements that compare equal in the order in which it found them. So what it
makes of a list depends on the order of the list exactly when different elements compare equal.
-/

namespace Lib

variable {α : Type}

/-- The other way round. -/
def descending (cmp : α → α → Ordering) (a b : α) : Ordering := cmp b a

instance {cmp : α → α → Ordering} [Std.TransCmp cmp] : Std.TransCmp (descending cmp) where
  eq_swap := @fun a b ↦ @Std.OrientedCmp.eq_swap _ cmp _ b a
  isLE_trans := fun hab hbc ↦ @Std.TransCmp.isLE_trans _ cmp _ _ _ _ hbc hab

/-- Sort stably. -/
def sortedWith (cmp : α → α → Ordering) (xs : List α) : List α :=
  xs.mergeSort fun a b ↦ (cmp a b).isLE

variable {cmp : α → α → Ordering} {xs ys : List α} {a b : α}

/-- Sorting permutes. -/
theorem sortedWith_perm (cmp : α → α → Ordering) (xs : List α) : (sortedWith cmp xs).Perm xs :=
  List.mergeSort_perm xs _

/-- Sorting keeps the elements. -/
theorem mem_sortedWith : a ∈ sortedWith cmp xs ↔ a ∈ xs := (sortedWith_perm cmp xs).mem_iff

theorem sortedWith_nil : sortedWith cmp [] = [] := List.mergeSort_nil

/-- What is sorted stays as it is. -/
theorem sortedWith_of_pairwise (h : xs.Pairwise fun a b ↦ (cmp a b).isLE = true) :
    sortedWith cmp xs = xs :=
  List.mergeSort_of_pairwise h

/-- Of two elements one is no greater. -/
theorem isLE_total [Std.OrientedCmp cmp] (a b : α) : ((cmp a b).isLE || (cmp b a).isLE) = true := by
  rw [Bool.or_eq_true, @Std.OrientedCmp.eq_swap _ cmp _ b a]
  cases cmp a b <;> decide

/-- Without duplicates, two elements come in one order only. -/
theorem not_both_orders (hnodup : xs.Nodup) (hab : [a, b].Sublist xs) (hba : [b, a].Sublist xs) :
    False := by
  induction xs with
  | nil => cases hab
  | cons x xs ih =>
    obtain ⟨hx, hnodup⟩ := List.nodup_cons.mp hnodup
    rw [List.sublist_cons_iff] at hab hba
    rcases hab with hab | ⟨r, hr, hb⟩
    · rcases hba with hba | ⟨r, hr, -⟩
      · exact ih hnodup hab hba
      · injection hr with hbx _
        exact hx (hbx ▸ hab.subset (by simp))
    · injection hr with hax hr
      subst hax hr
      rcases hba with hba | ⟨r, hr, -⟩
      · exact hx (hba.subset (by simp))
      · injection hr with hbx _
        exact hx (hbx ▸ hb.subset (by simp))

section Trans

variable [Std.TransCmp cmp]

/-- What is sorted ascends. -/
theorem pairwise_sortedWith (xs : List α) :
    (sortedWith cmp xs).Pairwise fun a b ↦ (cmp a b).isLE = true := by
  apply List.pairwise_mergeSort
  · exact fun a b c ↦ Std.TransCmp.isLE_trans
  · exact isLE_total

/-- Elements that compare equal keep their order. -/
theorem sublist_sortedWith (hab : cmp a b = .eq) (h : [a, b].Sublist xs) :
    [a, b].Sublist (sortedWith cmp xs) := by
  apply List.pair_sublist_mergeSort _ _ _ h
  · exact fun a b c ↦ Std.TransCmp.isLE_trans
  · exact isLE_total
  · rw [hab]
    rfl

/-- Different elements that compare differently have one order. -/
theorem sortedWith_eq_of_perm (h : ∀ a ∈ xs, ∀ b ∈ xs, cmp a b = .eq → a = b) (hp : ys.Perm xs) :
    sortedWith cmp ys = sortedWith cmp xs := by
  have hperm := (sortedWith_perm cmp ys).trans (hp.trans (sortedWith_perm cmp xs).symm)
  apply hperm.eq_of_pairwise _ (pairwise_sortedWith ys) (pairwise_sortedWith xs)
  intro a b ha hb hab hba
  apply h a (hp.mem_iff.mp (mem_sortedWith.mp ha)) b (mem_sortedWith.mp hb)
  exact Std.OrientedCmp.isLE_antisymm hab hba

/-- Two elements of a list can be brought to its front. -/
theorem exists_perm_cons_cons (ha : a ∈ xs) (hb : b ∈ xs) (hab : a ≠ b) :
    ∃ rest, (a :: b :: rest).Perm xs := by
  obtain ⟨s, t, rfl⟩ := List.append_of_mem ha
  have hb' : b ∈ s ++ t := by simpa [Ne.symm hab] using hb
  obtain ⟨s', t', hst⟩ := List.append_of_mem hb'
  refine ⟨s' ++ t', List.Perm.trans (.cons a ?_) List.perm_middle.symm⟩
  rw [hst]
  exact List.perm_middle.symm

/-- The order of the list does not matter exactly where no two elements compare equal. -/
theorem sortedWith_order_free_iff (hnodup : xs.Nodup) :
    (∀ ys : List α, ys.Perm xs → sortedWith cmp ys = sortedWith cmp xs) ↔
      ∀ a ∈ xs, ∀ b ∈ xs, cmp a b = .eq → a = b := by
  constructor
  · intro h a ha b hb hab
    by_contra hne
    obtain ⟨rest, hrest⟩ := exists_perm_cons_cons ha hb hne
    have hba : cmp b a = .eq := Std.OrientedCmp.eq_comm.mp hab
    -- Sorted from both orders, the two elements would stand in both orders.
    have hab' : [a, b].Sublist (sortedWith cmp xs) := by
      rw [← h _ hrest]
      exact sublist_sortedWith hab (by simp)
    have hba' : [b, a].Sublist (sortedWith cmp xs) := by
      rw [← h _ ((List.Perm.swap a b rest).trans hrest)]
      exact sublist_sortedWith hba (by simp)
    exact not_both_orders ((sortedWith_perm cmp xs).nodup_iff.mpr hnodup) hab' hba'
  · exact fun h ys hp ↦ sortedWith_eq_of_perm h hp

end Trans

end Lib
