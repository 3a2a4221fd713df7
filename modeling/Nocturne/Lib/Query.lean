import Mathlib.Data.List.Perm.Subperm
import Mathlib.Data.List.Sort

/-!
# Answers to a query

A query selects rows, puts them in an order and cuts them off at a limit. The order need not be
total, so that there may be several answers. A total order leaves one, and so does, up to a
permutation, a limit that cuts nothing off. Merge sort is not evaluated by the kernel; insertion
sort is, with the same result.
-/

namespace Lib

variable {α : Type}

/-- The merge sort of a total preorder is its insertion sort: both keep the order of equal
elements. -/
theorem mergeSort_eq_insertionSort {le : α → α → Bool}
    (htrans : ∀ x y z, le x y = true → le y z = true → le x z = true)
    (htotal : ∀ x y, (le x y || le y x) = true) (xs : List α) :
    xs.mergeSort le = xs.insertionSort fun x y ↦ le x y = true := by
  have insert : ∀ (x : α) (ys zs : List α), (∀ y ∈ ys, le x y = false) →
      (∀ z ∈ zs, le x z = true) →
        (ys ++ zs).orderedInsert (fun x y ↦ le x y = true) x = ys ++ x :: zs := by
    intro x ys zs hys hzs
    induction ys with
    | nil =>
      cases zs with
      | nil => rfl
      | cons z zs => exact if_pos (hzs z (List.mem_cons_self ..))
    | cons y ys ih =>
      have hy := hys y (List.mem_cons_self ..)
      rw [List.cons_append, List.orderedInsert_cons, if_neg (by simp [hy]),
        ih fun y hy ↦ hys y (List.mem_cons_of_mem _ hy)]
      rfl
  induction xs with
  | nil => rw [List.mergeSort_nil, List.insertionSort_nil]
  | cons x xs ih =>
    obtain ⟨ys, zs, hcons, htail, hys⟩ := List.mergeSort_cons htrans htotal x xs
    have hsorted := List.pairwise_mergeSort htrans htotal (x :: xs)
    rw [hcons, List.pairwise_append, List.pairwise_cons] at hsorted
    rw [List.insertionSort_cons, ← ih, htail, hcons]
    symm
    apply insert
    · intro y hy
      simpa using hys y hy
    · exact hsorted.2.1.1

/-- One more element in a sorted list: the first `k` stay, or the last of them makes room. -/
theorem take_orderedInsert (le : α → α → Prop) [DecidableRel le] (x : α) (l : List α) (k : ℕ) :
    (l.orderedInsert le x).take k = l.take k ∨
      0 < k ∧ ((l.orderedInsert le x).take k).Perm (x :: l.take (k - 1)) := by
  induction l generalizing k with
  | nil =>
    cases k with
    | zero => exact Or.inl rfl
    | succ k =>
      right
      simp
  | cons y ys ih =>
    cases k with
    | zero => exact Or.inl rfl
    | succ k =>
      rw [List.orderedInsert_cons]
      by_cases hxy : le x y
      · right
        rw [if_pos hxy]
        simp
      · rw [if_neg hxy, List.take_succ_cons, List.take_succ_cons]
        rcases ih k with heq | ⟨hk, hperm⟩
        · left
          rw [heq]
        · right
          have hys : (y :: ys).take (k + 1 - 1) = y :: ys.take (k - 1) := by
            cases k with
            | zero => omega
            | succ k => rfl
          rw [hys]
          exact ⟨by omega, (hperm.cons y).trans (List.Perm.swap ..)⟩

/-- A query: the selected rows as they are stored, their order and the limit. -/
structure Query (α : Type) where
  rows : List α
  le : α → α → Bool
  limit : Nat

namespace Query

variable (q : Query α)

/-- The rows in the order in which they are stored, where the query does not say otherwise. -/
def answer : List α := (q.rows.mergeSort q.le).take q.limit

/-- What the query may answer. -/
def Answers (out : List α) : Prop :=
  ∃ all : List α, all.Perm q.rows ∧ all.Pairwise (fun x y ↦ q.le x y = true) ∧
    out = all.take q.limit

/-- The query has a total order. -/
structure Ordered : Prop where
  trans : ∀ x y z, q.le x y = true → q.le y z = true → q.le x z = true
  total : ∀ x y, (q.le x y || q.le y x) = true
  antisymm : ∀ x ∈ q.rows, ∀ y ∈ q.rows, q.le x y = true → q.le y x = true → x = y

/-- The query leaves the order open. -/
def Unordered : Prop := ∀ x y, q.le x y = true

variable {q} {q' : Query α} {out out' : List α} {x : α}

theorem answers_answer (htrans : ∀ x y z, q.le x y = true → q.le y z = true → q.le x z = true)
    (htotal : ∀ x y, (q.le x y || q.le y x) = true) : q.Answers q.answer :=
  ⟨q.rows.mergeSort q.le, List.mergeSort_perm .., List.pairwise_mergeSort htrans htotal _, rfl⟩

theorem Unordered.answers_answer (h : q.Unordered) : q.Answers q.answer := by
  apply Query.answers_answer
  · exact fun x _ z _ _ ↦ h x z
  · intro x y
    rw [h x y, Bool.true_or]

/-- An answer consists of selected rows. -/
theorem Answers.subset (h : q.Answers out) : out ⊆ q.rows := by
  obtain ⟨all, hperm, -, rfl⟩ := h
  exact fun x hx ↦ hperm.subset (List.mem_of_mem_take hx)

/-- A limit that cuts nothing off leaves every row. -/
theorem Answers.perm (h : q.Answers out) (hlimit : q.rows.length ≤ q.limit) : out.Perm q.rows := by
  obtain ⟨all, hperm, -, rfl⟩ := h
  rw [List.take_of_length_le (by rw [hperm.length_eq]; exact hlimit)]
  exact hperm

/-- A total order leaves one answer, however the rows are stored. -/
theorem Ordered.unique (hq : q.Ordered) (hrows : q'.rows.Perm q.rows) (hle : q'.le = q.le)
    (hlimit : q'.limit = q.limit) (h : q.Answers out) (h' : q'.Answers out') : out' = out := by
  obtain ⟨all, hperm, hsorted, rfl⟩ := h
  obtain ⟨all', hperm', hsorted', rfl⟩ := h'
  rw [hle] at hsorted'
  have hall : all' = all := by
    apply @List.Perm.eq_of_pairwise _ (fun x y ↦ q.le x y = true) _ _ _ hsorted' hsorted
    · exact (hperm'.trans hrows).trans hperm.symm
    · intro x y hx hy hxy hyx
      exact hq.antisymm x ((hperm'.trans hrows).mem_iff.mp hx) y (hperm.mem_iff.mp hy) hxy hyx
  rw [hall, hlimit]

/-- Without an order any row may be among the first. -/
theorem Unordered.exists_mem (hq : q.Unordered) (hx : x ∈ q.rows) (hlimit : 0 < q.limit) :
    ∃ out, q.Answers out ∧ x ∈ out := by
  obtain ⟨a, b, hab⟩ := List.append_of_mem hx
  refine ⟨_, ⟨x :: (a ++ b), ?_, ?_, rfl⟩, ?_⟩
  · rw [hab]
    exact List.perm_middle.symm
  · exact List.pairwise_of_forall fun x y ↦ hq x y
  · cases hl : q.limit with
    | zero => omega
    | succ n => exact List.mem_cons_self ..

/-- Without an order any row may be cut off, where some row is. -/
theorem Unordered.exists_not_mem (hq : q.Unordered) (hnodup : q.rows.Nodup) (hx : x ∈ q.rows)
    (hlimit : q.limit < q.rows.length) : ∃ out, q.Answers out ∧ x ∉ out := by
  obtain ⟨a, b, hab⟩ := List.append_of_mem hx
  have hperm : (a ++ b ++ [x]).Perm q.rows := by
    rw [hab, List.append_assoc]
    exact List.Perm.append_left a (List.perm_append_singleton x b)
  have hlen : (a ++ b ++ [x]).length = q.rows.length := hperm.length_eq
  refine ⟨_, ⟨a ++ b ++ [x], hperm, ?_, rfl⟩, ?_⟩
  · exact List.pairwise_of_forall fun x y ↦ hq x y
  · rw [List.length_append, List.length_singleton] at hlen
    rw [List.take_append_of_le_length (by omega)]
    intro hmem
    have hnodup' := hperm.nodup_iff.mpr hnodup
    rw [List.nodup_append] at hnodup'
    exact hnodup'.2.2 x (List.mem_of_mem_take hmem) x (List.mem_singleton.mpr rfl) rfl

/-- Sorting and leaving out rows may change places. -/
theorem mergeSort_filter (hq : q.Ordered ∨ q.Unordered) (p : α → Bool) :
    (q.rows.filter p).mergeSort q.le = (q.rows.mergeSort q.le).filter p := by
  rcases hq with hq | hq
  · have hperm : ((q.rows.filter p).mergeSort q.le).Perm ((q.rows.mergeSort q.le).filter p) :=
      (List.mergeSort_perm ..).trans ((List.mergeSort_perm ..).symm.filter _)
    refine @List.Perm.eq_of_pairwise _ (fun x y ↦ q.le x y = true) _ _ ?_ ?_ ?_ hperm
    · intro x y hx hy hxy hyx
      have hx' := List.mem_mergeSort.mp hx
      have hy' := List.mem_mergeSort.mp (List.mem_filter.mp hy).1
      exact hq.antisymm x (List.mem_filter.mp hx').1 y hy' hxy hyx
    · exact List.pairwise_mergeSort hq.trans hq.total _
    · exact (List.pairwise_mergeSort hq.trans hq.total _).sublist List.filter_sublist
  · rw [List.mergeSort_of_pairwise (List.pairwise_of_forall fun x y ↦ hq x y),
      List.mergeSort_of_pairwise (List.pairwise_of_forall fun x y ↦ hq x y)]

/-- A row of the answer is in the answer from fewer rows, if it is one of them. -/
theorem mem_answer_filter (hq : q.Ordered ∨ q.Unordered) {p : α → Bool} (hx : x ∈ q.answer)
    (hp : p x = true) : x ∈ (Query.mk (q.rows.filter p) q.le q.limit).answer := by
  show x ∈ ((q.rows.filter p).mergeSort q.le).take q.limit
  rw [mergeSort_filter hq]
  unfold answer at hx
  generalize q.rows.mergeSort q.le = xs at hx
  have hpre : (xs.take q.limit).filter p <+: xs.filter p := (List.take_prefix ..).filter p
  have hlen : ((xs.take q.limit).filter p).length ≤ q.limit :=
    (List.length_filter_le ..).trans (List.length_take_le ..)
  have htake : ((xs.take q.limit).filter p) <+: (xs.filter p).take q.limit :=
    (List.prefix_take_iff.mpr ⟨hpre, hlen⟩)
  exact htake.subset (List.mem_filter.mpr ⟨hx, hp⟩)

end Query

end Lib
