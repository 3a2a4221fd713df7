import Nocturne.Lib.StableSort

/-!
# Binary search by a comparator

`bsearch` halves an interval of a sorted array until it meets an element that compares equal with
the key. It finds one exactly where there is one.
-/

namespace Lib

variable {α : Type} {cmp : α → α → Ordering} {key : α} {xs : List α}

/-- Search between `l` and `u`. -/
def bsearchFrom (cmp : α → α → Ordering) (key : α) (xs : List α) : (fuel l u : Nat) → Option Nat
  | 0, _, _ => none
  | fuel + 1, l, u =>
    if l < u then
      match xs[(l + u) / 2]? with
      | none => none
      | some x =>
        match cmp key x with
        | .lt => bsearchFrom cmp key xs fuel l ((l + u) / 2)
        | .eq => some ((l + u) / 2)
        | .gt => bsearchFrom cmp key xs fuel ((l + u) / 2 + 1) u
    else none

/-- `bsearch(3)`: the index of an element that compares equal with the key. -/
def bsearch (cmp : α → α → Ordering) (key : α) (xs : List α) : Option Nat :=
  bsearchFrom cmp key xs xs.length 0 xs.length

/-- What is found compares equal. -/
theorem bsearchFrom_eq_some {fuel l u i : Nat} (h : bsearchFrom cmp key xs fuel l u = some i) :
    ∃ x, xs[i]? = some x ∧ cmp key x = .eq := by
  induction fuel generalizing l u with
  | zero => cases h
  | succ fuel ih =>
    rw [bsearchFrom] at h
    split at h
    · split at h
      · cases h
      · next x hx =>
        cases hcmp : cmp key x with
        | lt =>
          rw [hcmp] at h
          exact ih h
        | eq =>
          rw [hcmp] at h
          cases h
          exact ⟨x, hx, hcmp⟩
        | gt =>
          rw [hcmp] at h
          exact ih h
    · cases h

variable [Std.TransCmp cmp]

/-- What compares equal between `l` and `u` is found. -/
theorem bsearchFrom_isSome (hsorted : xs.Pairwise fun a b ↦ (cmp a b).isLE = true)
    {fuel l u i : Nat} {x : α} (hx : xs[i]? = some x) (heq : cmp key x = .eq) (hl : l ≤ i)
    (hu : i < u) (hlength : u ≤ xs.length) (hfuel : u ≤ l + fuel) :
    (bsearchFrom cmp key xs fuel l u).isSome = true := by
  induction fuel generalizing l u with
  | zero => omega
  | succ fuel ih =>
    have hmid : (l + u) / 2 < xs.length := by omega
    obtain ⟨hi, hxi⟩ := List.getElem?_eq_some_iff.mp hx
    have hle := List.pairwise_iff_getElem.mp hsorted
    rw [bsearchFrom, if_pos (by omega), List.getElem?_eq_getElem hmid]
    dsimp only
    cases hcmp : cmp key xs[(l + u) / 2] with
    | lt =>
      -- The key is before the middle, and so is what compares equal with it.
      apply ih hl _ (by omega) (by omega)
      by_contra hge
      have hbefore : (cmp xs[(l + u) / 2] x).isLE = true := by
        rcases Nat.eq_or_lt_of_le (Nat.le_of_not_lt hge) with rfl | hlt
        · rw [hxi]
          exact Std.ReflCmp.isLE_rfl
        · have h := hle _ _ hmid hi hlt
          rwa [hxi] at h
      have heq' : cmp x key = .eq := Std.OrientedCmp.eq_comm.mp heq
      have hback := Std.TransCmp.isLE_trans hbefore (by rw [heq']; rfl : (cmp x key).isLE = true)
      exact Std.OrientedCmp.not_lt_of_isLE hback hcmp
    | eq => rfl
    | gt =>
      apply ih _ hu hlength (by omega)
      by_contra hlt
      have hafter : (cmp x xs[(l + u) / 2]).isLE = true := by
        rcases Nat.eq_or_lt_of_le (Nat.le_of_lt_succ (Nat.lt_of_not_le hlt)) with rfl | hlt
        · rw [hxi]
          exact Std.ReflCmp.isLE_rfl
        · have h := hle _ _ hi hmid hlt
          rwa [hxi] at h
      have hback := Std.TransCmp.isLE_trans (by rw [heq]; rfl : (cmp key x).isLE = true) hafter
      rw [hcmp] at hback
      cases hback

/-- A search of a sorted array finds what is there. -/
theorem bsearch_isSome_iff (hsorted : xs.Pairwise fun a b ↦ (cmp a b).isLE = true) :
    (bsearch cmp key xs).isSome = true ↔ ∃ x ∈ xs, cmp key x = .eq := by
  constructor
  · intro h
    obtain ⟨i, hi⟩ := Option.isSome_iff_exists.mp h
    obtain ⟨x, hx, heq⟩ := bsearchFrom_eq_some hi
    exact ⟨x, List.mem_of_getElem? hx, heq⟩
  · rintro ⟨x, hx, heq⟩
    obtain ⟨i, hi⟩ := List.mem_iff_getElem?.mp hx
    have hlt := (List.getElem?_eq_some_iff.mp hi).1
    exact bsearchFrom_isSome hsorted hi heq (Nat.zero_le _) hlt (Nat.le_refl _) (by omega)

end Lib
