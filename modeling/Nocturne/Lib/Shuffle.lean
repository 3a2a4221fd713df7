import Mathlib.Data.List.Basic

/-!
# Shuffling

Fisher and Yates: from the back on, each position is swapped with one that is drawn among those before
it and itself.
-/

namespace Lib

variable {α S : Type} (draw : S → Nat × S)

/-- Shuffle the first `n` positions. -/
def shuffleFirst : Nat → Array α → S → Array α × S
  | n + 2, xs, s =>
    let (r, s) := draw s
    shuffleFirst (n + 1) (xs.swapIfInBounds (n + 1) (r % (n + 2))) s
  | _, xs, s => (xs, s)

/-- Shuffle a list. -/
def shuffle (xs : List α) (s : S) : List α × S :=
  let (ys, s) := shuffleFirst draw xs.length xs.toArray s
  (ys.toList, s)

variable {draw}

theorem swapIfInBounds_perm (xs : Array α) (i j : Nat) : (xs.swapIfInBounds i j).Perm xs := by
  unfold Array.swapIfInBounds
  split
  · split
    · exact Array.swap_perm _ _
    · exact Array.Perm.refl xs
  · exact Array.Perm.refl xs

/-- A shuffle keeps the elements. -/
theorem shuffle_perm (xs : List α) (s : S) : (shuffle draw xs s).1.Perm xs := by
  have hfirst : ∀ (n : Nat) (ys : Array α) (s : S), (shuffleFirst draw n ys s).1.Perm ys := by
    intro n
    induction n with
    | zero => exact fun ys _ ↦ Array.Perm.refl ys
    | succ n ih =>
      intro ys s
      cases n with
      | zero => exact Array.Perm.refl ys
      | succ n => exact (ih _ _).trans (swapIfInBounds_perm _ _ _)
  exact (hfirst xs.length xs.toArray s).toList

end Lib
