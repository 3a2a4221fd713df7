import Mathlib.Data.List.Nodup
import Mathlib.Logic.Function.Basic

/-!
# Moves one after another

A store has values at places. Each key has a place and is to get another one. A move to a free
place takes the value along; where the place is occupied, the value there is adopted and the key's
own is dropped. Moves one after another do what they would do all at once exactly where no move
comes upon a value of another key.
-/

namespace Lib

variable {ι π κ : Type} [DecidableEq π]

/-- One move. -/
def move (src dst : π) (m : π → Option κ) : π → Option κ :=
  if dst = src then m
  else if (m dst).isSome then Function.update m src none
  else Function.update (Function.update m dst (m src)) src none

/-- Moves in the order of a list of keys. -/
def moves (src dst : ι → π) : List ι → (π → Option κ) → π → Option κ
  | [], m => m
  | k :: ks, m => moves src dst ks (move (src k) (dst k) m)

variable {src dst : ι → π} {k : ι} {ks : List ι} {m m' : π → Option κ} {p : π}

/-! ### One move -/

theorem move_self : move p p m = m := if_pos rfl

theorem move_dst {s d : π} (h : d ≠ s) :
    move s d m d = if (m d).isSome then m d else m s := by
  unfold move
  rw [if_neg h]
  split
  · rw [Function.update_of_ne h]
  · rw [Function.update_of_ne h, Function.update_self]

theorem move_of_ne {s d : π} (hs : p ≠ s) (hd : p ≠ d) : move s d m p = m p := by
  unfold move
  split
  · rfl
  · split
    · rw [Function.update_of_ne hs]
    · rw [Function.update_of_ne hs, Function.update_of_ne hd]

/-- A value at a place that a move does not empty stays there. -/
theorem move_of_isSome {s d : π} (hs : p ≠ s) (hp : (m p).isSome) : move s d m p = m p := by
  by_cases hd : p = d
  · subst hd
    rw [move_dst hs, if_pos hp]
  · exact move_of_ne hs hd

/-- A move looks at two places only. -/
theorem move_congr {s d : π} {S : π → Prop} (h : ∀ p, S p → m p = m' p) (hs : S s) (hd : S d) :
    ∀ p, S p → move s d m p = move s d m' p := by
  intro p hp
  unfold move
  rw [h d hd]
  split
  · exact h p hp
  · split
    · by_cases hps : p = s
      · rw [hps, Function.update_self, Function.update_self]
      · rw [Function.update_of_ne hps, Function.update_of_ne hps, h p hp]
    · by_cases hps : p = s
      · rw [hps, Function.update_self, Function.update_self]
      · rw [Function.update_of_ne hps, Function.update_of_ne hps]
        by_cases hpd : p = d
        · rw [hpd, Function.update_self, Function.update_self, h s hs]
        · rw [Function.update_of_ne hpd, Function.update_of_ne hpd, h p hp]

/-! ### A list of moves -/

theorem moves_append (pre post : List ι) :
    moves src dst (pre ++ post) m = moves src dst post (moves src dst pre m) := by
  induction pre generalizing m with
  | nil => rfl
  | cons k ks ih => exact ih

/-- A value at a place that no move empties stays there. -/
theorem moves_of_isSome (hp : (m p).isSome) (hs : ∀ j ∈ ks, src j ≠ p) :
    moves src dst ks m p = m p := by
  induction ks generalizing m with
  | nil => rfl
  | cons k ks ih =>
    have hk : move (src k) (dst k) m p = m p :=
      move_of_isSome (hs k (List.mem_cons_self ..)).symm hp
    rw [moves, ih (by rw [hk]; exact hp) fun j hj ↦ hs j (List.mem_cons_of_mem _ hj), hk]

end Lib
