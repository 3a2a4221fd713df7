import Mathlib.Data.List.Basic

/-!
# Where things are after moves

A store has values at places, and values are moved to free places. `whereabouts` follows the moves
from a place on. A store that has been relocated has every old value where the moves lead, and no
new one.
-/

namespace Lib

variable {π κ : Type} [DecidableEq π]

/-- Where the moves, each a source and a target, bring what was at a place. -/
def whereabouts (moves : List (π × π)) (p : π) : π :=
  moves.foldl (fun q m ↦ if q = m.1 then m.2 else q) p

/-- The store `m` is `m₀` after the moves. Each move has taken up a value. -/
structure Relocated (m₀ : π → Option κ) (moves : List (π × π)) (m : π → Option κ) : Prop where
  kept : ∀ p v, m₀ p = some v → m (whereabouts moves p) = some v
  origin : ∀ q v, m q = some v → ∃ p, m₀ p = some v ∧ whereabouts moves p = q
  source : ∀ before src dst after, moves = before ++ (src, dst) :: after →
    ∃ p v, m₀ p = some v ∧ whereabouts before p = src

variable {m₀ m m' : π → Option κ} {moves before after : List (π × π)} {p src dst : π} {v : κ}

theorem whereabouts_append :
    whereabouts (before ++ after) p = whereabouts after (whereabouts before p) :=
  List.foldl_append

theorem whereabouts_concat : whereabouts (moves ++ [(src, dst)]) p =
    if whereabouts moves p = src then dst else whereabouts moves p :=
  whereabouts_append

/-- What no move has taken up is where it was. -/
theorem whereabouts_of_not_moved (h : ∀ dst, (p, dst) ∉ moves) : whereabouts moves p = p := by
  induction moves with
  | nil => rfl
  | cons m moves ih =>
    obtain ⟨src, dst⟩ := m
    have hne : p ≠ src := by
      rintro rfl
      exact h dst List.mem_cons_self
    have hrest := ih fun dst' hmem ↦ h dst' (List.mem_cons_of_mem _ hmem)
    unfold whereabouts at hrest ⊢
    rw [List.foldl_cons, if_neg hne, hrest]

namespace Relocated

theorem refl (m : π → Option κ) : Relocated m [] m :=
  ⟨fun _ _ h ↦ h, fun q _ h ↦ ⟨q, h, rfl⟩, fun before _ _ after h ↦ by simp at h⟩

/-- A move of a value to a free place. -/
theorem move (h : Relocated m₀ moves m) (hsrc : m src = some v) (hdst : m dst = none)
    (hm' : ∀ q, m' q = if q = src then none else if q = dst then some v else m q) :
    Relocated m₀ (moves ++ [(src, dst)]) m' := by
  have hne : dst ≠ src := by
    rintro rfl
    rw [hsrc] at hdst
    cases hdst
  constructor
  · intro p u hp
    have hnow := h.kept p u hp
    rw [whereabouts_concat, hm']
    by_cases heq : whereabouts moves p = src
    · rw [heq, hsrc] at hnow
      rw [if_pos heq, if_neg hne, if_pos rfl, hnow]
    · have hother : whereabouts moves p ≠ dst := by
        intro hwhere
        rw [hwhere, hdst] at hnow
        cases hnow
      rw [if_neg heq, if_neg heq, if_neg hother, hnow]
  · intro q u hq
    rw [hm'] at hq
    split at hq
    · cases hq
    · next hqsrc =>
      split at hq
      · next hqdst =>
        obtain ⟨p, hp, hwhere⟩ := h.origin src v hsrc
        exact ⟨p, hq ▸ hp, by rw [whereabouts_concat, if_pos hwhere, hqdst]⟩
      · obtain ⟨p, hp, hwhere⟩ := h.origin q u hq
        exact ⟨p, hp, by rw [whereabouts_concat, hwhere, if_neg hqsrc]⟩
  · intro before src' dst' after heq
    rcases List.eq_nil_or_concat after with rfl | ⟨after, last, rfl⟩
    · obtain ⟨rfl, hlast⟩ := List.append_inj' heq rfl
      obtain ⟨p, hp, hwhere⟩ := h.origin src v hsrc
      cases hlast
      exact ⟨p, v, hp, hwhere⟩
    · rw [List.concat_eq_append, ← List.cons_append, ← List.append_assoc] at heq
      exact h.source before src' dst' after (List.append_inj' heq rfl).1

end Relocated

end Lib
