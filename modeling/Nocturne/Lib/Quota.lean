import Mathlib.Data.List.Nodup
import Mathlib.Data.List.Count

/-!
# Picking under quotas

Items are picked from one pool after another, each pool up to a quota. No key is picked twice, and of
no group more than a fixed number; an item may be in no group.
-/

namespace Lib.Quota

variable {α K G : Type} [DecidableEq G] (key : α → K) (group : α → Option G)
  (cap : Nat)

/-- The number of items of a group. -/
def inGroup (g : G) (xs : List α) : Nat := xs.countP fun x ↦ decide (group x = some g)

/-- An item may join those that are picked. -/
def Eligible (picks : List α) (x : α) : Prop :=
  key x ∉ picks.map key ∧ ∀ g, group x = some g → inGroup group g picks < cap

/-- No key twice, and of no group too many. -/
structure Fair (picks : List α) : Prop where
  nodup : (picks.map key).Nodup
  groups : ∀ g, inGroup group g picks ≤ cap

/-- `picks'` is what a pool and a quota make of `picks`. -/
inductive Takes : Nat → List α → List α → List α → Prop where
  | done (picks : List α) (pool : List α) : Takes 0 pool picks picks
  | empty (quota : Nat) (picks : List α) : Takes quota [] picks picks
  | take {quota : Nat} {x : α} {pool picks picks' : List α} (h : Eligible key group cap picks x)
      (rest : Takes quota pool (picks ++ [x]) picks') : Takes (quota + 1) (x :: pool) picks picks'
  | pass {quota : Nat} {x : α} {pool picks picks' : List α}
      (h : ¬ Eligible key group cap picks x) (rest : Takes quota pool picks picks') :
      Takes quota (x :: pool) picks picks'

variable {key group cap} {quota : Nat} {x : α} {pool picks picks' : List α}

theorem fair_nil : Fair key group cap [] where
  nodup := List.nodup_nil
  groups _ := Nat.zero_le cap

theorem Fair.add (h : Fair key group cap picks) (hx : Eligible key group cap picks x) :
    Fair key group cap (picks ++ [x]) where
  nodup := by
    rw [List.map_append, List.nodup_append]
    refine ⟨h.nodup, List.nodup_singleton _, ?_⟩
    intro k hk k' hk' he
    rw [List.map_singleton, List.mem_singleton] at hk'
    exact hx.1 (hk' ▸ he ▸ hk)
  groups g := by
    unfold inGroup
    rw [List.countP_append, List.countP_singleton]
    split
    · next hg => exact hx.2 g (of_decide_eq_true hg)
    · exact h.groups g

/-- A pool keeps the picks fair. -/
theorem Takes.fair (h : Takes key group cap quota pool picks picks')
    (hp : Fair key group cap picks) : Fair key group cap picks' := by
  induction h with
  | done picks pool => exact hp
  | empty quota picks => exact hp
  | take hx _ ih => exact ih (hp.add hx)
  | pass _ _ ih => exact ih hp

/-- No more than the quota is taken. -/
theorem Takes.length_le (h : Takes key group cap quota pool picks picks') :
    picks'.length ≤ picks.length + quota := by
  induction h with
  | done picks pool => exact Nat.le_refl _
  | empty quota picks => exact Nat.le_add_right _ _
  | take _ _ ih =>
    rw [List.length_append, List.length_singleton] at ih
    omega
  | pass _ _ ih => exact ih

/-- What is picked was picked before, or is from the pool. -/
theorem Takes.mem (h : Takes key group cap quota pool picks picks') (hx : x ∈ picks') :
    x ∈ picks ∨ x ∈ pool := by
  induction h with
  | done picks pool => exact Or.inl hx
  | empty quota picks => exact Or.inl hx
  | take _ _ ih =>
    rcases ih hx with hp | hp
    · rcases List.mem_append.mp hp with hp | hp
      · exact Or.inl hp
      · rw [List.mem_singleton.mp hp]
        exact Or.inr List.mem_cons_self
    · exact Or.inr (List.mem_cons_of_mem _ hp)
  | pass _ _ ih => exact (ih hx).imp_right (List.mem_cons_of_mem _)

end Lib.Quota
