import Mathlib.Algebra.Order.Group.Defs
import Mathlib.Algebra.BigOperators.Group.List.Basic
import Mathlib.Order.Lattice
import Mathlib.Tactic.Abel

/-!
# Greedy admission under a cap

Items are admitted in their order while the sum stays under a cap. The check uses a charge of
its own for each item, the sum its size, and exempt items are admitted whatever the check says.
Where the exempt items come first, the sum exceeds the larger of their total and the cap by no
more than the largest size that a charge hides.
-/

namespace Lib.Greedy

variable {α M : Type} [AddCommGroup M] [LinearOrder M] (size charge : α → M) (exempt : α → Bool)
  (cap : M)

/-- What is used so far, and the admitted items. -/
structure State (α M : Type) where
  used : M
  admitted : List α

/-- Admit an item, or pass over it. -/
def step (s : State α M) (x : α) : State α M :=
  if cap < s.used + charge x ∧ exempt x = false then s
  else ⟨s.used + size x, s.admitted ++ [x]⟩

/-- Offer some items in their order. -/
def run (s : State α M) (xs : List α) : State α M := xs.foldl (step size charge exempt cap) s

/-- Nothing admitted yet. -/
def start : State α M := ⟨0, []⟩

variable {size charge exempt cap} {s : State α M} {xs ys : List α} {x : α}

theorem run_append : run size charge exempt cap s (xs ++ ys) =
    run size charge exempt cap (run size charge exempt cap s xs) ys := List.foldl_append

theorem run_cons : run size charge exempt cap s (x :: xs) =
    run size charge exempt cap (step size charge exempt cap s x) xs := rfl

/-- An item that fits, or is exempt, is admitted. -/
theorem step_admits (h : s.used + charge x ≤ cap ∨ exempt x = true) :
    step size charge exempt cap s x = ⟨s.used + size x, s.admitted ++ [x]⟩ := by
  apply if_neg
  rintro ⟨hlt, he⟩
  rcases h with h | h
  · exact absurd h (not_le.mpr hlt)
  · rw [he] at h
    cases h

/-- The sum is that of the admitted items. -/
theorem used_run (h : s.used = (s.admitted.map size).sum) :
    (run size charge exempt cap s xs).used =
      ((run size charge exempt cap s xs).admitted.map size).sum := by
  induction xs generalizing s with
  | nil => exact h
  | cons x xs ih =>
    apply ih
    unfold step
    split
    · exact h
    · rw [List.map_append, List.sum_append, ← h]
      simp

/-- Admitted items come from the offered ones, in their order, behind those admitted before. -/
theorem admitted_run : ∃ ys, (run size charge exempt cap s xs).admitted = s.admitted ++ ys ∧
    ys.Sublist xs := by
  induction xs generalizing s with
  | nil => exact ⟨[], (List.append_nil _).symm, List.Sublist.refl _⟩
  | cons x xs ih =>
    obtain ⟨ys, hys, hsub⟩ := @ih (step size charge exempt cap s x)
    rw [run_cons, hys]
    unfold step
    split
    · exact ⟨ys, rfl, hsub.cons x⟩
    · exact ⟨x :: ys, by simp, hsub.cons_cons x⟩

/-- What is admitted stays admitted. -/
theorem mem_run (h : x ∈ s.admitted) : x ∈ (run size charge exempt cap s xs).admitted := by
  obtain ⟨ys, hys, -⟩ := @admitted_run α M _ _ size charge exempt cap s xs
  rw [hys]
  exact List.mem_append_left _ h

/-- Exempt items are admitted. -/
theorem exempt_admitted (hx : x ∈ xs) (he : exempt x = true) :
    x ∈ (run size charge exempt cap s xs).admitted := by
  induction xs generalizing s with
  | nil => cases hx
  | cons y xs ih =>
    rw [List.mem_cons] at hx
    rcases hx with rfl | hx
    · rw [run_cons, step_admits (Or.inr he)]
      apply mem_run
      exact List.mem_append_right _ (List.mem_singleton.mpr rfl)
    · exact ih hx

/-- Exempt items add up. -/
theorem used_exempt (he : ∀ x ∈ xs, exempt x = true) :
    (run size charge exempt cap s xs).used = s.used + (xs.map size).sum := by
  induction xs generalizing s with
  | nil => exact (add_zero _).symm
  | cons x xs ih =>
    have hx := he x (List.mem_cons_self ..)
    rw [run_cons, ih fun y hy ↦ he y (List.mem_cons_of_mem _ hy), step_admits (Or.inr hx),
      List.map_cons, List.sum_cons, add_assoc]

/-- Charges that are lower for what was admitted and higher for what was not admit the same. -/
theorem run_eq_run {charge' : α → M} (hnodup : xs.Nodup) (hnew : ∀ x ∈ xs, x ∉ s.admitted)
    (hlow : ∀ x ∈ xs, x ∈ (run size charge exempt cap s xs).admitted → charge' x ≤ charge x)
    (hhigh : ∀ x ∈ xs, x ∉ (run size charge exempt cap s xs).admitted → charge x ≤ charge' x)
    [AddLeftMono M] : run size charge' exempt cap s xs = run size charge exempt cap s xs := by
  induction xs generalizing s with
  | nil => rfl
  | cons x xs ih =>
    obtain ⟨hx, hxs⟩ := List.nodup_cons.mp hnodup
    have hstep : step size charge' exempt cap s x = step size charge exempt cap s x := by
      by_cases hpass : cap < s.used + charge x ∧ exempt x = false
      · -- what is passed over is not admitted later either
        have hrun : run size charge exempt cap s (x :: xs) = run size charge exempt cap s xs := by
          rw [run_cons, step, if_pos hpass]
        have hout : x ∉ (run size charge exempt cap s (x :: xs)).admitted := by
          obtain ⟨ys, hys, hsub⟩ := @admitted_run α M _ _ size charge exempt cap s xs
          rw [hrun, hys, List.mem_append]
          rintro (h | h)
          · exact hnew x (List.mem_cons_self ..) h
          · exact hx (hsub.subset h)
        have hle := hhigh x (List.mem_cons_self ..) hout
        have hlt : cap < s.used + charge' x := lt_of_lt_of_le hpass.1 (add_le_add_right hle _)
        rw [step, step, if_pos hpass, if_pos ⟨hlt, hpass.2⟩]
      · have hadmits : step size charge exempt cap s x = ⟨s.used + size x, s.admitted ++ [x]⟩ :=
          if_neg hpass
        have hin : x ∈ (run size charge exempt cap s (x :: xs)).admitted := by
          rw [run_cons, hadmits]
          apply mem_run
          exact List.mem_append_right _ (List.mem_singleton.mpr rfl)
        have hle := hlow x (List.mem_cons_self ..) hin
        rw [hadmits]
        apply step_admits
        by_cases he : exempt x = true
        · exact Or.inr he
        · left
          have hfits : s.used + charge x ≤ cap := by
            apply not_lt.mp
            intro hlt
            exact hpass ⟨hlt, by simpa using he⟩
          exact le_trans (add_le_add_right hle _) hfits
    rw [run_cons, run_cons, hstep]
    apply ih hxs
    · intro y hy
      have hne : y ≠ x := fun he ↦ hx (he ▸ hy)
      have hold := hnew y (List.mem_cons_of_mem _ hy)
      unfold step
      split
      · exact hold
      · rw [List.mem_append, List.mem_singleton]
        rintro (h | h)
        · exact hold h
        · exact hne h
    · exact fun y hy ↦ hlow y (List.mem_cons_of_mem _ hy)
    · exact fun y hy ↦ hhigh y (List.mem_cons_of_mem _ hy)

/-- The images of some items are admitted as the items are. -/
theorem run_map {β : Type} {f : β → α} {t : State β M} {ys : List β} :
    run size charge exempt cap ⟨t.used, t.admitted.map f⟩ (ys.map f) =
      ⟨(run (size ∘ f) (charge ∘ f) (exempt ∘ f) cap t ys).used,
        (run (size ∘ f) (charge ∘ f) (exempt ∘ f) cap t ys).admitted.map f⟩ := by
  induction ys generalizing t with
  | nil => rfl
  | cons y ys ih =>
    have hstep : step size charge exempt cap ⟨t.used, t.admitted.map f⟩ (f y) =
        ⟨(step (size ∘ f) (charge ∘ f) (exempt ∘ f) cap t y).used,
          (step (size ∘ f) (charge ∘ f) (exempt ∘ f) cap t y).admitted.map f⟩ := by
      unfold step
      simp only [Function.comp_apply]
      split
      · rfl
      · rw [List.map_append]
        rfl
    rw [List.map_cons, run_cons, run_cons, hstep, ih]

/-- Items without a size may be left out. -/
theorem run_filter {p : α → Bool} (hp : ∀ x ∈ xs, p x = false → size x = 0) :
    run size charge exempt cap ⟨s.used, s.admitted.filter p⟩ (xs.filter p) =
      ⟨(run size charge exempt cap s xs).used,
        (run size charge exempt cap s xs).admitted.filter p⟩ := by
  induction xs generalizing s with
  | nil => rfl
  | cons x xs ih =>
    have hrest : ∀ y ∈ xs, p y = false → size y = 0 := fun y hy ↦ hp y (List.mem_cons_of_mem _ hy)
    rw [run_cons, ← ih hrest]
    cases hx : p x with
    | false =>
      rw [List.filter_cons_of_neg (by simp [hx])]
      have hsame : (⟨(step size charge exempt cap s x).used,
          (step size charge exempt cap s x).admitted.filter p⟩ : State α M) =
            ⟨s.used, s.admitted.filter p⟩ := by
        unfold step
        split
        · rfl
        · rw [hp x (List.mem_cons_self ..) hx, add_zero, List.filter_append,
            List.filter_singleton, hx]
          simp
      rw [hsame]
    | true =>
      rw [List.filter_cons_of_pos hx, run_cons]
      have hsame : step size charge exempt cap ⟨s.used, s.admitted.filter p⟩ x =
          ⟨(step size charge exempt cap s x).used,
            (step size charge exempt cap s x).admitted.filter p⟩ := by
        unfold step
        dsimp only
        split
        · rfl
        · rw [List.filter_append, List.filter_singleton, hx]
          rfl
      rw [hsame]

/-- Under a large cap everything is admitted. -/
theorem exists_cap (size charge : α → M) (exempt : α → Bool) (s : State α M) (xs : List α) :
    ∃ bound, ∀ cap, bound ≤ cap → (run size charge exempt cap s xs).admitted = s.admitted ++ xs := by
  induction xs generalizing s with
  | nil => exact ⟨0, fun _ _ ↦ (List.append_nil _).symm⟩
  | cons x xs ih =>
    obtain ⟨bound, hbound⟩ := ih ⟨s.used + size x, s.admitted ++ [x]⟩
    refine ⟨max (s.used + charge x) bound, fun cap hcap ↦ ?_⟩
    rw [run_cons, step_admits (Or.inl (le_trans (le_max_left ..) hcap)),
      hbound cap (le_trans (le_max_right ..) hcap), List.append_assoc]
    rfl

variable [IsOrderedAddMonoid M]

/-- Other items exceed the cap by no more than their charge hides. -/
theorem used_le {d : M} (he : ∀ x ∈ xs, exempt x = false)
    (hd : ∀ x ∈ (run size charge exempt cap s xs).admitted, x ∈ xs → size x - charge x ≤ d) :
    (run size charge exempt cap s xs).used ≤ max s.used (cap + d) := by
  induction xs generalizing s with
  | nil => exact le_max_left ..
  | cons x xs ih =>
    have hrest := @ih (step size charge exempt cap s x)
      (fun y hy ↦ he y (List.mem_cons_of_mem _ hy))
      (fun y hy hmem ↦ hd y hy (List.mem_cons_of_mem _ hmem))
    rw [run_cons]
    by_cases hle : s.used + charge x ≤ cap
    · have hadmits : step size charge exempt cap s x = ⟨s.used + size x, s.admitted ++ [x]⟩ :=
        step_admits (Or.inl hle)
      have hx : size x - charge x ≤ d := by
        apply hd x _ (List.mem_cons_self ..)
        rw [run_cons, hadmits]
        apply mem_run
        exact List.mem_append_right _ (List.mem_singleton.mpr rfl)
      have hused : s.used + size x ≤ cap + d := by
        calc s.used + size x = (s.used + charge x) + (size x - charge x) := by abel
          _ ≤ cap + d := add_le_add hle hx
      rw [hadmits] at hrest ⊢
      exact le_trans hrest (max_le (le_trans hused (le_max_right ..)) (le_max_right ..))
    · have hpass : step size charge exempt cap s x = s :=
        if_pos ⟨not_le.mp hle, he x (List.mem_cons_self ..)⟩
      rw [hpass] at hrest ⊢
      exact hrest

end Lib.Greedy
