import Mathlib.Init

/-!
# Runs of a step function

A run is a list of actions. `Always` says that a property holds in every state a run comes
through, `Meets` that each action meets a condition in the state it finds.
-/

namespace Lib.Steps

variable {σ α : Type} (step : σ → α → σ)

/-- The state after a run. -/
def after (s : σ) (run : List α) : σ := run.foldl step s

/-- A property of every state of a run, the first and the last included. -/
def Always (P : σ → Prop) : σ → List α → Prop
  | s, [] => P s
  | s, a :: run => P s ∧ Always P (step s a) run

/-- A condition on each action of a run and the state before it. -/
def Meets (C : σ → α → Prop) : σ → List α → Prop
  | _, [] => True
  | s, a :: run => C s a ∧ Meets C (step s a) run

instance decidableMeets {step : σ → α → σ} {C : σ → α → Prop} [∀ s a, Decidable (C s a)] :
    ∀ s run, Decidable (Meets step C s run)
  | _, [] => instDecidableTrue
  | s, a :: run => @instDecidableAnd _ _ inferInstance (decidableMeets (step s a) run)

variable {step} {P I : σ → Prop} {C : σ → α → Prop} {s : σ} {run : List α}

/-- What the steps preserve under a condition holds along a run that meets the condition. -/
theorem always_of_inv (hP : ∀ s, I s → P s) (hI : ∀ s a, I s → C s a → I (step s a)) (h : I s)
    (hrun : Meets step C s run) : Always step P s run := by
  induction run generalizing s with
  | nil => exact hP s h
  | cons a run ih => exact ⟨hP s h, ih (hI s a h hrun.1) hrun.2⟩

/-- Where a step keeps a property exactly under a condition, the runs that keep it are those that meet
the condition. -/
theorem always_iff_meets (hC : ∀ s a, P s → (P (step s a) ↔ C s a)) (h : P s) :
    Always step P s run ↔ Meets step C s run := by
  induction run generalizing s with
  | nil => exact iff_of_true h trivial
  | cons a run ih =>
    constructor
    · intro hall
      have hnext : P (step s a) := by
        cases run with
        | nil => exact hall.2
        | cons b run => exact hall.2.1
      exact ⟨(hC s a h).mp hnext, (ih hnext).mp hall.2⟩
    · intro hmeets
      exact ⟨h, (ih ((hC s a h).mpr hmeets.1)).mpr hmeets.2⟩

/-- What an invariant and the condition on an action imply holds of each action. -/
theorem meets_of_inv {D : σ → α → Prop} (hI : ∀ s a, I s → C s a → I (step s a))
    (hD : ∀ s a, I s → C s a → D s a) (h : I s) (hrun : Meets step C s run) :
    Meets step D s run := by
  induction run generalizing s with
  | nil => trivial
  | cons a run ih => exact ⟨hD s a h hrun.1, ih (hI s a h hrun.1) hrun.2⟩

/-- Where an invariant makes two conditions on an action the same, the runs that meet them are. -/
theorem meets_congr {D : σ → α → Prop} (hI : ∀ s a, I s → I (step s a))
    (hCD : ∀ s a, I s → (C s a ↔ D s a)) (h : I s) : Meets step C s run ↔ Meets step D s run := by
  induction run generalizing s with
  | nil => exact Iff.rfl
  | cons a run ih => exact and_congr (hCD s a h) (ih (hI s a h))

/-- What always holds holds in the end. -/
theorem Always.last (h : Always step P s run) : P (after step s run) := by
  induction run generalizing s with
  | nil => exact h
  | cons a run ih => exact ih h.2

end Lib.Steps
