import Mathlib.Order.Lattice

/-!
# Numbers with infinities and NaN

The values of a floating-point type over exact numbers: comparisons with NaN are false, and a
difference without a value is NaN.
-/

namespace Lib

/-- A number, an infinity or NaN. -/
inductive Extended (α : Type) where
  | nan
  | negInf
  | fin (value : α)
  | posInf
  deriving DecidableEq, Repr

namespace Extended

variable {α : Type} {x y : α}

/-- `isnan`. -/
def isNan : Extended α → Bool
  | nan => true
  | _ => false

/-- `isinf`. -/
def isInf : Extended α → Bool
  | negInf => true
  | posInf => true
  | _ => false

/-- `<`, with a relation for the finite values. -/
def Below (r : α → α → Prop) : Extended α → Extended α → Prop
  | fin x, fin y => r x y
  | negInf, fin _ => True
  | negInf, posInf => True
  | fin _, posInf => True
  | _, _ => False

instance [LT α] : LT (Extended α) := ⟨Below (· < ·)⟩

instance [LE α] : LE (Extended α) :=
  ⟨fun a b ↦ Below (· ≤ ·) a b ∨ a = negInf ∧ b = negInf ∨ a = posInf ∧ b = posInf⟩

instance [LinearOrder α] (a b : Extended α) : Decidable (a < b) := by
  show Decidable (Below (· < ·) a b)
  cases a <;> cases b <;> unfold Below <;> infer_instance

instance [LinearOrder α] (a b : Extended α) : Decidable (a ≤ b) := by
  have : Decidable (Below (· ≤ ·) a b) := by
    cases a <;> cases b <;> unfold Below <;> infer_instance
  exact inferInstanceAs (Decidable (_ ∨ _))

instance [Sub α] : Sub (Extended α) where
  sub
    | fin x, fin y => fin (x - y)
    | posInf, fin _ => posInf
    | posInf, negInf => posInf
    | fin _, negInf => posInf
    | negInf, fin _ => negInf
    | negInf, posInf => negInf
    | fin _, posInf => negInf
    | _, _ => nan

@[simp] theorem fin_lt_fin [LT α] : fin x < fin y ↔ x < y := Iff.rfl

@[simp] theorem fin_le_fin [LE α] : fin x ≤ fin y ↔ x ≤ y := by
  constructor
  · rintro (h | ⟨h, -⟩ | ⟨h, -⟩)
    · exact h
    · cases h
    · cases h
  · exact .inl

@[simp] theorem fin_sub_fin [Sub α] : (fin x - fin y : Extended α) = fin (x - y) := rfl

@[simp] theorem isNan_fin : (fin x).isNan = false := rfl

@[simp] theorem isInf_fin : (fin x).isInf = false := rfl

/-- What is neither NaN nor an infinity is a number. -/
theorem exists_fin {a : Extended α} (hnan : a.isNan = false) (hinf : a.isInf = false) :
    ∃ x, a = fin x := by
  cases a with
  | fin x => exact ⟨x, rfl⟩
  | nan => cases hnan
  | negInf => cases hinf
  | posInf => cases hinf

end Extended

end Lib
