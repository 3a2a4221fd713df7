import Mathlib.Data.List.TakeDrop

/-!
# Compaction in place

An array is swept from the front with two indices. What is to stay is copied down to the write
index, what is to go is handed to a function on the way. `Compact.sweep_inv` says what the array
holds then.
-/

namespace Lib.Compact

/-- The array, the index that the next kept element goes to, and what the removed ones left. -/
structure State (α σ : Type) where
  slots : List α
  write : Nat
  out : σ

variable {α σ : Type} {gone : α → Bool} {note : α → σ → σ} {slots : List α} {out : σ}
  {s : State α σ}

variable (gone note) in
/-- The turn of the element at index `read`. -/
def step (s : State α σ) (read : Nat) : State α σ :=
  match s.slots[read]? with
  | none => s
  | some a =>
    if gone a then { s with out := note a s.out }
    else
      { s with
        slots := if s.write ≠ read then s.slots.set s.write a else s.slots
        write := s.write + 1 }

variable (gone note) in
/-- The turns of the first `n` elements. -/
def sweep (slots : List α) (n : Nat) (out : σ) : State α σ :=
  (List.range n).foldl (step gone note) ⟨slots, 0, out⟩

variable (gone note slots out) in
/-- After `read` turns the kept elements stand in front of the write index and the elements from
`read` on are untouched. -/
structure Inv (read : Nat) (s : State α σ) : Prop where
  write_le : s.write ≤ read
  length : s.slots.length = slots.length
  kept : s.slots.take s.write = (slots.take read).filter fun a ↦ !gone a
  ahead : s.slots.drop read = slots.drop read
  noted : s.out = ((slots.take read).filter gone).foldl (fun out a ↦ note a out) out

theorem Inv.start : Inv gone note slots out 0 ⟨slots, 0, out⟩ :=
  ⟨Nat.le_refl 0, rfl, by simp, rfl, by simp⟩

theorem Inv.step {read : Nat} (h : Inv gone note slots out read s) (hread : read < slots.length) :
    Inv gone note slots out (read + 1) (step gone note s read) := by
  have hslot : s.slots[read]? = some slots[read] := by
    have hahead := congrArg (·[0]?) h.ahead
    simpa [List.getElem?_drop, List.getElem?_eq_getElem hread] using hahead
  have hlt : read < s.slots.length := h.length ▸ hread
  have hahead : s.slots.drop (read + 1) = slots.drop (read + 1) := by
    rw [← List.drop_drop, h.ahead, List.drop_drop]
  have htake : slots.take (read + 1) = slots.take read ++ [slots[read]] :=
    List.take_succ_eq_append_getElem hread
  unfold Compact.step
  rw [hslot]
  by_cases hgone : gone slots[read] = true
  · simp only [hgone, if_true]
    refine ⟨Nat.le_succ_of_le h.write_le, h.length, ?_, hahead, ?_⟩
    · rw [h.kept, htake, List.filter_append]
      simp [hgone]
    · rw [htake, List.filter_append, List.foldl_append, ← h.noted]
      simp [hgone]
  · have hset : (if s.write ≠ read then s.slots.set s.write slots[read] else s.slots) =
        s.slots.set s.write slots[read] := by
      split
      · rfl
      · next heq =>
        have hself : s.slots[s.write]? = some slots[read] := by rw [not_not.mp heq, hslot]
        apply List.ext_getElem?
        intro i
        rw [List.getElem?_set]
        split
        · next hi => rw [← hi, hself, if_pos (List.getElem?_eq_some_iff.mp hself).1]
        · rfl
    simp only [hgone, Bool.false_eq_true, if_false, hset]
    have hwrite : s.write < s.slots.length := Nat.lt_of_le_of_lt h.write_le hlt
    refine ⟨Nat.succ_le_succ h.write_le, by simp [h.length], ?_, ?_, ?_⟩
    · rw [List.take_succ_eq_append_getElem (by simpa using hwrite),
        List.take_set_of_le (Nat.le_refl _), h.kept, htake, List.filter_append]
      simp [hgone]
    · rw [List.drop_set_of_lt (Nat.lt_succ_of_le h.write_le), hahead]
    · rw [htake, List.filter_append, List.foldl_append, ← h.noted]
      simp [hgone]

/-- What a sweep over the first `n` elements leaves. -/
theorem sweep_inv {n : Nat} (h : n ≤ slots.length) :
    Inv gone note slots out n (sweep gone note slots n out) := by
  unfold sweep
  induction n with
  | zero => exact Inv.start
  | succ n ih =>
    rw [List.range_succ, List.foldl_append]
    exact (ih (Nat.le_of_succ_le h)).step h

end Lib.Compact
