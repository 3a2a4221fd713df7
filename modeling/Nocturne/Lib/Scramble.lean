import Mathlib.Logic.Function.Basic

/-!
# Steps that mix the bits of a word

A word combined with itself shifted to the right, and a word times one that has an inverse, can be
undone, so that no two words are mixed into one. A mask that is put over two words makes them one
exactly where they differ under it alone.
-/

namespace Lib.Scramble

/-- A shift to the right loses nothing when the word is combined with it: the high bits stay, and
each bit tells the one that many places below it. -/
theorem xor_shiftRight_injective {w k : Nat} (hk : 0 < k) :
    Function.Injective fun x : BitVec w ↦ x ^^^ x >>> k := by
  intro x y h
  -- from the highest bit downwards
  have bit : ∀ n i, w - i = n → x.getLsbD i = y.getLsbD i := by
    intro n
    induction n using Nat.strongRecOn with
    | ind n ih =>
      intro i hn
      by_cases hi : i < w
      · have hbit := congrArg (fun z : BitVec w ↦ z.getLsbD i) h
        have hhigh := ih (w - (k + i)) (by omega) (k + i) rfl
        simpa [BitVec.getLsbD_xor, BitVec.getLsbD_ushiftRight, hhigh] using hbit
      · rw [BitVec.getLsbD_of_ge x i (by omega), BitVec.getLsbD_of_ge y i (by omega)]
  apply BitVec.eq_of_getLsbD_eq
  exact fun i _ ↦ bit _ i rfl

/-- The same for words of 64 bits. -/
theorem xor_shiftRight_injective_64 {k : UInt64} (hk : 0 < k.toNat % 64) :
    Function.Injective fun x : UInt64 ↦ x ^^^ x >>> k := by
  intro x y h
  have hbits := congrArg UInt64.toBitVec h
  simp only [UInt64.toBitVec_xor, UInt64.toBitVec_shiftRight, BitVec.ushiftRight_eq'] at hbits
  apply UInt64.toBitVec_inj.mp
  exact xor_shiftRight_injective hk hbits

/-- Multiplying with a unit loses nothing. -/
theorem mul_injective {c inverse : UInt64} (h : c * inverse = 1) :
    Function.Injective fun x : UInt64 ↦ x * c := by
  apply Function.LeftInverse.injective (g := fun x ↦ x * inverse)
  intro x
  show x * c * inverse = x
  rw [UInt64.mul_assoc, h, UInt64.mul_one]

/-- Two words are the same under a mask exactly where they are the same outside of it. -/
theorem or_eq_or_iff {x y mask : UInt64} :
    x ||| mask = y ||| mask ↔ x &&& ~~~mask = y &&& ~~~mask := by
  rw [← UInt64.toBitVec_inj, ← UInt64.toBitVec_inj, BitVec.eq_of_getLsbD_eq_iff,
    BitVec.eq_of_getLsbD_eq_iff]
  apply forall₂_congr
  intro i hi
  simp only [UInt64.toBitVec_or, UInt64.toBitVec_and, UInt64.toBitVec_not, BitVec.getLsbD_or,
    BitVec.getLsbD_and, BitVec.getLsbD_not, hi, decide_true, Bool.true_and]
  cases mask.toBitVec.getLsbD i <;> simp

end Lib.Scramble
