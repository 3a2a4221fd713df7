import Mathlib.Data.List.TakeWhile
import Nocturne.Catalog.Restore

/-!
# A number in a short buffer

The importer prints a number into sixteen bytes, so that at most fifteen characters of it are kept.
Read back it is the same number exactly when all of it was kept.
-/

namespace Nocturne

open Lib

/-- A number that `shortDecimal` keeps: at most fifteen characters. -/
def FitsShort (n : Int) : Prop := -10 ^ 14 < n ∧ n < 10 ^ 15

/-! ### Digits -/

/-- Lean prints natural numbers as C does. -/
theorem ascii_toString_nat (n : Nat) : ascii (toString n) = decimalNat n := by
  have hlist : ∀ n : Nat, ascii (toString n) =
      (Nat.toDigits 10 n).map fun c ↦ c.toNat.toUInt8 := by
    intro n
    unfold ascii
    rw [Nat.toString_eq_repr, Nat.toList_repr]
  have hchar : ∀ d < 10, (Nat.digitChar d).toNat.toUInt8 = (48 + d).toUInt8 := by decide
  induction n using Nat.strongRecOn with
  | _ n ih =>
    by_cases h : n < 10
    · rw [hlist, Nat.toDigits_of_lt_base h, List.map_singleton, hchar n h]
      unfold decimalNat
      by_cases h0 : n = 0
      · rw [h0]
        rfl
      · rw [if_neg h0, Nat.digits_of_lt 10 n h0 h]
        rfl
    · have hdiv : n / 10 ≠ 0 := by omega
      have hrest := ih (n / 10) (by omega)
      rw [hlist] at hrest ⊢
      rw [Nat.toDigits_of_base_le (by decide) (by omega), List.map_append, hrest,
        List.map_singleton, hchar _ (by omega)]
      unfold decimalNat
      rw [if_neg hdiv, if_neg (by omega), Nat.digits_def' (by decide) (by omega : 0 < n),
        List.reverse_cons, List.map_append]
      rfl

/-- Lean prints integers as C does. -/
theorem ascii_toString (n : Int) : ascii (toString n) = decimal n := by
  cases n with
  | ofNat n => exact ascii_toString_nat n
  | negSucc n =>
    show ascii ("-" ++ toString (n + 1)) = 45 :: decimalNat (n + 1)
    rw [← ascii_toString_nat]
    unfold ascii
    rw [String.toList_append]
    rfl

/-- The decimal digits of a number, from the front. -/
def frontDigits (n : Nat) : List Nat := if n = 0 then [0] else (Nat.digits 10 n).reverse

/-- A number is printed as its digits. -/
theorem decimalNat_eq (n : Nat) :
    decimalNat n = (frontDigits n).map fun d ↦ (48 + d).toUInt8 := by
  unfold decimalNat frontDigits
  by_cases h : n = 0
  · rw [if_pos h, if_pos h]
    rfl
  · rw [if_neg h, if_neg h]

/-- Digits are below ten. -/
theorem lt_of_mem_frontDigits {n d : Nat} (h : d ∈ frontDigits n) : d < 10 := by
  unfold frontDigits at h
  split at h
  · rw [List.mem_singleton.mp h]
    decide
  · exact Nat.digits_lt_base (by decide) (List.mem_reverse.mp h)

/-- A number below a power of ten has no more digits than its exponent. -/
theorem length_frontDigits_le {n k : Nat} (hk : 0 < k) :
    (frontDigits n).length ≤ k ↔ n < 10 ^ k := by
  unfold frontDigits
  by_cases h : n = 0
  · rw [if_pos h, h]
    exact iff_of_true hk (Nat.pow_pos (by decide))
  · rw [if_neg h, List.length_reverse]
    exact Nat.digits_length_le_iff (by decide) n

/-- What some digits say. -/
def digitsNat (ds : List Nat) : Nat := ds.foldl (fun n d ↦ 10 * n + d) 0

/-- The first digits of a number. -/
theorem digitsNat_take (n k : Nat) :
    digitsNat ((frontDigits n).take k) = n / 10 ^ ((frontDigits n).length - k) := by
  unfold digitsNat frontDigits
  by_cases h : n = 0
  · rw [if_pos h, h, Nat.zero_div]
    cases k with
    | zero => rfl
    | succ k => rw [List.take_of_length_le (by simp)]; rfl
  · rw [if_neg h, List.take_reverse, List.foldl_reverse, List.length_reverse,
      Nat.self_div_pow_eq_ofDigits_drop _ n (by decide), Nat.ofDigits_eq_foldr]
    congr
    funext d value
    rw [Nat.cast_id, Nat.add_comm]

/-! ### Reading -/

/-- The ends of `long`. -/
def clampLong (n : Int) : Int := max (-2 ^ 63) (min (2 ^ 63 - 1) n)

/-- `strtol` reads a text of digits. -/
theorem strtol_of_digits {b : UInt8} {bs : Text} (hb : ∀ c ∈ b :: bs, isDigit c = true) :
    strtol (b :: bs) = some (clampLong
      ((b :: bs).foldl (fun (n : Nat) d ↦ 10 * n + (d.toNat - 48)) 0 : Nat)) := by
  have hdigit := hb b (.head _)
  have hspace : isSpace b = false := by
    unfold isDigit at hdigit
    unfold isSpace
    grind
  have htake : (b :: bs).takeWhile isDigit = b :: bs := List.takeWhile_eq_self_iff.mpr hb
  have hminus : b ≠ 45 := by
    rintro rfl
    exact absurd hdigit (by decide)
  have hplus : b ≠ 43 := by
    rintro rfl
    exact absurd hdigit (by decide)
  unfold strtol
  rw [List.dropWhile_cons_of_neg (by simp [hspace])]
  simp [htake, hminus, hplus, clampLong]

/-- `strtol` reads a minus sign and digits. -/
theorem strtol_minus_digits {b : UInt8} {bs : Text} (hb : ∀ c ∈ b :: bs, isDigit c = true) :
    strtol (45 :: b :: bs) = some (clampLong
      (-((b :: bs).foldl (fun (n : Nat) d ↦ 10 * n + (d.toNat - 48)) 0 : Nat))) := by
  have htake : (b :: bs).takeWhile isDigit = b :: bs := List.takeWhile_eq_self_iff.mpr hb
  have hdrop : (45 :: b :: bs).dropWhile isSpace = 45 :: b :: bs := rfl
  unfold strtol
  rw [hdrop]
  simp [htake, clampLong]

/-- The value of the byte of a digit. -/
theorem toNat_digitByte {d : Nat} (h : d < 10) : (48 + d).toUInt8.toNat - 48 = d := by
  interval_cases d <;> rfl

/-- The bytes of some digits, with what they say. -/
theorem digitBytes {ds : List Nat} (hne : ds ≠ []) (hds : ∀ d ∈ ds, d < 10) :
    ∃ b bs, (ds.map fun d ↦ (48 + d).toUInt8) = b :: bs ∧ (∀ c ∈ b :: bs, isDigit c = true) ∧
      (b :: bs).foldl (fun n d ↦ 10 * n + (d.toNat - 48)) 0 = digitsNat ds := by
  have hfold : ∀ n, (ds.map fun d ↦ (48 + d).toUInt8).foldl
      (fun n d ↦ 10 * n + (d.toNat - 48)) n = ds.foldl (fun n d ↦ 10 * n + d) n := by
    clear hne
    induction ds with
    | nil => exact fun _ ↦ rfl
    | cons d ds ih =>
      intro n
      rw [List.map_cons, List.foldl_cons, List.foldl_cons, toNat_digitByte (hds d (.head _))]
      exact ih (fun d' hd' ↦ hds d' (.tail _ hd')) _
  cases hbytes : ds.map fun d ↦ (48 + d).toUInt8 with
  | nil => exact absurd (List.map_eq_nil_iff.mp hbytes) hne
  | cons b bs =>
    rw [hbytes] at hfold
    refine ⟨b, bs, rfl, fun c hc ↦ ?_, hfold 0⟩
    rw [← hbytes] at hc
    obtain ⟨d, hd, rfl⟩ := List.mem_map.mp hc
    exact isDigit_digit (hds d hd)

/-! ### The buffer -/

/-- A number cut to its first digits is the same only if nothing was cut off. -/
theorem digitsNat_take_eq {n k : Nat} (hk : 0 < k) :
    digitsNat ((frontDigits n).take k) = n ↔ n < 10 ^ k := by
  rw [digitsNat_take, ← length_frontDigits_le hk]
  constructor
  · intro h
    by_contra hlong
    have hpos : 0 < n := by
      by_contra hzero
      apply hlong
      rw [length_frontDigits_le hk, Nat.eq_zero_of_not_pos hzero]
      exact Nat.pow_pos (by decide)
    have hlt : n / 10 ^ ((frontDigits n).length - k) < n :=
      Nat.div_lt_self hpos (Nat.one_lt_pow (by omega) (by decide))
    omega
  · intro h
    rw [Nat.sub_eq_zero_of_le h, Nat.pow_zero, Nat.div_one]

/-- The first digits of a number make no greater one. -/
theorem digitsNat_take_le (n k : Nat) : digitsNat ((frontDigits n).take k) ≤ n := by
  rw [digitsNat_take]
  exact Nat.div_le_self _ _

/-- The first digits of a number are digits, and there is one. -/
theorem take_frontDigits {n k : Nat} (hk : 0 < k) :
    (frontDigits n).take k ≠ [] ∧ ∀ d ∈ (frontDigits n).take k, d < 10 := by
  constructor
  · have hne : frontDigits n ≠ [] := by
      intro h
      obtain ⟨b, bs, hb, -⟩ := decimalNat_cons n
      rw [decimalNat_eq, h] at hb
      cases hb
    intro h
    rcases List.take_eq_nil_iff.mp h with h0 | hnil
    · omega
    · exact hne hnil
  · intro d hd
    exact lt_of_mem_frontDigits (List.mem_of_mem_take hd)

/-- The number in the buffer is the number that was printed exactly when it fits. -/
theorem strtol_shortDecimal (n : Int) : strtol (shortDecimal n) = some n ↔ FitsShort n := by
  unfold shortDecimal FitsShort
  rw [ascii_toString]
  cases n with
  | ofNat n =>
    show strtol ((decimalNat n).take 15) = _ ↔ _
    obtain ⟨hne, hdigits⟩ := @take_frontDigits n 15 (by decide)
    obtain ⟨b, bs, hbytes, hb, hvalue⟩ := digitBytes hne hdigits
    have hsame := @digitsNat_take_eq n 15 (by decide)
    have hle := digitsNat_take_le n 15
    rw [decimalNat_eq, ← List.map_take, hbytes, strtol_of_digits hb, hvalue, Option.some.injEq]
    unfold clampLong
    rw [Int.ofNat_eq_natCast]
    omega
  | negSucc n =>
    show strtol (45 :: (decimalNat (n + 1)).take 14) = _ ↔ _
    obtain ⟨hne, hdigits⟩ := @take_frontDigits (n + 1) 14 (by decide)
    obtain ⟨b, bs, hbytes, hb, hvalue⟩ := digitBytes hne hdigits
    have hsame := @digitsNat_take_eq (n + 1) 14 (by decide)
    have hle := digitsNat_take_le (n + 1) 14
    rw [decimalNat_eq, ← List.map_take, hbytes, strtol_minus_digits hb, hvalue, Option.some.injEq]
    unfold clampLong
    omega

end Nocturne
