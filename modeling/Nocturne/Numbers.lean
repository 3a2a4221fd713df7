import Mathlib.Data.Nat.Digits.Lemmas
import Nocturne.Base

/-!
# Numbers in texts

Integers are printed with `%d` and `%lld`, and read with `strtol` and `atoll`.
-/

namespace Nocturne

/-- `isspace` in the C locale. -/
def isSpace (b : UInt8) : Bool := b == 32 || (9 ≤ b && b ≤ 13)

/-- `isdigit`. -/
def isDigit (b : UInt8) : Bool := 48 ≤ b && b ≤ 57

/-! ### Reading -/

/-- `strtol` in base ten, which stops at the ends of `long`; `none` where it consumes nothing. -/
def strtol (s : Text) : Option Int :=
  let (sign, rest) : Int × Text :=
    match s.dropWhile isSpace with
    | 45 :: rest => (-1, rest)
    | 43 :: rest => (1, rest)
    | rest => (1, rest)
  match rest.takeWhile isDigit with
  | [] => none
  | ds =>
    let n : Nat := ds.foldl (fun n d ↦ 10 * n + (d.toNat - 48)) 0
    some (max (-2 ^ 63) (min (2 ^ 63 - 1) (sign * n)))

/-- The digits at the start of a text, read on from a value. -/
def digitsValue : Nat → Text → Nat
  | value, b :: bs => if isDigit b then digitsValue (10 * value + (b - 48).toNat) bs else value
  | value, [] => value

/-- `atoll`, of a number in the range of its type. -/
def atoll (text : Text) : Int :=
  match text.dropWhile isSpace with
  | 45 :: bs => -(digitsValue 0 bs)
  | 43 :: bs => digitsValue 0 bs
  | bs => digitsValue 0 bs

/-! ### Printing -/

/-- `%lld` of a number that is not negative. -/
def decimalNat (n : Nat) : Text :=
  if n = 0 then [48] else (Nat.digits 10 n).reverse.map fun d ↦ (48 + d).toUInt8

/-- `%lld`. -/
def decimal : Int → Text
  | .ofNat n => decimalNat n
  | .negSucc n => 45 :: decimalNat (n + 1)

/-- The byte of a digit is a digit. -/
theorem isDigit_digit {d : Nat} (hd : d < 10) : isDigit (48 + d).toUInt8 = true := by
  interval_cases d <;> decide

/-- A digit has its value. -/
theorem sub_digit {d : Nat} (hd : d < 10) : ((48 + d).toUInt8 - 48).toNat = d := by
  interval_cases d <;> rfl

/-- Digits are read as the number that they spell. -/
theorem digitsValue_map {ds : List Nat} (hds : ∀ d ∈ ds, d < 10) (value : Nat) :
    digitsValue value (ds.map fun d ↦ (48 + d).toUInt8) =
      ds.foldl (fun value d ↦ 10 * value + d) value := by
  induction ds generalizing value with
  | nil => rfl
  | cons d ds ih =>
    have hd := hds d (List.mem_cons_self ..)
    rw [List.map_cons, digitsValue, if_pos (isDigit_digit hd), sub_digit hd, List.foldl_cons]
    exact ih (fun d' hd' ↦ hds d' (List.mem_cons_of_mem _ hd')) _

/-- What a number is printed as is read back. -/
theorem digitsValue_decimalNat (n : Nat) : digitsValue 0 (decimalNat n) = n := by
  unfold decimalNat
  split
  · next h =>
    rw [h]
    rfl
  · rw [digitsValue_map]
    · calc (Nat.digits 10 n).reverse.foldl (fun value d ↦ 10 * value + d) 0
          = (Nat.digits 10 n).foldr (fun d value ↦ 10 * value + d) 0 := List.foldl_reverse
        _ = Nat.ofDigits 10 (Nat.digits 10 n) := by
          rw [Nat.ofDigits_eq_foldr]
          congr
          funext d value
          rw [Nat.cast_id, Nat.add_comm]
        _ = n := Nat.ofDigits_digits 10 n
    · intro d hd
      exact Nat.digits_lt_base (by decide) (List.mem_reverse.mp hd)

/-- A number is printed in digits only. -/
theorem isDigit_decimalNat (n : Nat) : ∀ b ∈ decimalNat n, isDigit b = true := by
  unfold decimalNat
  split
  · intro b hb
    rw [List.mem_singleton.mp hb]
    rfl
  · intro b hb
    obtain ⟨d, hd, rfl⟩ := List.mem_map.mp hb
    exact isDigit_digit (Nat.digits_lt_base (by decide) (List.mem_reverse.mp hd))

/-- A number starts with a digit. -/
theorem decimalNat_cons (n : Nat) : ∃ b bs, decimalNat n = b :: bs ∧ isDigit b = true := by
  unfold decimalNat
  split
  · exact ⟨48, [], rfl, rfl⟩
  · next h =>
    have hne : (Nat.digits 10 n).reverse ≠ [] := by
      rw [Ne, List.reverse_eq_nil_iff, Nat.digits_eq_nil_iff_eq_zero]
      exact h
    obtain ⟨d, ds, hds⟩ := List.exists_cons_of_ne_nil hne
    rw [hds]
    refine ⟨_, _, rfl, isDigit_digit ?_⟩
    have hmem : d ∈ Nat.digits 10 n := by
      rw [← List.mem_reverse, hds]
      exact List.mem_cons_self ..
    exact Nat.digits_lt_base (by decide) hmem

/-- `atoll` reads what `%lld` writes. -/
theorem atoll_decimal (i : Int) : atoll (decimal i) = i := by
  cases i with
  | ofNat n =>
    show atoll (decimalNat n) = n
    obtain ⟨b, bs, hb, hdigit⟩ := decimalNat_cons n
    have hvalue := digitsValue_decimalNat n
    rw [hb] at hvalue ⊢
    unfold isDigit at hdigit
    have hspace : isSpace b = false := by
      unfold isSpace
      grind
    unfold atoll
    rw [List.dropWhile_cons_of_neg (by simp [hspace])]
    split
    · next he =>
      injection he with he
      rw [he] at hdigit
      exact absurd hdigit (by decide)
    · next he =>
      injection he with he
      rw [he] at hdigit
      exact absurd hdigit (by decide)
    · rw [hvalue]
  | negSucc n =>
    have hdrop : (45 :: decimalNat (n + 1)).dropWhile isSpace = 45 :: decimalNat (n + 1) := rfl
    show atoll (45 :: decimalNat (n + 1)) = Int.negSucc n
    unfold atoll
    rw [hdrop]
    show -((digitsValue 0 (decimalNat (n + 1)) : Nat) : Int) = Int.negSucc n
    rw [digitsValue_decimalNat]
    rfl

/-- Two numbers are printed in two ways. -/
theorem decimal_injective : Function.Injective decimal :=
  Function.LeftInverse.injective atoll_decimal

end Nocturne
