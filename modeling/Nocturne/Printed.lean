import Nocturne.Lib.JsonText
import Nocturne.Numbers

/-!
# Values in JSON texts

The pieces that the printers of JSON have in common: numbers as `%lld` and `%zu` print them, strings
behind an escaper, booleans, members, and lists with a comma between their elements.
-/

namespace Nocturne

open Lib Lib.JsonText

/-! ### Numbers -/

/-- Both readers give digits the same value. -/
theorem number_eq_digitsValue {ds : Text} (h : ∀ d ∈ ds, Nocturne.isDigit d = true) (value : Nat) :
    ds.foldl (fun n d ↦ 10 * n + (d.toNat - 48)) value = digitsValue value ds := by
  induction ds generalizing value with
  | nil => rfl
  | cons d ds ih =>
    obtain ⟨hd, hds⟩ := List.forall_mem_cons.mp h
    have hle : (48 : UInt8) ≤ d := by
      simp only [Nocturne.isDigit, Bool.and_eq_true, decide_eq_true_eq] at hd
      exact hd.1
    rw [List.foldl_cons, ih hds, digitsValue, if_pos hd, UInt8.toNat_sub_of_le _ _ hle]
    rfl

/-- `%zu` prints no zero in front of other digits. -/
theorem digits_decimalNat (n : Nat) : Digits (decimalNat n) where
  digits := isDigit_decimalNat n
  ne_nil := by
    obtain ⟨b, bs, h, -⟩ := decimalNat_cons n
    rw [h]
    exact List.cons_ne_nil _ _
  canonical h := by
    unfold decimalNat at h ⊢
    by_cases hn : n = 0
    · rw [if_pos hn]
    · rw [if_neg hn] at h
      have hne : Nat.digits 10 n ≠ [] := Nat.digits_ne_nil_iff_ne_zero.mpr hn
      have hlast := Nat.getLast_digit_ne_zero 10 hn
      have hlt : (Nat.digits 10 n).getLast hne < 10 :=
        Nat.digits_lt_base (by decide) (List.getLast_mem hne)
      rw [List.head?_map, List.head?_reverse, List.getLast?_eq_some_getLast hne,
        Option.map_some, Option.some.injEq] at h
      generalize (Nat.digits 10 n).getLast hne = d at hlast hlt h
      interval_cases d <;> simp_all

/-- What a number is printed as is read back. -/
theorem number_decimalNat (n : Nat) : number (decimalNat n) = n := by
  rw [number, number_eq_digitsValue (isDigit_decimalNat n), digitsValue_decimalNat]

/-- A printed number is read as an integer. -/
theorem reads_decimalNat (n : Nat) : Reads (decimalNat n) (.integer n) := by
  have h := reads_digits (digits_decimalNat n)
  rwa [number_decimalNat] at h

/-- `%lld`. -/
theorem reads_decimal (i : Int) : Reads (decimal i) (.integer i) := by
  cases i with
  | ofNat n => exact reads_decimalNat n
  | negSucc n =>
    have h := reads_minus (digits_decimalNat (n + 1))
    rw [number_decimalNat] at h
    exact h

/-! ### Words and strings -/

/-- `b ? "true" : "false"`. -/
def boolText (b : Bool) : Text := if b then ascii "true" else ascii "false"

/-- A printed Boolean is read as one. -/
theorem reads_boolText (b : Bool) : Reads (boolText b) (.boolean b) := by
  have htrue : boolText true = [116, 114, 117, 101] := by decide +kernel
  have hfalse : boolText false = [102, 97, 108, 115, 101] := by decide +kernel
  cases b with
  | true => exact htrue ▸ reads_word (.head _)
  | false => exact hfalse ▸ reads_word (.tail _ (.head _))

/-- Some bytes in quotes. -/
def quoted (body : Text) : Text := 34 :: body ++ [34]

/-- The name of a member needs no escape. -/
def IsUnescaped (s : Text) : Prop := ∀ c ∈ s, 0x20 ≤ c ∧ c ≠ 34 ∧ c ≠ 92

instance (s : Text) : Decidable (IsUnescaped s) := List.decidableBAll _ s

/-- A text that needs no escape is read back between its quotes. -/
theorem reads_plain {s : Text} (h : IsUnescaped s) : Reads (quoted s) (.string s) :=
  reads_string (quoted_plain h)

/-- A string behind an escaper. -/
theorem reads_escape (shorts : JsonString.Shorts) (s : Text) :
    Reads (quoted (JsonString.escape shorts s)) (.string s) :=
  reads_string (JsonString.read_escape shorts s)

/-! ### Lists and objects -/

/-- The elements in brackets, with a comma between them. -/
def arrayText (elements : List Text) : Text := 91 :: [44].intercalate elements ++ [93]

/-- A printed array is read by its elements. -/
theorem reads_arrayText {α : Type} {print : α → Text} {tree : α → JsonTree} {xs : List α}
    (h : ∀ x ∈ xs, Reads (print x) (tree x)) :
    Reads (arrayText (xs.map print)) (.array (xs.map tree)) := by
  apply reads_array
  by_cases hnil : xs = []
  · rw [hnil]
    exact .empty (by simp [Blank])
  · apply Body.items
    apply items_intercalate (by simp [Blank])
    · rw [List.forall₂_map_left_iff, List.forall₂_map_right_iff, List.forall₂_same]
      exact fun x hx ↦ (h x hx).padded
    · simpa using hnil

/-- A member of an object, as a printer writes it: with a blank behind the colon or without. -/
def memberText (gap key value : Text) : Text := 34 :: key ++ 34 :: 58 :: gap ++ value

/-- A printed member is read as its name and value. -/
theorem reads_memberText {gap key value : Text} {v : JsonTree} (hgap : Blank gap)
    (hkey : IsUnescaped key) (hv : Reads value v) :
    ReadsMember (memberText gap key value) (key, v) :=
  reads_member (quoted_plain hkey) hgap hv

/-- Members with a comma between them, and blanks around. -/
theorem reads_members {sep lead trail : Text} {texts : List Text} {ms : JsonTree.Members}
    (hsep : Blank sep) (hlead : Blank lead) (htrail : Blank trail)
    (h : List.Forall₂ (Padded fun n ↦ readMember (JsonText.readValue n)) texts ms)
    (hne : texts ≠ []) :
    Reads (123 :: (lead ++ (44 :: sep).intercalate texts ++ trail) ++ [125]) (.object ms) :=
  reads_object (.items (((items_intercalate hsep h hne).blank hlead).trailing htrail))

end Nocturne
