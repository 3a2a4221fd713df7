import Nocturne.Ingest.Event
import Nocturne.Numbers

/-!
# Weeks

The weeks of ISO 8601, which go from Monday to Sunday and are numbered within the year of their
Thursday, as `strftime` writes them.
-/

namespace Nocturne

/-- The days from 1970-01-01 to the first day of a year. -/
def daysBeforeYear (year : Int) : Int :=
  365 * (year - 1970) + (year - 1) / 4 - (year - 1) / 100 + (year - 1) / 400 - 477

/-- The Monday of the week that a day is in. -/
def mondayOf (days : Int) : Int := days - (days + 3) % 7

/-- `%G`, the year that the Thursday of the week is in. -/
def isoYear (days : Int) : Nat := (civilOfDays (mondayOf days + 3)).1

/-- `%V`, the number of the week in that year. -/
def isoWeek (days : Int) : Nat := ((mondayOf days + 3 - daysBeforeYear (isoYear days)) / 7 + 1).toNat

/-- `%G%V`. -/
def yearWeek (days : Int) : Text := decimalNat (isoYear days) ++ digits 2 (isoWeek days)

example : isoYear 20454 = 2026 ∧ isoWeek 20454 = 1 ∧ isoYear 18630 = 2020 ∧ isoWeek 18630 = 53 := by
  decide +kernel

/-- The number that a year and a week are read as. -/
theorem digitsValue_yearWeek (days : Int) :
    digitsValue 0 (yearWeek days) = 100 * isoYear days + isoWeek days % 100 := by
  have happ : ∀ (ds es : Text) (v : Nat), (∀ b ∈ ds, isDigit b = true) →
      digitsValue v (ds ++ es) = digitsValue (digitsValue v ds) es := by
    intro ds es
    induction ds with
    | nil => exact fun v _ ↦ rfl
    | cons d ds ih =>
      intro v hds
      have hd := hds d (List.mem_cons_self ..)
      simp only [List.cons_append, digitsValue, hd, if_true]
      exact ih _ fun b hb ↦ hds b (List.mem_cons_of_mem _ hb)
  have htwo : ∀ n, digits 2 n = [n / 10 % 10, n % 10].map fun d ↦ (48 + d).toUInt8 := by
    intro n
    simp [digits, List.range_succ]
  have hlt : ∀ n, ∀ d ∈ [n / 10 % 10, n % 10], d < 10 := by
    intro n d hd
    simp only [List.mem_cons, List.not_mem_nil, or_false] at hd
    omega
  rw [yearWeek, happ _ _ _ (isDigit_decimalNat _), digitsValue_decimalNat, htwo,
    digitsValue_map (hlt _)]
  simp only [List.foldl_cons, List.foldl_nil]
  omega

/-- The days of a week have one year and one number. -/
theorem yearWeek_congr {days days' : Int} (h : mondayOf days = mondayOf days') :
    yearWeek days = yearWeek days' := by
  have hyear : isoYear days = isoYear days' := by rw [isoYear, isoYear, h]
  rw [yearWeek, yearWeek, isoWeek, isoWeek, hyear, h]

/-! ### Local time -/

/-- The day of a time as `localtime_r` gives it, where `utcOffset` is the time zone in seconds east of
UTC. -/
def localDays (utcOffset : Int → Int) (time : Int) : Int := (time + utcOffset time) / 86400

/-- `%Y-%m-%d`. -/
def isoDate (days : Int) : Text :=
  let (year, month, day) := civilOfDays days
  digits 4 year ++ ascii "-" ++ digits 2 month ++ ascii "-" ++ digits 2 day

end Nocturne
