import Mathlib.Algebra.Order.Ring.Rat
import Mathlib.Data.Sign.Basic
import Mathlib.Tactic.Linarith
import Nocturne.Lib.Extended

/-!
# The gain of a transcode

`loudness_gain` brings a track to a target loudness. A boost leaves the true peak below a ceiling,
and no gain goes past the target.
-/

namespace Nocturne

open Lib Lib.Extended

/-- `LOUDNESS_SILENCE_LUFS`. -/
def loudnessSilenceLufs : ℚ := -70

/-- `LOUDNESS_PEAK_CEILING_DBTP`. -/
def loudnessPeakCeilingDbtp : ℚ := -1

/-- `LOUDNESS_MAX_BOOST_DB`. -/
def loudnessMaxBoostDb : ℚ := 12

/-- `LOUDNESS_MAX_CUT_DB`. -/
def loudnessMaxCutDb : ℚ := -30

/-- The peak ceiling, `loudness.c:33–40`. -/
def limitBoost (tp g : Extended ℚ) : Extended ℚ :=
  if fin 0 < g ∧ tp.isNan = false ∧ tp.isInf = false then
    let ceiling := fin loudnessPeakCeilingDbtp - tp
    let ceiling := if ceiling < fin 0 then fin 0 else ceiling
    if ceiling < g then ceiling else g
  else g

/-- `loudness.c:41–42`. -/
def clampGain (g : Extended ℚ) : Extended ℚ :=
  let g := if fin loudnessMaxBoostDb < g then fin loudnessMaxBoostDb else g
  if g < fin loudnessMaxCutDb then fin loudnessMaxCutDb else g

/-- `loudness_gain`, `loudness.c:29–44`. -/
def loudnessGain (i tp target : Extended ℚ) : Extended ℚ :=
  if i.isNan ∨ i.isInf ∨ i ≤ fin loudnessSilenceLufs then fin 0
  else clampGain (limitBoost tp (target - i))

/-- A gain in dB is in its range, goes towards the target and not past it, and no boost takes the
peak above the ceiling. -/
structure SafeGain (i tp : Extended ℚ) (target g : ℚ) : Prop where
  ge : -30 ≤ g
  le : g ≤ 12
  silent : i.isNan ∨ i.isInf ∨ i ≤ fin (-70) → g = 0
  towards : ∀ x, i = fin x → g = 0 ∨ SignType.sign g = SignType.sign (target - x)
  within : ∀ x, i = fin x → |x + g - target| ≤ |x - target|
  peak : 0 < g → ∀ p, tp = fin p → p + g ≤ -1

/-! ### Towards a difference -/

/-- A number between zero and a difference. -/
def Towards (d g : ℚ) : Prop := 0 ≤ g ∧ g ≤ d ∨ d ≤ g ∧ g ≤ 0

variable {d g g' x target : ℚ}

theorem Towards.rfl : Towards d d := by
  unfold Towards
  rcases le_total 0 d with h | h
  · exact .inl ⟨h, le_rfl⟩
  · exact .inr ⟨le_rfl, h⟩

theorem Towards.trans (h : Towards d g) (h' : Towards g g') : Towards d g' := by
  unfold Towards at h h' ⊢
  rcases h with ⟨h₁, h₂⟩ | ⟨h₁, h₂⟩ <;> rcases h' with ⟨h₃, h₄⟩ | ⟨h₃, h₄⟩
  · exact .inl ⟨h₃, h₄.trans h₂⟩
  · exact .inl ⟨h₁.trans h₃, h₄.trans (h₁.trans h₂)⟩
  · exact .inr ⟨(h₁.trans h₂).trans h₃, h₄.trans h₂⟩
  · exact .inr ⟨h₁.trans h₃, h₄⟩

/-- It is zero or has the sign of the difference. -/
theorem Towards.sign (h : Towards d g) : g = 0 ∨ SignType.sign g = SignType.sign d := by
  rcases lt_trichotomy g 0 with hneg | hzero | hpos
  · right
    rcases h with ⟨hlow, -⟩ | ⟨hle, -⟩
    · exact absurd hneg (not_lt.mpr hlow)
    · rw [sign_neg hneg, sign_neg (hle.trans_lt hneg)]
  · exact .inl hzero
  · right
    rcases h with ⟨-, hle⟩ | ⟨-, hhigh⟩
    · rw [sign_pos hpos, sign_pos (hpos.trans_le hle)]
    · exact absurd hpos (not_lt.mpr hhigh)

/-- Adding it does not go past the target. -/
theorem Towards.abs_le (h : Towards (target - x) g) : |x + g - target| ≤ |x - target| := by
  rcases h with ⟨hlow, hhigh⟩ | ⟨hlow, hhigh⟩
  · rw [abs_of_nonpos (by linarith), abs_of_nonpos (by linarith)]
    linarith
  · rw [abs_of_nonneg (by linarith), abs_of_nonneg (by linarith)]
    linarith

/-! ### The two limits -/

/-- The ceiling makes a boost smaller, and not a cut. -/
theorem limitBoost_fin (tp : Extended ℚ) (d : ℚ) : ∃ g, limitBoost tp (fin d) = fin g ∧
    Towards d g ∧ (0 < g → ∀ p, tp = fin p → p + g ≤ -1) := by
  unfold limitBoost
  split
  · next hboost =>
    obtain ⟨hpos, hnan, hinf⟩ := hboost
    obtain ⟨p, rfl⟩ := exists_fin hnan hinf
    have hpos : 0 < d := hpos
    simp only [fin_sub_fin, fin_lt_fin, loudnessPeakCeilingDbtp]
    by_cases hceiling : -1 - p < 0
    · refine ⟨0, ?_, .inl ⟨le_rfl, hpos.le⟩, fun h ↦ absurd h (lt_irrefl 0)⟩
      rw [if_pos hceiling]
      exact if_pos (fin_lt_fin.mpr hpos)
    · rw [if_neg hceiling]
      split
      · next hlt =>
        have hlt : -1 - p < d := hlt
        refine ⟨-1 - p, rfl, .inl ⟨not_lt.mp hceiling, hlt.le⟩, fun _ p' hp' ↦ ?_⟩
        cases hp'
        linarith
      · next hlt =>
        have hlt : ¬ -1 - p < d := hlt
        refine ⟨d, rfl, .rfl, fun _ p' hp' ↦ ?_⟩
        cases hp'
        linarith
  · next hnot =>
    refine ⟨d, rfl, .rfl, fun hpos p hp ↦ ?_⟩
    subst hp
    exact absurd ⟨hpos, rfl, rfl⟩ hnot

/-- The range is around zero. -/
theorem clampGain_fin (g : ℚ) :
    ∃ g', clampGain (fin g) = fin g' ∧ Towards g g' ∧ -30 ≤ g' ∧ g' ≤ 12 := by
  unfold clampGain
  simp only [fin_lt_fin, loudnessMaxBoostDb, loudnessMaxCutDb]
  by_cases hboost : 12 < g
  · refine ⟨12, ?_, .inl ⟨by norm_num, hboost.le⟩, by norm_num, le_rfl⟩
    rw [if_pos hboost]
    exact if_neg (by rw [fin_lt_fin]; norm_num)
  · rw [if_neg hboost]
    split
    · next hcut =>
      have hcut : g < -30 := hcut
      exact ⟨-30, rfl, .inr ⟨hcut.le, by norm_num⟩, le_rfl, by norm_num⟩
    · next hcut =>
      have hcut : ¬ g < -30 := hcut
      exact ⟨g, rfl, .rfl, not_lt.mp hcut, not_lt.mp hboost⟩

/-- Every gain is a number, and safe. -/
theorem loudnessGain_safe (i tp : Extended ℚ) (target : ℚ) :
    ∃ g, loudnessGain i tp (fin target) = fin g ∧ SafeGain i tp target g := by
  unfold loudnessGain
  split
  · refine ⟨0, rfl, ?_⟩
    constructor
    · norm_num
    · norm_num
    · exact fun _ ↦ rfl
    · exact fun _ _ ↦ .inl rfl
    · intro x _
      rw [add_zero]
    · exact fun h ↦ absurd h (lt_irrefl 0)
  · next hsound =>
    rw [not_or, not_or] at hsound
    obtain ⟨hnan, hinf, hloud⟩ := hsound
    obtain ⟨x, rfl⟩ := exists_fin (by simpa using hnan) (by simpa using hinf)
    obtain ⟨g, hlimit, htowards, hpeak⟩ := limitBoost_fin tp (target - x)
    obtain ⟨g', hclamp, htowards', hlow, hhigh⟩ := clampGain_fin g
    rw [fin_sub_fin, hlimit, hclamp]
    refine ⟨g', rfl, ?_⟩
    have hall := htowards.trans htowards'
    constructor
    · exact hlow
    · exact hhigh
    · rintro (h | h | h)
      · exact absurd h hnan
      · exact absurd h hinf
      · exact absurd h hloud
    · rintro _ ⟨⟩
      exact hall.sign
    · rintro _ ⟨⟩
      exact hall.abs_le
    · intro hpos p hp
      rcases htowards' with ⟨-, hle⟩ | ⟨-, hle⟩
      · have hbefore := hpeak (hpos.trans_le hle) p hp
        linarith
      · exact absurd hpos (not_lt.mpr hle)

/-- A quiet track with a high peak is not touched. -/
example : loudnessGain (fin (-20)) (fin (-1 / 2)) (fin (-14)) = fin 0 := by decide +kernel

end Nocturne
