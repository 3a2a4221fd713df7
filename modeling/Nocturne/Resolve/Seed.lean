import Nocturne.Calendar
import Nocturne.Lib.Scramble
import Nocturne.Resolve.Buckets

/-!
# The seed of the week

The exploration mixes the hash of a track with the number of the week. The mixing keeps two seeds
apart, but the seed of a week is its number with a mask over it, which leaves few bits of it.
-/

namespace Nocturne

open Lib.Scramble

/-! ### Ranks -/

/-- FNV-1a of a text, `resolver.c:254–258`. -/
def fnv1a (text : Text) : UInt64 :=
  text.foldl (fun h b ↦ (h ^^^ b.toUInt64) * 0x100000001b3) (0xcbf29ce484222325 : UInt64)

/-- The finaliser of splitmix64, `resolver.c:259–262`. -/
def splitmix (z : UInt64) : UInt64 :=
  let z := (z ^^^ (z >>> 30)) * 0xbf58476d1ce4e5b9
  let z := (z ^^^ (z >>> 27)) * 0x94d049bb133111eb
  z ^^^ (z >>> 31)

theorem exploreRank_eq (seed : UInt64) (sha : Text) :
    exploreRank seed sha = splitmix (fnv1a sha ^^^ seed) := rfl

/-- No two words are mixed into one: both factors have inverses. -/
theorem splitmix_injective : Function.Injective splitmix := by
  have first : (0xbf58476d1ce4e5b9 : UInt64) * 0x96de1b173f119089 = 1 := by decide
  have second : (0x94d049bb133111eb : UInt64) * 0x319642b2d24d8ec3 = 1 := by decide
  have h := (xor_shiftRight_injective_64 (k := 31) (by decide)).comp
    ((mul_injective second).comp ((xor_shiftRight_injective_64 (k := 27) (by decide)).comp
      ((mul_injective first).comp (xor_shiftRight_injective_64 (k := 30) (by decide)))))
  exact h

/-- Two seeds give a track two ranks. -/
theorem exploreRank_injective (sha : Text) : Function.Injective fun seed ↦ exploreRank seed sha := by
  intro seed seed' h
  have hxor : fnv1a sha ^^^ seed = fnv1a sha ^^^ seed' := splitmix_injective h
  have hcancel := congrArg (fnv1a sha ^^^ ·) hxor
  simpa [← UInt64.xor_assoc] using hcancel

/-! ### Weeks -/

/-- `strtoul` of `%G%V`: the year of a time and its week in it, in the 64 bits of the seed. -/
def weekNumber (now : Int) : UInt64 := (digitsValue 0 (yearWeek (now / 86400))).toUInt64

/-- The mask over the number of the week. -/
def weekMask : UInt64 := 0xDEADBEEF

/-- `iso_week_seed`, `resolver.c:279–287`. -/
def isoWeekSeed (now : Int) : UInt64 := weekNumber now ||| weekMask

/-- The exploration uses it where no seed is configured. -/
theorem exploreSeed_eq {env : ResolverEnv} {cfg : ResolverConfig} {now : Int}
    (h : env.isoWeek = weekNumber now) (hseed : cfg.randomSeed = 0) :
    exploreSeed env cfg = isoWeekSeed now := by
  rw [exploreSeed, if_neg (by simp [hseed]), h]
  rfl

/-- Two times have two seeds, and with them every track has two ranks, exactly where the numbers of
their weeks differ in a bit that the mask leaves. -/
theorem weeks_rotate_iff (now now' : Int) :
    (isoWeekSeed now ≠ isoWeekSeed now' ∧
        ∀ sha, exploreRank (isoWeekSeed now) sha ≠ exploreRank (isoWeekSeed now') sha) ↔
      weekNumber now &&& ~~~weekMask ≠ weekNumber now' &&& ~~~weekMask := by
  constructor
  · rintro ⟨hne, -⟩ heq
    exact hne (or_eq_or_iff.mpr heq)
  · intro hne
    have hseed : isoWeekSeed now ≠ isoWeekSeed now' := fun h ↦ hne (or_eq_or_iff.mp h)
    exact ⟨hseed, fun sha h ↦ hseed (exploreRank_injective sha h)⟩

/-- The first two Mondays of 2026 are in two weeks and have one seed, so that every track keeps its
rank. -/
theorem two_weeks_one_seed :
    (isoYear 20458, isoWeek 20458) ≠ (isoYear 20465, isoWeek 20465) ∧
      isoWeekSeed (20458 * 86400) = isoWeekSeed (20465 * 86400) := by
  constructor
  · decide +kernel
  · have hdays : (20458 * 86400 : Int) / 86400 = 20458 ∧ (20465 * 86400 : Int) / 86400 = 20465 := by
      omega
    have hfirst : isoYear 20458 = 2026 ∧ isoWeek 20458 = 2 := by decide +kernel
    have hsecond : isoYear 20465 = 2026 ∧ isoWeek 20465 = 3 := by decide +kernel
    rw [isoWeekSeed, isoWeekSeed, weekNumber, weekNumber, hdays.1, hdays.2, digitsValue_yearWeek,
      digitsValue_yearWeek, hfirst.1, hfirst.2, hsecond.1, hsecond.2]
    decide

end Nocturne
