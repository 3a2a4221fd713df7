import Nocturne.Base

/-!
# Strings of Kotlin

What the phone sorts and compares are strings of characters. Texts are decoded from UTF-8, and the
functions that go by the tables of Unicode are parameters.
-/

namespace Nocturne

/-- A string, as its characters. -/
abbrev Str := List Char

/-- The decoding of UTF-8 and the functions of the library that go by the tables of Unicode:
`Normalizer.normalize(_, NFKD)` and `lowercase`. -/
structure Unicode where
  chars : Text → Str
  nfkd : Str → Str
  lowercase : Str → Str

/-- The same for texts in ASCII. -/
def asciiUnicode : Unicode where
  chars := List.map fun b ↦ Char.ofNat b.toNat
  nfkd := id
  lowercase := List.map Char.toLower

namespace Str

/-- The place of a character in the order of UTF-16: one that takes two units, the first of them
from U+D800 on, comes before those from U+E000 to U+FFFF. -/
def unitRank (c : Char) : Nat :=
  if 0xE000 ≤ c.toNat ∧ c.toNat ≤ 0xFFFF then c.toNat + 0x110000 else c.toNat

/-- `String.compareTo`. -/
def compareTo (s t : Str) : Ordering := compareOn (List.map unitRank) s t

instance : Std.TransCmp compareTo :=
  inferInstanceAs (Std.TransCmp (compareOn (List.map unitRank)))

theorem toNat_lt (c : Char) : c.toNat < 0x110000 := by
  rcases c.valid with h | h
  · exact Nat.lt_trans h (by decide)
  · exact h.2

theorem unitRank_inj {c d : Char} (h : unitRank c = unitRank d) : c = d := by
  have hc := toNat_lt c
  have hd := toNat_lt d
  apply Char.toNat_inj.mp
  rw [unitRank, unitRank] at h
  split at h <;> split at h <;> omega

theorem compareTo_eq {s t : Str} : compareTo s t = .eq ↔ s = t := by
  rw [compareTo, compareOn, Std.compare_eq_iff_eq]
  exact List.map_inj_right fun _ _ ↦ unitRank_inj

end Str

end Nocturne
