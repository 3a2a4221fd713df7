import Mathlib.Data.List.GetD
import Nocturne.Catalog.Emit
import Nocturne.Download.Dispatch

/-!
# Copying a message

`utf8_copy` cuts a text that does not fit into its buffer before the character that would be split,
so that jansson takes what is left.
-/

namespace Nocturne

open Lib Lib.Utf8

/-- The longest beginning of a text that is UTF-8 and leaves room for the NUL. -/
structure LongestText (cap : Nat) (src dst : Text) : Prop where
  isPrefix : dst <+: src
  valid : Valid dst
  fits : dst.length < cap
  longest : ∀ p, p <+: src → Valid p → p.length < cap → p.length ≤ dst.length

/-- The loop goes back over continuation bytes. -/
theorem utf8Cut_spec (src : Text) (n : Nat) (hn : n < src.length) : utf8Cut src n ≤ n ∧
    (∀ m, utf8Cut src n < m → m ≤ n → IsTail (src.getD m 0)) ∧
      (utf8Cut src n = 0 ∨ ¬ IsTail (src.getD (utf8Cut src n) 0)) := by
  induction n with
  | zero => exact ⟨Nat.le_refl _, fun m hlow hhigh ↦ absurd hlow (Nat.not_lt.mpr hhigh), .inl rfl⟩
  | succ n ih =>
    unfold utf8Cut
    split
    · next htail =>
      rw [isTail_iff_mask] at htail
      obtain ⟨hle, hover, hend⟩ := ih (Nat.lt_of_succ_lt hn)
      refine ⟨Nat.le_succ_of_le hle, fun m hlow hhigh ↦ ?_, hend⟩
      rcases Nat.lt_or_ge n m with hm | hm
      · have heq : m = n + 1 := by omega
        exact heq ▸ htail
      · exact hover m hlow hm
    · next hlead =>
      rw [isTail_iff_mask] at hlead
      exact ⟨Nat.le_refl _, fun m hlow hhigh ↦ absurd hlow (Nat.not_lt.mpr hhigh), .inr hlead⟩

/-- The copy is the longest beginning of a text that fits. -/
theorem utf8Copy_longest (cap : Nat) (src : Text) (hcap : 1 ≤ cap) (hsrc : Valid src) :
    LongestText cap src (utf8Copy cap src) := by
  unfold utf8Copy
  split
  · next hlong =>
    obtain ⟨hle, hover, hend⟩ := utf8Cut_spec src (cap - 1) (by omega)
    generalize utf8Cut src (cap - 1) = n at hle hover hend
    have hlength : (src.take n).length = n := by
      rw [List.length_take]
      omega
    constructor
    · exact List.take_prefix n src
    · rcases hend with rfl | hlead
      · exact .nil
      · rw [valid_take_iff hsrc]
        intro b hb
        rwa [List.getD_eq_getElem?_getD, hb] at hlead
    · omega
    · intro p hp hvalid hfits
      have hlen := hp.length_le
      rw [hlength]
      -- a longer beginning would end before a continuation byte
      by_contra hlt
      have htail := hover p.length (by omega) (by omega)
      rw [List.getD_eq_getElem _ _ (by omega)] at htail
      have hcut := (valid_take_iff hsrc p.length).mp (by rwa [← List.prefix_iff_eq_take.mp hp])
      exact hcut _ (List.getElem?_eq_getElem (by omega)) htail
  · next hshort =>
    exact ⟨List.prefix_rfl, hsrc, by omega, fun p hp _ _ ↦ hp.length_le⟩

/-- Nine bytes hold two of three characters of three bytes. -/
theorem utf8Copy_cut : LongestText 9 (ascii "a" ++ "日本語".toUTF8.data.toList)
    (utf8Copy 9 (ascii "a" ++ "日本語".toUTF8.data.toList)) :=
  utf8Copy_longest 9 _ (by decide) (utf8Valid_iff.mp (by decide +kernel))

/-- What is left of a message that jansson took is taken again. -/
theorem jsonString_utf8Copy (cap : Nat) (src : Text) (hcap : 1 ≤ cap)
    (h : (jsonString src).isSome) : (jsonString (utf8Copy cap src)).isSome := by
  unfold jsonString at h ⊢
  split at h
  · next hsrc =>
    have hvalid := (utf8Copy_longest cap src hcap (utf8Valid_iff.mp hsrc)).valid
    rw [if_pos (utf8Valid_iff.mpr hvalid)]
    rfl
  · cases h

end Nocturne
