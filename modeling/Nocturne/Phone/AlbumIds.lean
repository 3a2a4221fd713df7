import Nocturne.Phone.Import

/-!
# The ids of the albums

`CatalogImporter` hashes the album artist, a blank and the title of an album. Both may have blanks
in them, so that two albums have one id exactly when the one artist goes on with words that the
title of the other begins with.
-/

namespace Nocturne

open Lib

section Separator

variable {α : Type} {s : α} {a b c d : List α}

/-- Two lists that are joined by a separator are the same when they are, or when the separator
stands in one of them as well and the join is read there. -/
theorem append_cons_eq_iff : a ++ s :: b = c ++ s :: d ↔
    (a = c ∧ b = d) ∨ (∃ m, c = a ++ s :: m ∧ b = m ++ s :: d) ∨
      ∃ m, a = c ++ s :: m ∧ d = m ++ s :: b := by
  constructor
  · intro h
    rcases List.append_eq_append_iff.mp h with ⟨m, hc, hb⟩ | ⟨m, ha, hd⟩
    · cases m with
      | nil =>
        left
        rw [List.append_nil] at hc
        injection hb with _ hb
        exact ⟨hc.symm, hb⟩
      | cons y m =>
        right; left
        injection hb with hy hb
        exact ⟨m, by rw [hc, hy], hb⟩
    · cases m with
      | nil =>
        left
        rw [List.append_nil] at ha
        injection hd with _ hd
        exact ⟨ha, hd.symm⟩
      | cons y m =>
        right; right
        injection hd with hy hd
        exact ⟨m, by rw [ha, hy], hd⟩
  · rintro (⟨rfl, rfl⟩ | ⟨m, rfl, rfl⟩ | ⟨m, rfl, rfl⟩)
    · rfl
    · simp
    · simp

end Separator

/-- What the id of an album is the hash of. -/
def CatalogTrackJson.albumKey (k : KotlinText) (t : CatalogTrackJson) : Text :=
  Import.albumArtistGroup k t ++ 32 :: k.lowercase (Import.albumTitle k t)

/-- The artist of `t'` is that of `t` with a blank and more words, and the title of `t` is those
words, a blank and the title of `t'`. -/
def ReadsInto (k : KotlinText) (t t' : CatalogTrackJson) : Prop :=
  ∃ words, Import.albumArtistGroup k t' = Import.albumArtistGroup k t ++ 32 :: words ∧
    k.lowercase (Import.albumTitle k t) = words ++ 32 :: k.lowercase (Import.albumTitle k t')

section Albums

variable {k : KotlinText} {residentIds : List Text} {t t' : CatalogTrackJson}

theorem albumId_trackEntity :
    (trackEntity k residentIds t).albumId = k.sha256Hex (t.albumKey k) := by
  show k.sha256Hex _ = _
  congr 1
  exact List.append_assoc ..

/-- Two tracks have one album id only if they have the album in common, exactly where the artist of
neither goes on into the title of the other. -/
theorem album_ids_separate_iff (k : KotlinText) (residentIds : List Text) (t t' : CatalogTrackJson)
    (hsha : k.sha256Hex (t.albumKey k) = k.sha256Hex (t'.albumKey k) →
      t.albumKey k = t'.albumKey k) :
    ((trackEntity k residentIds t).albumId = (trackEntity k residentIds t').albumId →
        Import.albumArtistGroup k t = Import.albumArtistGroup k t' ∧
          k.lowercase (Import.albumTitle k t) = k.lowercase (Import.albumTitle k t')) ↔
      ¬ ReadsInto k t t' ∧ ¬ ReadsInto k t' t := by
  have hkey : t.albumKey k = t'.albumKey k ↔
      (Import.albumArtistGroup k t = Import.albumArtistGroup k t' ∧
          k.lowercase (Import.albumTitle k t) = k.lowercase (Import.albumTitle k t')) ∨
        ReadsInto k t t' ∨ ReadsInto k t' t := append_cons_eq_iff
  have longer : ∀ a words : Text, a ≠ a ++ 32 :: words := by
    intro a words he
    have hlen := congrArg List.length he
    simp at hlen
  rw [albumId_trackEntity, albumId_trackEntity]
  constructor
  · intro h
    constructor
    · intro hr
      have hsame := h (congrArg k.sha256Hex (hkey.mpr (Or.inr (Or.inl hr))))
      obtain ⟨words, hgroup, -⟩ := hr
      exact longer _ words (hsame.1.trans hgroup)
    · intro hr
      have hsame := h (congrArg k.sha256Hex (hkey.mpr (Or.inr (Or.inr hr))))
      obtain ⟨words, hgroup, -⟩ := hr
      exact longer _ words (hsame.1.symm.trans hgroup)
  · rintro ⟨hleft, hright⟩ hid
    rcases hkey.mp (hsha hid) with hsame | hr | hr
    · exact hsame
    · exact absurd hr hleft
    · exact absurd hr hright

end Albums

/-- `plainText` with the digests of two albums. -/
def albumText : KotlinText :=
  { Import.plainText with
    sha256Hex := fun text ↦
      if text = ascii "Low the great destroyer" then
        ascii "0811bff538f782810f0ed38bbe54b08d099746db4dc5952069eb3af1422f3127"
      else if text = ascii "Low things we lost" then
        ascii "5735b54115f246dafc86155e8e0c4f881304b10006e456492e510d1c2c0adae8"
      else if text = ascii "Sunny day real estate" then
        ascii "af5a85f0612cde817fd9a9909a21ad13dd48b9f29709c5ac175cad43899a0318"
      else [] }

/-- A track of an album by one artist. -/
def albumTrack (artist album : Text) : CatalogTrackJson :=
  { Import.sampleTrack (ascii "a") 1 with album := some album, albumArtist := [artist] }

/-- Two albums of one artist. -/
theorem two_albums_apart :
    let t := albumTrack (ascii "Low") (ascii "The great destroyer")
    let t' := albumTrack (ascii "Low") (ascii "Things we lost")
    ¬ ReadsInto albumText t t' ∧ ¬ ReadsInto albumText t' t :=
  (album_ids_separate_iff albumText [] _ _ (by decide +kernel)).mp (by decide +kernel)

/-- One id for an album of Sunny day and one of Sunny. -/
theorem two_albums_merged :
    let t := albumTrack (ascii "Sunny day") (ascii "Real estate")
    let t' := albumTrack (ascii "Sunny") (ascii "Day real estate")
    (trackEntity albumText [] t).albumId = (trackEntity albumText [] t').albumId ∧
      Import.albumArtistGroup albumText t ≠ Import.albumArtistGroup albumText t' := by
  decide +kernel

end Nocturne
