import Nocturne.Catalog.Import
import Nocturne.Phone.Residency

/-!
# Documents of the music tree

Three components make a document of the music tree out of the path of a catalog row: the
verification of residency, the player and the probe of the sync progress. Each of them strips the
subtree of the library from the path by itself.
-/

namespace Nocturne

open Lib

/-- What a media item plays: a document of the tree, or a file of a preview build. -/
inductive MediaUri where
  | document (docId : Text)
  | file (path : Text)
  deriving DecidableEq, Repr

/-- `MediaItem`, with the fields of its metadata. -/
structure MediaItem where
  mediaId : Text
  uri : MediaUri
  title : Text
  artist : Option Text
  albumTitle : Text
  albumArtist : Option Text
  trackNumber : Option Int
  discNumber : Option Int
  artworkData : Option Text
  deriving DecidableEq, Repr

namespace MusicTree

/-- `'/'`. -/
def slash : UInt8 := 47

/-- `String.removePrefix`. -/
def without (start text : Text) : Text := (removePrefix start text).getD text

/-- A document below the tree, as `MusicFileProbe.sizeOf` asks for it, `MusicFileProbe.kt:28–31`. -/
def child (treeDocId relPath : Text) : Text := treeDocId ++ slash :: relPath

/-- `phoneRelativePath`, `MediaItemMapper.kt:58–60`; `rel`, `SyncProgressRepository.kt:67–69`. -/
def phoneRelativePath (path : Text) : Text :=
  without (ascii "archive/") (without (ascii "resident/") path)

/-- `TrackEntity.toMediaItem`, `MediaItemMapper.kt:32–75`, with the document id of the tree. -/
def toMediaItem (t : TrackEntity) (musicTree : Option Text) (artworkBytes : Option Text) :
    MediaItem where
  mediaId := t.id
  uri :=
    match musicTree with
    | some treeDocId => .document (child treeDocId (phoneRelativePath t.path))
    | none => .file t.path
  title := t.title
  artist := t.artist.head?
  albumTitle := t.album
  albumArtist := t.albumArtist.head?
  trackNumber := t.trackNumber
  discNumber := t.discNumber
  artworkData := artworkBytes

/-- What stands before and behind the last slash, if there is one. -/
def splitAtLastSlash : Text → Option (Text × Text)
  | [] => none
  | b :: text =>
    match splitAtLastSlash text with
    | some (dir, base) => some (b :: dir, base)
    | none => if b = slash then some ([], text) else none

/-- `dirRel`, `SyncProgressRepository.kt:71`. -/
def dirRel (rel : Text) : Text := ((splitAtLastSlash rel).map Prod.fst).getD []

/-- `baseName`, `SyncProgressRepository.kt:72`. -/
def baseName (rel : Text) : Text := ((splitAtLastSlash rel).map Prod.snd).getD rel

/-- The document that `statSize` asks for, `SyncProgressRepository.kt:104–105`. -/
def statSizeDocId (treeDocId dirRel fileName : Text) : Text :=
  if dirRel.isEmpty then child treeDocId fileName
  else child treeDocId (dirRel ++ slash :: fileName)

/-- `tempNames`, `SyncProgressRepository.kt:82–86`. -/
def tempNames (baseName : Text) : List Text :=
  [ascii ".syncthing." ++ baseName ++ ascii ".tmp", ascii "~syncthing~" ++ baseName ++ ascii ".tmp",
    baseName ++ ascii ".tmp"]

/-- The documents that `probe` asks for, the final file and the temporary ones behind it,
`SyncProgressRepository.kt:67–91`. -/
def probed (treeDocId path : Text) : Text × List Text :=
  let rel := phoneRelativePath path
  (statSizeDocId treeDocId (dirRel rel) (baseName rel),
    (tempNames (baseName rel)).map (statSizeDocId treeDocId (dirRel rel)))

/-- The player and the probe of the sync progress take the file that residency is verified of. -/
def SameFile (treeDocId : Text) (t : TrackEntity) : Prop :=
  (∀ artwork, (toMediaItem t (some treeDocId) artwork).uri =
    .document (child treeDocId (relPath t.path))) ∧
  (probed treeDocId t.path).1 = child treeDocId (relPath t.path)

/-- The path does not lead into a directory `archive` of `resident`, nor to a name directly behind a
slash at the beginning or a doubled one behind the subtree. -/
def Unambiguous (path : Text) : Prop :=
  ¬ ascii "resident/archive/" <+: path ∧
    ∀ base, slash ∉ base →
      path ≠ slash :: base ∧ path ≠ ascii "resident/" ++ slash :: base ∧
        path ≠ ascii "archive/" ++ slash :: base

section Strings

variable {start text rest dir base rel : Text}

theorem removePrefix_eq_some : removePrefix start text = some rest ↔ text = start ++ rest := by
  rw [removePrefix]
  split
  · next h =>
    obtain ⟨r, rfl⟩ := List.isPrefixOf_iff_prefix.mp h
    simp
  · next h =>
    constructor
    · intro hnone
      cases hnone
    · rintro rfl
      exact absurd (List.isPrefixOf_iff_prefix.mpr (List.prefix_append start rest)) h

theorem removePrefix_eq_none (h : ¬ start <+: text) : removePrefix start text = none := by
  rw [removePrefix, if_neg]
  rwa [List.isPrefixOf_iff_prefix]

theorem without_append (start text : Text) : without start (start ++ text) = text := by
  rw [without, removePrefix_eq_some.mpr rfl, Option.getD_some]

theorem without_of_not_below (h : ¬ start <+: text) : without start text = text := by
  rw [without, removePrefix_eq_none h, Option.getD_none]

theorem splitAtLastSlash_eq_none : splitAtLastSlash text = none ↔ slash ∉ text := by
  induction text with
  | nil => simp [splitAtLastSlash]
  | cons b text ih =>
    rw [splitAtLastSlash, List.mem_cons, not_or, ← ih]
    cases splitAtLastSlash text with
    | some parts => simp
    | none => simp [eq_comm]

/-- A text is split where the rest has no slash. -/
theorem splitAtLastSlash_eq_some :
    splitAtLastSlash text = some (dir, base) ↔ text = dir ++ slash :: base ∧ slash ∉ base := by
  induction text generalizing dir with
  | nil => simp [splitAtLastSlash]
  | cons b text ih =>
    rw [splitAtLastSlash]
    cases hrest : splitAtLastSlash text with
    | some parts =>
      obtain ⟨d, base'⟩ := parts
      -- There is a slash behind `b`, so `b` is not the one where the text is split.
      have hslash : slash ∈ text := by
        by_contra hno
        rw [splitAtLastSlash_eq_none.mpr hno] at hrest
        cases hrest
      cases dir with
      | nil =>
        simp only [Option.some.injEq, Prod.mk.injEq, reduceCtorEq, false_and, List.nil_append,
          List.cons.injEq, false_iff]
        rintro ⟨⟨rfl, rfl⟩, hbase⟩
        exact hbase hslash
      | cons c dir =>
        rw [List.cons_append, List.cons.injEq, and_assoc, ← ih, hrest]
        simp [and_assoc]
    | none =>
      have hnone := splitAtLastSlash_eq_none.mp hrest
      cases dir with
      | nil =>
        rw [List.nil_append, List.cons.injEq]
        by_cases hb : b = slash
        · simp only [if_pos hb, Option.some.injEq, Prod.mk.injEq, true_and]
          constructor
          · rintro rfl
            exact ⟨⟨hb, rfl⟩, hnone⟩
          · exact fun h ↦ h.1.2
        · simp [hb]
      | cons c dir =>
        constructor
        · intro h
          by_cases hb : b = slash
          · simp [hb] at h
          · simp [hb] at h
        · rintro ⟨htext, -⟩
          rw [List.cons_append, List.cons.injEq] at htext
          rw [htext.2] at hnone
          exact absurd (List.mem_append_right _ (List.mem_cons_self ..)) hnone

theorem child_inj {treeDocId : Text} :
    child treeDocId text = child treeDocId rest ↔ text = rest := by
  simp [child]

/-- The directory and the name make up the path again, unless its only slash is the first byte. -/
theorem statSizeDocId_eq_child {treeDocId : Text} :
    statSizeDocId treeDocId (dirRel rel) (baseName rel) = child treeDocId rel ↔
      ∀ base, slash ∉ base → rel ≠ slash :: base := by
  cases hsplit : splitAtLastSlash rel with
  | none =>
    have hno := splitAtLastSlash_eq_none.mp hsplit
    simp only [dirRel, baseName, statSizeDocId, hsplit, Option.map_none, Option.getD_none,
      List.isEmpty_nil, if_true, true_iff]
    rintro base - rfl
    exact hno (List.mem_cons_self ..)
  | some parts =>
    obtain ⟨dir, base⟩ := parts
    obtain ⟨rfl, hbase⟩ := splitAtLastSlash_eq_some.mp hsplit
    simp only [dirRel, baseName, statSizeDocId, hsplit, Option.map_some, Option.getD_some]
    cases dir with
    | nil =>
      simp only [List.isEmpty_nil, if_true, child_inj, List.nil_append, ne_eq]
      constructor
      · intro h
        simpa using congrArg List.length h
      · intro h
        exact absurd rfl (h base hbase)
    | cons c dir =>
      simp only [List.isEmpty_cons, Bool.false_eq_true, if_false, true_iff]
      rintro base' hbase' h
      rw [List.cons_append, List.cons.injEq] at h
      exact hbase' (h.2 ▸ List.mem_append_right _ (List.mem_cons_self ..))

/-- Stripping both subtrees, one behind the other, strips the same as stripping one of them, except
from a path with both. -/
theorem phoneRelativePath_eq_relPath {path : Text} :
    phoneRelativePath path = relPath path ↔ ¬ ascii "resident/archive/" <+: path := by
  have hboth : ascii "resident/archive/" = ascii "resident/" ++ ascii "archive/" := rfl
  rw [phoneRelativePath, relPath, hboth]
  by_cases hres : ascii "resident/" <+: path
  · obtain ⟨rest, rfl⟩ := hres
    rw [without_append, removePrefix_eq_some.mpr rfl, List.prefix_append_right_inj]
    by_cases har : ascii "archive/" <+: rest
    · obtain ⟨name, rfl⟩ := har
      rw [without_append]
      simp only [List.prefix_append, not_true_eq_false, iff_false]
      intro h
      have hlength := congrArg List.length h
      rw [List.length_append] at hlength
      simp [ascii] at hlength
    · rw [without_of_not_below har]
      simp [har]
  · rw [without_of_not_below hres, removePrefix_eq_none hres]
    constructor
    · intro _ hprefix
      exact hres ((List.prefix_append ..).trans hprefix)
    · exact fun _ ↦ rfl

end Strings

/-- The relative path of a row begins with its only slash. -/
theorem relPath_eq_slash {path base : Text} : relPath path = slash :: base ↔
    path = slash :: base ∨ path = ascii "resident/" ++ slash :: base ∨
      path = ascii "archive/" ++ slash :: base := by
  rw [relPath]
  by_cases hres : ascii "resident/" <+: path
  · obtain ⟨rest, rfl⟩ := hres
    simp only [removePrefix_eq_some.mpr rfl, List.append_cancel_left_eq]
    constructor
    · exact fun h ↦ .inr (.inl h)
    · rintro (h | h | h)
      · exact absurd (List.head_eq_of_cons_eq h) (by decide)
      · exact h
      · exact absurd (List.head_eq_of_cons_eq h) (by decide)
  · have hno : path ≠ ascii "resident/" ++ slash :: base := by
      rintro rfl
      exact hres (List.prefix_append ..)
    simp only [removePrefix_eq_none hres, hno, false_or]
    by_cases har : ascii "archive/" <+: path
    · obtain ⟨rest, rfl⟩ := har
      simp only [removePrefix_eq_some.mpr rfl, Option.getD_some, List.append_cancel_left_eq]
      constructor
      · exact .inr
      · rintro (h | h)
        · exact absurd (List.head_eq_of_cons_eq h) (by decide)
        · exact h
    · have hno : path ≠ ascii "archive/" ++ slash :: base := by
        rintro rfl
        exact har (List.prefix_append ..)
      simp [removePrefix_eq_none har, hno]

/-- The three components take the same file exactly where the path is not ambiguous. -/
theorem same_file_iff (treeDocId : Text) (t : TrackEntity) :
    SameFile treeDocId t ↔ Unambiguous t.path := by
  have hplayed : (∀ artwork, (toMediaItem t (some treeDocId) artwork).uri =
      .document (child treeDocId (relPath t.path))) ↔
        phoneRelativePath t.path = relPath t.path := by
    simp [toMediaItem, child_inj]
  rw [SameFile, hplayed, Unambiguous, ← phoneRelativePath_eq_relPath]
  apply and_congr_right
  intro hrel
  rw [probed, hrel]
  simp only [statSizeDocId_eq_child, ne_eq, relPath_eq_slash, not_or]

/-- A row with this path, and no more than that. -/
def rowAt (path : Text) : TrackEntity where
  id := ascii "t"
  title := ascii "Title"
  artist := []
  albumArtist := []
  album := ascii "Album"
  albumId := []
  albumArtistId := []
  genre := []
  genreId := none
  trackNumber := none
  discNumber := none
  year := none
  durationMs := none
  sizeBytes := 1
  format := ascii "flac"
  mtimeNs := 0
  dateAdded := []
  path := path
  isResident := true
  searchBlob := []

example : (probed (ascii "primary:Music") (ascii "resident/A/x.flac")).1 =
    ascii "primary:Music/A/x.flac" := by decide

/-- A file that is verified in a directory `archive` is played from the directory above. -/
theorem nested_archive_differs :
    ¬ SameFile (ascii "primary:Music") (rowAt (ascii "resident/archive/x.flac")) := by
  rintro ⟨hplayed, -⟩
  exact absurd (hplayed none) (by decide)

end MusicTree

end Nocturne
