import Mathlib.Data.List.Lex
import Nocturne.Ingest.Event
import Nocturne.Lib.JsonTree
import Nocturne.Lib.Utf8
import Nocturne.Numbers

/-!
# The catalog that the desktop writes

`catalog_emit` of `catalog.c` as a function from the tables to a JSON tree. The columns are
those that its `SELECT` reads, with texts of any bytes. The library that prints the tree follows
its documentation: a string that is not UTF-8 has no value, and a member without a value is not
set. Its parser is a parameter.
-/

namespace Nocturne

open Lib

/-! ### Texts -/

/-- The C string of an SQL text: the bytes before the first NUL. -/
def columnText (t : Text) : Text := t.takeWhile fun b ↦ b != 0

/-- A continuation byte. -/
def isTail (b : UInt8) : Bool := 0x80 ≤ b && b ≤ 0xBF

/-- UTF-8 without overlong forms, surrogates and what is above U+10FFFF. -/
def utf8Valid : Text → Bool
  | [] => true
  | a :: rest =>
    if a < 0x80 then utf8Valid rest
    else
      match rest with
      | [] => false
      | b :: rest =>
        if 0xC2 ≤ a && a ≤ 0xDF then isTail b && utf8Valid rest
        else
          match rest with
          | [] => false
          | c :: rest =>
            if 0xE0 ≤ a && a ≤ 0xEF then
              isTail b && isTail c && (a != 0xE0 || 0xA0 ≤ b) && (a != 0xED || b ≤ 0x9F) &&
                utf8Valid rest
            else
              match rest with
              | [] => false
              | d :: rest =>
                0xF0 ≤ a && a ≤ 0xF4 && isTail b && isTail c && isTail d &&
                  (a != 0xF0 || 0x90 ≤ b) && (a != 0xF4 || b ≤ 0x8F) && utf8Valid rest

theorem isTail_iff {b : UInt8} : isTail b = true ↔ Utf8.IsTail b := by
  unfold isTail Utf8.IsTail
  rw [Bool.and_eq_true, decide_eq_true_iff, decide_eq_true_iff]

/-- The check looks at one character after the other. -/
theorem utf8Valid_iff {t : Text} : utf8Valid t = true ↔ Utf8.Valid t := by
  constructor
  · intro h
    fun_induction utf8Valid t with
    | case1 => exact .nil
    | case2 a rest ha ih => exact .append (.one ha) (ih h)
    | case4 a ha b rest hlead ih =>
      simp only [Bool.and_eq_true, decide_eq_true_iff, isTail_iff] at hlead h
      exact .append (.two hlead.1 hlead.2 h.1) (ih h.2)
    | case6 a ha b hlead c rest hlead' ih =>
      simp only [Bool.and_eq_true, decide_eq_true_iff, isTail_iff, Bool.or_eq_true, bne_iff_ne]
        at hlead' h
      obtain ⟨⟨⟨⟨hb, hc⟩, hshort⟩, hsurrogate⟩, hrest⟩ := h
      exact .append (.three hlead'.1 hlead'.2 hb hc (fun he ↦ hshort.resolve_left (absurd he))
        (fun he ↦ hsurrogate.resolve_left (absurd he))) (ih hrest)
    | case8 a ha b hlead c hlead' d rest ih =>
      simp only [Bool.and_eq_true, decide_eq_true_iff, isTail_iff, Bool.or_eq_true, bne_iff_ne] at h
      obtain ⟨⟨⟨⟨⟨⟨⟨hlow, hhigh⟩, hb⟩, hc⟩, hd⟩, hshort⟩, hrange⟩, hrest⟩ := h
      exact .append (.four hlow hhigh hb hc hd (fun he ↦ hshort.resolve_left (absurd he))
        (fun he ↦ hrange.resolve_left (absurd he))) (ih hrest)
    | _ => cases h
  · intro h
    induction h with
    | nil => rfl
    | append hc _ ih =>
      cases hc with
      | @one a high =>
        rw [List.singleton_append, utf8Valid.eq_def]
        exact (if_pos high).trans ih
      | @two a b low high hb =>
        have ha : ¬ a < 0x80 := UInt8.not_lt.mpr (UInt8.le_trans (by decide) low)
        rw [List.cons_append, List.singleton_append, utf8Valid.eq_def]
        simp [ha, low, high, isTail_iff.mpr hb, ih]
      | @three a b c low high hb hc short surrogate =>
        have ha : ¬ a < 0x80 := UInt8.not_lt.mpr (UInt8.le_trans (by decide) low)
        have hlead : ¬ a ≤ 0xDF := UInt8.not_le.mpr (UInt8.lt_of_lt_of_le (by decide) low)
        rw [List.cons_append, List.cons_append, List.singleton_append, utf8Valid.eq_def]
        simp [ha, hlead, low, high, isTail_iff.mpr hb, isTail_iff.mpr hc, imp_iff_not_or.mp short,
          imp_iff_not_or.mp surrogate, ih]
      | @four a b c d low high hb hc hd short range =>
        have ha : ¬ a < 0x80 := UInt8.not_lt.mpr (UInt8.le_trans (by decide) low)
        have hlead : ¬ a ≤ 0xDF := UInt8.not_le.mpr (UInt8.lt_of_lt_of_le (by decide) low)
        have hlead' : ¬ a ≤ 0xEF := UInt8.not_le.mpr (UInt8.lt_of_lt_of_le (by decide) low)
        rw [List.cons_append, List.cons_append, List.cons_append, List.singleton_append,
          utf8Valid.eq_def]
        simp [ha, hlead, hlead', low, high, isTail_iff.mpr hb, isTail_iff.mpr hc,
          isTail_iff.mpr hd, imp_iff_not_or.mp short, imp_iff_not_or.mp range, ih]

theorem utf8Valid_of_ascii {t : Text} (h : ∀ b ∈ t, b < 0x80) : utf8Valid t = true := by
  induction t with
  | nil => rfl
  | cons b t ih =>
    rw [List.forall_mem_cons] at h
    unfold utf8Valid
    rw [if_pos h.1]
    exact ih h.2

/-- `json_string`: no value for a string that is not UTF-8. -/
def jsonString (t : Text) : Option JsonTree := if utf8Valid t then some (.string t) else none

/-! ### Tables -/

/-- The columns of `tracks` that the catalog shows. -/
structure TrackColumns where
  path : Text
  mtimeNs : Int64
  sizeBytes : Int64
  format : Option Text
  title : Option Text
  artist : Option Text
  album : Option Text
  albumArtist : Option Text
  trackNumber : Option Text
  discNumber : Option Text
  year : Option Text
  genre : Option Text
  durationMs : Option Int64
  dateAdded : Text

/-- The columns of `residency_state` that the catalog shows. -/
structure TranscodeColumns where
  transcodePath : Option Text
  transcodeSizeBytes : Option Int64
  transcodeFormat : Option Text

/-- The tables that the catalog is made from: the tracks, their residency, and the library roots
with the times of their last scans. -/
structure CatalogTables where
  tracks : Table Sha TrackColumns
  residencyState : Table Sha TranscodeColumns
  scanMeta : List (Text × Text)

/-- `load_library_root`, `catalog.c:36–48`: the root that was scanned last. -/
def loadLibraryRoot (t : CatalogTables) : Option Text :=
  (t.scanMeta.mergeSort fun a b ↦ decide (b.2 ≤ a.2)).head?.map fun r ↦ columnText r.1

/-! ### Members -/

/-- `try_parse_json_str_array`, `catalog.c:52–60`: what the elements of the array are is not
looked at. -/
def tryParseJsonStrArray (jsonLoads : Text → Option JsonTree) (s : Text) :
    Option (List JsonTree) :=
  if s.head? = some 91 then
    match jsonLoads s with
    | some (.array elements) => some elements
    | _ => none
  else none

/-- `as_json_array`, `catalog.c:63–71`. -/
def asJsonArray (jsonLoads : Text → Option JsonTree) : Option Text → JsonTree
  | none => .array []
  | some [] => .array []
  | some s =>
    match tryParseJsonStrArray jsonLoads s with
    | some elements => .array elements
    | none => .array (jsonString s).toList

/-- `as_json_track_int`, `catalog.c:74–81`: `"5/12"` is 5. -/
def asJsonTrackInt (s : Option Text) : JsonTree :=
  match s.bind strtol with
  | some n => .integer n
  | none => .null

/-- `make_relative`, `catalog.c:85–96`. -/
def makeRelative (path : Text) : Option Text → Text
  | none => path
  | some [] => path
  | some root =>
    if root <+: path then (path.drop root.length).dropWhile fun b ↦ b == 47 else path

/-- `catalog.c:172–174`: a track with a transcode is shown with the path, the size and the format
of the transcode. -/
def TrackColumns.shown (row : TrackColumns) (r : Option TranscodeColumns) : TrackColumns :=
  match r with
  | none => row
  | some r =>
    match r.transcodePath with
    | none => row
    | some path =>
      { row with
        path := path
        sizeBytes := r.transcodeSizeBytes.getD 0
        format := r.transcodeFormat }

/-- The members that `catalog.c:179–197` sets for one row. -/
def trackMembers (jsonLoads : Text → Option JsonTree) (libraryRoot : Option Text) (sha : Sha)
    (row : TrackColumns) : List (Text × Option JsonTree) :=
  let rel := makeRelative (columnText row.path) libraryRoot
  [(ascii "id", jsonString (columnText sha)),
    (ascii "path", jsonString rel),
    (ascii "title", (row.title.map columnText).elim (some .null) jsonString),
    (ascii "artist", some (asJsonArray jsonLoads (row.artist.map columnText))),
    (ascii "album", (row.album.map columnText).elim (some .null) jsonString),
    (ascii "album_artist", some (asJsonArray jsonLoads (row.albumArtist.map columnText))),
    (ascii "track", some (asJsonTrackInt (row.trackNumber.map columnText))),
    (ascii "disc", some (asJsonTrackInt (row.discNumber.map columnText))),
    (ascii "year", some (asJsonTrackInt (row.year.map columnText))),
    (ascii "genre", some (asJsonArray jsonLoads (row.genre.map columnText))),
    (ascii "duration_ms", some (row.durationMs.elim .null fun d ↦ .integer d.toInt)),
    (ascii "size_bytes", some (.integer row.sizeBytes.toInt)),
    (ascii "format", (row.format.map columnText).elim (some .null) jsonString),
    (ascii "mtime_ns", some (.integer row.mtimeNs.toInt)),
    (ascii "date_added", jsonString (columnText row.dateAdded))]

/-- `iso_utc_now`, `catalog.c:98–108`, at a time in seconds. -/
def isoUtcNow (now : Int) : Text := isoDateTime now ++ ascii "Z"

/-- The rows of the `SELECT`, `catalog.c:133–140`, by their hash. -/
def CatalogTables.select (t : CatalogTables) : List (Sha × TrackColumns) :=
  (t.tracks.rows.map fun r ↦ (r.1, r.2.shown (t.residencyState.get? r.1))).mergeSort fun a b ↦
    decide (a.1 ≤ b.1)

/-- `catalog_emit`, `catalog.c:112–211`, of the library root and the rows that it gets. With
`JSON_SORT_KEYS` every object is printed with its keys in order, the ones in the columns as well. -/
def catalogTree (jsonLoads : Text → Option JsonTree) (now : Int) (libraryRoot : Option Text)
    (rows : List (Sha × TrackColumns)) : JsonTree :=
  .sortKeys (.object (JsonTree.build
    [(ascii "v", some (.integer 1)),
      (ascii "generated_at", jsonString (isoUtcNow now)),
      (ascii "tracks", some (.array (rows.map fun r ↦
        .object (JsonTree.build (trackMembers jsonLoads libraryRoot r.1 r.2)))))]))

/-- `catalog_emit` of the tables, while its queries go through. -/
def catalogEmit (jsonLoads : Text → Option JsonTree) (now : Int) (t : CatalogTables) : JsonTree :=
  catalogTree jsonLoads now (loadLibraryRoot t) t.select

/-! ### The rows of the database -/

/-- A path as a C string. -/
def renderPath (p : Path) : Text :=
  if p = [] then [47] else p.flatMap fun name ↦ 47 :: name

/-- What the catalog reads of a row of `tracks`. -/
def TrackRow.columns (row : TrackRow) : TrackColumns where
  path := renderPath row.path
  mtimeNs := .ofInt row.mtimeNs
  sizeBytes := .ofInt row.sizeBytes
  format := row.format
  title := row.title
  artist := row.artist
  album := row.album
  albumArtist := row.albumArtist
  trackNumber := row.trackNumber
  discNumber := row.discNumber
  year := row.year
  genre := row.genre
  durationMs := row.durationMs.map .ofInt
  dateAdded := row.dateAdded

/-- What the catalog reads of a row of `residency_state`. -/
def ResidencyRow.columns (row : ResidencyRow) : TranscodeColumns where
  transcodePath := row.transcodePath.map renderPath
  transcodeSizeBytes := row.transcodeSizeBytes.map .ofInt
  transcodeFormat := row.transcodeFormat

/-- The tables of the database as the catalog reads them. -/
def Db.catalogTables (db : Db) : CatalogTables where
  tracks := db.tracks.table.mapRows TrackRow.columns
  residencyState := db.residencyState.mapRows ResidencyRow.columns
  scanMeta := db.scanMeta.rows.map fun r ↦ (renderPath r.1, r.2.lastScanAt)

end Nocturne
