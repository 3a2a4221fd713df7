import Mathlib.Data.List.Perm.Basic
import Mathlib.Data.List.TakeWhile
import Nocturne.Catalog.Import

/-!
# Desktop and phone agree on the catalog

The importer decodes a catalog as a whole: one row that it cannot read, and the phone keeps its
old tracks. Which rows it can read is said of the columns, member by member of the object that
the desktop writes. The catalog is imported, with one row for each track, exactly when all rows
are of that kind.
-/

namespace Nocturne

open Lib Lib.JsonTree

/-- The import succeeds, and its rows are those of the tracks, one each. -/
def CatalogAgrees (k : KotlinText) (residentIds : List Text) (t : CatalogTables)
    (catalogIn : JsonTree) : Prop :=
  ∃ table, importAll k residentIds catalogIn = some table ∧
    (table.rows.map fun r ↦ r.2.id).Perm (t.tracks.rows.map Prod.fst)

/-! ### Rows that the phone can read -/

/-- Where a column with several values is a JSON array, its elements are strings. -/
def HoldsStrings (jsonLoads : Text → Option JsonTree) (s : Option Text) : Prop :=
  ∀ text elements, s = some text → tryParseJsonStrArray jsonLoads text = some elements →
    ∀ e ∈ elements, ∃ x, e = .string x

/-- Where a column starts with a number, it is one of 32 bits. -/
def FitsInt (s : Option Text) : Prop := ∀ n, s.bind strtol = some n → -2 ^ 31 ≤ n ∧ n < 2 ^ 31

/-- A row as the catalog shows it that `CatalogTrackJson` can hold. -/
structure Readable (jsonLoads : Text → Option JsonTree) (libraryRoot : Option Text) (sha : Sha)
    (row : TrackColumns) : Prop where
  id : utf8Valid (columnText sha) = true
  path : utf8Valid (makeRelative (columnText row.path) libraryRoot) = true
  format : ∃ f, row.format = some f ∧ utf8Valid (columnText f) = true
  dateAdded : utf8Valid (columnText row.dateAdded) = true
  artist : HoldsStrings jsonLoads (row.artist.map columnText)
  albumArtist : HoldsStrings jsonLoads (row.albumArtist.map columnText)
  genre : HoldsStrings jsonLoads (row.genre.map columnText)
  track : FitsInt (row.trackNumber.map columnText)
  disc : FitsInt (row.discNumber.map columnText)
  year : FitsInt (row.year.map columnText)

/-! ### Texts -/

theorem columnText_of_notMem {t : Text} (h : 0 ∉ t) : columnText t = t := by
  apply List.takeWhile_eq_self_iff.mpr
  intro b hb
  have hne : b ≠ 0 := fun h0 ↦ h (h0 ▸ hb)
  simpa using hne

theorem zero_notMem_columnText (t : Text) : 0 ∉ columnText t := by
  intro h
  have := List.mem_takeWhile_imp h
  cases this

/-- Only ASCII characters. -/
def AllAscii (t : Text) : Prop := ∀ b ∈ t, b < 0x80

theorem AllAscii.append {t u : Text} (ht : AllAscii t) (hu : AllAscii u) : AllAscii (t ++ u) := by
  intro b hb
  rw [List.mem_append] at hb
  rcases hb with hb | hb
  · exact ht b hb
  · exact hu b hb

theorem allAscii_digits (width n : Nat) : AllAscii (digits width n) := by
  intro b hb
  obtain ⟨i, -, rfl⟩ := List.mem_map.mp hb
  rw [UInt8.lt_iff_toNat_lt]
  show (48 + n / 10 ^ i % 10) % 256 < 128
  omega

/-- The time stamp of the catalog is ASCII. -/
theorem utf8Valid_isoUtcNow (now : Int) : utf8Valid (isoUtcNow now) = true := by
  have hdash : AllAscii (ascii "-") := by unfold AllAscii; decide +kernel
  have hcolon : AllAscii (ascii ":") := by unfold AllAscii; decide +kernel
  have ht : AllAscii (ascii "T") := by unfold AllAscii; decide +kernel
  have hz : AllAscii (ascii "Z") := by unfold AllAscii; decide +kernel
  have hd : ∀ width n, AllAscii (digits width n) := allAscii_digits
  have hall : AllAscii (isoUtcNow now) :=
    ((((((((((((hd _ _).append hdash).append (hd _ _)).append hdash).append (hd _ _)).append
      ht).append (hd _ _)).append hcolon).append (hd _ _)).append hcolon).append (hd _ _)).append
      hz)
  exact utf8Valid_of_ascii hall

/-! ### Members -/

variable {jsonLoads : Text → Option JsonTree} {libraryRoot : Option Text} {sha : Sha}
  {row : TrackColumns} {o : Members} {key : Text}

theorem isSome_string {t : Text} (h : o.lookup key = jsonString t) :
    (required asString o key).isSome ↔ utf8Valid t = true := by
  unfold required jsonString at *
  rw [h]
  split
  · next hv => simp [asString, hv]
  · next hv => simp [hv]

theorem isSome_stringOrNull {t : Option Text} (h : o.lookup key = t.elim (some .null) jsonString) :
    (stringOrNull o key).isSome := by
  unfold stringOrNull withDefault
  rw [h]
  cases t with
  | none => rfl
  | some t =>
    unfold Option.elim jsonString
    by_cases hv : utf8Valid t = true
    · simp [hv, nullable, asString]
    · simp [hv]

theorem isSome_format {t : Option Text} (h : o.lookup key = t.elim (some .null) jsonString) :
    (required asString o key).isSome ↔ ∃ f, t = some f ∧ utf8Valid f = true := by
  cases t with
  | none =>
    unfold required
    rw [h]
    simp [asString]
  | some t =>
    rw [isSome_string h]
    simp

/-- The strings of an array do not change when it is printed. -/
theorem isSome_asList_sortKeys (es : List JsonTree) :
    (asList asString (sortKeys (.array es))).isSome ↔ ∀ e ∈ es, ∃ x, e = .string x := by
  have hstr : ∀ e : JsonTree, (asString (sortKeys e)).isSome ↔ ∃ x, e = .string x := by
    intro e
    cases e <;> simp [asString, sortKeys]
  rw [sortKeys, sortElements_eq, asList, isSome_mapM, List.forall_mem_map]
  simp only [hstr]

theorem isSome_strings {s : Option Text}
    (h : o.lookup key = some (sortKeys (asJsonArray jsonLoads s))) :
    (strings o key).isSome ↔ HoldsStrings jsonLoads s := by
  unfold strings withDefault HoldsStrings
  rw [h]
  dsimp only
  unfold asJsonArray
  split
  · simp [isSome_asList_sortKeys]
  · constructor
    · intro _ text elements ht hp
      cases ht
      cases hp
    · exact fun _ ↦ rfl
  · next text hne =>
    cases hp : tryParseJsonStrArray jsonLoads text with
    | some elements =>
      rw [isSome_asList_sortKeys]
      constructor
      · intro hall text' elements' ht hp'
        cases ht
        rw [hp] at hp'
        cases hp'
        exact hall
      · exact fun hall ↦ hall text elements rfl hp
    | none =>
      rw [isSome_asList_sortKeys]
      constructor
      · intro _ text' elements' ht hp'
        cases ht
        rw [hp] at hp'
        cases hp'
      · intro _ e he
        unfold jsonString at he
        split at he
        · exact ⟨text, by simpa using he⟩
        · cases he

theorem isSome_intOrNull {s : Option Text} (h : o.lookup key = some (asJsonTrackInt s)) :
    (intOrNull o key).isSome ↔ FitsInt s := by
  unfold intOrNull withDefault FitsInt
  rw [h]
  unfold asJsonTrackInt
  cases s.bind strtol with
  | none => simp [nullable]
  | some n =>
    simp [nullable, asInteger]

theorem asInteger_int64 (n : Int64) : asInteger 64 (.integer n.toInt) = some n.toInt :=
  if_pos ⟨n.le_toInt, n.toInt_lt⟩

theorem isSome_durationMs {d : Option Int64}
    (h : o.lookup key = some (d.elim .null fun d ↦ .integer d.toInt)) :
    (withDefault (nullable (asInteger 64)) none o key).isSome := by
  unfold withDefault
  rw [h]
  cases d with
  | none => rfl
  | some d =>
    show ((asInteger 64 (.integer d.toInt)).map some).isSome
    rw [asInteger_int64]
    rfl

theorem isSome_long {n : Int64} (h : o.lookup key = some (.integer n.toInt)) :
    (required (asInteger 64) o key).isSome := by
  unfold required
  rw [h]
  show (asInteger 64 (.integer n.toInt)).isSome
  rw [asInteger_int64]
  rfl

/-! ### Rows -/

/-- A row decodes when all its members do. -/
theorem isSome_decodeTrack : (decodeTrack (.object o)).isSome ↔
    (required asString o (ascii "id")).isSome ∧
    (required asString o (ascii "path")).isSome ∧
    (stringOrNull o (ascii "title")).isSome ∧
    (strings o (ascii "artist")).isSome ∧
    (stringOrNull o (ascii "album")).isSome ∧
    (strings o (ascii "album_artist")).isSome ∧
    (intOrNull o (ascii "track")).isSome ∧
    (intOrNull o (ascii "disc")).isSome ∧
    (intOrNull o (ascii "year")).isSome ∧
    (strings o (ascii "genre")).isSome ∧
    (withDefault (nullable (asInteger 64)) none o (ascii "duration_ms")).isSome ∧
    (required (asInteger 64) o (ascii "size_bytes")).isSome ∧
    (required asString o (ascii "format")).isSome ∧
    (required (asInteger 64) o (ascii "mtime_ns")).isSome ∧
    (required asString o (ascii "date_added")).isSome := by
  unfold decodeTrack
  iterate 14
    apply isSome_bind
    intro _
  apply isSome_bind_last

/-- A decoded row has the id of the object. -/
theorem id_of_decodeTrack {t : CatalogTrackJson} (h : decodeTrack (.object o) = some t) :
    required asString o (ascii "id") = some t.id := by
  unfold decodeTrack at h
  obtain ⟨id, hid, h⟩ := Option.bind_eq_some_iff.mp h
  iterate 14 obtain ⟨_, -, h⟩ := Option.bind_eq_some_iff.mp h
  cases h
  exact hid

/-- The keys of a track are set once each. -/
theorem nodup_trackMembers :
    ((trackMembers jsonLoads libraryRoot sha row).map Prod.fst).Nodup := by
  show List.Nodup [ascii "id", ascii "path", ascii "title", ascii "artist", ascii "album",
    ascii "album_artist", ascii "track", ascii "disc", ascii "year", ascii "genre",
    ascii "duration_ms", ascii "size_bytes", ascii "format", ascii "mtime_ns", ascii "date_added"]
  decide

/-- The object of a row as it is printed. -/
def trackObject (jsonLoads : Text → Option JsonTree) (libraryRoot : Option Text) (sha : Sha)
    (row : TrackColumns) : Members := inOrder (build (trackMembers jsonLoads libraryRoot sha row))

/-- A row's member is found as it is printed, by its place. -/
theorem lookup_trackObject {v : Option JsonTree} (i : Nat)
    (h : (trackMembers jsonLoads libraryRoot sha row)[i]? = some (key, v)) :
    (trackObject jsonLoads libraryRoot sha row).lookup key = v.map sortKeys := by
  unfold trackObject
  rw [lookup_inOrder (nodup_build _), lookup_build nodup_trackMembers (List.mem_of_getElem? h)]

/-- A text is printed as it is. -/
theorem sorted_jsonString (t : Text) : (jsonString t).map sortKeys = jsonString t := by
  unfold jsonString
  split <;> rfl

theorem sorted_text (t : Option Text) :
    (t.elim (some .null) jsonString).map sortKeys = t.elim (some .null) jsonString := by
  cases t with
  | none => rfl
  | some t => exact sorted_jsonString t

theorem sorted_asJsonTrackInt (s : Option Text) :
    (some (asJsonTrackInt s)).map sortKeys = some (asJsonTrackInt s) := by
  unfold asJsonTrackInt
  cases s.bind strtol <;> rfl

theorem sorted_duration (d : Option Int64) :
    (some (d.elim .null fun d ↦ .integer d.toInt)).map sortKeys =
      some (d.elim .null fun d ↦ .integer d.toInt) := by
  cases d <;> rfl

/-- The phone decodes the object of a row exactly when it can read the row. -/
theorem isSome_trackObject :
    (decodeTrack (.object (trackObject jsonLoads libraryRoot sha row))).isSome ↔
      Readable jsonLoads libraryRoot sha row := by
  have hmem {key : Text} {v : Option JsonTree} (i : Nat)
      (h : (trackMembers jsonLoads libraryRoot sha row)[i]? = some (key, v)) :=
    lookup_trackObject i h
  have hid := isSome_string ((hmem 0 rfl).trans (sorted_jsonString _))
  have hpath := isSome_string ((hmem 1 rfl).trans (sorted_jsonString _))
  have htitle := isSome_stringOrNull ((hmem 2 rfl).trans (sorted_text _))
  have hartist := isSome_strings (hmem 3 rfl)
  have halbum := isSome_stringOrNull ((hmem 4 rfl).trans (sorted_text _))
  have halbumArtist := isSome_strings (hmem 5 rfl)
  have htrack := isSome_intOrNull ((hmem 6 rfl).trans (sorted_asJsonTrackInt _))
  have hdisc := isSome_intOrNull ((hmem 7 rfl).trans (sorted_asJsonTrackInt _))
  have hyear := isSome_intOrNull ((hmem 8 rfl).trans (sorted_asJsonTrackInt _))
  have hgenre := isSome_strings (hmem 9 rfl)
  have hduration := isSome_durationMs ((hmem 10 rfl).trans (sorted_duration _))
  have hsize := isSome_long (hmem 11 rfl)
  have hformat := isSome_format ((hmem 12 rfl).trans (sorted_text _))
  have hmtime := isSome_long (hmem 13 rfl)
  have hdate := isSome_string ((hmem 14 rfl).trans (sorted_jsonString _))
  rw [isSome_decodeTrack, hid, hpath, hartist, halbumArtist, htrack, hdisc, hyear, hgenre,
    hformat, hdate]
  simp only [htitle, halbum, hduration, hsize, hmtime, true_and]
  constructor
  · intro h
    obtain ⟨hi, hp, har, haa, ht, hd, hy, hg, hf, hda⟩ := h
    obtain ⟨f, hf, hvalid⟩ := hf
    obtain ⟨f, hrow, rfl⟩ := Option.map_eq_some_iff.mp hf
    exact ⟨hi, hp, ⟨f, hrow, hvalid⟩, hda, har, haa, hg, ht, hd, hy⟩
  · intro h
    obtain ⟨f, hrow, hvalid⟩ := h.format
    have hf : ∃ f, row.format.map columnText = some f ∧ utf8Valid f = true :=
      ⟨columnText f, by rw [hrow]; rfl, hvalid⟩
    exact ⟨h.id, h.path, h.artist, h.albumArtist, h.track, h.disc, h.year, h.genre, hf,
      h.dateAdded⟩

/-- A decoded row has the hash as its id. -/
theorem id_of_trackObject {t : CatalogTrackJson}
    (h : decodeTrack (.object (trackObject jsonLoads libraryRoot sha row)) = some t) :
    t.id = columnText sha := by
  have hid := id_of_decodeTrack h
  have hlook := (@lookup_trackObject jsonLoads libraryRoot sha row _ _ 0 rfl).trans
    (sorted_jsonString _)
  unfold required at hid
  rw [hlook] at hid
  unfold jsonString at hid
  split at hid
  · exact (Option.some.inj hid).symm
  · cases hid

/-! ### The catalog -/

/-- The objects of the rows. -/
def trackObjects (jsonLoads : Text → Option JsonTree) (t : CatalogTables) : List JsonTree :=
  t.select.map fun r ↦ .object (trackObject jsonLoads (loadLibraryRoot t) r.1 r.2)

variable {now : Int} {t : CatalogTables} {k : KotlinText} {residentIds : List Text}

/-- The members of the catalog as they are printed. -/
theorem catalogEmit_members : ∃ o, catalogEmit jsonLoads now t = .object o ∧
    o.lookup (ascii "v") = some (.integer 1) ∧
    o.lookup (ascii "generated_at") = some (.string (isoUtcNow now)) ∧
    o.lookup (ascii "tracks") = some (.array (trackObjects jsonLoads t)) := by
  let members : List (Text × Option JsonTree) :=
    [(ascii "v", some (.integer 1)), (ascii "generated_at", jsonString (isoUtcNow now)),
      (ascii "tracks", some (.array (t.select.map fun r ↦
        .object (build (trackMembers jsonLoads (loadLibraryRoot t) r.1 r.2)))))]
  have hnodup : (members.map Prod.fst).Nodup := by
    show List.Nodup [ascii "v", ascii "generated_at", ascii "tracks"]
    decide
  have hprinted : ∀ key v, (key, v) ∈ members →
      (inOrder (build members)).lookup key = v.map sortKeys := by
    intro key v hm
    rw [lookup_inOrder (nodup_build _), lookup_build hnodup hm]
  have hstamp : jsonString (isoUtcNow now) = some (.string (isoUtcNow now)) :=
    if_pos (utf8Valid_isoUtcNow now)
  refine ⟨inOrder (build members), rfl, hprinted _ _ (.head _), ?_, ?_⟩
  · rw [hprinted _ _ (.tail _ (.head _)), hstamp]
    rfl
  · rw [hprinted _ _ (.tail _ (.tail _ (.head _))), Option.map_some, sortKeys, sortElements_eq,
      List.map_map]
    rfl

/-- The catalog decodes as its rows do. -/
theorem decodeCatalog_emit : decodeCatalog (catalogEmit jsonLoads now t) =
    ((trackObjects jsonLoads t).mapM decodeTrack).map fun tracks ↦ ⟨1, isoUtcNow now, tracks⟩ := by
  obtain ⟨o, hemit, hv, hgen, htracks⟩ := @catalogEmit_members jsonLoads now t
  have hone : asInteger 32 (.integer 1) = some 1 := rfl
  rw [hemit]
  simp only [decodeCatalog, required, hv, hgen, htracks, Option.bind_some, hone, asString, asList,
    Option.bind_eq_bind, Option.pure_def]
  cases (trackObjects jsonLoads t).mapM decodeTrack <;> rfl

theorem mem_select {r : Sha × TrackColumns} : r ∈ t.select ↔
    ∃ row, t.tracks.get? r.1 = some row ∧ r.2 = row.shown (t.residencyState.get? r.1) := by
  unfold CatalogTables.select
  rw [List.mem_mergeSort, List.mem_map]
  constructor
  · intro h
    obtain ⟨⟨sha, row⟩, hr, rfl⟩ := h
    exact ⟨row, Table.mem_rows.mp hr, rfl⟩
  · intro h
    obtain ⟨row, hr, he⟩ := h
    exact ⟨(r.1, row), Table.mem_rows.mpr hr, Prod.ext rfl he.symm⟩

/-- All rows decode exactly when the phone can read each of them. -/
theorem isSome_trackObjects : ((trackObjects jsonLoads t).mapM decodeTrack).isSome ↔
    ∀ sha row, t.tracks.get? sha = some row →
      Readable jsonLoads (loadLibraryRoot t) sha (row.shown (t.residencyState.get? sha)) := by
  unfold trackObjects
  rw [isSome_mapM, List.forall_mem_map]
  constructor
  · intro h sha row hrow
    exact isSome_trackObject.mp (h (sha, _) (mem_select.mpr ⟨row, hrow, rfl⟩))
  · intro h r hr
    obtain ⟨row, hrow, he⟩ := mem_select.mp hr
    rw [isSome_trackObject, he]
    exact h r.1 row hrow

/-- The ids of the decoded rows are the hashes. -/
theorem ids_trackObjects {ts : List CatalogTrackJson}
    (h : (trackObjects jsonLoads t).mapM decodeTrack = some ts) :
    ts.map CatalogTrackJson.id = t.select.map fun r ↦ columnText r.1 := by
  unfold trackObjects at h
  rw [mapM_eq_some, List.forall₂_map_left_iff] at h
  generalize t.select = rows at h ⊢
  induction h with
  | nil => rfl
  | cons hd _ ih => rw [List.map_cons, List.map_cons, ih, id_of_trackObject hd]

/-- What the import of the catalog makes of the decoded rows. -/
theorem importAll_emit : importAll k residentIds (catalogEmit jsonLoads now t) =
    ((trackObjects jsonLoads t).mapM decodeTrack).map fun ts ↦
      insertAll .empty (ts.map (trackEntity k residentIds)) := by
  unfold importAll
  rw [decodeCatalog_emit]
  cases (trackObjects jsonLoads t).mapM decodeTrack with
  | none => rfl
  | some ts =>
    show some (insertTracks k residentIds ts [] .empty) = _
    rw [insertTracks_eq]
    rfl

/-- The ids in the imported table. -/
theorem mem_ids_insertAll {batch : List TrackEntity} {id : Text} :
    id ∈ ((insertAll .empty batch).rows.map fun r ↦ r.2.id) ↔ id ∈ batch.map TrackEntity.id := by
  have hsome := @isSome_insertAll .empty batch id
  rw [Table.get?_empty, Option.isSome_none] at hsome
  simp only [Bool.false_eq_true, false_or] at hsome
  rw [← hsome, Option.isSome_iff_exists, List.mem_map]
  constructor
  · intro h
    obtain ⟨⟨id', e⟩, hr, rfl⟩ := h
    have hget := Table.mem_rows.mp hr
    exact ⟨e, by rw [id_insertAll hget]; exact hget⟩
  · intro h
    obtain ⟨e, he⟩ := h
    exact ⟨(id, e), Table.mem_rows.mpr he, id_insertAll he⟩

theorem nodup_ids_insertAll {batch : List TrackEntity} :
    ((insertAll .empty batch).rows.map fun r ↦ r.2.id).Nodup := by
  have hkeys : ((insertAll .empty batch).rows.map fun r ↦ r.2.id) =
      (insertAll .empty batch).rows.map Prod.fst := by
    apply List.map_congr_left
    intro r hr
    exact id_insertAll (Table.mem_rows.mp hr)
  rw [hkeys]
  exact Table.nodup_keys _

theorem mem_ids {ts : List CatalogTrackJson}
    (hts : (trackObjects jsonLoads t).mapM decodeTrack = some ts) :
    sha ∈ (ts.map (trackEntity k residentIds)).map TrackEntity.id ↔
      ∃ r ∈ t.select, columnText r.1 = sha := by
  rw [List.map_map]
  show sha ∈ ts.map CatalogTrackJson.id ↔ _
  rw [ids_trackObjects hts, List.mem_map]

theorem mem_hashes : sha ∈ t.tracks.rows.map Prod.fst ↔ ∃ row, t.tracks.get? sha = some row := by
  rw [List.mem_map]
  constructor
  · intro h
    obtain ⟨r, hr, rfl⟩ := h
    exact ⟨r.2, Table.mem_rows.mp hr⟩
  · intro h
    obtain ⟨row, hrow⟩ := h
    exact ⟨(sha, row), Table.mem_rows.mpr hrow, rfl⟩

/-- What an import with all the rows says about them. -/
theorem readable_of_agrees (h : CatalogAgrees k residentIds t (catalogEmit jsonLoads now t))
    (hrow : t.tracks.get? sha = some row) : 0 ∉ sha ∧
      Readable jsonLoads (loadLibraryRoot t) sha (row.shown (t.residencyState.get? sha)) := by
  obtain ⟨table, htable, hperm⟩ := h
  rw [importAll_emit] at htable
  obtain ⟨ts, hts, rfl⟩ := Option.map_eq_some_iff.mp htable
  have hread := isSome_trackObjects.mp (Option.isSome_iff_exists.mpr ⟨ts, hts⟩)
  have hsha := hperm.mem_iff.mpr (mem_hashes.mpr ⟨row, hrow⟩)
  rw [mem_ids_insertAll, mem_ids hts] at hsha
  obtain ⟨r, -, rfl⟩ := hsha
  exact ⟨zero_notMem_columnText _, hread _ row hrow⟩

/-- Rows that the phone can read are imported, one each. -/
theorem agrees_of_readable (h : ∀ sha row, t.tracks.get? sha = some row → 0 ∉ sha ∧
      Readable jsonLoads (loadLibraryRoot t) sha (row.shown (t.residencyState.get? sha))) :
    CatalogAgrees k residentIds t (catalogEmit jsonLoads now t) := by
  obtain ⟨ts, hts⟩ := Option.isSome_iff_exists.mp
    (isSome_trackObjects.mpr fun sha row hrow ↦ (h sha row hrow).2)
  refine ⟨insertAll .empty (ts.map (trackEntity k residentIds)), ?_, ?_⟩
  · rw [importAll_emit, hts]
    rfl
  apply (List.perm_ext_iff_of_nodup nodup_ids_insertAll (Table.nodup_keys _)).mpr
  intro sha
  rw [mem_ids_insertAll, mem_ids hts, mem_hashes]
  constructor
  · intro hr
    obtain ⟨r, hr, rfl⟩ := hr
    obtain ⟨row, hrow, -⟩ := mem_select.mp hr
    rw [columnText_of_notMem (h r.1 row hrow).1]
    exact ⟨row, hrow⟩
  · intro hrow
    obtain ⟨row, hrow⟩ := hrow
    exact ⟨(sha, row.shown (t.residencyState.get? sha)), mem_select.mpr ⟨row, hrow, rfl⟩,
      columnText_of_notMem (h sha row hrow).1⟩

/-- For every content of the tables, the phone imports the catalog with exactly one row for each
track, under the hash of the track, if and only if it can read every row and no hash has a NUL. -/
theorem catalog_agrees_iff (jsonLoads : Text → Option JsonTree) (now : Int) (t : CatalogTables)
    (k : KotlinText) (residentIds : List Text) :
    CatalogAgrees k residentIds t (catalogEmit jsonLoads now t) ↔
      ∀ sha row, t.tracks.get? sha = some row → 0 ∉ sha ∧
        Readable jsonLoads (loadLibraryRoot t) sha (row.shown (t.residencyState.get? sha)) :=
  ⟨fun h _ _ hrow ↦ readable_of_agrees h hrow, agrees_of_readable⟩

/-- One track under the library root, in a file whose name is not UTF-8. -/
def latin1Library : CatalogTables where
  tracks := Table.empty.put (ascii "5f") {
    path := ascii "/music/archive/Caf" ++ [0xE9] ++ ascii ".flac"
    mtimeNs := 0
    sizeBytes := 4096
    format := some (ascii "flac")
    title := none
    artist := some (ascii "A")
    album := none
    albumArtist := none
    trackNumber := some (ascii "5/12")
    discNumber := none
    year := none
    genre := none
    durationMs := some 180000
    dateAdded := ascii "2026-01-01T00:00:00Z" }
  residencyState := .empty
  scanMeta := [(ascii "/music", ascii "2026-01-01T00:00:00Z")]

/-- A file name in Latin-1 keeps the phone from importing the catalog: the member `path` is not
set, and the decoder wants it. -/
theorem latin1_path_undecodable :
    ¬ CatalogAgrees ⟨List.isEmpty, id, id, id, id⟩ [] latin1Library
      (catalogEmit (fun _ ↦ none) 0 latin1Library) := by
  intro h
  have hread := (readable_of_agrees h (Table.get?_put_self _ _ _)).2.path
  have hroot : loadLibraryRoot latin1Library = some (ascii "/music") := by
    simp only [loadLibraryRoot, latin1Library, List.mergeSort_singleton]
    decide
  rw [hroot] at hread
  exact absurd hread (by decide +kernel)

/-! ### The database -/

/-- The rows of the database are read by the phone when their columns are. -/
theorem Db.catalogTables_agree (db : Db) :
    CatalogAgrees k residentIds db.catalogTables (catalogEmit jsonLoads now db.catalogTables) ↔
      ∀ sha row, db.tracks.get? sha = some row → 0 ∉ sha ∧
        Readable jsonLoads (loadLibraryRoot db.catalogTables) sha
          (row.columns.shown ((db.residencyState.get? sha).map ResidencyRow.columns)) := by
  have htracks : ∀ sha, db.catalogTables.tracks.get? sha =
      (db.tracks.get? sha).map TrackRow.columns := fun sha ↦ Table.get?_mapRows _ _ _
  have hresidency : ∀ sha, db.catalogTables.residencyState.get? sha =
      (db.residencyState.get? sha).map ResidencyRow.columns := fun sha ↦ Table.get?_mapRows _ _ _
  constructor
  · intro h sha row hrow
    have hget : db.catalogTables.tracks.get? sha = some row.columns := by rw [htracks, hrow]; rfl
    rw [← hresidency]
    exact readable_of_agrees h hget
  · intro h
    apply agrees_of_readable
    intro sha cols hget
    rw [htracks] at hget
    obtain ⟨row, hrow, rfl⟩ := Option.map_eq_some_iff.mp hget
    rw [hresidency]
    exact h sha row hrow

end Nocturne
