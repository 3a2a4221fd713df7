import Nocturne.Base

/-!
# The database

The tables of `schema/0001`–`0009` that the commands read or write, and their statements as
functions of the database. A statement that a constraint refuses gives `none`.
Deleting `tracks` rows takes the dependent rows along, by `ON DELETE CASCADE` and by the
trigger of `schema/0008_orphan_cleanup.sql`.
-/

namespace Nocturne

open Lib

/-- A row of `tracks` without its key, `schema/0001_init.sql:7–26`. -/
structure TrackRow where
  path : Path
  mtimeNs : Int
  sizeBytes : Int
  format : Option Text
  title : Option Text
  artist : Option Text
  album : Option Text
  albumArtist : Option Text
  trackNumber : Option Text
  discNumber : Option Text
  year : Option Text
  genre : Option Text
  durationMs : Option Int
  tagsStatus : Text
  tagWarning : Option Text
  dateAdded : Text
  lastSeenAt : Text
  deriving DecidableEq, Repr

/-- A row of `plays`, `schema/0002_resolver.sql` and `0004_ingest.sql`. The rowid is the
position in the table. -/
structure PlayRow where
  sha256 : Sha
  playedAt : Text
  playedMs : Int
  isSkip : Bool
  src : Text
  ts : Int
  eventKind : Text
  sourcePath : Path
  deriving DecidableEq, Repr

/-- What a like or a pin is about: the column `unit`. -/
inductive ItemUnit where
  | track
  | album
  deriving DecidableEq, Repr

/-- A row of `likes`. -/
structure LikeRow where
  liked : Bool
  ts : Int
  deriving DecidableEq, Repr

/-- A row of `pins`. -/
structure PinRow where
  pinned : Bool
  ts : Int
  updatedAt : Text
  deriving DecidableEq, Repr

/-- A row of `manifest_current`. -/
structure ManifestRow where
  bucketsCsv : Text
  sizeBytes : Int
  deriving DecidableEq, Repr

/-- `residency_state.location`, with its `CHECK`. -/
inductive Location where
  | resident
  | archive
  deriving DecidableEq, Repr

/-- A row of `residency_state`, `schema/0003_residency.sql` and `0005_transcode.sql`. -/
structure ResidencyRow where
  location : Location
  updatedAt : Text
  transcodePath : Option Path
  transcodeSizeBytes : Option Int
  transcodeFormat : Option Text
  deriving DecidableEq, Repr

/-- A row of `ingest_offsets`. -/
structure OffsetRow where
  offset : Nat
  lastEventTs : Int
  updatedAt : Int
  deriving DecidableEq, Repr

/-- A row of `weekly_discovery_picks`. -/
structure WeeklyPick where
  reason : Text
  pickedAt : Text
  deriving DecidableEq, Repr

/-- A row of `unsync_overrides`. -/
structure UnsyncRow where
  «until» : Option Text
  addedAt : Text
  deriving DecidableEq, Repr

/-- A row of `track_blacklist`. -/
structure BlacklistRow where
  reason : Text
  addedAt : Text
  deriving DecidableEq, Repr

/-- A row of `scan_meta`. -/
structure ScanMetaRow where
  lastScanAt : Text
  filesSeen : Nat
  filesAdded : Nat
  filesUpdated : Nat
  filesRemoved : Nat
  deriving DecidableEq, Repr

/-- The database. No two rows of `tracks` have one `path`. -/
structure Db where
  tracks : UniqueTable Sha TrackRow Path TrackRow.path
  plays : List PlayRow
  likes : Table (ItemUnit × Text) LikeRow
  pins : Table (ItemUnit × Text) PinRow
  manifestCurrent : Table Sha ManifestRow
  manifestMeta : Table Text Text
  residencyState : Table Sha ResidencyRow
  ingestOffsets : Table Path OffsetRow
  weeklyDiscoveryPicks : Table (Sha × Text) WeeklyPick
  unsyncOverrides : Table Sha UnsyncRow
  trackBlacklist : Table Sha BlacklistRow
  scanMeta : Table Path ScanMetaRow

namespace Db

/-- The database after the migrations, without a row. -/
def empty : Db where
  tracks := .empty
  plays := []
  likes := .empty
  pins := .empty
  manifestCurrent := .empty
  manifestMeta := .empty
  residencyState := .empty
  ingestOffsets := .empty
  weeklyDiscoveryPicks := .empty
  unsyncOverrides := .empty
  trackBlacklist := .empty
  scanMeta := .empty

/-! ### `tracks` -/

/-- `SELECT sha256, mtime_ns, size_bytes FROM tracks WHERE path=?`, `track_repo.c:105–106`. -/
def lookupByPath (db : Db) (path : Path) : Option (Sha × Int × Int) :=
  (db.tracks.find? path).map fun r ↦ (r.1, r.2.mtimeNs, r.2.sizeBytes)

/-- `INSERT INTO tracks`, `track_repo.c:86–90`. -/
def insertTrack (db : Db) (sha : Sha) (row : TrackRow) : Option Db :=
  (db.tracks.insert? sha row).map fun t ↦ { db with tracks := t }

/-- `UPDATE tracks SET … WHERE sha256=?`, `track_repo.c:92–97`: `date_added` stays, and no
matching row is an error to the caller. -/
def updateTrack (db : Db) (sha : Sha) (row : TrackRow) : Option Db :=
  match db.tracks.get? sha with
  | none => none
  | some old =>
    (db.tracks.replace? sha { row with dateAdded := old.dateAdded }).map fun t ↦
      { db with tracks := t }

/-- `UPDATE tracks SET path=?, last_seen_at=? WHERE sha256=?`, `track_repo.c:99–100`. -/
def updateTrackPath (db : Db) (sha : Sha) (path : Path) (iso : Text) : Option Db :=
  match db.tracks.get? sha with
  | none => some db
  | some old =>
    (db.tracks.replace? sha { old with path := path, lastSeenAt := iso }).map fun t ↦
      { db with tracks := t }

/-- `UPDATE tracks SET last_seen_at=? WHERE sha256=?`, `track_repo.c:102–103`. -/
def markSeen (db : Db) (sha : Sha) (iso : Text) : Option Db :=
  match db.tracks.get? sha with
  | none => some db
  | some old =>
    (db.tracks.replace? sha { old with lastSeenAt := iso }).map fun t ↦
      { db with tracks := t }

/-- The row `sha` exists and satisfies `p`. -/
def trackSatisfies (db : Db) (p : Sha → TrackRow → Bool) (sha : Sha) : Bool :=
  match db.tracks.get? sha with
  | some row => p sha row
  | none => false

/-- `DELETE FROM tracks WHERE p`: the foreign keys of `plays`, `manifest_current`,
`residency_state` and `weekly_discovery_picks` cascade, and the trigger clears the track's
pins, likes and unsync override. -/
def deleteTracks (db : Db) (p : Sha → TrackRow → Bool) : Db :=
  let gone := db.trackSatisfies p
  { db with
    tracks := db.tracks.keep fun sha row ↦ !p sha row
    plays := db.plays.filter fun r ↦ !gone r.sha256
    manifestCurrent := db.manifestCurrent.keep fun sha _ ↦ !gone sha
    residencyState := db.residencyState.keep fun sha _ ↦ !gone sha
    weeklyDiscoveryPicks := db.weeklyDiscoveryPicks.keep fun k _ ↦ !gone k.1
    pins := db.pins.keep fun k _ ↦ !(k.1 == .track && gone k.2)
    likes := db.likes.keep fun k _ ↦ !(k.1 == .track && gone k.2)
    unsyncOverrides := db.unsyncOverrides.keep fun sha _ ↦ !gone sha }

/-- `DELETE FROM tracks WHERE sha256=?`. -/
def deleteTrack (db : Db) (sha : Sha) : Db := db.deleteTracks fun s _ ↦ s == sha

/-- The rows that the unseen-sweep selects, `track_repo.c:126–127`. -/
def isUnseen (root : Path) (cutoff : Text) (row : TrackRow) : Bool :=
  isUnder root row.path && decide (row.lastSeenAt < cutoff)

/-- `DELETE FROM tracks WHERE substr(path, 1, length(?1)) = ?1 AND last_seen_at < ?2`. -/
def deleteUnseen (db : Db) (root : Path) (cutoff : Text) : Db :=
  db.deleteTracks fun _ row ↦ isUnseen root cutoff row

/-- The keys of the unseen rows. -/
def unseenShas (db : Db) (root : Path) (cutoff : Text) : List Sha :=
  (db.tracks.table.rows.filter fun r ↦ isUnseen root cutoff r.2).map Prod.fst

/-- `INSERT INTO scan_meta … ON CONFLICT DO UPDATE`, `scan.c:421–429`. -/
def putScanMeta (db : Db) (root : Path) (row : ScanMetaRow) : Option Db :=
  some { db with scanMeta := db.scanMeta.put root row }

/-! ### `residency_state` and `manifest_current` -/

/-- `SELECT transcode_path FROM residency_state WHERE sha256=?`. -/
def transcodePath (db : Db) (sha : Sha) : Option Path :=
  (db.residencyState.get? sha).bind ResidencyRow.transcodePath

/-- The transcodes of some tracks, `track_repo.c:267–289`. -/
def transcodesOf (db : Db) (shas : List Sha) : List Path := shas.filterMap db.transcodePath

/-- A track is resident. -/
def isResident (db : Db) (sha : Sha) : Bool :=
  match db.residencyState.get? sha with
  | some row => row.location == .resident
  | none => false

/-- `DELETE FROM manifest_current`. -/
def deleteManifest (db : Db) : Db := { db with manifestCurrent := .empty }

/-- `INSERT INTO manifest_meta … ON CONFLICT DO UPDATE`. -/
def putManifestMeta (db : Db) (key value : Text) : Db :=
  { db with manifestMeta := db.manifestMeta.put key value }

/-! ### Events -/

/-- `SELECT offset FROM ingest_offsets WHERE path = ?`; zero without a row,
`ingest.c:194–204`. -/
def storedOffset (db : Db) (relpath : Path) : Nat :=
  match db.ingestOffsets.get? relpath with
  | some row => row.offset
  | none => 0

/-- `INSERT INTO ingest_offsets … ON CONFLICT DO UPDATE`, `ingest.c:181–187`. -/
def upsertOffset (db : Db) (relpath : Path) (offset : Nat) (lastEventTs now : Int) : Db :=
  let last :=
    match db.ingestOffsets.get? relpath with
    | some row => max row.lastEventTs lastEventTs
    | none => lastEventTs
  { db with ingestOffsets := db.ingestOffsets.put relpath ⟨offset, last, now⟩ }

/-- `INSERT INTO plays`: the foreign key wants the track. -/
def insertPlay (db : Db) (row : PlayRow) : Option Db :=
  if (db.tracks.get? row.sha256).isSome then some { db with plays := db.plays ++ [row] }
  else none

/-- `INSERT INTO likes … ON CONFLICT DO UPDATE … WHERE excluded.ts >= likes.ts`. -/
def upsertLike (db : Db) (unit : ItemUnit) (id : Text) (row : LikeRow) : Db :=
  match db.likes.get? (unit, id) with
  | some old => if old.ts ≤ row.ts then { db with likes := db.likes.put (unit, id) row } else db
  | none => { db with likes := db.likes.put (unit, id) row }

/-- `INSERT INTO pins … ON CONFLICT DO UPDATE … WHERE excluded.ts >= pins.ts`. -/
def upsertPin (db : Db) (unit : ItemUnit) (id : Text) (row : PinRow) : Db :=
  match db.pins.get? (unit, id) with
  | some old => if old.ts ≤ row.ts then { db with pins := db.pins.put (unit, id) row } else db
  | none => { db with pins := db.pins.put (unit, id) row }

/-- `SELECT 1 FROM track_blacklist WHERE sha256=?`. -/
def isBlacklisted (db : Db) (sha : Sha) : Bool := (db.trackBlacklist.get? sha).isSome

/-- `SELECT ts FROM pins WHERE unit='track' AND id=?`. -/
def pinTs (db : Db) (sha : Sha) : Option Int := (db.pins.get? (.track, sha)).map PinRow.ts

/-- `UPDATE pins SET pinned=0, updated_at=? WHERE id=? AND unit='track'`. -/
def clearPin (db : Db) (sha : Sha) (iso : Text) : Db :=
  match db.pins.get? (.track, sha) with
  | some old =>
    { db with pins := db.pins.put (.track, sha) { old with pinned := false, updatedAt := iso } }
  | none => db

/-- `INSERT INTO unsync_overrides … ON CONFLICT DO UPDATE`: `until` stays. -/
def putUnsync (db : Db) (sha : Sha) (iso : Text) : Db :=
  let row : UnsyncRow :=
    match db.unsyncOverrides.get? sha with
    | some old => { old with addedAt := iso }
    | none => ⟨none, iso⟩
  { db with unsyncOverrides := db.unsyncOverrides.put sha row }

/-- `DELETE FROM unsync_overrides WHERE sha256=?`. -/
def dropUnsync (db : Db) (sha : Sha) : Db :=
  match db.unsyncOverrides.get? sha with
  | some _ => { db with unsyncOverrides := db.unsyncOverrides.drop sha }
  | none => db

/-- `INSERT INTO track_blacklist … ON CONFLICT DO UPDATE`: the reason stays. -/
def putBlacklist (db : Db) (sha : Sha) (reason iso : Text) : Db :=
  let row : BlacklistRow :=
    match db.trackBlacklist.get? sha with
    | some old => { old with addedAt := iso }
    | none => ⟨reason, iso⟩
  { db with trackBlacklist := db.trackBlacklist.put sha row }

/-! ### Laws of the deletion -/

variable {db db' : Db} {sha : Sha} {row : TrackRow} {p : Sha → TrackRow → Bool}

/-- A row survives a deletion exactly when the condition spares it. -/
theorem get?_deleteTracks :
    (db.deleteTracks p).tracks.get? sha = (db.tracks.get? sha).filter fun row ↦ !p sha row :=
  UniqueTable.get?_keep _

/-- The rows that hang on a track. -/
structure Companions where
  pin : Option PinRow
  like : Option LikeRow
  residency : Option ResidencyRow
  unsync : Option UnsyncRow
  deriving DecidableEq, Repr

/-- The pin, like, residency row and unsync override of a track. -/
def companions (db : Db) (sha : Sha) : Companions where
  pin := db.pins.get? (.track, sha)
  like := db.likes.get? (.track, sha)
  residency := db.residencyState.get? sha
  unsync := db.unsyncOverrides.get? sha

private theorem filter_all {α : Type} (o : Option α) : o.filter (fun _ ↦ true) = o := by
  cases o <;> rfl

/-- A track that a deletion spares keeps what hangs on it. -/
theorem companions_deleteTracks (h : db.trackSatisfies p sha = false) :
    (db.deleteTracks p).companions sha = db.companions sha := by
  simp only [companions, deleteTracks, Table.get?_keep, h, Bool.and_false, Bool.not_false,
    filter_all]

/-- A deletion that selects no row changes nothing. -/
theorem deleteTracks_eq_self (h : ∀ sha row, db.tracks.get? sha = some row → p sha row = false) :
    db.deleteTracks p = db := by
  have hgone : ∀ sha, db.trackSatisfies p sha = false := by
    intro sha
    unfold trackSatisfies
    cases hg : db.tracks.get? sha with
    | none => rfl
    | some row => exact h sha row hg
  have htracks : (db.tracks.keep fun sha row ↦ !p sha row) = db.tracks :=
    UniqueTable.keep_eq_self fun sha row hg ↦ by rw [h sha row hg]; rfl
  have hplays : (db.plays.filter fun _ ↦ true) = db.plays :=
    List.filter_eq_self.mpr fun _ _ ↦ rfl
  have hkeep : ∀ {K V : Type} [DecidableEq K] (t : Table K V),
      (t.keep fun _ _ ↦ true) = t := fun t ↦ Table.keep_eq_self fun _ _ _ ↦ rfl
  simp only [deleteTracks, htracks, hgone, Bool.not_false, Bool.and_false, hplays, hkeep]

/-- Deleting one row spares the others. -/
theorem trackSatisfies_deleteTrack {sha' : Sha} (h : sha ≠ sha') :
    db.trackSatisfies (fun s _ ↦ s == sha') sha = false := by
  unfold trackSatisfies
  split
  · simpa using h
  · rfl

theorem get?_deleteTrack (sha sha' : Sha) :
    (db.deleteTrack sha').tracks.get? sha =
      if sha = sha' then none else db.tracks.get? sha := by
  rw [deleteTrack, get?_deleteTracks]
  split
  · next h => cases db.tracks.get? sha <;> simp [h]
  · next h => cases db.tracks.get? sha <;> simp [h]

/-! ### Laws of the row updates -/

theorem find?_lookupByPath {path : Path} :
    db.lookupByPath path = none ↔ db.tracks.find? path = none := by
  simp [lookupByPath]

theorem insertTrack_eq_some (h : db.insertTrack sha row = some db') :
    ∃ t, db.tracks.insert? sha row = some t ∧ db' = { db with tracks := t } := by
  obtain ⟨t, ht, rfl⟩ := Option.map_eq_some_iff.mp h
  exact ⟨t, ht, rfl⟩

/-- An insertion goes through when the hash is new and the path is free. -/
theorem insertTrack_isSome :
    (db.insertTrack sha row).isSome ↔
      db.tracks.get? sha = none ∧ db.tracks.find? row.path = none := by
  rw [insertTrack, Option.isSome_map, UniqueTable.insert?_isSome]

/-- Only a row of its own path, or none, may stand in the way of an update. -/
theorem updateTrack_isSome :
    (db.updateTrack sha row).isSome ↔ db.tracks.get? sha ≠ none ∧
      ∀ s r, db.tracks.get? s = some r → r.path = row.path → s = sha := by
  unfold updateTrack
  cases h : db.tracks.get? sha with
  | none => simp
  | some old =>
    simp only [Option.isSome_map, UniqueTable.replace?_isSome, h]
    simp

theorem get?_updateTrack (h : db.updateTrack sha row = some db') (sha' : Sha) :
    ∃ old, db.tracks.get? sha = some old ∧ db'.tracks.get? sha' =
      if sha' = sha then some { row with dateAdded := old.dateAdded }
      else db.tracks.get? sha' := by
  unfold updateTrack at h
  cases hg : db.tracks.get? sha with
  | none =>
    rw [hg] at h
    cases h
  | some old =>
    rw [hg] at h
    obtain ⟨t, ht, rfl⟩ := Option.map_eq_some_iff.mp h
    exact ⟨old, rfl, UniqueTable.get?_replace? ht (by rw [hg]; simp)⟩

theorem companions_updateTrack (h : db.updateTrack sha row = some db') (sha' : Sha) :
    db'.companions sha' = db.companions sha' := by
  unfold updateTrack at h
  split at h
  · cases h
  · obtain ⟨t, -, rfl⟩ := Option.map_eq_some_iff.mp h
    rfl

theorem get?_insertTrack (h : db.insertTrack sha row = some db') (sha' : Sha) :
    db'.tracks.get? sha' = if sha' = sha then some row else db.tracks.get? sha' := by
  obtain ⟨t, ht, rfl⟩ := insertTrack_eq_some h
  exact UniqueTable.get?_insert? ht

theorem companions_insertTrack (h : db.insertTrack sha row = some db') (sha' : Sha) :
    db'.companions sha' = db.companions sha' := by
  obtain ⟨t, -, rfl⟩ := insertTrack_eq_some h
  rfl

/-- Marking a row as seen goes through and changes `last_seen_at` of that row only. -/
theorem markSeen_ok (db : Db) (sha : Sha) (iso : Text) :
    ∃ db', db.markSeen sha iso = some db' ∧ (∀ s, db'.companions s = db.companions s) ∧
      db'.trackBlacklist = db.trackBlacklist ∧
      ∀ s, db'.tracks.get? s = if s = sha then
        (db.tracks.get? sha).map fun r ↦ { r with lastSeenAt := iso } else db.tracks.get? s := by
  unfold markSeen
  cases hg : db.tracks.get? sha with
  | none =>
    refine ⟨db, rfl, fun _ ↦ rfl, rfl, fun s ↦ ?_⟩
    split
    · next h => rw [h, hg]; rfl
    · rfl
  | some old =>
    obtain ⟨t, ht⟩ :=
      UniqueTable.replace?_same (v := { old with lastSeenAt := iso }) hg rfl
    refine ⟨{ db with tracks := t }, by simp [ht], fun _ ↦ rfl, rfl, fun s ↦ ?_⟩
    exact UniqueTable.get?_replace? ht (by rw [hg]; simp)

end Db

end Nocturne
