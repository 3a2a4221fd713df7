import Nocturne.Rotate.Files

/-!
# One track of a rotation

`move_one` for a library of originals, and `promote_transcode`, `demote_transcode` and
`relocate_transcodes` for a resident tree of transcodes. The loudness columns are left out, and
the encoder opens its output before it writes, so that a process that dies on the way leaves a
truncated file.
-/

namespace Nocturne

open Lib

/-- `struct rotate_stats`, `rotate.h:9–20`. -/
structure RotateStats where
  toAdd : Nat := 0
  toRemove : Nat := 0
  added : Nat := 0
  removed : Nat := 0
  alreadyApplied : Nat := 0
  fallbackCopies : Nat := 0
  respawned : Nat := 0
  relocated : Nat := 0
  orphansRemoved : Nat := 0
  errors : Nat := 0
  deriving DecidableEq, Repr

/-- `struct transcode_cfg`, `transcode.h:8–13`, without the encoder's parameters. -/
structure TranscodeCfg where
  enabled : Bool
  format : Option Text
  deriving DecidableEq, Repr

/-- What a rotation is asked to do, with its time stamp and the times of the files it makes. -/
structure RotateJob where
  libraryRoot : Path
  transcode : Option TranscodeCfg
  iso : Text
  now : Int

/-- `out->errors++`. -/
def countError : Sys RotateStats Unit := tally fun c ↦ { c with errors := c.errors + 1 }

/-- `out->already_applied++`. -/
def countAlready : Sys RotateStats Unit :=
  tally fun c ↦ { c with alreadyApplied := c.alreadyApplied + 1 }

/-! ### Statements -/

namespace Db

/-- Put a row of `residency_state`. -/
def putResidency (db : Db) (sha : Sha) (row : ResidencyRow) : Db :=
  { db with residencyState := db.residencyState.put sha row }

/-- The statement of `upsert_residency`, `rotate.c:242–245`. The foreign key wants the track. -/
def upsertResidency (db : Db) (sha : Sha) (location : Location) (iso : Text) : Option Db :=
  match db.residencyState.get? sha with
  | some old =>
    some (db.putResidency sha { old with location := location, updatedAt := iso })
  | none =>
    if (db.tracks.get? sha).isSome then
      some (db.putResidency sha ⟨location, iso, none, none, none⟩)
    else none

/-- The statement of `upsert_residency_transcode`, `rotate.c:271–284`. -/
def upsertResidencyTranscode (db : Db) (sha : Sha) (iso : Text) (transcodePath : Path)
    (transcodeSize : Int) (transcodeFormat : Option Text) : Option Db :=
  if (db.residencyState.get? sha).isSome ∨ (db.tracks.get? sha).isSome then
    some (db.putResidency sha
      ⟨.resident, iso, some transcodePath, some transcodeSize, transcodeFormat⟩)
  else none

/-- The statement of `upsert_residency_archive_clear_transcode`, `rotate.c:309–318`. -/
def upsertResidencyArchiveClearTranscode (db : Db) (sha : Sha) (iso : Text) : Option Db :=
  if (db.residencyState.get? sha).isSome ∨ (db.tracks.get? sha).isSome then
    some (db.putResidency sha ⟨.archive, iso, none, none, none⟩)
  else none

/-- The statement of `update_transcode_path`, `rotate.c:633–634`. -/
def updateTranscodePath (db : Db) (sha : Sha) (transcodePath : Path) (transcodeSize : Int)
    (iso : Text) : Db :=
  match db.residencyState.get? sha with
  | some old =>
    db.putResidency sha
      { old with
        transcodePath := some transcodePath
        transcodeSizeBytes := some transcodeSize
        updatedAt := iso }
  | none => db

/-- `SELECT sha256 FROM manifest_current`. -/
def manifestShas (db : Db) : List Sha := db.manifestCurrent.rows.map Prod.fst

/-- `SELECT sha256 FROM residency_state WHERE location='resident'`. -/
def residentShas (db : Db) : List Sha :=
  (db.residencyState.rows.filter fun r ↦ r.2.location == .resident).map Prod.fst

/-- The backfill's `SELECT`, `rotate.c:1224–1231`. -/
def residentPaths (db : Db) (transcodeOn : Bool) : List (Path × Option Path) :=
  db.residencyState.rows.filterMap fun r ↦
    if r.2.location == .resident && (!transcodeOn || r.2.transcodePath.isSome) then
      (db.tracks.get? r.1).map fun t ↦
        (t.path, if transcodeOn then r.2.transcodePath else none)
    else none

/-- `SELECT transcode_path FROM residency_state WHERE transcode_path IS NOT NULL`. -/
def transcodePaths (db : Db) : List Path :=
  db.residencyState.rows.filterMap fun r ↦ r.2.transcodePath

end Db

/-- `lookup_track_path`, `rotate.c:221–235`: a failing lookup finds nothing. -/
def lookupTrackPath (sha : Sha) : Sys RotateStats (Option Path) := do
  let r ← query (.trackPath sha) fun db ↦ (db.tracks.get? sha).map TrackRow.path
  return r.join

/-- `lookup_transcode_path`, `rotate.c:375–390`: a failing lookup finds nothing. -/
def lookupTranscodePath (sha : Sha) : Sys RotateStats (Option Path) := do
  let r ← query (.transcodePath sha) fun db ↦ db.transcodePath sha
  return r.join

/-- `upsert_residency`, `rotate.c:237–254`. -/
def upsertResidency (sha : Sha) (location : Location) (iso : Text) : Sys RotateStats Bool := do
  let rc ← exec (.upsertResidency sha) fun db ↦ db.upsertResidency sha location iso
  return rc == .done

/-- `upsert_residency_transcode`, `rotate.c:258–299`. -/
def upsertResidencyTranscode (sha : Sha) (iso : Text) (transcodePath : Path)
    (transcodeSize : Int) (transcodeFormat : Option Text) : Sys RotateStats Bool := do
  let rc ← exec (.upsertResidency sha) fun db ↦
    db.upsertResidencyTranscode sha iso transcodePath transcodeSize transcodeFormat
  return rc == .done

/-- `upsert_residency_archive_clear_transcode`, `rotate.c:303–326`. -/
def upsertResidencyArchiveClearTranscode (sha : Sha) (iso : Text) : Sys RotateStats Bool := do
  let rc ← exec (.upsertResidency sha) fun db ↦ db.upsertResidencyArchiveClearTranscode sha iso
  return rc == .done

/-- `update_transcode_path`, `rotate.c:627–644`. -/
def updateTranscodePath (sha : Sha) (transcodePath : Path) (transcodeSize : Int) (iso : Text) :
    Sys RotateStats Bool := do
  let rc ← exec (.updateTranscodePath sha) fun db ↦
    some (db.updateTranscodePath sha transcodePath transcodeSize iso)
  return rc == .done

/-- `track_repo_update_path`, `track_repo.c:206–219`. -/
def trackRepoUpdatePath {ω : Type} (sha : Sha) (newPath : Path) (iso : Text) : Sys ω Bool := do
  let rc ← exec (.updateTrackPath sha) fun db ↦ db.updateTrackPath sha newPath iso
  return rc == .done

/-! ### Moves -/

/-- What `move_one` and `promote_transcode` return: 0, 1 or −1. -/
inductive MoveRc where
  | moved
  | already
  | failed
  deriving DecidableEq, Repr

/-- `st_dev` and `st_ino` of a `stat`. -/
inductive FileId where
  | file (ino : Nat)
  | dir (path : Path)
  deriving DecidableEq, Repr

/-- The identity of what a path leads to. -/
def fileId (fs : Tree) (path : Path) : Except Errno FileId := do
  let q ← fs.follow path
  match ← fs.statAt path with
  | .file i => return .file i
  | _ => return .dir q

/-- Whether two paths lead to one file: two `stat` calls, the second one only if the first
succeeds. -/
def sameInodeBy {ω : Type} (fileId : Tree → Path → Except Errno FileId) (p q : Path) :
    Sys ω Bool := do
  match ← sysRead (.stat p) fun fs ↦ fileId fs p with
  | .error _ => return false
  | .ok a =>
    match ← sysRead (.stat q) fun fs ↦ fileId fs q with
    | .error _ => return false
    | .ok b => return a == b

/-- The comparison of two `stat` results, `rotate.c:1020–1022`. -/
def sameInode {ω : Type} : Path → Path → Sys ω Bool := sameInodeBy fileId

/-- `rotate.c:1063–1068`: the source may be gone already. -/
def unlinkSource (cur : Path) : Sys RotateStats Unit := do
  match ← unlinkPath cur with
  | .ok () => return ()
  | .error .ENOENT => return ()
  | .error _ => countError

/-- `rotate.c:1015–1069`: bring the file to its new path. `none` is a failure, and the value
says whether it was there already. -/
def placeAt (job : RotateJob) (cur newPath : Path) : Sys RotateStats (Option Bool) := do
  match ← doLink cur newPath with
  | .ok () =>
    unlinkSource cur
    return some false
  | .error .EEXIST =>
    if ← sameInode cur newPath then
      countAlready
      unlinkSource cur
      return some true
    else
      countError
      return none
  | .error .EXDEV =>
    if ← copyAndUnlink job.now cur newPath then
      tally fun c ↦ { c with fallbackCopies := c.fallbackCopies + 1 }
      return some false
    else
      countError
      return none
  | .error _ =>
    countError
    return none

/-- `rotate.c:1071–1089`: the database follows the file. -/
def recordMove (job : RotateJob) (sha : Sha) (cur newPath : Path) (target : Location) :
    Sys RotateStats Unit := do
  if ← trackRepoUpdatePath sha newPath job.iso then pure () else countError
  if ← upsertResidency sha target job.iso then pure () else countError
  if target = .resident then linkAlbumCovers job.now cur newPath else pure ()

/-- `rotate.c:986–995`: the path is on the other side already, and only the residency row is
written. -/
def recoverMove (job : RotateJob) (sha : Sha) (target : Location) : Sys RotateStats MoveRc := do
  if ← upsertResidency sha target job.iso then
    countAlready
    return .already
  else
    countError
    return .failed

/-- `move_one`, `rotate.c:963–1094`. -/
def moveOne (job : RotateJob) (sha : Sha) (fromSeg toSeg : Name) (target : Location) :
    Sys RotateStats MoveRc := do
  match ← lookupTrackPath sha with
  | none =>
    countError
    return .failed
  | some cur =>
    match swapSegment job.libraryRoot cur fromSeg toSeg with
    | none =>
      match swapSegment job.libraryRoot cur toSeg fromSeg with
      | some _ => recoverMove job sha target
      | none =>
        countError
        return .failed
    | some newPath =>
      if ← mkparents newPath then
        match ← placeAt job cur newPath with
        | none => return .failed
        | some already =>
          recordMove job sha cur newPath target
          return if already then .already else .moved
      else
        countError
        return .failed

/-! ### Transcodes -/

/-- `transcode_dst_ext`, `transcode.c:41–48`. -/
def transcodeDstExt (cfg : TranscodeCfg) : Option Text :=
  cfg.format.bind fun f ↦
    if f = ascii "opus" then some (ascii ".opus")
    else if f = ascii "aac" then some (ascii ".m4a")
    else if f = ascii "flac" then some (ascii ".flac")
    else none

/-- `codec_for_format`, `transcode.c:51–57`. -/
def codecForFormat (cfg : TranscodeCfg) : Option Text :=
  cfg.format.bind fun f ↦
    if f = ascii "opus" then some (ascii "libopus")
    else if f = ascii "aac" then some (ascii "aac")
    else none

/-- `transcode_audio`, `transcode.c:59–170`, where files are opened as `read` and `overwrite` say;
`false` is −1 or −2. The encoder opens its input, truncates its output and writes it to its end; it may
fail at either step. -/
def transcodeWith {ω : Type} (read : Tree → Path → Except Errno FileData)
    (overwrite : Tree → Path → FileData → Except Errno Tree) (cfg : TranscodeCfg) (now : Int)
    (src dst : Path) : Sys ω Bool := do
  match codecForFormat cfg with
  | none => return false
  | some _ =>
    match ← sysRead (.openFile src) fun fs ↦ read fs src with
    | .error _ => return false
    | .ok d =>
      match ← sysCall (.transcode src dst) fun fs ↦
          overwrite fs dst ⟨.cut (.encode d.content) 0, now, 0⟩ with
      | .error _ => return false
      | .ok () =>
        let r ← sysCall (.write dst) fun fs ↦
          overwrite fs dst ⟨.encode d.content, now, d.sizeBytes⟩
        return r.isOk

/-- `transcode_audio`, on paths. -/
def transcodeAudio {ω : Type} : TranscodeCfg → Int → Path → Path → Sys ω Bool :=
  transcodeWith Fs.readAt Fs.overwriteAt

/-- The size of what a path leads to, or the error of `stat`. -/
def statSize (fs : Tree) (path : Path) : Except Errno Int := do
  match ← fs.statAt path with
  | .file i => return (fs.data i).sizeBytes
  | _ => return 0

/-- `rotate.c:550–576`: encode into the transcode path. `none` is a failure, else the size. -/
def encodeTo (cfg : TranscodeCfg) (job : RotateJob) (archivePath transcodePath : Path) :
    Sys RotateStats (Option Int) := do
  if ← mkparents transcodePath then
    if ← transcodeAudio cfg job.now archivePath transcodePath then
      match ← sysRead (.stat transcodePath) fun fs ↦ statSize fs transcodePath with
      | .ok size => return some size
      | .error _ =>
        countError
        return none
    else
      countError
      let _ ← unlinkPath transcodePath
      return none
  else
    countError
    return none

/-- `rotate.c:545–576`: adopt a regular file that is there already, or encode. The value says
whether it was there, and its size. -/
def adoptOrEncode (cfg : TranscodeCfg) (job : RotateJob) (archivePath transcodePath : Path) :
    Sys RotateStats (Option (Bool × Int)) := do
  let st ← sysRead (.stat transcodePath) fun fs ↦
    if fs.isRegAt transcodePath then statSize fs transcodePath else .error .ENOENT
  match st with
  | .ok size => return some (true, size)
  | .error _ =>
    let encoded ← encodeTo cfg job archivePath transcodePath
    return encoded.map fun size ↦ (false, size)

/-- The path of the transcode of a track, from its archive path and an extension. -/
def derivedPath (libraryRoot archivePath : Path) (ext : Text) : Option Path :=
  (swapSegment libraryRoot archivePath archiveSeg residentSeg).map fun p ↦ pathWithExt p ext

/-- `promote_transcode`, `rotate.c:496–598`. -/
def promoteTranscode (cfg : TranscodeCfg) (job : RotateJob) (sha : Sha) :
    Sys RotateStats MoveRc := do
  match ← lookupTrackPath sha with
  | none =>
    countError
    return .failed
  | some archivePath =>
    match (transcodeDstExt cfg).bind (derivedPath job.libraryRoot archivePath) with
    | none =>
      countError
      return .failed
    | some transcodePath =>
      match ← adoptOrEncode cfg job archivePath transcodePath with
      | none => return .failed
      | some (already, size) =>
        if ← upsertResidencyTranscode sha job.iso transcodePath size cfg.format then
          linkAlbumCovers job.now archivePath transcodePath
          if already then
            countAlready
            return .already
          else return .moved
        else
          countError
          return .failed

/-- `demote_transcode`, `rotate.c:603–623`: the result of the `unlink` is only logged. -/
def demoteTranscode (job : RotateJob) (sha : Sha) : Sys RotateStats MoveRc := do
  match ← lookupTranscodePath sha with
  | none => pure ()
  | some transcodePath =>
    let _ ← unlinkPath transcodePath
  if ← upsertResidencyArchiveClearTranscode sha job.iso then return .moved
  else
    countError
    return .failed

/-! ### Relocation -/

/-- `rotate.c:672–687`: the path that a transcode should have, with the extension that it has.
A transcode outside of `resident/` has none. -/
def expectedTranscode (libraryRoot : Path) (archivePath cur : Option Path) : Option Path := do
  let archivePath ← archivePath
  let cur ← cur
  let _ ← swapSegment libraryRoot cur residentSeg residentSeg
  let ext ← extOf cur
  derivedPath libraryRoot archivePath ext

/-- `rename` onto the expected path, and the size there; `none` is a failure. -/
def renameTo (cur expected : Path) : Sys RotateStats (Option Int) := do
  if ← mkparents expected then
    match ← sysCall (.rename cur expected) fun fs ↦ fs.renameAt cur expected with
    | .error _ => return none
    | .ok () =>
      let st ← sysRead (.stat expected) fun fs ↦ statSize fs expected
      return st.toOption
  else return none

/-- `rotate.c:694–721`: free the old path, by `unlink` where a regular file stands at the
expected one and by `rename` otherwise. `none` is a failure, else the size. -/
def vacate (cur expected : Path) : Sys RotateStats (Option Int) := do
  match ← sysRead (.lstat expected) fun fs ↦ fs.lstatAt expected with
  | .ok (.file _) =>
    -- the size is that of the `lstat` before the `unlink`
    let size ← Proc.gets fun w ↦ (statSize w.fs expected).toOption.getD 0
    match ← unlinkPath cur with
    | .ok () => return some size
    | .error .ENOENT => return some size
    | .error _ => return none
  | .ok _ => return none
  | .error _ => renameTo cur expected

/-- One row of `relocate_transcodes`. -/
def relocateOne (job : RotateJob) (sha : Sha) : Sys RotateStats Unit := do
  let archivePath ← lookupTrackPath sha
  let cur ← lookupTranscodePath sha
  match archivePath, cur, expectedTranscode job.libraryRoot archivePath cur with
  | some archivePath, some cur, some expected =>
    if expected = cur then return ()
    else
      match ← vacate cur expected with
      | none => countError
      | some size =>
        if ← updateTranscodePath sha expected size job.iso then
          linkAlbumCovers job.now archivePath expected
          tally fun c ↦ { c with relocated := c.relocated + 1 }
        else countError
  | _, _, _ => return ()

/-- `relocate_transcodes`, `rotate.c:667–735`. -/
def relocateTranscodes (job : RotateJob) (resident : List Sha) : Sys RotateStats Unit :=
  Proc.each (relocateOne job) resident

end Nocturne
