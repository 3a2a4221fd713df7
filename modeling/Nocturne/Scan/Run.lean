import Nocturne.World
import Nocturne.Scan.Tags

/-!
# The library scan

`track_repo.c` and `scan.c`: one visit per file, the walk, and the sweep of the rows that
the walk did not see, all in one transaction. The walk is given as the list of tag records
that the walker hands over, in the walker's order.
-/

namespace Nocturne

open Lib

/-- `struct scan_stats`, `scan.h:8–17`, and the flag of `struct scan_ctx`, `scan.c:42–48`. -/
structure ScanCtx where
  filesSeen : Nat := 0
  filesAdded : Nat := 0
  filesUpdated : Nat := 0
  filesRemoved : Nat := 0
  filesSkippedUnchanged : Nat := 0
  tagParseFailed : Nat := 0
  hashFailed : Nat := 0
  hardError : Bool := false
  deriving DecidableEq, Repr

/-- `enum walk_result`. -/
inductive WalkResult where
  | continue
  | stop
  deriving DecidableEq, Repr

/-! ### `track_repo.c` -/

section TrackRepo

variable {ω : Type}

/-- `track_repo_lookup_by_path`, `track_repo.c:235–259`. -/
def trackRepoLookupByPath (path : Path) : Sys ω (Option (Option (Sha × Int × Int))) :=
  query (.lookupByPath path) fun db ↦ db.lookupByPath path

/-- `track_repo_lookup_by_sha256`, `track_repo.c:261–273`. -/
def trackRepoLookupBySha256 (sha : Sha) : Sys ω (Option Bool) :=
  query (.lookupBySha sha) fun db ↦ (db.tracks.get? sha).isSome

/-- `track_repo_insert`, `track_repo.c:132–162`. -/
def trackRepoInsert (sha : Sha) (row : TrackRow) : Sys ω Bool := do
  let rc ← exec (.insertTrack sha) fun db ↦ db.insertTrack sha row
  return rc == .done

/-- `track_repo_update`, `track_repo.c:164–195`. -/
def trackRepoUpdate (sha : Sha) (row : TrackRow) : Sys ω Bool := do
  let rc ← exec (.updateTrack sha) fun db ↦ db.updateTrack sha row
  return rc == .done

/-- `track_repo_mark_seen`, `track_repo.c:221–233`. -/
def trackRepoMarkSeen (sha : Sha) (isoNow : Text) : Sys ω Bool := do
  let rc ← exec (.markSeen sha) fun db ↦ db.markSeen sha isoNow
  return rc == .done

/-- `unlink_transcodes`, `track_repo.c:318–329`: errors are only logged. -/
def unlinkTranscodes (xs : List Path) : Sys ω Unit :=
  Proc.each (fun x ↦ do let _ ← sysUnlink x) xs

/-- `track_repo_delete`, `track_repo.c:331–355`. -/
def trackRepoDelete (sha : Sha) : Sys ω Bool := do
  match ← query .collectTranscodes fun db ↦ db.transcodesOf [sha] with
  | none => return false
  | some xs =>
    let rc ← exec (.deleteTrack sha) fun db ↦ some (db.deleteTrack sha)
    if rc == .done then
      unlinkTranscodes xs
      return true
    else return false

/-- `track_repo_delete_unseen_under_root`, `track_repo.c:357–404`. -/
def trackRepoDeleteUnseenUnderRoot (libraryRoot : Path) (cutoffIso : Text) :
    Sys ω (Option Nat) := do
  match ← query .collectTranscodes fun db ↦
      db.transcodesOf (db.unseenShas libraryRoot cutoffIso) with
  | none => return none
  | some xs =>
    match ← execChanges .deleteUnseen fun db ↦ (db.deleteUnseen libraryRoot cutoffIso,
        (db.unseenShas libraryRoot cutoffIso).length) with
    | none => return none
    | some deleted =>
      unlinkTranscodes xs
      return some deleted

end TrackRepo

/-! ### One file -/

/-- `lstat` for `(mtime, size)`. A directory or a symbolic link has none that matter. -/
def lstatTimes (fs : Tree) (path : Path) : Except Errno (Int × Int) :=
  match fs.node? path with
  | none => .error .ENOENT
  | some (.file i) => .ok ((fs.data i).mtimeNs, (fs.data i).sizeBytes)
  | some _ => .ok (0, 0)

/-- `hash_audio_payload`, `hash.c:93–190`. The file opened must be the entry itself, so that
a symbolic link gives `EAGAIN`. -/
def hashFile (digest : Content → Sha) (fs : Tree) (path : Path) : Except Errno Sha :=
  match fs.node? path with
  | none => .error .ENOENT
  | some .dir => .error .EISDIR
  | some (.symlink _) => .error .EAGAIN
  | some (.file i) => .ok (payloadSha digest path (fs.data i).content)

/-- The digest of a file, asked for a second time after `EAGAIN`, `scan.c:248–253`. -/
def hashAudioPayload (digest : Content → Sha) (path : Path) : Sys ScanCtx (Except Errno Sha) := do
  match ← sysRead (.hash path) fun fs ↦ hashFile digest fs path with
  | .error .EAGAIN => sysRead (.hash path) fun fs ↦ hashFile digest fs path
  | r => return r

/-- The row that `on_file` stores, `scan.c:292–311`. -/
def trackRowOf (rec : TagRecord) (mtimeNs sizeBytes : Int) (isoNow : Text) : TrackRow where
  path := rec.path
  mtimeNs := mtimeNs
  sizeBytes := sizeBytes
  format := formatString rec.format
  title := rec.title.column
  artist := canonTagField rec.artist
  album := rec.album.column
  albumArtist := canonTagField rec.albumArtist
  trackNumber := rec.trackNumber.column
  discNumber := rec.discNumber.column
  year := rec.year.column
  genre := rec.genre.column
  durationMs := none
  tagsStatus := tagsStatus rec
  tagWarning := tagWarning rec
  dateAdded := isoNow
  lastSeenAt := isoNow

/-- `ctx->hard_error = 1; return WALK_STOP`. -/
def hardStop : Sys ScanCtx WalkResult := do
  tally fun c ↦ { c with hardError := true }
  return .stop

/-- The last part of `on_file`, `scan.c:206–362`: update the row of this content, or put a
new row in the place of the one that holds the path. -/
def storeTrack (hex : Sha) (row : TrackRow) (existing : Option Sha) : Sys ScanCtx Bool := do
  match ← trackRepoLookupBySha256 hex with
  | none => return false
  | some true =>
    let ok ← trackRepoUpdate hex row
    tally fun c ↦ { c with filesUpdated := c.filesUpdated + 1 }
    return ok
  | some false =>
    match existing with
    | some old =>
      if ← trackRepoDelete old then
        let ok ← trackRepoInsert hex row
        tally fun c ↦ { c with filesUpdated := c.filesUpdated + 1 }
        return ok
      else
        tally fun c ↦ { c with filesUpdated := c.filesUpdated + 1 }
        return false
    | none =>
      let ok ← trackRepoInsert hex row
      tally fun c ↦ { c with filesAdded := c.filesAdded + 1 }
      return ok

/-- The part of `on_file` behind the incremental skip, `scan.c:248–361`. -/
def hashAndStore (digest : Content → Sha) (isoNow : Text) (rec : TagRecord)
    (mtimeNs sizeBytes : Int) (existing : Option Sha) : Sys ScanCtx WalkResult := do
  match ← hashAudioPayload digest rec.path with
  | .error _ =>
    tally fun c ↦ { c with hashFailed := c.hashFailed + 1 }
    return .continue
  | .ok hex =>
    -- a failing lookup counts as "not blacklisted"
    let hit ← query (.blacklisted hex) fun db ↦ (db.trackBlacklist.get? hex).isSome
    if hit.getD false then return .continue
    else
      tally fun c ↦
        { c with tagParseFailed := c.tagParseFailed + if rec.tagReadFailed then 1 else 0 }
      if ← storeTrack hex (trackRowOf rec mtimeNs sizeBytes isoNow) existing then
        return .continue
      else hardStop

/-- `on_file`, `scan.c:206–362`. -/
def onFile (digest : Content → Sha) (isoNow : Text) (rec : TagRecord) :
    Sys ScanCtx WalkResult := do
  if isTranscodeArtifact rec.path then return .continue
  else
    tally fun c ↦ { c with filesSeen := c.filesSeen + 1 }
    match ← sysRead (.lstat rec.path) fun fs ↦ lstatTimes fs rec.path with
    | .error _ =>
      tally fun c ↦ { c with hashFailed := c.hashFailed + 1 }
      return .continue
    | .ok (mtimeNs, sizeBytes) =>
      match ← trackRepoLookupByPath rec.path with
      | none => hardStop
      | some none => hashAndStore digest isoNow rec mtimeNs sizeBytes none
      | some (some (sha, mtime, size)) =>
        if mtime = mtimeNs ∧ size = sizeBytes then
          if ← trackRepoMarkSeen sha isoNow then
            tally fun c ↦ { c with filesSkippedUnchanged := c.filesSkippedUnchanged + 1 }
            return .continue
          else hardStop
        else hashAndStore digest isoNow rec mtimeNs sizeBytes (some sha)

/-! ### The walk and the scan -/

/-- The loop of `walker_walk`: hand over the files until the callback asks to stop. -/
def walkFiles (digest : Content → Sha) (isoNow : Text) : List TagRecord → Sys ScanCtx Unit
  | [] => return ()
  | rec :: recs => do
    match ← onFile digest isoNow rec with
    | .stop => return ()
    | .continue => walkFiles digest isoNow recs

/-- `walker_walk`: it fails when the root is not a directory. -/
def walkerWalk (digest : Content → Sha) (isoNow : Text) (root : Path) (walk : List TagRecord) :
    Sys ScanCtx Bool := do
  let st ← sysRead (.stat root) fun fs ↦ .ok (fs.stat? root)
  if st.toOption.join = some .dir then
    walkFiles digest isoNow walk
    return true
  else return false

/-- What a scan is asked to do. -/
structure ScanJob where
  libraryRoot : Path
  walkRoot : Path
  deletionPrefix : Option Path
  updateScanMeta : Bool
  isoNow : Text
  walk : List TagRecord

/-- The sweep of a full scan, `scan.c:406–413`; `false` is a failure. -/
def sweepUnseen (job : ScanJob) : Sys ScanCtx Bool := do
  match job.deletionPrefix with
  | none => return true
  | some root =>
    match ← trackRepoDeleteUnseenUnderRoot root job.isoNow with
    | none => return false
    | some deleted =>
      tally fun c ↦ { c with filesRemoved := deleted }
      return true

/-- The `scan_meta` row of a full scan, `scan.c:415–437`: a failure goes unnoticed. -/
def writeScanMeta (job : ScanJob) : Sys ScanCtx Unit := do
  if job.updateScanMeta then
    let c ← Proc.gets World.out
    let _ ← exec .putScanMeta fun db ↦ db.putScanMeta job.libraryRoot
      ⟨job.isoNow, c.filesSeen, c.filesAdded, c.filesUpdated, c.filesRemoved⟩

/-- The return value of a scan that went through, `scan.c:445`. -/
def scanRc (c : ScanCtx) : Int := if c.hashFailed > 0 ∨ c.tagParseFailed > 0 then 1 else 0

/-- `scan_run_internal`, `scan.c:374–446`. -/
def scanRunInternal (digest : Content → Sha) (job : ScanJob) : Sys ScanCtx Int := do
  if ← dbBegin then
    let walked ← walkerWalk digest job.isoNow job.walkRoot job.walk
    let c ← Proc.gets World.out
    if !walked || c.hardError then
      let _ ← dbRollback
      return -1
    else if ← sweepUnseen job then
      writeScanMeta job
      if ← dbCommit then
        let c ← Proc.gets World.out
        return scanRc c
      else return -1
    else
      let _ ← dbRollback
      return -1
  else return -1

/-- `scan_run`, `scan.c:448–452`. -/
def scanJob (libraryRoot : Path) (isoNow : Text) (walk : List TagRecord) : ScanJob :=
  ⟨libraryRoot, libraryRoot, some libraryRoot, true, isoNow, walk⟩

/-- `scan_run_subtree`, `scan.c:454–465`. -/
def subtreeJob (libraryRoot subdir : Path) (isoNow : Text) (walk : List TagRecord) : ScanJob :=
  ⟨libraryRoot, subdir, none, false, isoNow, walk⟩

end Nocturne
