import Nocturne.World
import Nocturne.Ingest.Event

/-!
# The handlers of the event logs

`handle_play`, `handle_like`, `handle_pin` and `handle_action` of `ingest.c`, with the track
actions of `actions.c`. A handler reads the clock once per line.
-/

namespace Nocturne

open Lib

/-- `struct ingest_stats`, `ingest.h:9–17`. -/
structure IngestStats where
  filesSeen : Nat := 0
  playsInserted : Nat := 0
  likesUpserted : Nat := 0
  pinsUpserted : Nat := 0
  offsetsAdvanced : Nat := 0
  linesSkippedParseError : Nat := 0
  linesSkippedOversize : Nat := 0
  deriving DecidableEq, Repr

namespace IngestStats

def countPlay (s : IngestStats) : IngestStats := { s with playsInserted := s.playsInserted + 1 }

def countLike (s : IngestStats) : IngestStats := { s with likesUpserted := s.likesUpserted + 1 }

def countPin (s : IngestStats) : IngestStats := { s with pinsUpserted := s.pinsUpserted + 1 }

def countParseError (s : IngestStats) : IngestStats :=
  { s with linesSkippedParseError := s.linesSkippedParseError + 1 }

def countOversize (s : IngestStats) : IngestStats :=
  { s with linesSkippedOversize := s.linesSkippedOversize + 1 }

def countOffset (s : IngestStats) : IngestStats :=
  { s with offsetsAdvanced := s.offsetsAdvanced + 1 }

def countFile (s : IngestStats) : IngestStats := { s with filesSeen := s.filesSeen + 1 }

end IngestStats

open IngestStats

/-- What a handler returns: 0, 1 or −1. -/
inductive HandlerRc where
  | counted
  | skipped
  | failed
  deriving DecidableEq, Repr

/-! ### Actions -/

/-- `unsync_track`, `actions.c:87–120`; `false` is −1. -/
def unsyncTrack (sha : Sha) (iso : Text) : Sys IngestStats Bool := do
  -- the result of this statement is not looked at
  let _ ← exec (.clearPin sha) fun db ↦ some (db.clearPin sha iso)
  let rc ← exec (.putUnsync sha) fun db ↦ some (db.putUnsync sha iso)
  pure (rc == .done)

/-- Unlink a file that a row names; errors are only logged. -/
def unlinkNamed (path : Option Path) : Sys IngestStats Unit :=
  match path with
  | none => pure ()
  | some path => do
    let _ ← sysUnlink path

/-- The part of `delete_track_everywhere` inside its savepoint; `false` is −1. -/
def blacklistAndDelete (sha : Sha) (iso : Text) : Sys IngestStats Bool := do
  let opened ← execTxn .savepoint fun c ↦ some c.savepoint
  if opened then
    let put ← exec (.putBlacklist sha) fun db ↦ some (db.putBlacklist sha didntLike iso)
    let gone ← if put = .done then
        exec (.deleteTrack sha) fun db ↦ some (db.deleteTrack sha)
      else pure .error
    if gone = .done then
      let _ ← execTxn (.release false) Conn.release
      pure true
    else
      let _ ← execTxn .rollbackTo Conn.rollbackTo
      let _ ← execTxn (.release true) Conn.release
      pure false
  else pure false

/-- `delete_track_everywhere`, `actions.c:122–205`; `false` is −1. -/
def deleteTrackEverywhere (sha : Sha) (iso : Text) : Sys IngestStats Bool := do
  -- the size only goes into statistics that nobody reads
  let _ ← query (.trackSize sha) fun db ↦ (db.tracks.get? sha).map TrackRow.sizeBytes
  let archivePath ← query (.trackPath sha) fun db ↦ (db.tracks.get? sha).map TrackRow.path
  let transcodePath ← query (.transcodePath sha) fun db ↦ db.transcodePath sha
  unlinkNamed archivePath.join
  unlinkNamed transcodePath.join
  blacklistAndDelete sha iso

/-- `album_track_shas`, `actions.c:219–250`: `tracks` has no column `album_id`, so that the
statement does not compile and no track is found. -/
def albumTrackShas (_albumId : Text) : List Sha := []

/-- `unsync_album`, `actions.c:252–265`. -/
def unsyncAlbum (albumId iso : Text) : Sys IngestStats Bool := do
  Proc.each (fun sha ↦ do let _ ← unsyncTrack sha iso) (albumTrackShas albumId)
  pure true

/-- `delete_album_everywhere`, `actions.c:281–311`, of which only the loop is reached. -/
def deleteAlbumEverywhere (albumId iso : Text) : Sys IngestStats Bool := do
  Proc.each (fun sha ↦ do let _ ← deleteTrackEverywhere sha iso) (albumTrackShas albumId)
  pure true

/-! ### Writing an event -/

/-- The writing part of `handle_play`: a play without its track breaks the foreign key and
is skipped. -/
def writePlay (row : PlayRow) : Sys IngestStats HandlerRc := do
  match ← exec .insertPlay fun db ↦ db.insertPlay row with
  | .done => do
    tally countPlay
    pure .counted
  | .constraint => pure .skipped
  | .error => pure .failed

/-- The writing part of `handle_like`. -/
def writeLike (unit : ItemUnit) (id : Text) (row : LikeRow) : Sys IngestStats HandlerRc := do
  let rc ← exec .upsertLike fun db ↦ some (db.upsertLike unit id row)
  if rc = .done then
    tally countLike
    pure .counted
  else pure .failed

/-- Whether `handle_pin` refuses: a failing lookup counts as "not blacklisted". -/
def pinRefused (unit : ItemUnit) (id : Text) : Sys IngestStats Bool :=
  match unit with
  | .track => (·.getD false) <$> query (.blacklisted id) fun db ↦ db.isBlacklisted id
  | .album => pure false

/-- The writing part of `handle_pin`. -/
def writePin (unit : ItemUnit) (id : Text) (pinned : Bool) (ts : Int) :
    Sys IngestStats HandlerRc := do
  let refused ← pinRefused unit id
  if refused then pure .counted
  else
    let rc ← exec .upsertPin fun db ↦ some (db.upsertPin unit id ⟨pinned, ts, isoMillis ts⟩)
    if rc = .done then
      tally countPin
      if pinned = true ∧ unit = .track then
        -- the result of this statement is not looked at
        let _ ← exec (.dropUnsync id) fun db ↦ some (db.dropUnsync id)
        pure .counted
      else pure .counted
    else pure .failed

/-- Whether `handle_action` finds a pin that is newer than an unsync: a failing lookup counts
as "no pin". -/
def pinNewer (id : Text) (ts : Int) : Sys IngestStats Bool :=
  (·.getD false) <$> query (.pinTs id ts) fun db ↦ decide (ts < (db.pinTs id).getD 0)

/-- The end of `handle_action`. -/
def actionDone (rc : Bool) : Sys IngestStats HandlerRc :=
  if rc then do
    tally countPin
    pure .counted
  else pure .failed

/-- The writing part of each handler. -/
def writeEvent (relpath : Path) (now : Int) : Event → Sys IngestStats HandlerRc
  | .play ts kind track playedMs => writePlay (playRow relpath ts kind track playedMs)
  | .like unit id liked ts => writeLike unit id ⟨liked, ts⟩
  | .pin unit id pinned ts => writePin unit id pinned ts
  | .unsync .track id ts => do
    let newer ← pinNewer id ts
    if newer then actionDone true
    else
      let rc ← unsyncTrack id (isoNow now)
      actionDone rc
  | .delete .track id _ => do
    let rc ← deleteTrackEverywhere id (isoNow now)
    actionDone rc
  | .unsync .album id _ => do
    let rc ← unsyncAlbum id (isoNow now)
    actionDone rc
  | .delete .album id _ => do
    let rc ← deleteAlbumEverywhere id (isoNow now)
    actionDone rc

/-! ### Handlers -/

/-- The frame of a handler: a line that fails a check is skipped, and a dry run only counts.
The second result is the highest `ts` so far. -/
def handler (check : Int → List (Text × JsonValue) → Option Event)
    (count : IngestStats → IngestStats) (relpath : Path) (dryRun : Bool) (now maxTs : Int)
    (root : List (Text × JsonValue)) : Sys IngestStats (HandlerRc × Int) :=
  match check now root with
  | none => pure (.skipped, maxTs)
  | some ev =>
    if dryRun then do
      tally count
      pure (.counted, max maxTs ev.ts)
    else do
      let rc ← writeEvent relpath now ev
      pure (rc, max maxTs ev.ts)

/-- `handle_play`, `ingest.c:263–340`. -/
def handlePlay := handler playEvent countPlay

/-- `handle_like`, `ingest.c:342–391`. -/
def handleLike := handler likeEvent countLike

/-- `handle_pin`, `ingest.c:487–582`. -/
def handlePin := handler pinEvent countPin

/-- `handle_action`, `ingest.c:406–485`: a dry run counts nothing. -/
def handleAction := handler actionEvent id

/-- The handler of a log. -/
def handle : FileKind → Path → Bool → Int → Int → List (Text × JsonValue) →
    Sys IngestStats (HandlerRc × Int)
  | .stats => handlePlay
  | .likes => handleLike
  | .pins => handlePin
  | .actions => handleAction

end Nocturne
