import Mathlib.Data.List.Lex
import Nocturne.Ingest.Handlers
import Nocturne.Jsonl.Resume

/-!
# `nocturned ingest`

`ingest.c` from the files down to the lines. The logs stand in a directory of their own,
outside the music library, and a run sees each of them as it is when it is read. The JSON
parser, the reads and the clock are parameters of a run: `clock p n` is the time at which
line `n` of the log `p` is handled.
-/

namespace Nocturne

open Lib IngestStats

/-- The files of the metadata directory. -/
abbrev Logs := Table Path Text

/-- What a run is given. -/
structure IngestJob where
  jsonLoadb : Text → Option Json
  metaDir : Path
  logs : Logs
  reads : Path → List ReadReply
  clock : Path → Nat → Int
  dryRun : Bool

/-- `make_relpath`, `ingest.c:244–255`. -/
def makeRelpath (metaDir abs : Path) : Option Path :=
  if isUnder metaDir abs then some (abs.drop metaDir.length) else none

/-- `lookup_offset`, `ingest.c:196–205`: a failing lookup counts as "no row". -/
def lookupOffset (relpath : Path) : Sys IngestStats Nat :=
  (·.getD 0) <$> query (.selectOffset relpath) fun db ↦ db.storedOffset relpath

/-- `upsert_offset`, `ingest.c:208–218`. -/
def upsertOffset (relpath : Path) (newOffset : Nat) (lastEventTs now : Int) :
    Sys IngestStats Bool :=
  (· == .done) <$> exec (.upsertOffset relpath) fun db ↦
    some (db.upsertOffset relpath newOffset lastEventTs now)

/-- One line of the loop of `ingest_one_file`. The results say whether the file failed, and
the highest `ts` so far. -/
def ingestLine (job : IngestJob) (kind : FileKind) (relpath : Path) (now maxTs : Int)
    (line : Text) : Sys IngestStats (Bool × Int) :=
  if line = [] then pure (false, maxTs)
  else
    match job.jsonLoadb line with
    | some (.object root) => do
      let (hr, maxTs) ← handle kind relpath job.dryRun now maxTs root
      match hr with
      | .skipped => do
        tally countParseError
        pure (false, maxTs)
      | .failed => pure (true, maxTs)
      | .counted => pure (false, maxTs)
    | _ => do
      tally countParseError
      pure (false, maxTs)

/-- The loop of `ingest_one_file`. -/
def ingestLoop (job : IngestJob) (kind : FileKind) (abs relpath : Path) (r : JsonlReader)
    (linenum : Nat) (maxTs : Int) : Sys IngestStats (Bool × Int × JsonlReader) :=
  match h : jsonlReadLine r with
  | (.eof, r') => pure (false, maxTs, r')
  | (.error _, r') => pure (true, maxTs, r')
  | (.oversize, r') => do
    have : r'.unread.length < r.unread.length := unread_jsonlReadLine h (Or.inr rfl)
    tally countOversize
    ingestLoop job kind abs relpath r' linenum maxTs
  | (.line line, r') => do
    have : r'.unread.length < r.unread.length := unread_jsonlReadLine h (Or.inl ⟨line, rfl⟩)
    let (failed, maxTs) ←
      ingestLine job kind relpath (job.clock abs (linenum + 1)) maxTs line
    if failed then pure (true, maxTs, r')
    else ingestLoop job kind abs relpath r' (linenum + 1) maxTs
termination_by r.unread.length

/-- The part of `ingest_one_file` inside its transaction; `false` is −1. -/
def ingestOpened (job : IngestJob) (kind : FileKind) (abs relpath : Path) (content : Text)
    (oldOffset : Nat) : Sys IngestStats Bool := do
  let (failed, maxTs, r) ←
    ingestLoop job kind abs relpath (jsonlOpen content (job.reads abs) oldOffset) 0 0
  let newOffset := jsonlOffset r
  let failed ←
    if failed = false ∧ oldOffset < newOffset then
      if job.dryRun then do
        tally countOffset
        pure false
      else do
        let ok ← upsertOffset relpath newOffset maxTs (job.clock abs 0)
        if ok then
          tally countOffset
          pure false
        else pure true
    else pure failed
  if job.dryRun then pure (!failed)
  else if failed then
    let _ ← dbRollback
    pure false
  else dbCommit

/-- The offset that `ingest_one_file` starts from: one behind the end of a file that was
truncated is not used. -/
def startOffset (stored : Nat) (size : Except Errno Nat) : Nat :=
  match size with
  | .ok n => if n < stored then 0 else stored
  | .error _ => stored

/-- `stat` and `open` of a log. -/
def readLog (job : IngestJob) (abs : Path) : Except Errno Text :=
  match job.logs.get? abs with
  | some content => .ok content
  | none => .error .ENOENT

/-- `ingest_one_file`, `ingest.c:599–739`; `false` is −1. -/
def ingestOneFile (job : IngestJob) (kind : FileKind) (abs : Path) : Sys IngestStats Bool :=
  match makeRelpath job.metaDir abs with
  | none => pure true
  | some relpath => do
    let stored ← lookupOffset relpath
    let size ← sysRead (.stat abs) fun _ ↦ (readLog job abs).map List.length
    let opened ← sysRead (.openFile abs) fun _ ↦ readLog job abs
    match opened with
    | .error _ => pure true
    | .ok content => do
      let began ← if job.dryRun then pure true else dbBegin
      if began then ingestOpened job kind abs relpath content (startOffset stored size)
      else pure false

/-- The directory below the metadata directory, and the start of the names, of the logs of a
kind, `ingest.c:801–804`. -/
def FileKind.pattern : FileKind → Path × Text
  | .stats => ([ascii "stats"], ascii "phone-")
  | .likes => ([], ascii "likes-phone-")
  | .pins => ([], ascii "pins-phone-")
  | .actions => ([], ascii "actions-phone-")

/-- A path relative to the metadata directory is that of a log of the kind. -/
def FileKind.owns (kind : FileKind) (relpath : Path) : Bool :=
  match relpath.getLast? with
  | some name =>
    relpath == kind.pattern.1 ++ [name] &&
      kind.pattern.2.isPrefixOf name && (ascii ".jsonl").isSuffixOf name &&
      decide (kind.pattern.2.length + (ascii ".jsonl").length ≤ name.length)
  | none => false

/-- `glob`: the logs of a kind, in the order of their names. -/
def globLogs (job : IngestJob) (kind : FileKind) : List Path :=
  let found := (job.logs.rows.map Prod.fst).filter fun abs ↦
    isUnder job.metaDir abs && kind.owns (abs.drop job.metaDir.length)
  found.mergeSort fun a b ↦ decide (a ≤ b)

/-- The loop of `run_glob`: a failed file does not stop it. -/
def ingestFiles (job : IngestJob) (kind : FileKind) : List Path → Sys IngestStats Bool
  | [] => pure true
  | abs :: rest => do
    tally countFile
    let ok ← ingestOneFile job kind abs
    let others ← ingestFiles job kind rest
    pure (ok && others)

/-- `run_glob`, `ingest.c:743–779`; `false` is −1. -/
def runGlob (job : IngestJob) (kind : FileKind) : Sys IngestStats Bool := do
  let found ← sysRead (.openDir (job.metaDir ++ kind.pattern.1)) fun _ ↦ .ok (globLogs job kind)
  match found with
  | .error _ => pure true
  | .ok paths => ingestFiles job kind paths

/-- `ingest_run`, `ingest.c:783–809`; `false` is −1. -/
def ingestRun (job : IngestJob) : Sys IngestStats Bool :=
  if job.metaDir = [] then pure true
  else do
    let stats ← runGlob job .stats
    let likes ← runGlob job .likes
    let pins ← runGlob job .pins
    let actions ← runGlob job .actions
    pure (stats && likes && pins && actions)

/-- What an ingest command leaves of a machine, given the answers to its calls. -/
def afterIngest (job : IngestJob) (answers : List (Reply Fault)) (m : Machine) : Machine :=
  ((ingestRun job).run (m.start {}) answers).state.stop

end Nocturne
