import Nocturne.Db
import Nocturne.Lib.Proc
import Nocturne.Lib.Steps
import Nocturne.Migrate.Loudness

/-!
# `transcode-level`

The resident copies that were written without levelling are encoded again at the loudness target:
each one into a directory beside the shared tree, and from there over the old copy. The command
reads `residency_state` with the columns of `schema/0009_transcode_loudness.sql`, and of `tracks`
the paths. Its connection never opens a transaction. `ffmpeg` is a parameter: what it measures of a
file, and how long a file is.
-/

namespace Nocturne.Level

open Lib Proc

/-- Contents of a file: arbitrary bytes, what `ffmpeg` makes of a source, or the beginning of
something that was not written to its end. -/
inductive Audio where
  | plain (bytes : Text)
  | encoded (source : Audio) (format : Text) (bitrateKbps : Nat) (gainDb : Extended ℚ)
  | cut (whole : Audio)
  deriving DecidableEq, Repr

/-- The file tree. -/
abbrev AudioTree := Fs Name Audio

/-- What stands for `ffmpeg` and for `st_size`. -/
structure Ffmpeg where
  measure : Audio → Option (Extended ℚ × Extended ℚ)
  size : Audio → Int

/-- A row of `residency_state` with the columns of `schema/0009_transcode_loudness.sql`. -/
structure LevelRow extends ResidencyRow where
  transcodeGainDb : Option (Extended ℚ)
  transcodeLufs : Option (Extended ℚ)
  deriving DecidableEq, Repr

/-- `struct level_stats`, `transcode_level.c:37–43`. -/
structure LevelStats where
  planned : Nat := 0
  levelled : Nat := 0
  missingSource : Nat := 0
  formatMismatch : Nat := 0
  errors : Nat := 0
  deriving DecidableEq, Repr

/-- The configuration of a run, with its defaults filled in, and `--apply`. -/
structure LevelJob where
  libraryRoot : Path
  format : Text
  bitrateKbps : Nat
  levelLufs : Int
  apply : Bool

/-- What a run works on. -/
structure LevelWorld where
  fs : AudioTree
  tracks : Table Sha Path
  residency : Table Sha LevelRow
  stats : LevelStats

/-- What a run asks of its environment. -/
inductive LevelCall where
  | mkdir (path : Path)
  | openDir (path : Path)
  | unlink (path : Path)
  | select
  | stat (path : Path)
  | malloc
  | measure (path : Path)
  | fork
  | create (path : Path)
  | write (path : Path)
  | rename (old new : Path)
  | record (sha : Sha)
  deriving DecidableEq, Repr

/-- The command's code. -/
abbrev Levelling := Proc LevelWorld LevelCall Errno

/-! ### Calls -/

section Calls

variable {α : Type}

/-- A call that changes the tree. -/
def changeTree (call : LevelCall) (f : AudioTree → Except Errno AudioTree) :
    Levelling (Except Errno Unit) :=
  Proc.ask call fun w fault ↦
    match fault with
    | some e => (.error e, w)
    | none =>
      match f w.fs with
      | .ok fs => (.ok (), { w with fs := fs })
      | .error e => (.error e, w)

/-- A call that reads; `none` is a failure. -/
def look (call : LevelCall) (f : LevelWorld → Option α) : Levelling (Option α) :=
  Proc.ask call fun w fault ↦ (if fault.isSome then none else f w, w)

/-- `out->…++`. -/
def count (f : LevelStats → LevelStats) : Levelling Unit :=
  Proc.modify fun w ↦ { w with stats := f w.stats }

/-- `out->errors++`. -/
def countError : Levelling Unit := count fun c ↦ { c with errors := c.errors + 1 }

/-- `unlink(2)` whose result nobody looks at. -/
def remove (path : Path) : Levelling Unit := do
  let _ ← changeTree (.unlink path) fun fs ↦ fs.unlink path

end Calls

/-! ### The directory for encodes on their way -/

/-- `TMP_DIR_NAME`, `transcode_level.c:45`. -/
def tmpDirName : Name := ascii ".transcode-level-tmp"

/-- `tmpdir`, `transcode_level.c:201–202`. -/
def LevelJob.tmpDir (job : LevelJob) : Path := job.libraryRoot ++ [tmpDirName]

/-- The entries that the sweep of the directory unlinks: none that begins with a dot. -/
def leftovers (fs : AudioTree) (dir : Path) : List Path :=
  ((fs.children dir).filter fun name ↦ name.head? != some dot).map fun name ↦ dir ++ [name]

/-- The sweep of the directory, `transcode_level.c:55–64`. -/
def sweepTmpDir (dir : Path) : Levelling Bool := do
  match ← look (.openDir dir) fun w ↦
      if w.fs.stat? dir = some .dir then some (leftovers w.fs dir) else none with
  | some paths =>
    Proc.each remove paths
    return true
  | none => return false

/-- `prepare_tmp_dir`, `transcode_level.c:49–66`. -/
def prepareTmpDir (dir : Path) : Levelling Bool := do
  let made ← changeTree (.mkdir dir) fun fs ↦ fs.mkdirIn dir
  if made = .ok () ∨ made = .error .EEXIST then sweepTmpDir dir else return false

/-- `temp_path_for`, `transcode_level.c:70–79`: the extension of the copy to be replaced. -/
def tempPathFor (tmpDir : Path) (sha : Sha) (dst : Path) : Path :=
  tmpDir ++ [sha ++ (extOf dst).getD []]

/-! ### One track -/

/-- `struct transcode_result`, `transcode.h`. -/
structure TranscodeResult where
  gainDb : Extended ℚ
  sourceLufs : Extended ℚ
  deriving DecidableEq, Repr

/-- The measurement of `transcode_audio`, `transcode.c:103–113`: where it fails the gain is 0 dB. -/
def levelResult (job : LevelJob) : Option (Extended ℚ × Extended ℚ) → TranscodeResult
  | some (i, tp) => ⟨loudnessGain i tp (.fin job.levelLufs), i⟩
  | none => ⟨.fin 0, .nan⟩

/-- `codec_for_format`, `transcode.c:51–57`. -/
def hasCodec (format : Text) : Bool := format == ascii "opus" || format == ascii "aac"

/-- What the encoder makes of a source. -/
def LevelJob.encode (job : LevelJob) (source : Audio) (result : TranscodeResult) : Audio :=
  .encoded source job.format job.bitrateKbps result.gainDb

/-- The run of `ffmpeg`, `transcode.c:115–169`: it opens its output before it writes, and has written
it to its end when it reports success. -/
def runFfmpeg (job : LevelJob) (src dst : Path) (result : TranscodeResult) :
    Levelling (Option TranscodeResult) := do
  match ← look .fork fun w ↦ w.fs.read? src with
  | some source =>
    match ← changeTree (.create dst) fun fs ↦ fs.overwrite dst (.cut (job.encode source result)) with
    | .ok () =>
      match ← changeTree (.write dst) fun fs ↦ fs.overwrite dst (job.encode source result) with
      | .ok () => return some result
      | .error _ => return none
    | .error _ => return none
  | none => return none

/-- `transcode_audio`, `transcode.c:59–170`, with a loudness target. -/
def transcodeAudio (ff : Ffmpeg) (job : LevelJob) (src dst : Path) :
    Levelling (Option TranscodeResult) := do
  if hasCodec job.format then
    let measured ← look (.measure src) fun w ↦ (w.fs.read? src).bind ff.measure
    runFfmpeg job src dst (levelResult job measured)
  else return none

/-- What `record` writes, `transcode_level.c:81–105`. -/
def LevelRow.record (row : LevelRow) (size : Int) (result : TranscodeResult) : LevelRow :=
  { row with
    transcodeSizeBytes := some size
    transcodeGainDb := some (if result.gainDb.isNan then .fin 0 else result.gainDb)
    transcodeLufs := if result.sourceLufs.isNan then none else some result.sourceLufs }

/-- `record`, `transcode_level.c:81–105`. An `UPDATE` that finds no row is no error. -/
def record (sha : Sha) (size : Int) (result : TranscodeResult) : Levelling Bool :=
  Proc.ask (.record sha) fun w fault ↦
    match fault with
    | some _ => (false, w)
    | none =>
      match w.residency.get? sha with
      | some row => (true, { w with residency := w.residency.put sha (row.record size result) })
      | none => (true, w)

/-- A row of the work list. -/
structure LevelTask where
  sha : Sha
  src : Path
  dst : Path
  format : Option Text
  deriving DecidableEq, Repr

/-- `transcode_level.c:136–151`: an encode that is finished goes over the old copy. -/
def replaceCopy (ff : Ffmpeg) (tmp : Path) (task : LevelTask) (result : TranscodeResult) :
    Levelling Unit := do
  match ← look (.stat tmp) fun w ↦ (w.fs.read? tmp).map ff.size with
  | some size =>
    match ← changeTree (.rename tmp task.dst) fun fs ↦ fs.renameInto tmp task.dst with
    | .ok () =>
      if ← record task.sha size result then count fun c ↦ { c with levelled := c.levelled + 1 }
      else countError
    | .error _ =>
      remove tmp
      countError
  | none =>
    remove tmp
    countError

/-- `level_one`, `transcode_level.c:107–152`. -/
def levelOne (ff : Ffmpeg) (job : LevelJob) (task : LevelTask) : Levelling Unit := do
  count fun c ↦ { c with planned := c.planned + 1 }
  if task.format ≠ some job.format then
    count fun c ↦ { c with formatMismatch := c.formatMismatch + 1 }
  else
    match ← look (.stat task.src) fun w ↦ w.fs.stat? task.src with
    | none => count fun c ↦ { c with missingSource := c.missingSource + 1 }
    | some _ =>
      if job.apply then
        match ← look .malloc fun _ ↦ some () with
        | none => countError
        | some () =>
          let tmp := tempPathFor job.tmpDir task.sha task.dst
          match ← transcodeAudio ff job task.src tmp with
          | some result => replaceCopy ff tmp task result
          | none =>
            remove tmp
            countError
      else return

/-! ### The run -/

/-- A row of the work list: a resident track with a copy that has no gain. -/
def LevelWorld.taskOf (w : LevelWorld) (sha : Sha) (row : LevelRow) : Option LevelTask :=
  match w.tracks.get? sha, row.transcodePath with
  | some src, some dst =>
    if row.location = .resident ∧ row.transcodeGainDb = none then
      some ⟨sha, src, dst, row.transcodeFormat⟩
    else none
  | _, _ => none

/-- The work list, `transcode_level.c:211–216`. -/
def LevelWorld.tasks (w : LevelWorld) : List LevelTask :=
  (w.residency.rows.filterMap fun r ↦ w.taskOf r.1 r.2).mergeSort fun a b ↦ decide (a.sha ≤ b.sha)

/-- The list is read to its end before the first track is touched, `transcode_level.c:207–256`. -/
def levelAll (ff : Ffmpeg) (job : LevelJob) : Levelling Unit := do
  match ← look .select fun w ↦ some w.tasks with
  | some tasks => Proc.each (levelOne ff job) tasks
  | none => countError

/-- `transcode_level.c:207–270`: the work and the exit code. -/
def levelExit (ff : Ffmpeg) (job : LevelJob) : Levelling Nat := do
  levelAll ff job
  let stats ← Proc.gets LevelWorld.stats
  return if stats.errors > 0 then 1 else 0

/-- `transcode_level_cmd_main`, `transcode_level.c:154–270`, from the open database on. -/
def transcodeLevel (ff : Ffmpeg) (job : LevelJob) : Levelling Nat := do
  if job.apply then
    if ← prepareTmpDir job.tmpDir then levelExit ff job else return 1
  else levelExit ff job

/-- What a run leaves: the files and the database. -/
def levelled (ff : Ffmpeg) (job : LevelJob) (w : LevelWorld) (answers : List (Reply Errno)) :
    LevelWorld :=
  ((transcodeLevel ff job).run { w with stats := {} } answers).state

end Nocturne.Level
