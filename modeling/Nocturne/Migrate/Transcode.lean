import Nocturne.Migrate.Run

/-!
# The migration to transcodes

`transcode-migrate` of `transcode_migrate.c` takes the tracks whose path goes through `resident/`:
the original gets a second name under `archive/`, its transcode is put beside its old name, the old
name goes, and two rows follow. The parts of the run before the `SELECT` are left out.
-/

namespace Nocturne

open Lib

/-- `struct migrate_stats`, `transcode_migrate.c:46–52`. -/
structure TranscodeMigrateStats where
  planned : Nat := 0
  migrated : Nat := 0
  already : Nat := 0
  errors : Nat := 0
  skippedArchived : Nat := 0
  deriving DecidableEq, Repr

/-- What a migration to transcodes is asked to do, with its time stamp and the time of the files
it makes. -/
structure TranscodeMigrateJob where
  cfg : TranscodeCfg
  apply : Bool
  iso : Text
  now : Int

/-- `out->errors++`. -/
def countTranscodeError : Sys TranscodeMigrateStats Unit :=
  tally fun c ↦ { c with errors := c.errors + 1 }

/-- The loop of `mkparents`, `transcode_migrate.c:58–67`: only `EEXIST` is no failure. -/
def mkdirAll : List Path → Sys TranscodeMigrateStats Bool
  | [] => return true
  | dir :: dirs => do
    match ← sysCall (.mkdir dir) fun fs ↦ fs.mkdir dir with
    | .ok () => mkdirAll dirs
    | .error .EEXIST => mkdirAll dirs
    | .error _ => return false

/-- `mkparents`, `transcode_migrate.c:54–70`. -/
def mkparentsOf (path : Path) : Sys TranscodeMigrateStats Bool := mkdirAll path.dropLast.inits.tail

/-- `swap_segment_simple`, `transcode_migrate.c:72–94`: the first segment of that name, if
something is behind it. -/
def swapSegmentSimple (fromSeg toSeg : Name) : Path → Option Path
  | [] => none
  | [_] => none
  | seg :: b :: tail =>
    if seg = fromSeg then some (toSeg :: b :: tail)
    else (swapSegmentSimple fromSeg toSeg (b :: tail)).map (seg :: ·)

/-- `t.path LIKE '%/resident/%'`, which does not tell the case of ASCII letters. -/
def isLikeResident (path : Path) : Bool :=
  path.dropLast.any fun seg ↦ seg.map lower == residentSeg

/-- The rows of the `SELECT`, `transcode_migrate.c:367–371`. -/
def Db.residentTracks (db : Db) : List (Sha × Path) :=
  db.allTracks.filter fun r ↦ isLikeResident r.2

/-- `stat` and `S_ISREG`: the size of a regular file. -/
def statReg (path : Path) : Sys TranscodeMigrateStats (Option Int) := do
  let st ← sysRead (.stat path) fun fs ↦
    if fs.isReg path then Migrate.statSize fs path else .error .ENOENT
  return st.toOption

/-- Step 1, `transcode_migrate.c:205–243`. -/
def linkTwin (cur archivePath : Path) : Sys TranscodeMigrateStats Bool := do
  if ← mkparentsOf archivePath then
    match ← Migrate.doLink cur archivePath with
    | .ok () => return true
    | .error .EEXIST =>
      if ← Migrate.sameInode cur archivePath then return true
      else
        countTranscodeError
        return false
    | .error _ =>
      countTranscodeError
      return false
  else
    countTranscodeError
    return false

/-- Step 2, `transcode_migrate.c:245–272`: `none` is a failure, else the size of the transcode. -/
def encodeResident (job : TranscodeMigrateJob) (cur transcodePath : Path) :
    Sys TranscodeMigrateStats (Option Int) := do
  if ← mkparentsOf transcodePath then
    if ← Migrate.transcodeAudio job.cfg job.now cur transcodePath then
      match ← sysRead (.stat transcodePath) fun fs ↦ Migrate.statSize fs transcodePath with
      | .ok size => return some size
      | .error _ =>
        countTranscodeError
        return none
    else
      let _ ← sysUnlink transcodePath
      countTranscodeError
      return none
  else
    countTranscodeError
    return none

/-- `upsert_residency_with_transcode`, `transcode_migrate.c:111–139`. -/
def upsertResidencyWithTranscode (job : TranscodeMigrateJob) (sha : Sha) (transcodePath : Path)
    (transcodeSize : Int) : Sys TranscodeMigrateStats Bool := do
  let rc ← exec (.upsertResidency sha) fun db ↦
    db.upsertResidencyTranscode sha job.iso transcodePath transcodeSize job.cfg.format
  return rc == .done

/-- Steps 4 and 5, `transcode_migrate.c:283–305`. -/
def recordTranscode (job : TranscodeMigrateJob) (sha : Sha) (archivePath transcodePath : Path)
    (size : Int) : Sys TranscodeMigrateStats Unit := do
  if ← trackRepoUpdatePath sha archivePath job.iso then
    if ← upsertResidencyWithTranscode job sha transcodePath size then
      tally fun c ↦ { c with migrated := c.migrated + 1 }
    else countTranscodeError
  else countTranscodeError

/-- Steps 3 to 5: the original has its second name, and the transcode is there. -/
def finishTranscode (job : TranscodeMigrateJob) (sha : Sha) (cur archivePath transcodePath : Path)
    (size : Int) : Sys TranscodeMigrateStats Unit := do
  match ← sysUnlink cur with
  | .ok () => recordTranscode job sha archivePath transcodePath size
  | .error .ENOENT => recordTranscode job sha archivePath transcodePath size
  | .error _ => countTranscodeError

/-- Steps 1 to 5 for a track of which `stat` has found at most one of the two files. -/
def applyTranscode (job : TranscodeMigrateJob) (sha : Sha) (cur archivePath transcodePath : Path)
    (archive transcode : Option Int) : Sys TranscodeMigrateStats Unit := do
  let linked ← if archive.isSome then pure true else linkTwin cur archivePath
  if linked then
    let size ← match transcode with
      | some size => pure (some size)
      | none => encodeResident job cur transcodePath
    match size with
    | some size => finishTranscode job sha cur archivePath transcodePath size
    | none => pure ()
  else pure ()

/-- `migrate_one`, `transcode_migrate.c:147–310`: where both files are there, nothing is done. -/
def transcodeMigrateOne (job : TranscodeMigrateJob) (row : Sha × Path) :
    Sys TranscodeMigrateStats Unit := do
  match swapSegmentSimple residentSeg archiveSeg row.2, transcodeDstExt job.cfg with
  | some archivePath, some newExt =>
    let transcodePath := pathWithExt row.2 newExt
    let archive ← statReg archivePath
    let transcode ← statReg transcodePath
    if archive.isSome && transcode.isSome then
      tally fun c ↦ { c with already := c.already + 1 }
    else
      tally fun c ↦ { c with planned := c.planned + 1 }
      if job.apply then
        applyTranscode job row.1 row.2 archivePath transcodePath archive transcode
      else pure ()
  | _, _ => countTranscodeError

/-- `transcode_migrate_cmd_main`, `transcode_migrate.c:362–386`; `false` is the exit status 3. -/
def transcodeMigrateRun (job : TranscodeMigrateJob) : Sys TranscodeMigrateStats Bool := do
  match ← query .residentTracks Db.residentTracks with
  | none => return false
  | some rows =>
    Proc.each (transcodeMigrateOne job) rows
    return true

/-! ### Paths -/

section Paths

variable {root rest : Path} {ext : Text}

/-- Below a root that does not go through `resident/`, its first segment of that name is swapped. -/
theorem swapSegmentSimple_under {fromSeg toSeg : Name} (hroot : fromSeg ∉ root) (hrest : rest ≠ []) :
    swapSegmentSimple fromSeg toSeg (root ++ fromSeg :: rest) = some (root ++ toSeg :: rest) := by
  induction root with
  | nil =>
    obtain ⟨b, tail, rfl⟩ := List.exists_cons_of_ne_nil hrest
    exact if_pos rfl
  | cons seg root ih =>
    rw [List.mem_cons, not_or] at hroot
    have hne : seg ≠ fromSeg := fun h ↦ hroot.1 h.symm
    have hrec := ih hroot.2
    rw [List.cons_append, List.cons_append]
    cases hcur : root ++ fromSeg :: rest with
    | nil => exact absurd hcur (by simp)
    | cons b tail =>
      rw [hcur] at hrec
      unfold swapSegmentSimple
      rw [if_neg hne, hrec]
      rfl

theorem dropLast_pathWithExt {path : Path} (h : path ≠ []) :
    (pathWithExt path ext).dropLast = path.dropLast ∧ pathWithExt path ext ≠ [] := by
  unfold pathWithExt
  rw [List.getLast?_eq_some_getLast h]
  dsimp only
  split
  · exact ⟨List.dropLast_concat, by simp⟩
  · exact ⟨List.dropLast_concat, by simp⟩

theorem isLikeResident_resident (hrest : rest ≠ []) :
    isLikeResident (root ++ residentSeg :: rest) = true := by
  unfold isLikeResident
  rw [List.dropLast_append_of_ne_nil (by simp), List.dropLast_cons_of_ne_nil hrest,
    List.any_append, List.any_cons]
  have hlower : (residentSeg.map lower == residentSeg) = true := by decide
  rw [hlower, Bool.true_or, Bool.or_true]

theorem isLikeResident_pathWithExt {path : Path} (h : path ≠ []) :
    isLikeResident (pathWithExt path ext) = isLikeResident path := by
  unfold isLikeResident
  rw [(dropLast_pathWithExt h).1]

/-- A path that does not go through `resident/` has no such segment above its last. -/
theorem notMem_of_isLikeResident {toSeg : Name}
    (h : isLikeResident (root ++ toSeg :: rest) = false) : residentSeg ∉ root := by
  intro hmem
  unfold isLikeResident at h
  rw [List.dropLast_append_of_ne_nil (by simp), List.any_append] at h
  have hany : (root.any fun seg ↦ seg.map lower == residentSeg) = true :=
    List.any_eq_true.mpr ⟨residentSeg, hmem, by decide⟩
  rw [hany, Bool.true_or] at h
  cases h

end Paths

end Nocturne
