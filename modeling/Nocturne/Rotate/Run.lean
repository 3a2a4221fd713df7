import Mathlib.Data.List.Lex
import Nocturne.Lib.Bsearch
import Nocturne.Rotate.Tracks

/-!
# The rotation

`rotate_run_ex`: the manifest and the resident tracks as sorted arrays, the tracks that lost
their file, relocations, additions before removals, the sweeps of the resident tree and the
backfill of the covers. The key `last_rotation_at` and the request to Syncthing are left out.
-/

namespace Nocturne

open Lib

/-! ### Sorted sets -/

/-- `load_set`, `rotate.c:206–219`, sorted as by `strcmp`; `none` is −1. -/
def loadSet (stmt : Stmt) (f : Db → List Sha) : Sys RotateStats (Option (List Sha)) :=
  query stmt fun db ↦ (f db).mergeSort fun a b ↦ decide (a ≤ b)

/-- The loop of `set_contains`, `rotate.c:186–197`. -/
def searchFrom (items : List Sha) (sha : Sha) (lo hi : Nat) : Bool :=
  if lo < hi then
    match items[(lo + hi) / 2]? with
    | none => false
    | some item =>
      if item = sha then true
      else if item < sha then searchFrom items sha ((lo + hi) / 2 + 1) hi
      else searchFrom items sha lo ((lo + hi) / 2)
  else false
termination_by hi - lo

/-- `set_contains`. -/
def setContains (items : List Sha) (sha : Sha) : Bool := searchFrom items sha 0 items.length

/-! ### Residents without a file -/

/-- `filter_resident_present`, `rotate.c:345–372`. -/
def filterResidentPresent (transcodeOn : Bool) : List Sha → Sys RotateStats (List Sha)
  | [] => return []
  | sha :: rest => do
    let path ← if transcodeOn then lookupTranscodePath sha else lookupTrackPath sha
    let present ← match path with
      | some path => statIsReg path
      | none => pure false
    if present then
      let kept ← filterResidentPresent transcodeOn rest
      return sha :: kept
    else
      tally fun c ↦ { c with respawned := c.respawned + 1 }
      filterResidentPresent transcodeOn rest

/-! ### Sweeps of the resident tree -/

/-- `is_cover_sidecar_name`, `rotate.c:737–742`. -/
def isCoverSidecarName (name : Name) : Bool := name ∈ coverSidecarNames

/-- A name that starts with a dot. -/
def isDotName (name : Name) : Bool := name.head? == some dot

/-- `opendir` and the names that `readdir` gives. -/
def readDir (dir : Path) : Sys RotateStats (Except Errno (List Name)) :=
  sysRead (.openDir dir) fun fs ↦
    if fs.node? dir = some .dir then .ok (fs.children dir) else .error .ENOENT

/-- `lstat`. -/
def lstatNode (path : Path) : Sys RotateStats (Except Errno (Node Name)) :=
  sysRead (.lstat path) fun fs ↦
    match fs.node? path with
    | some n => .ok n
    | none => .error .ENOENT

/-- One entry in the first pass of `prune_dir`: whether it keeps the directory. -/
def keepsDir (prune : Path → Sys RotateStats Bool) (dir : Path) (name : Name) :
    Sys RotateStats Bool := do
  if isDotName name then return true
  else
    match ← lstatNode (dir ++ [name]) with
    | .error _ => return true
    | .ok .dir =>
      let removed ← prune (dir ++ [name])
      return !removed
    | .ok (.file _) => return !isCoverSidecarName name
    | .ok (.symlink _) => return true

/-- One entry in the second pass of `prune_dir`: only sidecars are removed. -/
def keepsSidecar (dir : Path) (name : Name) : Sys RotateStats Bool := do
  if isCoverSidecarName name then
    match ← lstatNode (dir ++ [name]) with
    | .ok (.file _) =>
      let r ← sysUnlink (dir ++ [name])
      return !r.isOk
    | _ => return true
  else return true

/-- A pass over all entries, each of which may keep the directory. -/
def anyKeeps (keeps : Name → Sys RotateStats Bool) : List Name → Sys RotateStats Bool
  | [] => return false
  | name :: names => do
    let first ← keeps name
    let others ← anyKeeps keeps names
    return first || others

/-- `prune_dir`, `rotate.c:753–810`, in a tree of bounded depth: whether the directory is
removed. -/
def pruneDir : (depth : Nat) → Path → Sys RotateStats Bool
  | 0, _ => return false
  | depth + 1, dir => do
    match ← readDir dir with
    | .error _ => return false
    | .ok names =>
      if ← anyKeeps (keepsDir (pruneDir depth) dir) names then return false
      else
        match ← readDir dir with
        | .error _ => return false
        | .ok names =>
          if ← anyKeeps (keepsSidecar dir) names then return false
          else
            let r ← sysCall (.rmdir dir) fun fs ↦ fs.rmdir dir
            return r.isOk

/-- No path of the tree is longer. -/
def treeDepth (fs : Tree) : Nat := (fs.nodes.rows.map fun r ↦ r.1.length).foldl max 0

/-- Where the walk through a directory begins. -/
def treeRoot (dir : Path) : Sys RotateStats (Option Path) :=
  Proc.gets fun w ↦ (w.fs.follow dir).toOption

/-- `prune_resident_tree`, `rotate.c:931–953`. The walk goes by the path that `resident/` leads to. -/
def pruneResidentTree (libraryRoot : Path) : Sys RotateStats Unit := do
  let depth ← Proc.gets fun w ↦ treeDepth w.fs
  match ← treeRoot (libraryRoot ++ [residentSeg]) with
  | none => return ()
  | some root =>
    match ← readDir root with
    | .error _ => return ()
    | .ok names =>
      Proc.each (fun name ↦ do
        if isDotName name then return ()
        else
          match ← lstatNode (root ++ [name]) with
          | .ok .dir =>
            let _ ← pruneDir depth (root ++ [name])
            return ()
          | _ => return ()) names

/-- `is_transcode_output_name`, `rotate.c:835–839`. -/
def isTranscodeOutputName (name : Name) : Bool :=
  match splitExt name with
  | some (_, ext) => ext == ascii ".opus" || ext == ascii ".m4a"
  | none => false

/-- `struct file_id`. -/
structure DevIno where
  dev : Nat
  ino : Nat
  deriving DecidableEq, Repr

/-- `file_id_cmp`, `rotate.c:819–825`. -/
def fileIdCmp (x y : DevIno) : Ordering :=
  if x.dev ≠ y.dev then if x.dev < y.dev then .lt else .gt
  else if x.ino ≠ y.ino then if x.ino < y.ino then .lt else .gt
  else .eq

/-- `struct file_id_set`, whose `n` entries are what is in `v`: they fit its capacity. -/
structure FileIdSet where
  v : List DevIno
  cap : Nat
  fits : v.length ≤ cap

/-- The set before the first reference. -/
def FileIdSet.empty : FileIdSet := ⟨[], 0, List.length_nil.le⟩

/-- A reference is appended, `rotate.c:898–906`: a full array is doubled. -/
def FileIdSet.push (s : FileIdSet) (id : DevIno) : FileIdSet where
  v := s.v ++ [id]
  cap := if s.v.length = s.cap then if s.cap = 0 then 256 else s.cap * 2 else s.cap
  fits := by
    have hfits := s.fits
    rw [List.length_append, List.length_singleton]
    split
    · split <;> omega
    · omega

/-- `qsort` by `file_id_cmp`, `rotate.c:914`. -/
def FileIdSet.sorted (s : FileIdSet) : FileIdSet :=
  if 1 < s.v.length then
    ⟨sortedWith fileIdCmp s.v, s.cap, by
      rw [(sortedWith_perm fileIdCmp s.v).length_eq]
      exact s.fits⟩
  else s

/-- `file_id_set_has`, `rotate.c:827–831`. -/
def fileIdSetHas (s : FileIdSet) (id : DevIno) : Bool :=
  decide (s.v.length ≠ 0) && (bsearch fileIdCmp id s.v).isSome

/-- `st_dev` and `st_ino` of a `stat`, which follows the symbolic links on the path. A directory has
an inode number that no file has; which one the tree does not say. -/
def statId (fs : Tree) (path : Path) : Except Errno DevIno :=
  match fs.follow path with
  | .error e => .error e
  | .ok q =>
    match fs.node? q with
    | some (.file i) => .ok ⟨fs.device q, i⟩
    | some .dir => .ok ⟨fs.device q, fs.next⟩
    | _ => .error .ENOENT

/-- `lstat` of an entry, with its `st_dev`. -/
def lstatDev (path : Path) : Sys RotateStats (Except Errno (Node Name × Nat)) :=
  sysRead (.lstat path) fun fs ↦
    match fs.node? path with
    | some n => .ok (n, fs.device path)
    | none => .error .ENOENT

/-- One entry of `remove_orphans_in`. -/
def removeOrphan (descend : Path → Sys RotateStats Unit) (refs : FileIdSet) (dir : Path)
    (name : Name) : Sys RotateStats Unit := do
  if isDotName name then return ()
  else
    match ← lstatDev (dir ++ [name]) with
    | .ok (.dir, _) => descend (dir ++ [name])
    | .ok (.file i, dev) =>
      if isTranscodeOutputName name && !fileIdSetHas refs ⟨dev, i⟩ then
        match ← sysUnlink (dir ++ [name]) with
        | .ok () => tally fun c ↦ { c with orphansRemoved := c.orphansRemoved + 1 }
        | .error _ => return ()
      else return ()
    | _ => return ()

/-- `remove_orphans_in`, `rotate.c:841–872`, in a tree of bounded depth. -/
def removeOrphansIn (refs : FileIdSet) : (depth : Nat) → Path → Sys RotateStats Unit
  | 0, _ => return ()
  | depth + 1, dir => do
    match ← readDir dir with
    | .error _ => return ()
    | .ok names => Proc.each (removeOrphan (removeOrphansIn refs depth) refs dir) names

/-- The loop over the references, `rotate.c:894–907`; one that cannot be looked up is passed
over. -/
def collectIds : List Path → FileIdSet → Sys RotateStats FileIdSet
  | [], refs => return refs
  | path :: paths, refs => do
    match ← sysRead (.stat path) fun fs ↦ statId fs path with
    | .error _ => collectIds paths refs
    | .ok id => collectIds paths (refs.push id)

/-- `remove_orphan_transcodes`, `rotate.c:882–924`. The walk goes by the path that `resident/` leads
to; where it leads to no directory, `opendir` fails. -/
def removeOrphanTranscodes (libraryRoot : Path) : Sys RotateStats Unit := do
  let depth ← Proc.gets fun w ↦ treeDepth w.fs
  match ← query .references Db.transcodePaths with
  | none => return ()
  | some paths =>
    let refs ← collectIds paths .empty
    match ← treeRoot (libraryRoot ++ [residentSeg]) with
    | none => return ()
    | some root => removeOrphansIn refs.sorted (depth + 1) root

/-! ### The run -/

/-- `transcode_on`, with the configuration. -/
def RotateJob.transcodeOn (job : RotateJob) : Option TranscodeCfg :=
  job.transcode.filter TranscodeCfg.enabled

/-- `ensure_resident_nomedia`, `rotate.c:1101–1115`: a path that does not fit its buffer is
left alone, and so is an entry that exists. -/
def ensureResidentNomedia (job : RotateJob) : Sys RotateStats Unit := do
  let path := job.libraryRoot ++ [residentSeg, ascii ".nomedia"]
  if (path.map fun name ↦ name.length + 1).sum < 1024 then
    let _ ← sysCall (.create path) fun fs ↦ fs.createAt path ⟨.plain [], job.now, 0⟩
    return ()
  else return ()

/-- Move or encode one track of the manifest, `rotate.c:1171–1186`. -/
def addOne (job : RotateJob) (sha : Sha) : Sys RotateStats Unit := do
  let before ← Proc.gets fun w ↦ w.out.errors
  let rc ← match job.transcodeOn with
    | some cfg => promoteTranscode cfg job sha
    | none => moveOne job sha archiveSeg residentSeg .resident
  tally fun c ↦
    if rc = .moved ∧ c.errors = before then { c with added := c.added + 1 } else c

/-- Take one track from the phone, `rotate.c:1189–1202`. -/
def removeOne (job : RotateJob) (sha : Sha) : Sys RotateStats Unit := do
  let before ← Proc.gets fun w ↦ w.out.errors
  let rc ← match job.transcodeOn with
    | some _ => demoteTranscode job sha
    | none => moveOne job sha residentSeg archiveSeg .archive
  tally fun c ↦
    if rc = .moved ∧ c.errors = before then { c with removed := c.removed + 1 } else c

/-- The two loops, `rotate.c:1162–1202`. -/
def applyDiff (job : RotateJob) (manifest resident : List Sha) : Sys RotateStats Unit := do
  let added := manifest.filter fun sha ↦ !setContains resident sha
  let removed := resident.filter fun sha ↦ !setContains manifest sha
  tally fun c ↦ { c with toAdd := added.length, toRemove := removed.length }
  Proc.each (addOne job) added
  Proc.each (removeOne job) removed

/-- One row of the backfill, `rotate.c:1237–1258`. -/
def backfillOne (job : RotateJob) (row : Path × Option Path) : Sys RotateStats Unit :=
  match job.transcodeOn, row.2 with
  | some _, some transcodePath => linkAlbumCovers job.now row.1 transcodePath
  | some _, none => return ()
  | none, _ =>
    match swapSegment job.libraryRoot row.1 residentSeg archiveSeg with
    | some archiveAudio => linkAlbumCovers job.now archiveAudio row.1
    | none => return ()

/-- The backfill of the covers, `rotate.c:1211–1262`. -/
def backfillCovers (job : RotateJob) : Sys RotateStats Unit := do
  match ← query .residentPaths fun db ↦ db.residentPaths job.transcodeOn.isSome with
  | none => return ()
  | some rows => Proc.each (backfillOne job) rows

/-- The key of the time of the last rotation. -/
def lastRotationAt : Text := ascii "last_rotation_at"

/-- `rotate_run_ex`, `rotate.c:1123–1301`; `false` is −1. -/
def rotateRunEx (job : RotateJob) : Sys RotateStats Bool := do
  ensureResidentNomedia job
  match ← loadSet .loadManifest Db.manifestShas with
  | none => return false
  | some manifest =>
    match ← loadSet .loadResident Db.residentShas with
    | none => return false
    | some loaded =>
      let resident ← filterResidentPresent job.transcodeOn.isSome loaded
      match job.transcodeOn with
      | some _ => relocateTranscodes job resident
      | none => pure ()
      applyDiff job manifest resident
      match job.transcodeOn with
      | some _ => removeOrphanTranscodes job.libraryRoot
      | none => pure ()
      pruneResidentTree job.libraryRoot
      backfillCovers job
      let _ ← exec (.putManifestMeta lastRotationAt) fun db ↦
        some (db.putManifestMeta lastRotationAt job.iso)
      return true

/-- What a rotation leaves of a machine, given the answers to its calls. -/
def afterRotate (job : RotateJob) (answers : List (Reply Fault)) (m : Machine) : Machine :=
  ((rotateRunEx job).run (m.start {}) answers).state.stop

end Nocturne
