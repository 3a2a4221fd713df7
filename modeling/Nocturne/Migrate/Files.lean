import Nocturne.Rotate.Tracks

/-!
# Files that a migration touches

The calls of `migrate.c` and `transcode_migrate.c`. In the libraries that a migration is proved right
for there is no symbolic link on the way to a track or its new place, so that here a path is the entry
that it names, and only what it leads to may be behind links.
-/

namespace Nocturne.Migrate

open Lib

variable {ω : Type}

/-! ### Directories -/

/-- `stat(2)`. -/
def stat (fs : Tree) (path : Path) : Except Errno (Node Name) :=
  match fs.stat? path with
  | some n => .ok n
  | none => .error .ENOENT

/-- One directory of `paths_mkdir_p`. -/
def mkdirOne : Path → Sys ω Bool := mkdirOneBy Fs.mkdir stat

/-- `paths_mkdir_p`, `paths.c:88–114`. -/
def pathsMkdirP (dir : Path) : Sys ω Bool := mkdirEach mkdirOne dir.inits.tail

/-- `mkparents`, `migrate.c:111–121`. -/
def mkparents (path : Path) : Sys ω Bool := pathsMkdirP path.dropLast

/-! ### Files -/

/-- `open(2)` for reading, and what the file holds. -/
def readFile (fs : Tree) (path : Path) : Except Errno FileData :=
  match fs.read? path with
  | some d => .ok d
  | none => .error .ENOENT

/-- `copy_and_unlink`, `migrate.c:127–163`; `false` is −1. -/
def copyAndUnlink (now : Int) (src dst : Path) : Sys ω Bool := do
  match ← sysRead (.openFile src) fun fs ↦ readFile fs src with
  | .error _ => return false
  | .ok d =>
    let ino ← Proc.gets fun w ↦ w.fs.next
    match ← sysCall (.create dst) fun fs ↦ fs.createExcl dst (d.upTo now 0) with
    | .error _ => return false
    | .ok () =>
      if ← fillCopy now d dst ino then
        let r ← sysUnlink src
        return r.isOk
      else
        let _ ← sysUnlink dst
        return false

/-- `do_link`, `migrate.c:51–55`. -/
def doLink (old new : Path) : Sys ω (Except Errno Unit) :=
  sysCall (.link old new) fun fs ↦ fs.link old new

/-- The identity of what a path leads to. -/
def fileId (fs : Tree) (path : Path) : Except Errno FileId :=
  match fs.locate (Fs.maxSymlinks + 1) path with
  | none => .error .ELOOP
  | some q =>
    match fs.node? q with
    | some (.file i) => .ok (.file i)
    | some .dir => .ok (.dir q)
    | _ => .error .ENOENT

/-- The comparison of two `stat` results, `migrate.c:279–282`. -/
def sameInode : Path → Path → Sys ω Bool := sameInodeBy fileId

/-- `transcode_audio`. -/
def transcodeAudio : TranscodeCfg → Int → Path → Path → Sys ω Bool :=
  transcodeWith readFile Fs.overwrite

/-- The size of what a path leads to, or the error of `stat`. -/
def statSize (fs : Tree) (path : Path) : Except Errno Int :=
  match fs.read? path with
  | some d => .ok d.sizeBytes
  | none => if (fs.stat? path).isSome then .ok 0 else .error .ENOENT

end Nocturne.Migrate
