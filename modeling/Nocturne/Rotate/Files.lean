import Mathlib.Data.List.Infix
import Nocturne.Lib.Lookup
import Nocturne.World

/-!
# Files that a rotation touches

The calls that `rotate.c` shares between its two modes: making the parents of a path, copying a
file to another device, and propagating the cover images of an album. Each path is looked up by the
call, through the symbolic links on its way. A copy is written block by block, so that a process that
dies on the way leaves the blocks that it had written.
-/

namespace Nocturne

open Lib

variable {ω : Type}

/-- `unlink(2)`. -/
def unlinkPath (path : Path) : Sys ω (Except Errno Unit) :=
  sysCall (.unlink path) fun fs ↦ fs.unlinkAt path

/-! ### Directories -/

/-- One directory of `paths_mkdir_p`, by the given calls: an entry that exists is not looked at. -/
def mkdirOneBy (mkdir : Tree → Path → Except Errno Tree)
    (stat : Tree → Path → Except Errno (Node Name)) (dir : Path) : Sys ω Bool := do
  match ← sysCall (.mkdir dir) fun fs ↦ mkdir fs dir with
  | .ok () => return true
  | .error .EEXIST => return true
  | .error _ =>
    let st ← sysRead (.stat dir) fun fs ↦ stat fs dir
    return st.toOption == some .dir

/-- The loop of `paths_mkdir_p`. -/
def mkdirEach (mkdirOne : Path → Sys ω Bool) : List Path → Sys ω Bool
  | [] => return true
  | dir :: dirs => do
    if ← mkdirOne dir then mkdirEach mkdirOne dirs else return false

/-- One directory of `paths_mkdir_p`. -/
def mkdirOne : Path → Sys ω Bool := mkdirOneBy Fs.mkdirAt Fs.statAt

/-- `paths_mkdir_p`, `paths.c:88–114`. -/
def pathsMkdirP (dir : Path) : Sys ω Bool := mkdirEach mkdirOne dir.inits.tail

/-- `mkparents`, `rotate.c:87–97`. -/
def mkparents (path : Path) : Sys ω Bool := pathsMkdirP path.dropLast

/-! ### Copies -/

/-- The block size of `copy_only`. -/
def blockSize : Nat := 64 * 1024

/-- How many blocks a file has. -/
def FileData.blocks (d : FileData) : Nat := (d.sizeBytes.toNat + blockSize - 1) / blockSize

/-- A file of which `k` blocks are written. -/
def FileData.upTo (d : FileData) (now : Int) (k : Nat) : FileData where
  content := if k < d.blocks then .cut d.content k else d.content
  mtimeNs := now
  sizeBytes := min d.sizeBytes (k * blockSize)

/-- The write loop of `copy_only` into the new file `ino`, from block `k` on. -/
def copyBlocks (now : Int) (d : FileData) (dst : Path) (ino k : Nat) : (left : Nat) → Sys ω Bool
  | 0 => return true
  | left + 1 => do
    match ← sysCall (.write dst) fun fs ↦ .ok (fs.write ino (d.upTo now (k + 1))) with
    | .ok () => copyBlocks now d dst ino (k + 1) left
    | .error _ => return false

/-- `fsync(2)`. -/
def fsync (path : Path) : Sys ω Bool := do
  let r ← sysRead (.fsync path) fun _ ↦ .ok ()
  return r.isOk

/-- The new file is written and flushed, `rotate.c:108–122`. -/
def fillCopy (now : Int) (d : FileData) (dst : Path) (ino : Nat) : Sys ω Bool := do
  if ← copyBlocks now d dst ino 0 d.blocks then fsync dst else return false

/-- `copy_only`, `rotate.c:101–126`; `false` is −1. -/
def copyOnly (now : Int) (src dst : Path) : Sys ω Bool := do
  match ← sysRead (.openFile src) fun fs ↦ fs.readAt src with
  | .error _ => return false
  | .ok d =>
    let ino ← Proc.gets fun w ↦ w.fs.next
    match ← sysCall (.create dst) fun fs ↦ fs.createExclAt dst (d.upTo now 0) with
    | .error _ => return false
    | .ok () =>
      if ← fillCopy now d dst ino then return true
      else
        let _ ← unlinkPath dst
        return false

/-- `copy_and_unlink`, `rotate.c:128–133`; `false` is −1. -/
def copyAndUnlink (now : Int) (src dst : Path) : Sys ω Bool := do
  if ← copyOnly now src dst then
    let r ← unlinkPath src
    return r.isOk
  else return false

/-- `do_link`, `rotate.c:59–63`. -/
def doLink (old new : Path) : Sys ω (Except Errno Unit) :=
  sysCall (.link old new) fun fs ↦ fs.linkAt old new

/-! ### Covers -/

/-- `COVER_SIDECAR_NAMES`, `rotate.c:415–417`. -/
def coverSidecarNames : List Name :=
  [ascii "cover.jpg", ascii "cover.png", ascii "folder.jpg", ascii "folder.png"]

/-- `S_ISREG` of a `stat` that may fail. -/
def statIsReg (path : Path) : Sys ω Bool := do
  let r ← sysRead (.stat path) fun fs ↦ .ok (fs.isRegAt path)
  return r.toOption.getD false

/-- `stat` succeeds. -/
def statExists (path : Path) : Sys ω Bool := do
  let r ← sysRead (.stat path) fun fs ↦ fs.statAt path
  return r.isOk

/-- One name of `link_album_covers`: nothing is reported. -/
def linkCover (now : Int) (src dst : Path) : Sys ω Unit := do
  if ← statIsReg src then
    if ← statExists dst then return ()
    else if ← mkparents dst then
      match ← doLink src dst with
      | .error .EXDEV =>
        let _ ← copyOnly now src dst
        return ()
      | _ => return ()
    else return ()
  else return ()

/-- `link_album_covers`, `rotate.c:424–487`. -/
def linkAlbumCovers (now : Int) (archiveAudioPath residentAudioPath : Path) : Sys ω Unit :=
  Proc.each (fun name ↦ linkCover now (archiveAudioPath.dropLast ++ [name])
    (residentAudioPath.dropLast ++ [name])) coverSidecarNames

end Nocturne
