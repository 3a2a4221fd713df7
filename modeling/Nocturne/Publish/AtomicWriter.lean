import Nocturne.Lib.Stream
import Nocturne.Numbers

/-!
# The atomic writer

`atomic_io.c`: a file is written under another name, and renamed when it is done. The commit looks at
what `fsync` and `rename` return, and not at what the stream has to say, so that a file which was cut
off is renamed as well.
-/

namespace Nocturne

open Lib

/-- The files that are published. -/
abbrev Disk := Fs Name Text

/-- `struct atomic_writer`: the temporary file is there, and it is not at the final path as well. -/
structure AtomicWriter where
  finalPath : Path
  tmpPath : Path
  disk : Disk
  ino : Nat
  opened : disk.node? tmpPath = some (.file ino)
  apart : disk.node? finalPath ≠ some (.file ino)

/-- `make_tmp_path`, `atomic_io.c:42–50`. -/
def makeTmpPath (path : Path) (pid : Nat) : Path :=
  path.dropLast ++ [path.getLast?.getD [] ++ ascii ".tmp." ++ decimalNat pid]

theorem makeTmpPath_ne (path : Path) (pid : Nat) : path ≠ makeTmpPath path pid := by
  intro h
  have hlast : path.getLast? = some (path.getLast?.getD [] ++ ascii ".tmp." ++ decimalNat pid) := by
    conv_lhs => rw [h]
    rw [makeTmpPath, List.getLast?_concat]
  have hlen := congrArg (fun n ↦ (Option.getD n []).length) hlast
  simp only [Option.getD_some, List.length_append] at hlen
  have hdot : (ascii ".tmp.").length = 5 := rfl
  omega

/-- `atomic_writer_open`, `atomic_io.c:123–150`, with the temporary file emptied if it is there. A
process that leaves one behind never has it at the final path too. -/
def atomicWriterOpen (disk : Disk) (path : Path) (pid : Nat) : Option AtomicWriter :=
  match h : disk.node? (makeTmpPath path pid) with
  | none =>
    some
      { finalPath := path
        tmpPath := makeTmpPath path pid
        disk := disk.addFile (makeTmpPath path pid) []
        ino := disk.next
        opened := by rw [Fs.node?_addFile, if_pos rfl]
        apart := by
          rw [Fs.node?_addFile, if_neg (makeTmpPath_ne path pid)]
          exact fun hn ↦ Nat.lt_irrefl _ (disk.fresh hn) }
  | some (.file i) =>
    if ha : disk.node? path = some (.file i) then none
    else
      some
        { finalPath := path
          tmpPath := makeTmpPath path pid
          disk := disk.write i []
          ino := i
          opened := h
          apart := ha }
  | some _ => none

/-- How the system calls of a commit go: the write of the buffer in `fflush`, `fsync`, the write and
the `close` in `fclose`, and `rename`. -/
structure CommitReplies where
  flush : Drain
  fsync : Option Errno
  closeFlush : Drain
  close : Option Errno
  rename : Option Errno
  deriving DecidableEq, Repr

/-- The disk when the temporary file has what the stream has written out. -/
def AtomicWriter.written (w : AtomicWriter) (fp : Stream UInt8) : Disk := w.disk.write w.ino fp.file

/-- `unlink` of the temporary file, whose failure is not looked at. -/
def Disk.dropTmp (disk : Disk) (tmpPath : Path) : Disk :=
  match disk.unlink tmpPath with
  | .ok disk => disk
  | .error _ => disk

/-- `rename`, unless it fails for a reason of its own. -/
def Disk.renameOr (disk : Disk) (old new : Path) : Option Errno → Except Errno Disk
  | some e => .error e
  | none => disk.rename old new

/-- `atomic_writer_commit`, `atomic_io.c:157–182`: its result, and the disk. -/
def atomicWriterCommit (w : AtomicWriter) (fp : Stream UInt8) (r : CommitReplies) : Int × Disk :=
  -- neither what `fflush` returns nor what `fclose` returns is looked at
  let fp := fp.drain r.flush
  let rc : Int := if r.fsync.isSome then -1 else 0
  let fp := fp.drain r.closeFlush
  let disk := w.written fp
  if rc ≠ 0 then (-1, disk.dropTmp w.tmpPath)
  else
    match disk.renameOr w.tmpPath w.finalPath r.rename with
    | .error _ => (-1, disk.dropTmp w.tmpPath)
    | .ok disk => (0, disk)

/-- `atomic_writer_abort`, `atomic_io.c:184–190`. -/
def atomicWriterAbort (w : AtomicWriter) (fp : Stream UInt8) (closeFlush : Drain) : Disk :=
  (w.written (fp.drain closeFlush)).dropTmp w.tmpPath

/-- What is at a path: the entry itself, and the contents of a regular file. -/
def Disk.at (disk : Disk) (p : Path) : Option (Node Name × Option Text) :=
  (disk.node? p).map fun n ↦ (n, match n with | .file i => some (disk.data i) | _ => none)

/-- The commit returns zero and the final path has all that was written, or it returns something else
and the final path has what it had. -/
def AllOrNone (w : AtomicWriter) (bytes : Text) (result : Int × Disk) : Prop :=
  (result.1 = 0 ∧ result.2.Has w.finalPath bytes) ∨
    (result.1 ≠ 0 ∧ result.2.at w.finalPath = w.disk.at w.finalPath)

/-- The temporary file does not get to the final path. -/
def AtomicWriter.Refused (w : AtomicWriter) (r : CommitReplies) : Prop :=
  r.fsync.isSome ∨ r.rename.isSome ∨ w.disk.node? w.finalPath = some .dir ∨
    w.disk.device w.tmpPath ≠ w.disk.device w.finalPath

section Commit

variable {w : AtomicWriter} {fp : Stream UInt8} {bytes : Text} {r : CommitReplies} {disk : Disk}

theorem AtomicWriter.tmp_ne (w : AtomicWriter) : w.finalPath ≠ w.tmpPath :=
  fun h ↦ w.apart (h ▸ w.opened)

/-- What is written to a file does not show where the file is not. -/
theorem at_write {p : Path} {i : Nat} (h : disk.node? p ≠ some (.file i)) (d : Text) :
    Disk.at (disk.write i d) p = disk.at p := by
  unfold Disk.at
  rw [Fs.node?_write]
  cases hn : disk.node? p with
  | none => rfl
  | some n =>
    cases n with
    | file j =>
      have hji : j ≠ i := fun he ↦ h (by rw [hn, he])
      simp [Function.update_of_ne hji]
    | symlink target => rfl
    | dir => rfl

/-- A new file does not show where it is not. -/
theorem at_addFile {p q : Path} (h : p ≠ q) (d : Text) :
    Disk.at (disk.addFile q d) p = disk.at p := by
  unfold Disk.at
  rw [Fs.node?_addFile, if_neg h]
  cases hn : disk.node? p with
  | none => rfl
  | some n =>
    cases n with
    | file i => simp [Fs.data_addFile hn]
    | symlink target => rfl
    | dir => rfl

/-- Opening leaves the final path alone. -/
theorem at_atomicWriterOpen {path : Path} {pid : Nat}
    (h : atomicWriterOpen disk path pid = some w) : w.finalPath = path ∧
      w.disk.at path = disk.at path := by
  unfold atomicWriterOpen at h
  split at h
  · cases h
    exact ⟨rfl, at_addFile (makeTmpPath_ne path pid) []⟩
  · split at h
    · cases h
    · next ha =>
      cases h
      exact ⟨rfl, at_write ha []⟩
  · cases h

/-- What is written does not show at the final path. -/
theorem at_written (w : AtomicWriter) (fp : Stream UInt8) :
    (w.written fp).at w.finalPath = w.disk.at w.finalPath := at_write w.apart fp.file

theorem at_dropTmp {p tmpPath : Path} (hp : p ≠ tmpPath) :
    (disk.dropTmp tmpPath).at p = disk.at p := by
  unfold Disk.dropTmp Fs.unlink
  cases disk.node? tmpPath with
  | none => rfl
  | some n =>
    cases n with
    | dir => rfl
    | file i => simp [Disk.at, hp]
    | symlink target => simp [Disk.at, hp]

/-- The rename is refused, or the final path has what the stream has written out. -/
theorem renameOr_written (w : AtomicWriter) (fp : Stream UInt8) (reply : Option Errno) :
    (∃ e, (w.written fp).renameOr w.tmpPath w.finalPath reply = .error e) ∧
        (reply.isSome ∨ w.disk.node? w.finalPath = some .dir ∨
          w.disk.device w.tmpPath ≠ w.disk.device w.finalPath) ∨
      (∃ disk, (w.written fp).renameOr w.tmpPath w.finalPath reply = .ok disk ∧
          disk.Has w.finalPath fp.file) ∧
        ¬ (reply.isSome ∨ w.disk.node? w.finalPath = some .dir ∨
          w.disk.device w.tmpPath ≠ w.disk.device w.finalPath) := by
  have hopened : (w.written fp).node? w.tmpPath = some (.file w.ino) := w.opened
  cases reply with
  | some e => exact Or.inl ⟨⟨e, rfl⟩, Or.inl rfl⟩
  | none =>
    have hiff : (∃ disk, (w.written fp).rename w.tmpPath w.finalPath = .ok disk) ↔
        w.disk.node? w.finalPath ≠ some .dir ∧ w.disk.device w.tmpPath = w.disk.device w.finalPath :=
      Fs.rename_ok_iff hopened (by simp)
    cases hcall : (w.written fp).rename w.tmpPath w.finalPath with
    | error e =>
      left
      refine ⟨⟨e, hcall⟩, Or.inr ?_⟩
      by_contra hno
      obtain ⟨disk, hok⟩ := hiff.mpr (by simpa using hno)
      rw [hcall] at hok
      cases hok
    | ok disk =>
      right
      have hgoes := hiff.mp ⟨disk, hcall⟩
      obtain ⟨n, hn, -, hdata, hnodes⟩ := Fs.rename_ok hcall
      rw [hopened] at hn
      cases hn
      refine ⟨⟨disk, hcall, w.ino, ?_, ?_⟩, by simpa using hgoes⟩
      · rcases hnodes with ⟨hsame, -⟩ | hnodes
        · exact absurd hsame w.apart
        · rw [hnodes, if_neg w.tmp_ne, if_pos rfl]
      · rw [hdata]
        exact Function.update_self ..

/-- A commit that is refused leaves the final path alone; one that is not returns zero and puts
there what the stream has written out. -/
theorem atomicWriterCommit_spec (w : AtomicWriter) (fp : Stream UInt8) (r : CommitReplies) :
    (w.Refused r ∧ (atomicWriterCommit w fp r).1 ≠ 0 ∧
        (atomicWriterCommit w fp r).2.at w.finalPath = w.disk.at w.finalPath) ∨
      (¬ w.Refused r ∧ (atomicWriterCommit w fp r).1 = 0 ∧
        (atomicWriterCommit w fp r).2.Has w.finalPath (fp.drain r.flush).file) := by
  have hkept : ((w.written (fp.drain r.flush)).dropTmp w.tmpPath).at w.finalPath =
      w.disk.at w.finalPath := by
    rw [at_dropTmp w.tmp_ne, at_written]
  have hfail : (-1 : Int) ≠ 0 := by decide
  unfold atomicWriterCommit
  dsimp only
  rw [Stream.drain_drain]
  by_cases hsync : r.fsync.isSome = true
  · left
    rw [if_pos hsync, if_pos hfail]
    exact ⟨Or.inl hsync, hfail, hkept⟩
  · rw [if_neg hsync, if_neg (by decide)]
    rcases renameOr_written w (fp.drain r.flush) r.rename with ⟨⟨e, he⟩, hr⟩ | ⟨⟨disk, hd, hhas⟩, hr⟩
    · left
      rw [he]
      exact ⟨Or.inr hr, hfail, hkept⟩
    · right
      rw [hd]
      exact ⟨fun h ↦ h.elim hsync hr, rfl, hhas⟩

/-- A commit is all or nothing exactly where it is refused by `fsync` or `rename`, or the stream has
lost nothing: its error indicator is clear, and the last write of its buffer goes through. -/
theorem commit_all_or_none_iff (w : AtomicWriter) (writes : List (Text × List (Nat × Drain)))
    (r : CommitReplies) :
    AllOrNone w (writes.map Prod.fst).flatten
        (atomicWriterCommit w (Stream.new.writeAll writes) r) ↔
      w.Refused r ∨ ((Stream.new.writeAll writes).error = false ∧
        (Stream.new.writeAll writes).cutsOff r.flush = false) := by
  have hkeeps := Stream.keeps_new.writeAll writes
  rw [List.nil_append] at hkeeps
  generalize Stream.new.writeAll writes = fp at hkeeps ⊢
  have hfile := (hkeeps.drain r.flush).file_eq_iff (Stream.buffer_drain fp r.flush)
  rw [Stream.error_drain, Bool.or_eq_false_iff] at hfile
  rcases atomicWriterCommit_spec w fp r with ⟨hr, hrc, hat⟩ | ⟨hr, hrc, hhas⟩
  · exact iff_of_true (Or.inr ⟨hrc, hat⟩) (Or.inl hr)
  · rw [or_iff_right hr, ← hfile]
    constructor
    · rintro (⟨-, i, hi, hdata⟩ | ⟨hne, -⟩)
      · obtain ⟨j, hj, hdata'⟩ := hhas
        rw [hi] at hj
        cases hj
        rw [← hdata, hdata']
      · exact absurd hrc hne
    · intro he
      rw [he] at hhas
      exact Or.inl ⟨hrc, hhas⟩

/-- An abort leaves the final path alone. -/
theorem at_atomicWriterAbort (w : AtomicWriter) (fp : Stream UInt8) (closeFlush : Drain) :
    (atomicWriterAbort w fp closeFlush).at w.finalPath = w.disk.at w.finalPath := by
  rw [atomicWriterAbort, at_dropTmp w.tmp_ne, at_written]

end Commit

namespace NoSpace

/-- There is nothing on the disk. -/
def disk : Disk := Fs.empty fun _ ↦ []

def path : Path := [ascii "catalog.json"]

theorem node?_addFile_path (tmp : Path) (h : path ≠ tmp) (d : Text) :
    (disk.addFile tmp d).node? path = none := by
  rw [Fs.node?_addFile, if_neg h]
  rfl

def writer : AtomicWriter where
  finalPath := path
  tmpPath := makeTmpPath path 7
  disk := disk.addFile (makeTmpPath path 7) []
  ino := 0
  opened := by
    rw [Fs.node?_addFile, if_pos rfl]
    rfl
  apart := by
    rw [node?_addFile_path _ (makeTmpPath_ne path 7)]
    exact fun h ↦ by cases h

/-- The space runs out when `fflush` writes the buffer; the calls after it succeed. -/
def replies : CommitReplies where
  flush := .fails 0
  fsync := none
  closeFlush := .all
  close := none
  rename := none

theorem opens : atomicWriterOpen disk path 7 = some writer := rfl

/-- Zero is returned, and the final path has an empty file. -/
theorem empty_catalog_published :
    atomicWriterOpen disk path 7 = some writer ∧
      ¬ AllOrNone writer (ascii "[]\n")
        (atomicWriterCommit writer (Stream.new.writeAll [(ascii "[]\n", [])]) replies) := by
  refine ⟨opens, ?_⟩
  have hrefused : ¬ writer.Refused replies := by
    rintro (h | h | h | h)
    · cases h
    · cases h
    · rw [show writer.disk.node? writer.finalPath = none from
        node?_addFile_path _ (makeTmpPath_ne path 7) []] at h
      cases h
    · exact h rfl
  rcases atomicWriterCommit_spec writer (Stream.new.writeAll [(ascii "[]\n", [])]) replies with
    ⟨hr, -⟩ | ⟨-, hrc, i, hi, hdata⟩
  · exact absurd hr hrefused
  · rintro (⟨-, j, hj, hdata'⟩ | ⟨hne, -⟩)
    · rw [hi] at hj
      cases hj
      rw [hdata] at hdata'
      revert hdata'
      decide
    · exact hne hrc

end NoSpace

end Nocturne
