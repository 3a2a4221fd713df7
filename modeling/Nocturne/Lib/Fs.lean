import Nocturne.Lib.Table

/-!
# A file tree with hard links and symbolic links

Directory entries are keyed by their full path, a list of names. A regular file is an
inode number, so that two entries can be one file; a symbolic link holds an absolute
path. Contents belong to inodes. The system calls are partial functions with the error
they return; each one that goes through is described by its effect on `node?` and `data`.
Missing parent directories are not an error here: callers make them first, or look their paths up.
-/

namespace Lib

/-- The errors of the system calls that a caller distinguishes. -/
inductive Errno where
  | EEXIST
  | EXDEV
  | ENOENT
  | EISDIR
  | ENOTDIR
  | EPERM
  | ELOOP
  | EAGAIN
  | other (code : Nat)
  deriving DecidableEq, Repr

/-- A directory entry. -/
inductive Node (ν : Type) where
  | file (ino : Nat)
  | symlink (target : List ν)
  | dir
  deriving DecidableEq, Repr

/-- A file tree over names `ν` and file contents `κ`. Inode numbers from `next` on are
unused. -/
structure Fs (ν κ : Type) [DecidableEq ν] where
  nodes : Table (List ν) (Node ν)
  data : Nat → κ
  next : Nat
  device : List ν → Nat
  fresh : ∀ {p : List ν} {i : Nat}, nodes.get? p = some (.file i) → i < next

namespace Fs

variable {ν κ : Type} [DecidableEq ν]

/-- The tree without an entry, on one device. -/
def empty (data : Nat → κ) : Fs ν κ where
  nodes := .empty
  data
  next := 0
  device _ := 0
  fresh h := by cases h

/-- `lstat`: the entry itself. -/
def node? (fs : Fs ν κ) (p : List ν) : Option (Node ν) := fs.nodes.get? p

/-- The path that symbolic links lead to, following at most `fuel` of them. -/
def locate (fs : Fs ν κ) : (fuel : Nat) → List ν → Option (List ν)
  | 0, _ => none
  | fuel + 1, p =>
    match fs.node? p with
    | some (.symlink target) => locate fs fuel target
    | _ => some p

/-- The kernel gives up after forty symbolic links. -/
def maxSymlinks : Nat := 40

/-- `stat`: the entry that the path leads to. -/
def stat? (fs : Fs ν κ) (p : List ν) : Option (Node ν) :=
  (fs.locate (maxSymlinks + 1) p).bind fs.node?

/-- `stat` succeeds and `S_ISREG` holds. -/
def isReg (fs : Fs ν κ) (p : List ν) : Bool :=
  match fs.stat? p with
  | some (.file _) => true
  | _ => false

/-- Contents of the regular file that the path leads to. -/
def read? (fs : Fs ν κ) (p : List ν) : Option κ :=
  match fs.stat? p with
  | some (.file i) => some (fs.data i)
  | _ => none

/-- Names of the entries in a directory. -/
def children (fs : Fs ν κ) (d : List ν) : List ν :=
  fs.nodes.rows.filterMap fun r ↦
    match r.1.getLast? with
    | some n => if r.1 = d ++ [n] then some n else none
    | none => none

/-- The entry at `p` itself is a regular file with contents `d`. -/
def Has (fs : Fs ν κ) (p : List ν) (d : κ) : Prop :=
  ∃ i, fs.node? p = some (.file i) ∧ fs.data i = d

/-- Put an entry at `p`. -/
def place (fs : Fs ν κ) (p : List ν) (n : Node ν) (h : ∀ i, n = .file i → i < fs.next) :
    Fs ν κ :=
  { fs with
    nodes := fs.nodes.put p n
    fresh := fun {q i} hq ↦ by
      rw [Table.get?_put] at hq
      split at hq
      · exact h i (Option.some.inj hq)
      · exact fs.fresh hq }

/-- Remove the entry at `p`. -/
def clear (fs : Fs ν κ) (p : List ν) : Fs ν κ :=
  { fs with
    nodes := fs.nodes.drop p
    fresh := fun {q i} hq ↦ by
      rw [Table.get?_drop] at hq
      split at hq
      · cases hq
      · exact fs.fresh hq }

/-- Overwrite the contents of an inode. -/
def write (fs : Fs ν κ) (i : Nat) (d : κ) : Fs ν κ :=
  { fs with data := Function.update fs.data i d }

/-- Put a new regular file at `p`. -/
def addFile (fs : Fs ν κ) (p : List ν) (d : κ) : Fs ν κ where
  nodes := fs.nodes.put p (.file fs.next)
  data := Function.update fs.data fs.next d
  next := fs.next + 1
  device := fs.device
  fresh := fun {q i} hq ↦ by
    rw [Table.get?_put] at hq
    split at hq
    · cases hq
      exact Nat.lt_succ_self _
    · exact Nat.lt_succ_of_lt (fs.fresh hq)

/-- `link(2)`: a second entry for a file, or for a symbolic link itself. -/
def link (fs : Fs ν κ) (old new : List ν) : Except Errno (Fs ν κ) :=
  match h : fs.node? old with
  | none => .error .ENOENT
  | some n =>
    if fs.node? new ≠ none then .error .EEXIST
    else if fs.device old ≠ fs.device new then .error .EXDEV
    else if n = .dir then .error .EPERM
    else .ok (fs.place new n fun _ hi ↦ fs.fresh (by rw [← hi]; exact h))

/-- `unlink(2)`. -/
def unlink (fs : Fs ν κ) (p : List ν) : Except Errno (Fs ν κ) :=
  match fs.node? p with
  | none => .error .ENOENT
  | some .dir => .error .EISDIR
  | some _ => .ok (fs.clear p)

/-- `rename(2)` of an entry that is not a directory. Two entries of one file are both
left in place. -/
def rename (fs : Fs ν κ) (old new : List ν) : Except Errno (Fs ν κ) :=
  match h : fs.node? old with
  | none => .error .ENOENT
  | some n =>
    if n = .dir then .error .EPERM
    else if fs.node? new = some .dir then .error .EISDIR
    else if fs.device old ≠ fs.device new then .error .EXDEV
    else if fs.node? new = some n then .ok fs
    else .ok ((fs.place new n fun _ hi ↦ fs.fresh (by rw [← hi]; exact h)).clear old)

/-- `open(2)` with `O_CREAT | O_EXCL`: never follows a symbolic link. -/
def createExcl (fs : Fs ν κ) (p : List ν) (d : κ) : Except Errno (Fs ν κ) :=
  if fs.node? p ≠ none then .error .EEXIST else .ok (fs.addFile p d)

/-- `open(2)` with `O_CREAT | O_TRUNC` and a write of the whole contents: symbolic links
are followed and an existing file keeps its inode. -/
def overwrite (fs : Fs ν κ) (p : List ν) (d : κ) : Except Errno (Fs ν κ) :=
  match fs.locate (maxSymlinks + 1) p with
  | none => .error .ELOOP
  | some q =>
    match fs.node? q with
    | none => .ok (fs.addFile q d)
    | some (.file i) => .ok (fs.write i d)
    | some _ => .error .EISDIR

/-- `mkdir(2)` where an existing entry is left alone. -/
def mkdir (fs : Fs ν κ) (p : List ν) : Except Errno (Fs ν κ) :=
  match fs.node? p with
  | none => .ok (fs.place p .dir (fun _ h ↦ by cases h))
  | some _ => .error .EEXIST

/-- The root, or the path of a directory. -/
def IsDir (fs : Fs ν κ) (d : List ν) : Prop := d = [] ∨ fs.node? d = some .dir

instance (fs : Fs ν κ) (d : List ν) : Decidable (fs.IsDir d) :=
  inferInstanceAs (Decidable (_ ∨ _))

/-- The directory that an entry of this path belongs to is there. -/
def HasDir (fs : Fs ν κ) (p : List ν) : Prop := fs.IsDir p.dropLast

instance (fs : Fs ν κ) (p : List ν) : Decidable (fs.HasDir p) :=
  inferInstanceAs (Decidable (fs.IsDir _))

/-- `rename(2)` to a path whose directory may be missing. -/
def renameInto (fs : Fs ν κ) (old new : List ν) : Except Errno (Fs ν κ) :=
  if fs.HasDir new then fs.rename old new else .error .ENOENT

/-- `mkdir(2)` in a directory that may be missing. -/
def mkdirIn (fs : Fs ν κ) (p : List ν) : Except Errno (Fs ν κ) :=
  if fs.HasDir p then fs.mkdir p else .error .ENOENT

/-- `rmdir(2)`. -/
def rmdir (fs : Fs ν κ) (p : List ν) : Except Errno (Fs ν κ) :=
  match fs.node? p with
  | some .dir => if fs.children p = [] then .ok (fs.clear p) else .error .EEXIST
  | some _ => .error .ENOTDIR
  | none => .error .ENOENT

variable {fs fs' : Fs ν κ} {p q old new : List ν} {d : κ} {n : Node ν} {i : Nat}

/-! ### Primitive changes -/

/-- An entry is put at one path. -/
@[simp] theorem node?_place {h : ∀ i, n = .file i → i < fs.next} :
    (fs.place p n h).node? q = if q = p then some n else fs.node? q := Table.get?_put _ _ _ _

@[simp] theorem data_place {h : ∀ i, n = .file i → i < fs.next} :
    (fs.place p n h).data = fs.data := rfl

/-- One entry is gone. -/
@[simp] theorem node?_clear : (fs.clear p).node? q = if q = p then none else fs.node? q :=
  Table.get?_drop _ _ _

@[simp] theorem data_clear : (fs.clear p).data = fs.data := rfl

@[simp] theorem node?_write : (fs.write i d).node? q = fs.node? q := rfl

@[simp] theorem data_write : (fs.write i d).data = Function.update fs.data i d := rfl

/-- A new file has a new number. -/
@[simp] theorem node?_addFile :
    (fs.addFile p d).node? q = if q = p then some (.file fs.next) else fs.node? q :=
  Table.get?_put _ _ _ _

/-- A new file leaves the contents of the files that exist alone. -/
theorem data_addFile (h : fs.node? q = some (.file i)) :
    (fs.addFile p d).data i = fs.data i :=
  Function.update_of_ne (Nat.ne_of_lt (fs.fresh h)) _ _

@[simp] theorem data_addFile_self : (fs.addFile p d).data fs.next = d :=
  Function.update_self _ _ _

/-! ### Following links -/

/-- An entry that is no symbolic link is what `stat` sees. -/
theorem stat?_of_node (h : fs.node? p = some n) (hn : ∀ t, n ≠ .symlink t) :
    fs.stat? p = some n := by
  have hl : fs.locate (maxSymlinks + 1) p = some p := by
    unfold locate
    rw [h]
    cases n with
    | symlink t => exact absurd rfl (hn t)
    | file i => rfl
    | dir => rfl
  rw [stat?, hl]
  exact h

/-- `stat` of a file. -/
theorem stat?_file (h : fs.node? p = some (.file i)) : fs.stat? p = some (.file i) :=
  stat?_of_node h (fun _ he ↦ by cases he)

/-- Nothing there, nothing seen. -/
theorem stat?_none (h : fs.node? p = none) : fs.stat? p = none := by
  have hl : fs.locate (maxSymlinks + 1) p = some p := by
    unfold locate
    rw [h]
  rw [stat?, hl]
  exact h

/-- A file is a regular file. -/
theorem isReg_file (h : fs.node? p = some (.file i)) : fs.isReg p = true := by
  rw [isReg, stat?_file h]

/-- A path that leads to a regular file has an entry. -/
theorem node?_of_isReg (h : fs.isReg p = true) : fs.node? p ≠ none := by
  intro hn
  rw [isReg, stat?_none hn] at h
  cases h

/-- What a file holds is read. -/
theorem read?_file (h : fs.node? p = some (.file i)) : fs.read? p = some (fs.data i) := by
  rw [read?, stat?_file h]

/-! ### System calls that go through -/

/-- `link` goes through from an entry that is no directory to a free path of its device. -/
theorem link_ok (h : fs.link old new = .ok fs') :
    ∃ n, fs.node? old = some n ∧ n ≠ .dir ∧ fs.node? new = none ∧
      fs.device old = fs.device new ∧
      (∀ q, fs'.node? q = if q = new then some n else fs.node? q) ∧ fs'.data = fs.data ∧
      fs'.device = fs.device := by
  unfold link at h
  split at h
  · cases h
  · next n hn =>
    split at h
    · cases h
    · next hnew =>
      split at h
      · cases h
      · next hdev =>
        split at h
        · cases h
        · next hd =>
          cases h
          exact ⟨n, hn, hd, not_not.mp hnew, not_not.mp hdev, fun _ ↦ node?_place, rfl, rfl⟩

/-- A free path of the same device can be linked. -/
theorem link_free (hold : fs.node? old = some n) (hn : n ≠ .dir) (hnew : fs.node? new = none)
    (hdev : fs.device old = fs.device new) : ∃ fs', fs.link old new = .ok fs' := by
  unfold link
  split
  · next h => rw [hold] at h; cases h
  · next m hm =>
    rw [hold] at hm
    cases hm
    rw [if_neg (by simpa using hnew), if_neg (by simpa using hdev), if_neg hn]
    exact ⟨_, rfl⟩

/-- The errors of `link` that depend on the entries. -/
theorem link_missing (h : fs.node? old = none) : fs.link old new = .error .ENOENT := by
  unfold link
  split
  · rfl
  · next m hm => rw [h] at hm; cases hm

/-- A name that is taken is not linked. -/
theorem link_exists (hold : fs.node? old ≠ none) (hnew : fs.node? new ≠ none) :
    fs.link old new = .error .EEXIST := by
  unfold link
  split
  · next h => exact absurd h hold
  · rw [if_pos hnew]

/-- A link does not cross devices. -/
theorem link_cross (hold : fs.node? old ≠ none) (hnew : fs.node? new = none)
    (hdev : fs.device old ≠ fs.device new) : fs.link old new = .error .EXDEV := by
  unfold link
  split
  · next h => exact absurd h hold
  · rw [if_neg (by simpa using hnew), if_pos hdev]

/-- `unlink` removes an entry that is no directory. -/
theorem unlink_ok (h : fs.unlink p = .ok fs') :
    (∃ n, fs.node? p = some n ∧ n ≠ .dir) ∧ fs' = fs.clear p := by
  unfold unlink at h
  split at h
  · cases h
  · cases h
  · next n hd hn =>
    cases h
    exact ⟨⟨n, hn, hd⟩, rfl⟩

/-- An entry that is no directory is removed. -/
theorem unlink_file (h : fs.node? p = some n) (hn : n ≠ .dir) :
    fs.unlink p = .ok (fs.clear p) := by
  unfold unlink
  rw [h]
  cases n with
  | dir => exact absurd rfl hn
  | file i => rfl
  | symlink t => rfl

/-- A free path is created. -/
theorem createExcl_free (h : fs.node? p = none) :
    fs.createExcl p d = .ok (fs.addFile p d) := if_neg (not_not.mpr h)

/-- `O_EXCL` creates a path that was free. -/
theorem createExcl_ok (h : fs.createExcl p d = .ok fs') :
    fs.node? p = none ∧ fs' = fs.addFile p d := by
  unfold createExcl at h
  split at h
  · cases h
  · next hp =>
    cases h
    exact ⟨not_not.mp hp, rfl⟩

/-- When a rename goes through. -/
theorem rename_ok_iff (h : fs.node? old = some n) (hn : n ≠ .dir) :
    (∃ fs', fs.rename old new = .ok fs') ↔
      fs.node? new ≠ some .dir ∧ fs.device old = fs.device new := by
  unfold rename
  split
  · next hnone =>
    rw [h] at hnone
    cases hnone
  · next m hm =>
    rw [h] at hm
    cases hm
    rw [if_neg hn]
    by_cases hdir : fs.node? new = some .dir
    · simp [hdir]
    · rw [if_neg hdir]
      by_cases hdev : fs.device old = fs.device new
      · rw [if_neg (not_not.mpr hdev)]
        refine iff_of_true ?_ ⟨hdir, hdev⟩
        split <;> exact ⟨_, rfl⟩
      · rw [if_pos hdev]
        simp [hdev]

/-- A `rename` that goes through moves the entry, unless it stands at the new path already. -/
theorem rename_ok (h : fs.rename old new = .ok fs') :
    ∃ n, fs.node? old = some n ∧ n ≠ .dir ∧ fs'.data = fs.data ∧
      ((fs.node? new = some n ∧ fs' = fs) ∨
        ∀ q, fs'.node? q = if q = old then none else if q = new then some n else fs.node? q) := by
  unfold rename at h
  split at h
  · cases h
  · next n hn =>
    by_cases hd : n = .dir
    · rw [if_pos hd] at h
      cases h
    · rw [if_neg hd] at h
      by_cases hnew : fs.node? new = some .dir
      · rw [if_pos hnew] at h
        cases h
      · rw [if_neg hnew] at h
        by_cases hdev : fs.device old = fs.device new
        · rw [if_neg (by simpa using hdev)] at h
          by_cases hsame : fs.node? new = some n
          · rw [if_pos hsame] at h
            cases h
            exact ⟨n, hn, hd, rfl, Or.inl ⟨hsame, rfl⟩⟩
          · rw [if_neg hsame] at h
            cases h
            exact ⟨n, hn, hd, rfl, Or.inr fun q ↦ by rw [node?_clear, node?_place]⟩
        · rw [if_pos hdev] at h
          cases h

/-- A `rename` uses no inode number. -/
theorem next_rename (h : fs.rename old new = .ok fs') : fs'.next = fs.next := by
  unfold rename at h
  split at h
  · cases h
  · repeat' split at h
    all_goals cases h
    all_goals rfl

/-! ### Missing directories -/

/-- A rename that goes through has found the directory of its new path. -/
theorem rename_of_renameInto (h : fs.renameInto old new = .ok fs') :
    fs.HasDir new ∧ fs.rename old new = .ok fs' := by
  unfold renameInto at h
  split at h
  · next hdir => exact ⟨hdir, h⟩
  · cases h

/-- A `mkdir` that goes through has found the directory of its path. -/
theorem mkdir_of_mkdirIn (h : fs.mkdirIn p = .ok fs') : fs.HasDir p ∧ fs.mkdir p = .ok fs' := by
  unfold mkdirIn at h
  split at h
  · next hdir => exact ⟨hdir, h⟩
  · cases h

/-- In a directory that is there a file is renamed. -/
theorem renameInto_of_hasDir (h : fs.HasDir new) : fs.renameInto old new = fs.rename old new :=
  if_pos h

/-- In a directory that is there one is made. -/
theorem mkdirIn_of_hasDir (h : fs.HasDir p) : fs.mkdirIn p = fs.mkdir p := if_pos h

end Fs

end Lib
