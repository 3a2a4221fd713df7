import Nocturne.Scan.Walk
import Nocturne.Watch.Loop

/-!
# The watched tree

The directories under the library root, the inotify watches that the kernel keeps for their inodes,
and the map of the watcher from watch descriptors to paths. Directories are created, removed and
moved at any time, also between the system calls of `add_watches_recursive`.
-/

namespace Nocturne

open Lib Lib.Steps

/-- `IN_MOVED_FROM`. -/
def inMovedFrom : UInt32 := 0x40

/-- `IN_MOVED_TO`. -/
def inMovedTo : UInt32 := 0x80

/-- `IN_DELETE`. -/
def inDelete : UInt32 := 0x200

/-! ### Trees of directories -/

/-- The directories at and below a path, each with its inode. -/
structure DirTree (root : Path) where
  dirs : Table Path Nat
  top : (dirs.get? root).isSome
  below : ∀ p i, dirs.get? p = some i → root <+: p
  closed : ∀ p i, dirs.get? p = some i → ∀ q, root <+: q → q <+: p → (dirs.get? q).isSome
  unique : ∀ p q i, dirs.get? p = some i → dirs.get? q = some i → p = q

private theorem eq_root {root p : Path} {inode i : Nat}
    (h : (Table.empty.put root inode).get? p = some i) : p = root := by
  by_contra hne
  rw [Table.get?_put_ne _ _ hne] at h
  cases h

/-- A directory without directories in it. -/
def DirTree.single (root : Path) (inode : Nat) : DirTree root where
  dirs := Table.empty.put root inode
  top := by rw [Table.get?_put_self]; rfl
  below p i h := eq_root h ▸ List.prefix_rfl
  closed p i h q hq hqp := by
    rw [eq_root h] at hqp
    rw [hqp.eq_of_length_le hq.length_le, Table.get?_put_self]
    rfl
  unique p q i hp hq := by rw [eq_root hp, eq_root hq]

/-- The tree without a directory and what is below it. -/
def cutDir (dirs : Table Path Nat) (src : Path) : Table Path Nat :=
  dirs.keep fun p _ ↦ !src.isPrefixOf p

/-- The tree with directories added. -/
def graftDirs (dirs : Table Path Nat) (rows : List (Path × Nat)) : Table Path Nat :=
  rows.foldl (fun t r ↦ t.put r.1 r.2) dirs

/-- A directory and what is below it, at their paths after a move. -/
def movedRows (dirs : Table Path Nat) (src dst : Path) : List (Path × Nat) :=
  (dirs.rows.filter fun r ↦ src.isPrefixOf r.1).map fun r ↦ (dst ++ r.1.drop src.length, r.2)

/-- The names of the directories in the directory with an inode. -/
def dirNames (dirs : Table Path Nat) (inode : Nat) : List Name :=
  dirs.rows.filterMap fun r ↦
    if dirs.get? r.1.dropLast = some inode then r.1.getLast? else none

theorem get?_cutDir (dirs : Table Path Nat) (src p : Path) :
    (cutDir dirs src).get? p = if src <+: p then none else dirs.get? p := by
  unfold cutDir
  rw [Table.get?_keep]
  by_cases hp : src <+: p
  · rw [if_pos hp, List.isPrefixOf_iff_prefix.mpr hp]
    cases dirs.get? p <;> rfl
  · have hfalse : src.isPrefixOf p = false :=
      Bool.eq_false_iff.mpr fun h ↦ hp (List.isPrefixOf_iff_prefix.mp h)
    rw [if_neg hp, hfalse]
    cases dirs.get? p <;> rfl

/-- A directory that no row is about. -/
theorem get?_graftDirs_of_notMem {rows : List (Path × Nat)} {p : Path}
    (h : p ∉ rows.map Prod.fst) (dirs : Table Path Nat) :
    (graftDirs dirs rows).get? p = dirs.get? p := by
  induction rows generalizing dirs with
  | nil => rfl
  | cons r rows ih =>
    rw [List.map_cons, List.mem_cons, not_or] at h
    show (graftDirs (dirs.put r.1 r.2) rows).get? p = _
    rw [ih h.2, Table.get?_put_ne _ _ h.1]

/-- Every directory was there or is in a row. -/
theorem get?_graftDirs {rows : List (Path × Nat)} {p : Path} {i : Nat} (dirs : Table Path Nat)
    (h : (graftDirs dirs rows).get? p = some i) :
    (p, i) ∈ rows ∨ dirs.get? p = some i := by
  induction rows generalizing dirs with
  | nil => exact Or.inr h
  | cons r rows ih =>
    rcases ih (dirs.put r.1 r.2) h with hmem | hput
    · exact Or.inl (List.mem_cons_of_mem _ hmem)
    · rw [Table.get?_put] at hput
      split at hput
      · next he =>
        cases hput
        exact Or.inl (by simp [he])
      · exact Or.inr hput

theorem mem_movedRows {dirs : Table Path Nat} {src dst p : Path} {i : Nat} :
    (p, i) ∈ movedRows dirs src dst ↔ ∃ t, dirs.get? (src ++ t) = some i ∧ p = dst ++ t := by
  unfold movedRows
  simp only [List.mem_map, List.mem_filter, Prod.exists, Prod.mk.injEq,
    List.isPrefixOf_iff_prefix]
  constructor
  · rintro ⟨q, j, ⟨hrow, t, rfl⟩, rfl, rfl⟩
    exact ⟨t, Table.mem_rows.mp hrow, by rw [List.drop_left]⟩
  · rintro ⟨t, hrow, rfl⟩
    exact ⟨src ++ t, i, ⟨Table.mem_rows.mpr hrow, List.prefix_append ..⟩, by rw [List.drop_left], rfl⟩

theorem mem_dirNames {dirs : Table Path Nat} {dir : Path} {name : Name} {inode i : Nat}
    (hdir : dirs.get? dir = some inode) (h : dirs.get? (dir ++ [name]) = some i) :
    name ∈ dirNames dirs inode := by
  refine List.mem_filterMap.mpr ⟨(dir ++ [name], i), Table.mem_rows.mpr h, ?_⟩
  simp [hdir]

/-! ### Kernel and watcher -/

/-- Where `add_watches_recursive` stands: between two directories, or behind a call for the one at a
path. The inode is that of the open `DIR`. -/
inductive WalkPhase where
  | idle
  | opened (dir : Path) (inode : Nat)
  | watched (dir : Path) (inode : Nat)
  deriving DecidableEq, Repr

/-- The directories, the watches of the kernel with `max_queued_events`, the events, and the watcher:
its map, the directories that the recursion comes to yet, and where it stands. The first events are
those that are in the buffer of the watcher already, the others are in the queue of the kernel. -/
structure WatchedTree where
  dirs : Table Path Nat
  watches : Table Nat Int
  nextWd : Int
  maxQueued : Nat
  queue : List InotifyEvent
  taken : Nat
  wdm : Table Int Path
  todo : List Path
  phase : WalkPhase
  hardError : Bool

/-- How an `opendir` goes where the directory exists. -/
inductive OpendirReply where
  | ok
  | denied
  | failed
  deriving DecidableEq, Repr

/-- What happens to the tree and to the files in it, and the steps of the watcher. -/
inductive CoverStep where
  | mkdir (parent : Path) (name : Name) (inode : Nat)
  | rmdir (dir : Path)
  /-- Onto an empty directory, this is a removal first. -/
  | rename (src dst : Path)
  | moveIn (dst : Path) (subtree : DirTree [])
  | moveOut (src : Path)
  /-- A removed directory is no longer in use. -/
  | release (inode : Nat)
  | file (dir : Path) (mask : UInt32) (name : Name)
  | read (count : Nat)
  | deliver
  | opendir (reply : OpendirReply)
  | addWatch (fails : Bool)
  | readdir

namespace WatchedTree

/-- The events of the inodes that are watched. -/
def events (s : WatchedTree) (notices : List (Option Nat × UInt32 × Name)) : List InotifyEvent :=
  notices.filterMap fun n ↦ (n.1.bind s.watches.get?).map fun wd ↦ ⟨wd, n.2.1, n.2.2⟩

/-- The event of a queue that has overflowed. -/
def overflowed : InotifyEvent := ⟨-1, inQOverflow, []⟩

/-- The events in the queue of the kernel. -/
def waiting (s : WatchedTree) : List InotifyEvent := s.queue.drop s.taken

/-- The kernel queues an event. A full queue takes none, but for one that says so; and an event like
the last one is merged with it. -/
def push (maxQueued taken : Nat) (queue : List InotifyEvent) (e : InotifyEvent) :
    List InotifyEvent :=
  if maxQueued ≤ (queue.drop taken).length then
    if (queue.drop taken).any fun e' ↦ decide (e' = overflowed) then queue
    else queue ++ [overflowed]
  else if (queue.drop taken).getLast? = some e ∧ e.has inIgnored = false then queue
  else queue ++ [e]

/-- The events behind those that there are. -/
def enqueue (s : WatchedTree) (events : List InotifyEvent) : List InotifyEvent :=
  events.foldl (push s.maxQueued s.taken) s.queue

/-- A change of the tree, with what it tells the watches. -/
def edit (s : WatchedTree) (dirs : Table Path Nat) (notices : List (Option Nat × UInt32 × Name)) :
    WatchedTree :=
  { s with
    dirs := dirs
    queue := s.enqueue (s.events notices) }

/-- The inode of the directory that a path is in. -/
def parentInode (s : WatchedTree) (p : Path) : Option Nat := s.dirs.get? p.dropLast

/-- The last name of a path. -/
def lastName (p : Path) : Name := p.getLast?.getD []

/-- An inode number that is neither in use nor held open. -/
def isFree (s : WatchedTree) (inode : Nat) : Bool :=
  (s.dirs.rows.all fun r ↦ r.2 != inode) && (s.watches.get? inode).isNone &&
    match s.phase with
    | .idle => true
    | .opened _ i => i != inode
    | .watched _ i => i != inode

/-- `mkdir(2)` below the root. -/
def mkdir (libraryRoot : Path) (s : WatchedTree) (parent : Path) (name : Name) (inode : Nat) : WatchedTree :=
  if isUnder libraryRoot (parent ++ [name]) && (s.dirs.get? parent).isSome &&
      (s.dirs.get? (parent ++ [name])).isNone && name != [] && s.isFree inode then
    s.edit (s.dirs.put (parent ++ [name]) inode) [(s.dirs.get? parent, inCreate ||| inIsdir, name)]
  else s

/-- `rmdir(2)` below the root. -/
def rmdir (libraryRoot : Path) (s : WatchedTree) (dir : Path) : WatchedTree :=
  if isUnder libraryRoot dir && (s.dirs.rows.all fun r ↦ !isUnder dir r.1) then
    s.edit (s.dirs.drop dir) [(s.parentInode dir, inDelete ||| inIsdir, lastName dir)]
  else s

/-- `rename(2)` below the root, of what exists to what does not. -/
def rename (libraryRoot : Path) (s : WatchedTree) (src dst : Path) : WatchedTree :=
  if isUnder libraryRoot src && isUnder libraryRoot dst && (s.dirs.get? src).isSome &&
      (s.dirs.get? dst).isNone && (s.parentInode dst).isSome && !src.isPrefixOf dst then
    s.edit (graftDirs (cutDir s.dirs src) (movedRows s.dirs src dst))
      [(s.parentInode src, inMovedFrom ||| inIsdir, lastName src),
        (s.parentInode dst, inMovedTo ||| inIsdir, lastName dst),
        (s.dirs.get? src, inMoveSelf ||| inIsdir, [])]
  else s

/-- `rename(2)` from elsewhere to below the root. -/
def moveIn (libraryRoot : Path) (s : WatchedTree) (dst : Path) (subtree : DirTree []) :
    WatchedTree :=
  if isUnder libraryRoot dst && (s.dirs.get? dst).isNone && (s.parentInode dst).isSome &&
      (subtree.dirs.rows.all fun r ↦ s.dirs.rows.all fun r' ↦ r'.2 != r.2) then
    s.edit (graftDirs s.dirs (subtree.dirs.rows.map fun r ↦ (dst ++ r.1, r.2)))
      [(s.parentInode dst, inMovedTo ||| inIsdir, lastName dst),
        (subtree.dirs.get? [], inMoveSelf ||| inIsdir, [])]
  else s

/-- `rename(2)` from below the root to elsewhere. -/
def moveOut (libraryRoot : Path) (s : WatchedTree) (src : Path) : WatchedTree :=
  if isUnder libraryRoot src && (s.dirs.get? src).isSome then
    s.edit (cutDir s.dirs src)
      [(s.parentInode src, inMovedFrom ||| inIsdir, lastName src),
        (s.dirs.get? src, inMoveSelf ||| inIsdir, [])]
  else s

/-- The last use of an inode outside the tree ends, and its watch with it. -/
def release (s : WatchedTree) (inode : Nat) : WatchedTree :=
  match s.watches.get? inode with
  | some wd =>
    if s.dirs.rows.all fun r ↦ r.2 != inode then
      { s with
        watches := s.watches.drop inode
        queue := s.enqueue [⟨wd, inDeleteSelf, []⟩, ⟨wd, inIgnored, []⟩] }
    else s
  | none => s

/-- Something happens to a file in a directory, which only its watch is told. -/
def file (s : WatchedTree) (dir : Path) (mask : UInt32) (name : Name) : WatchedTree :=
  if mask &&& (inIsdir ||| inIgnored ||| inDeleteSelf ||| inMoveSelf) = 0 then
    s.edit s.dirs [(s.dirs.get? dir, mask, name)]
  else s

/-- `read(2)`, `watch.c:578`, once the events of the last one are handled: as many as there are and
the buffer has room for. -/
def read (s : WatchedTree) (count : Nat) : WatchedTree :=
  if s.taken = 0 then { s with taken := min count s.queue.length } else s

/-- The next event is handled, `watch.c:582–617`. A new directory is the first that
`add_watches_recursive` comes to. -/
def deliver (libraryRoot : Path) (s : WatchedTree) : WatchedTree :=
  match s.hardError, s.phase, s.todo, s.taken, s.queue with
  | false, .idle, [], taken + 1, e :: queue =>
    match s.wdm.get? e.wd with
    | none => { s with queue := queue, taken := taken }
    | some dir =>
      if e.has (inDeleteSelf ||| inMoveSelf) && dir == libraryRoot then
        { s with queue := queue, taken := taken, hardError := true }
      else
        { s with
          queue := queue
          taken := taken
          todo := (e.created dir).toList
          wdm := if e.has inIgnored then s.wdm.drop e.wd else s.wdm }
  | _, _, _, _, _ => s

/-- `lstat` and `opendir`, `watch.c:325–329` and `352–353`. Where `opendir` fails with another error
than `EACCES` and `ENOENT`, every call of the recursion returns −1. -/
def opendir (s : WatchedTree) (reply : OpendirReply) : WatchedTree :=
  match s.phase, s.todo with
  | .idle, dir :: todo =>
    match s.dirs.get? dir, reply with
    | none, _ => { s with todo := todo }
    | some inode, .ok => { s with todo := todo, phase := .opened dir inode }
    | some _, .denied => { s with todo := todo }
    | some _, .failed => { s with todo := [] }
  | _, _ => s

/-- `inotify_add_watch` and `wdm_set`, `watch.c:330–341`. The path is looked up once more, and an
inode with a watch keeps its descriptor. Where it fails, every call of the recursion returns −1. -/
def addWatch (s : WatchedTree) (fails : Bool) : WatchedTree :=
  match s.phase with
  | .opened dir inode =>
    match s.dirs.get? dir, fails with
    | some i, false =>
      match s.watches.get? i with
      | some wd => { s with wdm := s.wdm.put wd dir, phase := .watched dir inode }
      | none =>
        { s with
          watches := s.watches.put i s.nextWd
          nextWd := s.nextWd + 1
          wdm := s.wdm.put s.nextWd dir
          phase := .watched dir inode }
    | _, _ => { s with todo := [], phase := .idle }
  | _ => s

/-- The `readdir` loop, `watch.c:345–353`: the directories that the recursion comes to next. -/
def readdir (s : WatchedTree) : WatchedTree :=
  match s.phase with
  | .watched dir inode =>
    { s with
      phase := .idle
      todo := (((dirNames s.dirs inode).filter fun n ↦
        n.head? != some dot && fitsPath (dir ++ [n])).map fun n ↦ dir ++ [n]) ++ s.todo }
  | _ => s

/-- One step. -/
def step (libraryRoot : Path) (s : WatchedTree) : CoverStep → WatchedTree
  | .mkdir parent name inode => s.mkdir libraryRoot parent name inode
  | .rmdir dir => s.rmdir libraryRoot dir
  | .rename src dst => s.rename libraryRoot src dst
  | .moveIn dst subtree => s.moveIn libraryRoot dst subtree
  | .moveOut src => s.moveOut libraryRoot src
  | .release inode => s.release inode
  | .file dir mask name => s.file dir mask name
  | .read count => s.read count
  | .deliver => s.deliver libraryRoot
  | .opendir reply => s.opendir reply
  | .addWatch fails => s.addWatch fails
  | .readdir => s.readdir

/-- The start of the watcher, before its first walk. -/
def init {libraryRoot : Path} (library : DirTree libraryRoot) (maxQueued : Nat) : WatchedTree where
  dirs := library.dirs
  watches := .empty
  nextWd := 1
  maxQueued := maxQueued
  queue := []
  taken := 0
  wdm := .empty
  todo := [libraryRoot]
  phase := .idle
  hardError := false

end WatchedTree

/-- A path under the root without a component that starts with a dot. -/
def isPlainPath (libraryRoot path : Path) : Bool :=
  libraryRoot.isPrefixOf path && !isHidden libraryRoot path

/-- When no event and no directory is left to be handled, each plain directory has a watch, and the
map gives its path. -/
def WatchedTree.Covers (libraryRoot : Path) (s : WatchedTree) : Prop :=
  s.queue = [] → s.phase = .idle → s.todo = [] → ∀ p i, isPlainPath libraryRoot p = true →
    s.dirs.get? p = some i → ∃ wd, s.watches.get? i = some wd ∧ s.wdm.get? wd = some p

/-- A plain directory is among the paths. -/
def WatchedTree.anyPlain (libraryRoot : Path) (s : WatchedTree) (paths : List Path) : Bool :=
  paths.any fun p ↦ isPlainPath libraryRoot p && (s.dirs.get? p).isSome

/-- The recursion has yet to come to a directory, or to one above it, or to read it. -/
def WatchedTree.comesTo (libraryRoot : Path) (s : WatchedTree) (p : Path) : Bool :=
  (s.todo.any fun q ↦ libraryRoot.isPrefixOf q && q.isPrefixOf p) ||
    match s.phase with
    | .idle => false
    | .opened q inode | .watched q inode =>
      libraryRoot.isPrefixOf q && q.isPrefixOf p && decide (s.dirs.get? q = some inode)

/-- The event of a new directory is not lost: the queue of the kernel has room for it, or the directory
that it is in has no watch yet, or is still to be read. -/
def WatchedTree.heard (libraryRoot : Path) (s : WatchedTree) (parent : Path) : Bool :=
  decide (s.waiting.length < s.maxQueued) ||
    ((s.dirs.get? parent).bind s.watches.get?).isNone || s.comesTo libraryRoot parent

/-- Directories are not moved to plain paths, plain paths fit the buffer, no event of a new plain
directory is lost, and no plain directory is left behind by a call that fails. -/
def WatchedTree.Followed (libraryRoot : Path) (s : WatchedTree) : CoverStep → Bool
  | .mkdir parent name _ =>
    !isPlainPath libraryRoot (parent ++ [name]) ||
      fitsPath (parent ++ [name]) && s.heard libraryRoot parent
  | .rename _ dst => !isPlainPath libraryRoot dst
  | .moveIn dst _ => !isPlainPath libraryRoot dst
  | .opendir .denied => !s.anyPlain libraryRoot (s.todo.take 1)
  | .opendir .failed => !s.anyPlain libraryRoot s.todo
  | .addWatch fails =>
    match s.phase with
    | .opened dir _ =>
      !fails && (s.dirs.get? dir).isSome || !s.anyPlain libraryRoot (dir :: s.todo)
    | _ => true
  | _ => true

end Nocturne
