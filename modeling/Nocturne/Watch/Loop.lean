import Nocturne.Base
import Nocturne.Lib.Steps
import Nocturne.Lib.Table

/-!
# The loop of the watcher

`watch_run` queues the directory of each inotify event and scans it when nothing has happened there
for a while. A scan that finds the writer lock busy is skipped, and its entry is gone from the
queue. `no_update_dropped` says when each directory with an event is still to be scanned.
-/

namespace Nocturne

open Lib Lib.Steps

/-! ### The debounce queue -/

/-- `struct dq_entry`. -/
structure DqEntry where
  dir : Path
  deadlineMs : Int
  deriving DecidableEq, Repr

/-- The directories of the entries. -/
def dqDirs (items : List DqEntry) : List Path := items.map DqEntry.dir

/-- The loop of `dq_push`: a directory that is there gets the new deadline. -/
def pushEntry (dir : Path) (deadlineMs : Int) : List DqEntry → List DqEntry
  | [] => [⟨dir, deadlineMs⟩]
  | e :: es => if e.dir = dir then ⟨dir, deadlineMs⟩ :: es else e :: pushEntry dir deadlineMs es

/-- The loop of `dq_drain_due`: the entries that stay, what the callbacks leave, and how many were
due. -/
def drainEntries {σ : Type} (nowMs : Int) (cb : Path → σ → σ) :
    List DqEntry → σ → List DqEntry × σ × Nat
  | [], ud => ([], ud, 0)
  | e :: es, ud =>
    if e.deadlineMs ≤ nowMs then
      let out := drainEntries nowMs cb es (cb e.dir ud)
      (out.1, out.2.1, out.2.2 + 1)
    else
      let out := drainEntries nowMs cb es ud
      (e :: out.1, out.2.1, out.2.2)

theorem mem_dqDirs_pushEntry {dir d : Path} {deadlineMs : Int} {items : List DqEntry} :
    d ∈ dqDirs (pushEntry dir deadlineMs items) ↔ d = dir ∨ d ∈ dqDirs items := by
  unfold dqDirs
  induction items with
  | nil => simp [pushEntry]
  | cons e es ih =>
    unfold pushEntry
    split
    · next he => simp [he]
    · rw [List.map_cons, List.mem_cons, ih, List.map_cons, List.mem_cons, or_left_comm]

theorem nodup_pushEntry {dir : Path} {deadlineMs : Int} {items : List DqEntry}
    (h : (dqDirs items).Nodup) : (dqDirs (pushEntry dir deadlineMs items)).Nodup := by
  induction items with
  | nil => simp [pushEntry, dqDirs]
  | cons e es ih =>
    obtain ⟨hnew, hes⟩ := List.nodup_cons.mp h
    unfold pushEntry
    split
    · next he =>
      rw [he] at hnew
      exact List.nodup_cons.mpr ⟨hnew, hes⟩
    · next he =>
      refine List.nodup_cons.mpr ⟨fun hmem ↦ ?_, ih hes⟩
      exact (mem_dqDirs_pushEntry.mp hmem).elim he hnew

/-- What a drain keeps, runs and counts. -/
theorem drainEntries_eq {σ : Type} (nowMs : Int) (cb : Path → σ → σ) (items : List DqEntry)
    (ud : σ) : drainEntries nowMs cb items ud =
      (items.filter fun e ↦ !decide (e.deadlineMs ≤ nowMs),
        (dqDirs (items.filter fun e ↦ decide (e.deadlineMs ≤ nowMs))).foldl (fun ud d ↦ cb d ud) ud,
        (items.filter fun e ↦ decide (e.deadlineMs ≤ nowMs)).length) := by
  induction items generalizing ud with
  | nil => rfl
  | cons e es ih =>
    unfold drainEntries
    by_cases hdue : e.deadlineMs ≤ nowMs
    · simp [hdue, ih, dqDirs]
    · simp [hdue, ih]

/-- `struct debounce_queue`. No directory is queued twice. -/
structure DebounceQueue where
  items : List DqEntry
  debounceMs : Int
  nodup : (dqDirs items).Nodup

namespace DebounceQueue

/-- The directories of the queue. -/
def dirs (q : DebounceQueue) : List Path := dqDirs q.items

/-- The directories whose deadline has passed. -/
def due (q : DebounceQueue) (nowMs : Int) : List Path :=
  dqDirs (q.items.filter fun e ↦ decide (e.deadlineMs ≤ nowMs))

/-- `dq_init`. -/
def init (debounceMs : Int) : DebounceQueue := ⟨[], debounceMs, List.nodup_nil⟩

/-- `dq_push`, `watch.c:135–151`. -/
def push (q : DebounceQueue) (dir : Path) (nowMs : Int) : DebounceQueue :=
  { q with
    items := pushEntry dir (nowMs + q.debounceMs) q.items
    nodup := nodup_pushEntry q.nodup }

/-- `dq_drain_due`, `watch.c:153–174`, with the state of the callback. -/
def drainDue {σ : Type} (q : DebounceQueue) (nowMs : Int) (cb : Path → σ → σ) (ud : σ) :
    DebounceQueue × σ × Nat :=
  let out := drainEntries nowMs cb q.items ud
  ({ q with
      items := out.1
      nodup := by
        show (dqDirs (drainEntries nowMs cb q.items ud).1).Nodup
        rw [drainEntries_eq]
        exact q.nodup.sublist (List.Sublist.map _ List.filter_sublist) }, out.2)

variable {q : DebounceQueue} {dir d : Path} {nowMs : Int}

theorem mem_dirs_push : d ∈ (q.push dir nowMs).dirs ↔ d = dir ∨ d ∈ q.dirs := mem_dqDirs_pushEntry

/-- A drain takes exactly the due directories. -/
theorem mem_dirs_drainDue {σ : Type} {cb : Path → σ → σ} {ud : σ} :
    d ∈ (q.drainDue nowMs cb ud).1.dirs ↔ d ∈ q.dirs ∧ d ∉ q.due nowMs := by
  have hunique : ∀ {e e' : DqEntry}, e ∈ q.items → e' ∈ q.items → e.dir = e'.dir → e = e' :=
    fun he he' heq ↦ List.inj_on_of_nodup_map q.nodup he he' heq
  show d ∈ dqDirs (drainEntries nowMs cb q.items ud).1 ↔ _
  rw [drainEntries_eq]
  unfold dirs due dqDirs
  simp only [List.mem_map, List.mem_filter, Bool.not_eq_true', decide_eq_false_iff_not,
    decide_eq_true_eq]
  constructor
  · rintro ⟨e, ⟨he, hlate⟩, rfl⟩
    refine ⟨⟨e, he, rfl⟩, ?_⟩
    rintro ⟨e', ⟨he', hdue⟩, heq⟩
    exact hlate (hunique he' he heq ▸ hdue)
  · rintro ⟨⟨e, he, rfl⟩, hnot⟩
    exact ⟨e, ⟨he, fun hdue ↦ hnot ⟨e, ⟨he, hdue⟩, rfl⟩⟩, rfl⟩

theorem snd_drainDue {σ : Type} {cb : Path → σ → σ} {ud : σ} :
    (q.drainDue nowMs cb ud).2.1 = (q.due nowMs).foldl (fun ud d ↦ cb d ud) ud := by
  show (drainEntries nowMs cb q.items ud).2.1 = _
  rw [drainEntries_eq]
  rfl

end DebounceQueue

/-! ### Events -/

/-- `IN_CREATE`. -/
def inCreate : UInt32 := 0x100

/-- `IN_DELETE_SELF`. -/
def inDeleteSelf : UInt32 := 0x400

/-- `IN_MOVE_SELF`. -/
def inMoveSelf : UInt32 := 0x800

/-- `IN_Q_OVERFLOW`. -/
def inQOverflow : UInt32 := 0x4000

/-- `IN_IGNORED`. -/
def inIgnored : UInt32 := 0x8000

/-- `IN_ISDIR`. -/
def inIsdir : UInt32 := 0x40000000

/-- `struct inotify_event`, without the cookie. -/
structure InotifyEvent where
  wd : Int
  mask : UInt32
  name : Name
  deriving DecidableEq, Repr

/-- The event has one of the flags. -/
def InotifyEvent.has (e : InotifyEvent) (flags : UInt32) : Bool := e.mask &&& flags != 0

/-- The length of a path as a C string. -/
def pathLength (p : Path) : Nat := (p.map fun name ↦ name.length + 1).sum

/-- A path fits a buffer of 4096 bytes. -/
def fitsPath (p : Path) : Bool := decide (pathLength p < 4096)

/-- `struct watch_opts`. -/
structure WatchOpts where
  debounceMs : Int
  periodicRescanSec : Int
  locking : Bool
  deriving DecidableEq, Repr

/-- What `add_watches_recursive` does for a new directory: the watches that it enters into the map,
and whether it met `ENOSPC`. -/
structure AddReply where
  added : List (Int × Path)
  enospc : Bool
  deriving DecidableEq, Repr

/-- `struct watch_state`. `pending` only records what happened: the directories that no scan has
started for since their last event. -/
structure Watcher where
  wdm : Table Int Path
  dq : DebounceQueue
  periodicMode : Bool
  hardError : Bool
  pending : List Path

/-- The steps of the loop. -/
inductive WatchStep where
  /-- An event is read. It tells of events in `dirs`: of the directory that it belongs to, or for an
  overflow of those whose events were lost. -/
  | event (e : InotifyEvent) (dirs : List Path) (nowMs : Int) (reply : AddReply)
  /-- The timer ends, and the writer lock is free or busy. -/
  | tick (free : Bool)
  /-- The end of an iteration: `free` says which scans find the writer lock free. -/
  | drain (nowMs : Int) (free : Path → Bool)

section Loop

variable (libraryRoot : Path) (opts : WatchOpts)

/-- The new directory that an event tells of, `watch.c:593–596`. -/
def InotifyEvent.created (e : InotifyEvent) (dir : Path) : Option Path :=
  if e.has inCreate && e.has inIsdir && !e.name.isEmpty && fitsPath (dir ++ [e.name]) then
    some (dir ++ [e.name])
  else none

/-- The watches of a new directory, `watch.c:597–608`. -/
def Watcher.addWatches (s : Watcher) (reply : AddReply) : Watcher :=
  { s with
    wdm := reply.added.foldl (fun m w ↦ m.put w.1 w.2) s.wdm
    periodicMode := s.periodicMode || reply.enospc }

/-- The handling of an event, `watch.c:582–617`. -/
def Watcher.onEvent (s : Watcher) (e : InotifyEvent) (nowMs : Int) (reply : AddReply) : Watcher :=
  match s.wdm.get? e.wd with
  | none => s
  | some dir =>
    if e.has (inDeleteSelf ||| inMoveSelf) && dir == libraryRoot then { s with hardError := true }
    else
      let s := if (e.created dir).isSome then s.addWatches reply else s
      if e.has inIgnored then { s with wdm := s.wdm.drop e.wd }
      else { s with dq := s.dq.push dir nowMs }

/-- A scan of a directory starts: its events and those below are seen. -/
def scanned (dir : Path) (pending : List Path) : List Path :=
  pending.filter fun d ↦ !dir.isPrefixOf d

/-- The scans that find the writer lock free, or need none. -/
def WatchOpts.scans (free : Bool) : Bool := !opts.locking || free

/-- `on_drain`, `watch.c:420–434`. -/
def onDrain (free : Path → Bool) (dir : Path) (pending : List Path) : List Path :=
  if opts.scans (free dir) then scanned dir pending else pending

/-- One step. -/
def Watcher.step (s : Watcher) : WatchStep → Watcher
  | .event e dirs nowMs reply =>
    let s := { s with pending := dirs ++ s.pending }
    -- the rest of the buffer is not looked at after the root is gone
    if s.hardError then s else s.onEvent libraryRoot e nowMs reply
  | .tick free =>
    if s.periodicMode && opts.scans free then { s with pending := [] } else s
  | .drain nowMs free =>
    let out := s.dq.drainDue nowMs (onDrain opts free) s.pending
    { s with dq := out.1, pending := out.2.1 }

/-- The periodic rescan goes on: `timerfd_settime` with no time disarms the timer. -/
def Watcher.armed (s : Watcher) : Bool := s.periodicMode && decide (0 < opts.periodicRescanSec)

/-- Each directory with an event since its last scan is queued, or a periodic rescan will come. -/
def Watcher.Covered (s : Watcher) : Prop :=
  s.armed opts = true ∨ ∀ d ∈ s.pending, d ∈ s.dq.dirs

/-- The directory that an event puts into the queue. -/
def Watcher.pushes (s : Watcher) (e : InotifyEvent) : Option Path :=
  if s.hardError then none
  else
    match s.wdm.get? e.wd with
    | none => none
    | some dir =>
      if e.has (inDeleteSelf ||| inMoveSelf) && dir == libraryRoot then none
      else if e.has inIgnored then none
      else some dir

/-- An event starts the periodic rescans. -/
def Watcher.starts (s : Watcher) (e : InotifyEvent) (reply : AddReply) : Bool :=
  !s.hardError && reply.enospc && decide (0 < opts.periodicRescanSec) &&
    match s.wdm.get? e.wd with
    | none => false
    | some dir =>
      !(e.has (inDeleteSelf ||| inMoveSelf) && dir == libraryRoot) && (e.created dir).isSome

/-- With no periodic rescan, an event is about a directory under its path in the map or about queued
ones, and each due directory without a scan since its last event is scanned, itself or with one
above it. -/
def Watcher.Kept (s : Watcher) : WatchStep → Prop
  | .event e dirs _ reply =>
    s.armed opts = true ∨ s.starts libraryRoot opts e reply = true ∨
      ∀ d ∈ dirs, d ∈ s.dq.dirs ∨ s.pushes libraryRoot e = some d
  | .tick _ => True
  | .drain nowMs free =>
    s.armed opts = true ∨ ∀ d ∈ s.pending, d ∈ s.dq.due nowMs →
      ∃ dir ∈ s.dq.due nowMs, opts.scans (free dir) = true ∧ dir.isPrefixOf d = true

end Loop

/-! ### What is covered -/

variable {libraryRoot : Path} {opts : WatchOpts} {s : Watcher} {e : InotifyEvent}
  {reply : AddReply} {nowMs : Int} {d : Path}

/-- What an event does to the queue and to the periodic mode. -/
theorem onEvent_spec (hrun : s.hardError = false) :
    (d ∈ (s.onEvent libraryRoot e nowMs reply).dq.dirs ↔
      d ∈ s.dq.dirs ∨ s.pushes libraryRoot e = some d) ∧
    ((s.onEvent libraryRoot e nowMs reply).armed opts = true ↔
      s.armed opts = true ∨ s.starts libraryRoot opts e reply = true) ∧
    (s.onEvent libraryRoot e nowMs reply).pending = s.pending := by
  unfold Watcher.onEvent Watcher.pushes Watcher.starts
  rw [if_neg (by simp [hrun])]
  cases hdir : s.wdm.get? e.wd with
  | none => simp
  | some dir =>
    dsimp only
    by_cases hroot : (e.has (inDeleteSelf ||| inMoveSelf) && dir == libraryRoot) = true
    · simp [hroot, Watcher.armed]
    · have harmed : ∀ s' : Watcher, s'.periodicMode =
          (s.periodicMode || (e.created dir).isSome && reply.enospc) →
          (s'.armed opts = true ↔ s.armed opts = true ∨ (!s.hardError && reply.enospc &&
            decide (0 < opts.periodicRescanSec) &&
            (!(e.has (inDeleteSelf ||| inMoveSelf) && dir == libraryRoot) &&
              (e.created dir).isSome)) = true) := by
        intro s' hmode
        unfold Watcher.armed
        rw [hmode, hrun, Bool.eq_false_iff.mpr hroot]
        cases s.periodicMode <;> cases (e.created dir).isSome <;> cases reply.enospc <;> simp
      have hadd : ∀ b : Bool, (if b = true then s.addWatches reply else s).dq = s.dq ∧
          (if b = true then s.addWatches reply else s).pending = s.pending ∧
          (if b = true then s.addWatches reply else s).periodicMode =
            (s.periodicMode || b && reply.enospc) := by
        intro b
        cases b <;> simp [Watcher.addWatches]
      obtain ⟨hdq, hpending, hmode⟩ := hadd (e.created dir).isSome
      rw [if_neg hroot, if_neg hroot]
      by_cases hign : e.has inIgnored = true
      · rw [if_pos hign, if_pos hign]
        refine ⟨?_, harmed _ hmode, hpending⟩
        simp [hdq]
      · rw [if_neg hign, if_neg hign]
        refine ⟨?_, harmed _ hmode, hpending⟩
        rw [DebounceQueue.mem_dirs_push, hdq, or_comm, Option.some.injEq, eq_comm (a := d)]

/-- What the scans of a drain leave. -/
theorem mem_foldl_onDrain {free : Path → Bool} {dirs pending : List Path} :
    d ∈ dirs.foldl (fun pending dir ↦ onDrain opts free dir pending) pending ↔
      d ∈ pending ∧ ∀ dir ∈ dirs, opts.scans (free dir) = true → dir.isPrefixOf d = false := by
  induction dirs generalizing pending with
  | nil => simp
  | cons dir dirs ih =>
    rw [List.foldl_cons, ih, List.forall_mem_cons, ← and_assoc]
    refine and_congr_left fun _ ↦ ?_
    unfold onDrain scanned
    by_cases hscan : opts.scans (free dir) = true
    · simp [hscan]
    · simp [hscan]

/-- A step keeps every directory covered exactly where it meets the condition. -/
theorem covered_step (h : s.Covered opts) (a : WatchStep) :
    (s.step libraryRoot opts a).Covered opts ↔ s.Kept libraryRoot opts a := by
  cases a with
  | event e dirs nowMs reply =>
    unfold Watcher.step Watcher.Kept
    dsimp only
    by_cases hrun : s.hardError = true
    · have hpushes : s.pushes libraryRoot e = none := by simp [Watcher.pushes, hrun]
      have hstarts : s.starts libraryRoot opts e reply = false := by simp [Watcher.starts, hrun]
      rw [if_pos hrun, hpushes, hstarts]
      unfold Watcher.Covered at h ⊢
      by_cases harmed : s.armed opts = true
      · exact iff_of_true (Or.inl harmed) (Or.inl harmed)
      · have hqueued := h.resolve_left harmed
        simp only [List.mem_append]
        constructor
        · intro hcov
          refine Or.inr (Or.inr fun d hd ↦ Or.inl ?_)
          exact (hcov.resolve_left harmed) d (Or.inl hd)
        · intro hkept
          refine Or.inr fun d hd ↦ ?_
          rcases hd with hd | hd
          · rcases hkept.resolve_left harmed with hfalse | hdirs
            · cases hfalse
            · exact (hdirs d hd).resolve_right (by simp)
          · exact hqueued d hd
    · rw [if_neg hrun]
      have hspec := fun d ↦ @onEvent_spec libraryRoot opts { s with pending := dirs ++ s.pending } e
        reply nowMs d (Bool.eq_false_iff.mpr hrun)
      unfold Watcher.Covered at h ⊢
      rw [(hspec []).2.1, (hspec []).2.2]
      simp only [(hspec _).1, List.mem_append]
      show ((s.armed opts = true ∨ s.starts libraryRoot opts e reply = true) ∨ _) ↔ _
      rw [or_assoc]
      by_cases harmed : s.armed opts = true
      · exact iff_of_true (Or.inl harmed) (Or.inl harmed)
      · have hqueued := h.resolve_left harmed
        refine or_congr_right (or_congr_right ?_)
        constructor
        · exact fun hcov d hd ↦ hcov d (Or.inl hd)
        · exact fun hkept d hd ↦ hd.elim (hkept d) fun hd ↦ Or.inl (hqueued d hd)
  | tick free =>
    refine iff_of_true ?_ trivial
    simp only [Watcher.step]
    split
    · exact Or.inr fun d hd ↦ (by cases hd)
    · exact h
  | drain nowMs free =>
    unfold Watcher.step Watcher.Kept Watcher.Covered at *
    dsimp only
    by_cases harmed : s.armed opts = true
    · exact iff_of_true (Or.inl harmed) (Or.inl harmed)
    · have hqueued := h.resolve_left harmed
      have harmed' : Watcher.armed opts { s with
          dq := (s.dq.drainDue nowMs (onDrain opts free) s.pending).1
          pending := (s.dq.drainDue nowMs (onDrain opts free) s.pending).2.1 } = s.armed opts := rfl
      rw [harmed']
      refine or_congr_right ?_
      simp only [DebounceQueue.snd_drainDue, mem_foldl_onDrain, DebounceQueue.mem_dirs_drainDue]
      constructor
      · intro hcov d hd hdue
        by_contra hnone
        refine (hcov d ⟨hd, fun dir hdir hscan ↦ ?_⟩).2 hdue
        by_contra hpre
        exact hnone ⟨dir, hdir, hscan, by simpa using hpre⟩
      · rintro hkept d ⟨hd, hmissed⟩
        refine ⟨hqueued d hd, fun hdue ↦ ?_⟩
        obtain ⟨dir, hdir, hscan, hpre⟩ := hkept d hd hdue
        rw [hmissed dir hdir hscan] at hpre
        cases hpre

/-- Before the first event. -/
def Watcher.init (opts : WatchOpts) (wdm : Table Int Path) (periodicMode : Bool) : Watcher :=
  ⟨wdm, .init opts.debounceMs, periodicMode, false, []⟩

/-- Each directory with an event is queued, was scanned since or will be rescanned, in exactly the
runs whose steps all meet the condition. -/
theorem no_update_dropped (libraryRoot : Path) (opts : WatchOpts) (wdm : Table Int Path)
    (periodicMode : Bool) (run : List WatchStep) :
    Always (Watcher.step libraryRoot opts) (Watcher.Covered opts) (.init opts wdm periodicMode) run ↔
      Meets (Watcher.step libraryRoot opts) (Watcher.Kept libraryRoot opts)
        (.init opts wdm periodicMode) run :=
  always_iff_meets (fun _ a h ↦ covered_step h a) (Or.inr fun _ hd ↦ (by cases hd))

namespace LockBusy

/-- `/lib`. -/
def root : Path := [ascii "lib"]

/-- The options of the service. -/
def service : WatchOpts := ⟨1000, 300, true⟩

/-- The map with the watch of the root. -/
def wdm : Table Int Path := Table.empty.put 1 root

/-- A file was closed in the root. -/
def closed : WatchStep := .event ⟨1, 8, ascii "a.flac"⟩ [root] 0 ⟨[], false⟩

/-- Events were lost. -/
def overflow : WatchStep := .event ⟨-1, inQOverflow, []⟩ [root] 0 ⟨[], false⟩

end LockBusy

/-- A drain that finds the writer lock busy drops the update, and so does an overflow of the event
queue. -/
theorem update_dropped :
    ¬ Always (Watcher.step LockBusy.root LockBusy.service) (Watcher.Covered LockBusy.service)
        (.init LockBusy.service LockBusy.wdm false) [LockBusy.closed, .drain 1000 fun _ ↦ false] ∧
      ¬ Always (Watcher.step LockBusy.root LockBusy.service) (Watcher.Covered LockBusy.service)
        (.init LockBusy.service LockBusy.wdm false) [LockBusy.overflow, .drain 1000 fun _ ↦ true] := by
  constructor
  · intro h
    rcases h.last with harmed | hqueued
    · exact absurd harmed (by decide)
    · exact absurd (hqueued LockBusy.root (by decide)) (by decide)
  · intro h
    rcases h.last with harmed | hqueued
    · exact absurd harmed (by decide)
    · exact absurd (hqueued LockBusy.root (by decide)) (by decide)

end Nocturne
