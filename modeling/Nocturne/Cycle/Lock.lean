import Nocturne.Lib.Steps
import Nocturne.Lib.Table
import Nocturne.Numbers

/-!
# The lock of the daemon

`lock_acquire` opens the pidfile and takes an flock on what it opened; `lock_release` unlinks the
path before it closes. The flock is on an inode and the path is a name: a process that opened the
file before it was unlinked gets an flock that nobody looks for any more.
-/

namespace Nocturne

open Lib

/-! ### Calls -/

/-- How far a call has come, from `open` to `close`. -/
inductive LockPoint where
  | opened
  | flocked
  | truncated
  | written
  | held
  | unlinked
  deriving DecidableEq, Repr

/-- A call with its open file. -/
structure LockCall where
  inode : Nat
  point : LockPoint
  deriving DecidableEq, Repr

/-- The file has the flock of the call. -/
def LockPoint.locks : LockPoint → Bool
  | opened => false
  | _ => true

/-- The flock is there, and the path is not unlinked yet. -/
def LockPoint.guards : LockPoint → Bool
  | opened | unlinked => false
  | _ => true

/-- What `lock_acquire` returns in place of a handle: `EWOULDBLOCK` with `busy_pid`, or another
error. -/
inductive LockAnswer where
  | busy (pid : Int)
  | error
  deriving DecidableEq, Repr

/-- The pidfile: the inode that the path names, the inodes that are taken, their contents, the
calls by their process, and the answers to those that failed. -/
structure LockFile where
  entry : Option Nat
  next : Nat
  contents : Table Nat Text
  calls : Table Nat LockCall
  answers : Table Nat LockAnswer

/-- What a process does next, and whether that goes through; `writePid` says how many bytes do. -/
inductive LockStep where
  | open (pid : Nat) (ok : Bool)
  | flock (pid : Nat) (ok : Bool)
  | ftruncate (pid : Nat) (ok : Bool)
  | writePid (pid : Nat) (bytes : Nat)
  | finish (pid : Nat) (ok : Bool)
  | unlink (pid : Nat) (ok : Bool)
  | close (pid : Nat)
  | die (pid : Nat)
  deriving DecidableEq, Repr

namespace LockFile

/-- No process has come yet; a pidfile may be there. -/
def idle (entry : Option Nat) (contents : Table Nat Text) : LockFile :=
  ⟨entry, entry.getD 0 + 1, contents, .empty, .empty⟩

/-- An inode is locked. -/
def locked (f : LockFile) (inode : Nat) : Bool :=
  f.calls.rows.any fun r ↦ r.2.inode == inode && r.2.point.locks

/-- `read_pid_best_effort`, `lock.c:39–50`. -/
def readPidBestEffort (f : LockFile) (inode : Nat) : Int :=
  match strtol (((f.contents.get? inode).getD []).take 31) with
  | some v => if v ≤ 0 ∨ 0x7fffffff < v then 0 else v
  | none => 0

/-- A call comes to a point. -/
def advance (f : LockFile) (pid : Nat) (call : LockCall) : LockFile :=
  { f with calls := f.calls.put pid call }

/-- A call closes its file, and the flock with it. -/
def leave (f : LockFile) (pid : Nat) : LockFile := { f with calls := f.calls.drop pid }

/-- A call of `lock_acquire` closes its file and fails. -/
def fail (f : LockFile) (pid : Nat) (answer : LockAnswer) : LockFile :=
  { f.leave pid with answers := f.answers.put pid answer }

/-- One step of `lock_acquire`, `lock.c:64–113`, or of `lock_release`, `lock.c:115–124`. A step of
a process that is not at that point does nothing. -/
def step (f : LockFile) : LockStep → LockFile
  | .open pid ok =>
    match f.calls.get? pid with
    | some _ => f
    | none =>
      if ok then
        match f.entry with
        | some inode => f.advance pid ⟨inode, .opened⟩
        | none =>
          { f.advance pid ⟨f.next, .opened⟩ with
            entry := some f.next
            next := f.next + 1 }
      else f.fail pid .error
  | .flock pid ok =>
    match f.calls.get? pid with
    | some ⟨inode, .opened⟩ =>
      if f.locked inode then f.fail pid (.busy (f.readPidBestEffort inode))
      else if ok then f.advance pid ⟨inode, .flocked⟩
      else f.fail pid .error
    | _ => f
  | .ftruncate pid ok =>
    match f.calls.get? pid with
    | some ⟨inode, .flocked⟩ =>
      if ok then
        { f.advance pid ⟨inode, .truncated⟩ with contents := f.contents.put inode [] }
      else f.fail pid .error
    | _ => f
  | .writePid pid bytes =>
    match f.calls.get? pid with
    | some ⟨inode, .truncated⟩ =>
      { f.advance pid ⟨inode, .written⟩ with
        contents := f.contents.put inode ((decimal pid ++ [10]).take bytes) }
    | _ => f
  | .finish pid ok =>
    match f.calls.get? pid with
    | some ⟨inode, .written⟩ =>
      if ok then f.advance pid ⟨inode, .held⟩ else f.fail pid .error
    | _ => f
  | .unlink pid ok =>
    match f.calls.get? pid with
    | some ⟨inode, .held⟩ =>
      if ok then { f.advance pid ⟨inode, .unlinked⟩ with entry := none }
      else f.advance pid ⟨inode, .unlinked⟩
    | _ => f
  | .close pid =>
    match f.calls.get? pid with
    | some ⟨_, .unlinked⟩ => f.leave pid
    | _ => f
  | .die pid => f.leave pid

/-! ### Mutual exclusion -/

/-- The process holds the lock: its `lock_acquire` has returned a handle, its `lock_release` has
not started. -/
def Holds (f : LockFile) (pid : Nat) : Prop :=
  ∃ inode, f.calls.get? pid = some ⟨inode, .held⟩

/-- No two processes hold the lock. -/
def Exclusive (f : LockFile) : Prop := ∀ pid pid', f.Holds pid → f.Holds pid' → pid = pid'

/-- An flock that succeeds is on the inode that the path names. -/
def flocksNamed (f : LockFile) : LockStep → Bool
  | .flock pid true =>
    match f.calls.get? pid with
    | some ⟨inode, .opened⟩ => f.locked inode || f.entry == some inode
    | _ => true
  | _ => true

/-- The path names what is guarded, and each inode is locked once. -/
structure Guarded (f : LockFile) : Prop where
  named : ∀ pid call, f.calls.get? pid = some call → call.point.guards = true →
    f.entry = some call.inode
  alone : ∀ pid pid' call call', f.calls.get? pid = some call → f.calls.get? pid' = some call' →
    call.point.locks = true → call'.point.locks = true → call.inode = call'.inode → pid = pid'

section Guarded

variable {f : LockFile} {pid inode : Nat} {call call' : LockCall}

theorem locks_of_guards {p : LockPoint} (h : p.guards = true) : p.locks = true := by
  cases p with
  | opened => cases h
  | unlinked => cases h
  | flocked => rfl
  | truncated => rfl
  | written => rfl
  | held => rfl

theorem locked_eq_false : f.locked inode = false ↔
    ∀ pid call, f.calls.get? pid = some call → call.inode = inode → call.point.locks = false := by
  unfold locked
  rw [List.any_eq_false]
  constructor
  · intro hall pid call hcall he
    have hrow := hall (pid, call) (Table.mem_rows.mpr hcall)
    simpa [he] using hrow
  · intro hall r hr
    have hrow := hall r.1 r.2 (Table.mem_rows.mp hr)
    by_cases he : r.2.inode = inode
    · simp [hrow he]
    · simp [he]

theorem guarded_idle (entry : Option Nat) (contents : Table Nat Text) :
    (idle entry contents).Guarded where
  named _ _ h := by cases h
  alone _ _ _ _ h := by cases h

/-- What is not in the calls and not in the entry does not matter. -/
theorem Guarded.of_eq {f' : LockFile} (h : f.Guarded) (hcalls : f'.calls = f.calls)
    (hentry : f'.entry = f.entry) : f'.Guarded where
  named := by
    rw [hcalls, hentry]
    exact h.named
  alone := by
    rw [hcalls]
    exact h.alone

/-- A call that leaves takes its flock along. -/
theorem Guarded.leave (h : f.Guarded) (pid : Nat) : (f.leave pid).Guarded := by
  have hcall : ∀ {pid' call}, (f.leave pid).calls.get? pid' = some call →
      f.calls.get? pid' = some call := by
    intro pid' call hcall
    rw [LockFile.leave, Table.get?_drop] at hcall
    split at hcall
    · cases hcall
    · exact hcall
  constructor
  · exact fun pid' call hc hguards ↦ h.named pid' call (hcall hc) hguards
  · exact fun p p' c c' hc hc' ↦ h.alone p p' c c' (hcall hc) (hcall hc')

theorem Guarded.fail (h : f.Guarded) (pid : Nat) (answer : LockAnswer) :
    (f.fail pid answer).Guarded := (h.leave pid).of_eq rfl rfl

/-- A call that comes to a point where it has the flock that it had before, or the first one on
what the path names. -/
theorem Guarded.advance (h : f.Guarded)
    (hnamed : call.point.guards = true → f.entry = some call.inode)
    (halone : call.point.locks = true → ∀ pid' call', f.calls.get? pid' = some call' →
      call'.point.locks = true → call.inode = call'.inode → pid = pid') :
    (f.advance pid call).Guarded := by
  constructor
  · intro pid' call' hc hguards
    rw [LockFile.advance, Table.get?_put] at hc
    split at hc
    · cases hc
      exact hnamed hguards
    · exact h.named pid' call' hc hguards
  · intro p p' c c' hc hc' hlocks hlocks' he
    rw [LockFile.advance, Table.get?_put] at hc hc'
    split at hc
    · next hp =>
      cases hc
      split at hc'
      · next hp' => rw [hp, hp']
      · rw [hp]
        exact halone hlocks p' c' hc' hlocks' he
    · split at hc'
      · next hp' =>
        cases hc'
        rw [hp']
        exact (halone hlocks' p c hc hlocks he.symm).symm
      · exact h.alone p p' c c' hc hc' hlocks hlocks' he

/-- A call goes on with its flock. -/
theorem Guarded.proceed (h : f.Guarded) (hcall : f.calls.get? pid = some call)
    (hguards : call.point.guards = true) (point : LockPoint) :
    (f.advance pid ⟨call.inode, point⟩).Guarded := by
  apply h.advance
  · exact fun _ ↦ h.named pid call hcall hguards
  · intro _ pid' call' hcall' hlocks' he
    exact h.alone pid pid' call call' hcall hcall' (locks_of_guards hguards) hlocks' he

/-- A call opens what the path names. -/
theorem Guarded.opened (h : f.Guarded) (pid inode : Nat) :
    (f.advance pid ⟨inode, .opened⟩).Guarded := by
  apply h.advance
  · exact fun hguards ↦ by cases hguards
  · exact fun hlocks ↦ by cases hlocks

/-- Where nothing is guarded the path may change. -/
theorem Guarded.entry (h : f.Guarded) (entry : Option Nat)
    (hnone : ∀ pid call, f.calls.get? pid = some call → call.point.guards = false) :
    Guarded { f with entry := entry } where
  named pid call hcall hguards := by
    rw [hnone pid call hcall] at hguards
    cases hguards
  alone := h.alone

/-- The one that holds the lock is the only one that guards. -/
theorem Guarded.only (h : f.Guarded) {pid' : Nat} (hcall : f.calls.get? pid = some call)
    (hcall' : f.calls.get? pid' = some call') (hguards : call.point.guards = true)
    (hguards' : call'.point.guards = true) : pid = pid' := by
  have hentry := h.named pid call hcall hguards
  have hentry' := h.named pid' call' hcall' hguards'
  exact h.alone pid pid' call call' hcall hcall' (locks_of_guards hguards)
    (locks_of_guards hguards') (Option.some.inj (hentry.symm.trans hentry'))

/-- A guarded lock is exclusive. -/
theorem Guarded.exclusive (h : f.Guarded) : f.Exclusive :=
  fun _ _ ⟨_, hcall⟩ ⟨_, hcall'⟩ ↦ h.only hcall hcall' rfl rfl

/-- A step keeps the lock guarded where an flock that succeeds is on what the path names. -/
theorem Guarded.step (h : f.Guarded) (s : LockStep) (hs : f.flocksNamed s = true) :
    (f.step s).Guarded := by
  cases s with
  | «open» pid ok =>
    dsimp only [LockFile.step]
    split
    · exact h
    · split
      · split
        · exact h.opened pid _
        · next hentry =>
          refine ((h.opened pid f.next).entry (some f.next) ?_).of_eq rfl rfl
          intro pid' call' hcall'
          rw [LockFile.advance, Table.get?_put] at hcall'
          split at hcall'
          · cases hcall'
            rfl
          · by_contra hguards
            have hnamed := h.named pid' call' hcall' (by simpa using hguards)
            rw [hentry] at hnamed
            cases hnamed
      · exact h.fail pid _
  | flock pid ok =>
    dsimp only [LockFile.step]
    split
    · next inode hcall =>
      by_cases hlocked : f.locked inode = true
      · rw [if_pos hlocked]
        exact h.fail pid _
      · rw [if_neg hlocked]
        rw [Bool.not_eq_true] at hlocked
        cases ok with
        | false => exact h.fail pid _
        | true =>
          apply h.advance
          · intro _
            rw [flocksNamed, hcall] at hs
            simpa [hlocked] using hs
          · intro _ pid' call' hcall' hlocks' he
            have hfree := locked_eq_false.mp hlocked pid' call' hcall' he.symm
            rw [hfree] at hlocks'
            cases hlocks'
    · exact h
  | ftruncate pid ok =>
    dsimp only [LockFile.step]
    split
    · next inode hcall =>
      cases ok with
      | false => exact h.fail pid _
      | true => exact (h.proceed hcall rfl .truncated).of_eq rfl rfl
    · exact h
  | writePid pid bytes =>
    dsimp only [LockFile.step]
    split
    · next inode hcall => exact (h.proceed hcall rfl .written).of_eq rfl rfl
    · exact h
  | finish pid ok =>
    dsimp only [LockFile.step]
    split
    · next inode hcall =>
      cases ok with
      | false => exact h.fail pid _
      | true => exact h.proceed hcall rfl .held
    · exact h
  | unlink pid ok =>
    dsimp only [LockFile.step]
    split
    · next inode hcall =>
      have hproceed := h.proceed hcall rfl .unlinked
      cases ok with
      | false => exact hproceed
      | true =>
        apply hproceed.entry none
        intro pid' call' hcall'
        rw [LockFile.advance, Table.get?_put] at hcall'
        split at hcall'
        · cases hcall'
          rfl
        · next hne =>
          by_contra hguards
          exact hne (h.only hcall hcall' rfl (by simpa using hguards)).symm
    · exact h
  | close pid =>
    dsimp only [LockFile.step]
    split
    · exact h.leave pid
    · exact h
  | die pid => exact h.leave pid

/-- In a run in which every flock that succeeds is on the inode that the path names, no two
processes hold the lock at one time. -/
theorem lock_exclusive (entry : Option Nat) (contents : Table Nat Text) (run : List LockStep)
    (hrun : Steps.Meets step (fun f s ↦ f.flocksNamed s = true) (idle entry contents) run) :
    Steps.Always step Exclusive (idle entry contents) run :=
  Steps.always_of_inv (I := Guarded) (fun _ h ↦ h.exclusive) (fun _ s h hs ↦ h.step s hs)
    (guarded_idle entry contents) hrun

end Guarded

/-- A call of `lock_acquire` that goes through. -/
def acquire (pid : Nat) : List LockStep :=
  [.open pid true, .flock pid true, .ftruncate pid true, .writePid pid 8, .finish pid true]

/-- A second process comes while the first one holds the lock, a third one afterwards. -/
theorem turns_exclusive : Steps.Always step Exclusive (idle none .empty)
    (acquire 1 ++ [.open 2 true, .flock 2 true, .unlink 1 true, .close 1] ++ acquire 3) :=
  lock_exclusive none .empty _ (by decide +kernel)

/-- The second process opens the file that the first one unlinks, and gets the flock when it is
closed; the third one finds no file. -/
theorem two_holders : ¬ Steps.Always step Exclusive (idle none .empty)
    (acquire 1 ++ [.open 2 true, .unlink 1 true, .close 1] ++ (acquire 2).tail ++ acquire 3) := by
  intro halways
  have hlast := halways.last
  have htwo : (Steps.after step (idle none .empty)
      (acquire 1 ++ [.open 2 true, .unlink 1 true, .close 1] ++ (acquire 2).tail ++
        acquire 3)).calls.get? 2 = some ⟨1, .held⟩ := by decide +kernel
  have hthree : (Steps.after step (idle none .empty)
      (acquire 1 ++ [.open 2 true, .unlink 1 true, .close 1] ++ (acquire 2).tail ++
        acquire 3)).calls.get? 3 = some ⟨2, .held⟩ := by decide +kernel
  exact absurd (hlast 2 3 ⟨1, htwo⟩ ⟨2, hthree⟩) (by decide)

end LockFile

end Nocturne
