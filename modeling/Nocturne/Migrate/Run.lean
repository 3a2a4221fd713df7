import Mathlib.Data.List.Lex
import Nocturne.Migrate.Files

/-!
# The migration of a flat library

`migrate_run` of `migrate.c` moves each track that lies directly under the library root to the
same place under `archive/`: first the file, then the row. The root is canonical, as `realpath`
leaves it.
-/

namespace Nocturne

open Lib

/-- `struct migrate_stats`, `migrate.h:9–16`. -/
structure MigrateStats where
  planned : Nat := 0
  moved : Nat := 0
  alreadyArchived : Nat := 0
  skippedOutside : Nat := 0
  fallbackCopies : Nat := 0
  errors : Nat := 0
  deriving DecidableEq, Repr

/-- What a migration is asked to do, with its time stamp and the time of the files it copies. -/
structure MigrateJob where
  libraryRoot : Path
  apply : Bool
  iso : Text
  now : Int

/-- What `classify_path` returns: 0, 1, 2 or 3. -/
inductive PathKind where
  | outside
  | archived
  | resident
  | flat
  deriving DecidableEq, Repr

/-- `classify_path`, `migrate.c:184–192`: `archive` and `resident` count as directories only. Of
the root directory itself no path is under `root + '/'`. -/
def classifyPath (root cur : Path) : PathKind :=
  if root ≠ [] ∧ isUnder root cur = true then
    match cur.drop root.length with
    | seg :: _ :: _ =>
      if seg = archiveSeg then .archived else if seg = residentSeg then .resident else .flat
    | _ => .flat
  else .outside

/-- `compute_archive_path`, `migrate.c:165–177`. -/
def computeArchivePath (root cur : Path) : Path := root ++ archiveSeg :: cur.drop root.length

/-- `SELECT sha256, path FROM tracks ORDER BY sha256`. -/
def Db.allTracks (db : Db) : List (Sha × Path) :=
  (db.tracks.table.rows.map fun r ↦ (r.1, r.2.path)).mergeSort fun a b ↦ decide (a.1 ≤ b.1)

/-- `out->errors++`. -/
def countMigrateError : Sys MigrateStats Unit := tally fun c ↦ { c with errors := c.errors + 1 }

/-- `migrate.c:316–326`: the link is in place, and the source goes. -/
def dropSource (cur : Path) : Sys MigrateStats Unit := do
  match ← sysUnlink cur with
  | .ok () => pure ()
  | .error .ENOENT => pure ()
  | .error _ => countMigrateError
  tally fun c ↦ { c with moved := c.moved + 1 }

/-- `migrate.c:270–327`: bring the file to its place in the archive. `false` is a failure. -/
def placeInArchive (job : MigrateJob) (cur newPath : Path) : Sys MigrateStats Bool := do
  match ← Migrate.doLink cur newPath with
  | .ok () =>
    dropSource cur
    return true
  | .error .EEXIST =>
    if ← Migrate.sameInode cur newPath then
      dropSource cur
      return true
    else
      countMigrateError
      return false
  | .error .EXDEV =>
    if ← Migrate.copyAndUnlink job.now cur newPath then
      tally fun c ↦ { c with fallbackCopies := c.fallbackCopies + 1, moved := c.moved + 1 }
      return true
    else
      countMigrateError
      return false
  | .error _ =>
    countMigrateError
    return false

/-- `migrate.c:253–345`: one flat track. Where the row keeps its old path, the next run is left
to find that out. -/
def migrateOne (job : MigrateJob) (sha : Sha) (cur : Path) : Sys MigrateStats Unit := do
  let newPath := computeArchivePath job.libraryRoot cur
  if ← Migrate.mkparents newPath then
    if ← placeInArchive job cur newPath then
      if ← trackRepoUpdatePath sha newPath job.iso then pure () else countMigrateError
    else pure ()
  else countMigrateError

/-- One row of `migrate_run`, `migrate.c:226–251`. -/
def migrateRow (job : MigrateJob) (row : Sha × Path) : Sys MigrateStats Unit :=
  match classifyPath job.libraryRoot row.2 with
  | .outside => tally fun c ↦ { c with skippedOutside := c.skippedOutside + 1 }
  | .archived => tally fun c ↦ { c with alreadyArchived := c.alreadyArchived + 1 }
  | .resident => tally fun c ↦ { c with alreadyArchived := c.alreadyArchived + 1 }
  | .flat => do
    tally fun c ↦ { c with planned := c.planned + 1 }
    if job.apply then migrateOne job row.1 row.2 else pure ()

/-- `migrate_run`, `migrate.c:194–350`; `false` is −1. -/
def migrateRun (job : MigrateJob) : Sys MigrateStats Bool := do
  let st ← sysRead (.stat job.libraryRoot) fun fs ↦ .ok (fs.stat? job.libraryRoot)
  if st.toOption.join = some .dir then
    match ← query .allTracks Db.allTracks with
    | none => return false
    | some rows =>
      Proc.each (migrateRow job) rows
      return true
  else return false

/-! ### Paths -/

section Paths

variable {root cur cur' : Path}

/-- A flat path is under the root, and does not go through `archive/`. -/
theorem flat_cases (h : classifyPath root cur = .flat) :
    ∃ name rest, cur = root ++ name :: rest ∧ (rest ≠ [] → name ≠ archiveSeg) := by
  unfold classifyPath at h
  split at h
  · next hroot =>
    obtain ⟨tail, hne, rfl⟩ := isUnder_iff.mp hroot.2
    rw [List.drop_left] at h
    cases tail with
    | nil => exact absurd rfl hne
    | cons name rest =>
      refine ⟨name, rest, rfl, fun hrest ↦ ?_⟩
      obtain ⟨b, rest', rfl⟩ := List.exists_cons_of_ne_nil hrest
      intro hname
      simp only [hname, if_true] at h
      cases h
  · cases h

theorem computeArchivePath_append (root tail : Path) :
    computeArchivePath root (root ++ tail) = root ++ archiveSeg :: tail := by
  unfold computeArchivePath
  rw [List.drop_left]

/-- What is in the archive is not flat. -/
theorem classifyPath_archive (hcur : classifyPath root cur = .flat) :
    classifyPath root (computeArchivePath root cur) = .archived := by
  have hroot : root ≠ [] := by
    intro h
    unfold classifyPath at hcur
    simp [h] at hcur
  obtain ⟨name, rest, rfl, -⟩ := flat_cases hcur
  rw [computeArchivePath_append]
  have hunder : isUnder root (root ++ archiveSeg :: name :: rest) = true :=
    isUnder_iff.mpr ⟨_, by simp, rfl⟩
  unfold classifyPath
  rw [if_pos ⟨hroot, hunder⟩, List.drop_left]
  rfl

theorem computeArchivePath_ne (hcur : classifyPath root cur = .flat)
    (hcur' : classifyPath root cur' = .flat) : computeArchivePath root cur ≠ cur' := by
  intro h
  have := classifyPath_archive hcur
  rw [h, hcur'] at this
  cases this

theorem computeArchivePath_inj (hcur : classifyPath root cur = .flat)
    (hcur' : classifyPath root cur' = .flat)
    (h : computeArchivePath root cur = computeArchivePath root cur') : cur = cur' := by
  obtain ⟨name, rest, rfl, -⟩ := flat_cases hcur
  obtain ⟨name', rest', rfl, -⟩ := flat_cases hcur'
  rw [computeArchivePath_append, computeArchivePath_append, List.append_cancel_left_eq] at h
  rw [List.tail_eq_of_cons_eq h]

end Paths

end Nocturne
