import Nocturne.Rotate.Traverse
import Nocturne.Upkeep

/-!
# What a rotation writes into the database

Rows of `residency_state`, and the paths of tracks. What these two kinds of statements leave
alone, a rotation leaves alone, wherever it is cut short.
-/

namespace Nocturne

open Lib

/-- The property does not depend on residency rows, on the numbers of the manifest, nor on where
a track is. -/
structure RotateBlind (P : Db → Prop) : Prop where
  residency : ∀ db sha row, P db → P (db.putResidency sha row)
  path : ∀ db db' sha path iso, P db → db.updateTrackPath sha path iso = some db' → P db'
  numbers : ∀ db key value, P db → P (db.putManifestMeta key value)

variable {A : World RotateStats → Call → Reply Fault → Prop} {P : Db → Prop} {job : RotateJob}
  {sha : Sha}

/-- Parts that uphold a property of the database compose. -/
theorem closed_upholds : Closed (Upholds A P) where
  pure := upholds_pure
  bind := upholds_bind
  gets := upholds_gets
  read := upholds_sysRead
  query := upholds_query

theorem upholds_unlinkPath (path : Path) : Upholds A P (unlinkPath path : Sys RotateStats _) :=
  upholds_sysCall _ _

theorem upholds_copyOnly (now : Int) (src dst : Path) :
    Upholds A P (copyOnly now src dst : Sys RotateStats Bool) :=
  closed_copyOnly closed_upholds (fun _ ↦ upholds_sysCall _ _) (fun _ _ ↦ upholds_sysCall _ _)
    (upholds_unlinkPath _) now src

/-- The side work leaves the database alone. -/
theorem sideWork_upholds : SideWork (Upholds A P) job where
  toClosed := closed_upholds
  count _ _ := upholds_tally _
  nomedia := upholds_ite (upholds_bind (upholds_sysCall _ _) fun _ ↦ upholds_pure _)
    (upholds_pure _)
  mkparents _ := closed_mkparents closed_upholds fun _ _ ↦ upholds_sysCall _ _
  covers p _ := closed_linkAlbumCovers closed_upholds (fun _ _ ↦ upholds_sysCall _ _)
    (fun _ _ _ ↦ upholds_sysCall _ _) (fun now src dst _ ↦ upholds_copyOnly now src dst) _ p
  prune := closed_pruneResidentTree closed_upholds (fun _ _ ↦ upholds_sysCall _ _)
    (fun _ ↦ upholds_sysCall _ _) _

/-! ### Rows -/

/-- A residency row is written. -/
theorem upholds_upsertResidency (hP : RotateBlind P) (sha : Sha) (location : Location)
    (iso : Text) : Upholds A P (upsertResidency sha location iso) := by
  refine upholds_bind (upholds_exec fun db db' h hdb ↦ ?_) fun _ ↦ upholds_pure _
  unfold Db.upsertResidency at hdb
  split at hdb
  · cases hdb
    exact hP.residency _ _ _ h
  · split at hdb
    · cases hdb
      exact hP.residency _ _ _ h
    · cases hdb

/-- A residency row is written with its transcode. -/
theorem upholds_upsertResidencyTranscode (hP : RotateBlind P) (sha : Sha) (iso : Text)
    (path : Path) (size : Int) (format : Option Text) :
    Upholds A P (upsertResidencyTranscode sha iso path size format) := by
  refine upholds_bind (upholds_exec fun db db' h hdb ↦ ?_) fun _ ↦ upholds_pure _
  unfold Db.upsertResidencyTranscode at hdb
  split at hdb
  · cases hdb
    exact hP.residency _ _ _ h
  · cases hdb

theorem upholds_upsertResidencyArchiveClearTranscode (hP : RotateBlind P) (sha : Sha)
    (iso : Text) : Upholds A P (upsertResidencyArchiveClearTranscode sha iso) := by
  refine upholds_bind (upholds_exec fun db db' h hdb ↦ ?_) fun _ ↦ upholds_pure _
  unfold Db.upsertResidencyArchiveClearTranscode at hdb
  split at hdb
  · cases hdb
    exact hP.residency _ _ _ h
  · cases hdb

/-- A residency row gets another transcode path. -/
theorem upholds_updateTranscodePath (hP : RotateBlind P) (sha : Sha) (path : Path) (size : Int)
    (iso : Text) : Upholds A P (updateTranscodePath sha path size iso) := by
  refine upholds_bind (upholds_exec fun db db' h hdb ↦ ?_) fun _ ↦ upholds_pure _
  cases hdb
  unfold Db.updateTranscodePath
  split
  · exact hP.residency _ _ _ h
  · exact h

/-! ### Turns -/

/-- A move writes a path and a residency row. -/
theorem upholds_moveOne (hP : RotateBlind P) (sha : Sha) (fromSeg toSeg : Name)
    (target : Location) : Upholds A P (moveOne job sha fromSeg toSeg target) := by
  apply closed_moveOne sideWork_upholds
  · intro cur new _
    apply closed_placeAt sideWork_upholds (upholds_sysCall _ _) _ (upholds_unlinkPath _)
    apply upholds_bind (upholds_copyOnly _ _ _)
    intro ok
    exact upholds_ite (upholds_bind (upholds_unlinkPath _) fun _ ↦ upholds_pure _) (upholds_pure _)
  · intro newPath
    refine upholds_bind (upholds_exec fun db db' h hdb ↦ ?_) fun _ ↦ upholds_pure _
    exact hP.path _ _ _ _ _ h hdb
  · exact upholds_upsertResidency hP _ _ _

/-- An encode writes a residency row. -/
theorem upholds_promoteTranscode (hP : RotateBlind P) (cfg : TranscodeCfg) (sha : Sha) :
    Upholds A P (promoteTranscode cfg job sha) := by
  apply closed_promoteTranscode sideWork_upholds
  · intro archivePath transcodePath _
    exact closed_adoptOrEncode sideWork_upholds (fun _ ↦ upholds_sysCall _ _)
      (fun _ ↦ upholds_sysCall _ _) (upholds_unlinkPath _)
  · exact fun _ _ ↦ upholds_upsertResidencyTranscode hP _ _ _ _ _

/-- A demotion writes a residency row. -/
theorem upholds_demoteTranscode (hP : RotateBlind P) (sha : Sha) :
    Upholds A P (demoteTranscode job sha) :=
  closed_demoteTranscode closed_upholds (fun _ _ ↦ upholds_tally _) (fun _ ↦ upholds_unlinkPath _)
    (upholds_upsertResidencyArchiveClearTranscode hP _ _)

/-- A relocation writes a residency row. -/
theorem upholds_relocateOne (hP : RotateBlind P) (sha : Sha) :
    Upholds A P (relocateOne job sha) := by
  apply closed_relocateOne closed_upholds (fun _ _ ↦ upholds_tally _) sideWork_upholds.covers
  · intro archivePath cur expected _ _
    exact closed_vacate closed_upholds
      (closed_mkparents closed_upholds fun _ _ ↦ upholds_sysCall _ _) (upholds_sysCall _ _)
      (upholds_unlinkPath _)
  · exact fun _ _ ↦ upholds_updateTranscodePath hP _ _ _ _

/-- A rotation keeps what depends neither on residency rows nor on paths. -/
theorem upholds_rotateRunEx (hP : RotateBlind P) (job : RotateJob) :
    Upholds A P (rotateRunEx job) := by
  apply closed_rotateRunEx sideWork_upholds
  · exact fun _ sha ↦ upholds_relocateOne hP sha
  · intro sha
    split
    · exact upholds_promoteTranscode hP _ _
    · exact upholds_moveOne hP _ _ _ _
  · intro sha
    split
    · exact upholds_demoteTranscode hP _
    · exact upholds_moveOne hP _ _ _ _
  · intro _
    exact closed_removeOrphanTranscodes closed_upholds (fun _ _ ↦ upholds_tally _)
      (fun _ ↦ upholds_sysCall _ _) _
  · apply upholds_exec
    rintro db _ h ⟨⟩
    exact hP.numbers _ _ _ h

end Nocturne
