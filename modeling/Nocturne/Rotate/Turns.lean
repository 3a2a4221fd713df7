import Nocturne.Rotate.Traverse
import Nocturne.Upkeep

/-!
# What a rotation does to the tree

A property of the tree is kept by a rotation when it is kept by the side work and by the few
calls at the heart of each turn: placing a file in a library of originals; encoding, demoting and
relocating in a tree of transcodes.
-/

namespace Nocturne

open Lib

/-- The entries that only side work changes: free paths, directories and covers. -/
def Aside : Bounds := fun p n ↦ n = none ∨ n = some .dir ∨ IsCover p

variable {A : World RotateStats → Call → Reply Fault → Prop} {T : Tree → Prop} {job : RotateJob}

/-- The property is kept by the side work. -/
structure SideKeeps (A : World RotateStats → Call → Reply Fault → Prop) (T : Tree → Prop)
    (job : RotateJob) : Prop where
  nomedia : UpholdsTree A T (ensureResidentNomedia job)
  mkparents : ∀ path, UpholdsTree A T (mkparents path : Sys RotateStats Bool)
  covers : ∀ p q, UpholdsTree A T (linkAlbumCovers job.now p q : Sys RotateStats Unit)
  prune : UpholdsTree A T (pruneResidentTree job.libraryRoot)

/-- Bounded work keeps a property that does not look at what it may change. -/
theorem UpholdsTree.of_bounded {α : Type} {E : Bounds} {p : Sys RotateStats α}
    (h : Bounded A E p) (hT : ∀ fs fs', T fs → Fs.Within E fs fs' → T fs') : UpholdsTree A T p := by
  intro w hw
  exact Proc.wp_mono (h w) (fun _ _ hb ↦ hT _ _ hw hb.tree) fun _ hb ↦ hT _ _ hw hb.tree

/-- A property of the files that are no covers is kept by the side work. -/
theorem sideKeeps_of_aside (hT : ∀ fs fs', T fs → Fs.Within Aside fs fs' → T fs') :
    SideKeeps A T job := by
  have adds : ∀ {α : Type} {p : Sys RotateStats α}, Bounded A New p → UpholdsTree A T p := by
    intro α p h
    exact .of_bounded (h.mono fun _ _ hp ↦ Or.inl hp) hT
  constructor
  · exact adds (bounded_ensureResidentNomedia job)
  · exact fun path ↦ adds bounded_mkparents
  · exact fun p q ↦ adds (bounded_linkAlbumCovers _ _ _)
  · exact .of_bounded ((bounded_pruneResidentTree _).mono fun _ _ hp ↦ Or.inr hp) hT

/-! ### Turns -/

theorem closed_upholdsTree : Closed (UpholdsTree A T) where
  pure := upholdsTree_pure
  bind := upholdsTree_bind
  gets := upholdsTree_gets
  read := upholdsTree_sysRead
  query := upholdsTree_query

theorem SideKeeps.sideWork (h : SideKeeps A T job) : SideWork (UpholdsTree A T) job where
  toClosed := closed_upholdsTree
  count _ _ := upholdsTree_tally _
  nomedia := h.nomedia
  mkparents := h.mkparents
  covers := h.covers
  prune := h.prune

/-- A move keeps what placing its file keeps. -/
theorem upholdsTree_moveOne (hside : SideKeeps A T job) {fromSeg toSeg : Name}
    (hplace : ∀ cur new, swapSegment job.libraryRoot cur fromSeg toSeg = some new →
      UpholdsTree A T (placeAt job cur new)) (sha : Sha) (target : Location) :
    UpholdsTree A T (moveOne job sha fromSeg toSeg target) := by
  apply closed_moveOne hside.sideWork hplace
  · exact fun _ ↦ upholdsTree_bind (upholdsTree_exec _ _) fun _ ↦ upholdsTree_pure _
  · exact upholdsTree_bind (upholdsTree_exec _ _) fun _ ↦ upholdsTree_pure _

/-- A rotation keeps what each of its turns keeps. -/
theorem upholdsTree_rotateRunEx (hside : SideKeeps A T job)
    (hrelocate : job.transcodeOn.isSome = true → ∀ sha, UpholdsTree A T (relocateOne job sha))
    (hadd : ∀ sha, UpholdsTree A T (match job.transcodeOn with
      | some cfg => promoteTranscode cfg job sha
      | none => moveOne job sha archiveSeg residentSeg .resident))
    (hremove : ∀ sha, UpholdsTree A T (match job.transcodeOn with
      | some _ => demoteTranscode job sha
      | none => moveOne job sha residentSeg archiveSeg .archive))
    (horphans : job.transcodeOn.isSome = true →
      UpholdsTree A T (removeOrphanTranscodes job.libraryRoot)) :
    UpholdsTree A T (rotateRunEx job) :=
  closed_rotateRunEx hside.sideWork hrelocate hadd hremove horphans (upholdsTree_exec _ _)

end Nocturne
