import Nocturne.Rotate.Side

/-!
# Through a rotation call by call

A kind of process that is closed under sequencing, and that the reading calls are of, contains a
part of the rotation as soon as it contains the calls of that part that change something. Each part
is gone through once, for every such kind.
-/

namespace Nocturne

open Lib

variable {K : ∀ {α : Type}, Sys RotateStats α → Prop} {α β : Type} {job : RotateJob}

/-- The kind is closed under sequencing and contains what only reads. -/
structure Closed (K : ∀ {α : Type}, Sys RotateStats α → Prop) : Prop where
  pure : ∀ {α : Type} (a : α), K (Pure.pure a : Sys RotateStats α)
  bind : ∀ {α β : Type} {p : Sys RotateStats α} {k : α → Sys RotateStats β}, K p →
    (∀ a, K (k a)) → K (p >>= k)
  gets : ∀ {α : Type} (f : World RotateStats → α), K (Proc.gets f)
  read : ∀ {α : Type} (call : Call) (f : Tree → Except Errno α), K (sysRead call f)
  query : ∀ {α : Type} (stmt : Stmt) (f : Db → α), K (query stmt f)

/-- The kind contains every count that takes no error back. -/
def Counted (K : ∀ {α : Type}, Sys RotateStats α → Prop) : Prop :=
  ∀ f : RotateStats → RotateStats, (∀ c, c.errors ≤ (f c).errors) → K (tally f)

/-- A branch of the kind on either side. -/
theorem closed_ite {c : Prop} [Decidable c] {p q : Sys RotateStats α} (hp : K p) (hq : K q) :
    K (if c then p else q) := by
  split
  · exact hp
  · exact hq

/-- A loop, by its body. -/
theorem closed_each (h : Closed K) {body : β → Sys RotateStats Unit} {xs : List β}
    (hb : ∀ x ∈ xs, K (body x)) : K (Proc.each body xs) := by
  induction xs with
  | nil => exact h.pure _
  | cons x xs ih =>
    apply h.bind (hb x (List.mem_cons_self ..))
    exact fun _ ↦ ih fun y hy ↦ hb y (List.mem_cons_of_mem _ hy)

/-- A value after a part. -/
theorem closed_then (h : Closed K) {p : Sys RotateStats α} (hp : K p) (f : α → β) :
    K (do let a ← p; return f a) := h.bind hp fun _ ↦ h.pure _

/-- A failure that is counted. -/
theorem closed_giveUp (h : Closed K) (hc : Counted K) (a : α) :
    K (do countError; return a : Sys RotateStats α) :=
  closed_then h (hc _ fun _ ↦ Nat.le_succ _) fun _ ↦ a

theorem closed_countAlready (hc : Counted K) : K countAlready := hc _ fun _ ↦ Nat.le_refl _

/-! ### Files -/

section Files

/-- Making the parents of a path is of the kind when making one of them is. -/
theorem closed_mkparents (h : Closed K) {path : Path}
    (hmkdir : ∀ dir, DirOf path dir → K (sysCall (.mkdir dir) fun fs ↦ fs.mkdirAt dir)) :
    K (mkparents path : Sys RotateStats Bool) := by
  have each : ∀ dirs, (∀ dir ∈ dirs, DirOf path dir) →
      K (mkdirEach mkdirOne dirs : Sys RotateStats Bool) := by
    intro dirs hdirs
    induction dirs with
    | nil => exact h.pure _
    | cons dir dirs ih =>
      apply h.bind
      · apply h.bind (hmkdir dir (hdirs dir (List.mem_cons_self ..)))
        intro r
        split
        · exact h.pure _
        · exact h.pure _
        · exact closed_then h (h.read _ _) _
      · exact fun ok ↦ closed_ite (ih fun d hd ↦ hdirs d (List.mem_cons_of_mem _ hd)) (h.pure _)
  apply each
  intro dir hdir
  exact (List.mem_inits _ _).mp (List.mem_of_mem_tail hdir)

/-- A copy is of the kind when opening, writing and unlinking its target are. -/
theorem closed_copyOnly (h : Closed K) {dst : Path}
    (hcreate : ∀ d, K (sysCall (.create dst) fun fs ↦ fs.createExclAt dst d))
    (hwrite : ∀ d ino, K (sysCall (.write dst) fun fs ↦ .ok (fs.write ino d)))
    (hunlink : K (unlinkPath dst)) (now : Int) (src : Path) :
    K (copyOnly now src dst : Sys RotateStats Bool) := by
  have blocks : ∀ d ino k left, K (copyBlocks now d dst ino k left : Sys RotateStats Bool) := by
    intro d ino k left
    induction left generalizing k with
    | zero => exact h.pure _
    | succ left ih =>
      apply h.bind (hwrite _ _)
      intro r
      cases r with
      | ok u => exact ih _
      | error e => exact h.pure _
  apply h.bind (h.read _ _)
  intro r
  cases r with
  | error e => exact h.pure _
  | ok d =>
    apply h.bind (h.gets _)
    intro ino
    apply h.bind (hcreate _)
    intro r
    cases r with
    | error e => exact h.pure _
    | ok u =>
      apply h.bind (h.bind (blocks _ _ _ _) _)
      · exact fun ok ↦ closed_ite (h.pure _) (closed_then h hunlink _)
      · exact fun written ↦ closed_ite (closed_then h (h.read _ _) _) (h.pure _)

theorem closed_statIsReg (h : Closed K) (path : Path) :
    K (statIsReg path : Sys RotateStats Bool) := closed_then h (h.read _ _) _

/-- Linking covers is of the kind when making directories, linking and copying to a cover are. -/
theorem closed_linkAlbumCovers (h : Closed K) {residentAudio : Path}
    (hmkdir : ∀ dir, DirOf residentAudio dir → K (sysCall (.mkdir dir) fun fs ↦ fs.mkdirAt dir))
    (hlink : ∀ src dst, IsCover dst → K (doLink src dst : Sys RotateStats _))
    (hcopy : ∀ now src dst, IsCover dst → K (copyOnly now src dst : Sys RotateStats _))
    (now : Int) (archiveAudio : Path) :
    K (linkAlbumCovers now archiveAudio residentAudio : Sys RotateStats Unit) := by
  apply closed_each h
  intro name hname
  have hcover : IsCover (residentAudio.dropLast ++ [name]) :=
    ⟨name, hname, List.getLast?_concat⟩
  apply h.bind (closed_statIsReg h _)
  intro b
  apply closed_ite _ (h.pure _)
  apply h.bind (closed_then h (h.read _ _) _)
  intro b
  apply closed_ite (h.pure _)
  apply h.bind (closed_mkparents h _)
  · intro b
    apply closed_ite _ (h.pure _)
    apply h.bind (hlink _ _ hcover)
    intro r
    split
    · exact closed_then h (hcopy _ _ _ hcover) _
    · exact h.pure _
  · intro dir hdir
    apply hmkdir
    unfold DirOf at hdir
    rwa [List.dropLast_concat] at hdir

end Files

/-! ### Sweeps -/

section Sweeps

/-- A pass over the entries, by what it does with one. -/
theorem closed_anyKeeps (h : Closed K) {keeps : Name → Sys RotateStats Bool} (names : List Name)
    (hkeeps : ∀ name, K (keeps name)) : K (anyKeeps keeps names) := by
  induction names with
  | nil => exact h.pure _
  | cons name names ih => exact h.bind (hkeeps name) fun _ ↦ closed_then h ih _

/-- `prune_dir` unlinks covers only. -/
theorem closed_pruneDir (h : Closed K) (hunlink : ∀ path, IsCover path → K (sysUnlink path))
    (hrmdir : ∀ dir, K (sysCall (.rmdir dir) fun fs ↦ fs.rmdir dir)) (depth : Nat) (dir : Path) :
    K (pruneDir depth dir) := by
  induction depth generalizing dir with
  | zero => exact h.pure _
  | succ depth ih =>
    have first : ∀ name, K (keepsDir (pruneDir depth) dir name) := by
      intro name
      apply closed_ite (h.pure _)
      apply h.bind (h.read _ _)
      intro r
      split
      · exact h.pure _
      · exact closed_then h (ih _) _
      · exact h.pure _
      · exact h.pure _
    have second : ∀ name, K (keepsSidecar dir name) := by
      intro name
      unfold keepsSidecar
      by_cases hname : isCoverSidecarName name = true
      · rw [if_pos hname]
        have hcover : IsCover (dir ++ [name]) :=
          ⟨name, of_decide_eq_true hname, List.getLast?_concat⟩
        apply h.bind (h.read _ _)
        intro r
        split
        · exact closed_then h (hunlink _ hcover) _
        · exact h.pure _
      · rw [if_neg hname]
        exact h.pure _
    unfold pruneDir
    apply h.bind (h.read _ _)
    intro names
    cases names with
    | error e => exact h.pure _
    | ok names =>
      apply h.bind (closed_anyKeeps h _ first)
      intro b
      apply closed_ite (h.pure _)
      apply h.bind (h.read _ _)
      intro names
      cases names with
      | error e => exact h.pure _
      | ok names =>
        apply h.bind (closed_anyKeeps h _ second)
        intro b
        apply closed_ite (h.pure _)
        exact closed_then h (hrmdir _) _

/-- The sweep of `resident/`, by the calls of `prune_dir`. -/
theorem closed_pruneResidentTree (h : Closed K)
    (hunlink : ∀ path, IsCover path → K (sysUnlink path))
    (hrmdir : ∀ dir, K (sysCall (.rmdir dir) fun fs ↦ fs.rmdir dir)) (libraryRoot : Path) :
    K (pruneResidentTree libraryRoot) := by
  apply h.bind (h.gets _)
  intro depth
  apply h.bind (h.gets _)
  intro root
  cases root with
  | none => exact h.pure _
  | some root =>
    apply h.bind (h.read _ _)
    intro names
    cases names with
    | error e => exact h.pure _
    | ok names =>
      apply closed_each h
      intro name _
      apply closed_ite (h.pure _)
      apply h.bind (h.read _ _)
      intro r
      split
      · exact closed_then h (closed_pruneDir h hunlink hrmdir _ _) _
      · exact h.pure _

/-- The sweep of the orphans is of the kind when `unlink` is. -/
theorem closed_removeOrphanTranscodes (h : Closed K) (hc : Counted K)
    (hunlink : ∀ path, K (sysUnlink path)) (root : Path) : K (removeOrphanTranscodes root) := by
  have ids : ∀ paths refs, K (collectIds paths refs) := by
    intro paths
    induction paths with
    | nil => exact fun _ ↦ h.pure _
    | cons path paths ih =>
      intro refs
      apply h.bind (h.read _ _)
      intro r
      split
      · exact ih _
      · exact ih _
  have orphans : ∀ refs depth dir, K (removeOrphansIn refs depth dir) := by
    intro refs depth
    induction depth with
    | zero => exact fun _ ↦ h.pure _
    | succ depth ih =>
      intro dir
      unfold removeOrphansIn
      apply h.bind (h.read _ _)
      intro names
      cases names with
      | error e => exact h.pure _
      | ok names =>
        apply closed_each h
        intro name _
        apply closed_ite (h.pure _)
        apply h.bind (h.read _ _)
        intro r
        split
        · exact ih _
        · apply closed_ite _ (h.pure _)
          apply h.bind (hunlink _)
          intro r
          split
          · exact hc _ fun _ ↦ Nat.le_refl _
          · exact h.pure _
        · exact h.pure _
  apply h.bind (h.gets _)
  intro depth
  apply h.bind (h.query _ _)
  intro paths
  cases paths with
  | none => exact h.pure _
  | some paths =>
    apply h.bind (ids _ _)
    intro refs
    apply h.bind (h.gets _)
    intro root
    cases root with
    | none => exact h.pure _
    | some root => exact orphans _ _ _

end Sweeps

/-! ### Side work -/

/-- The kind contains the side work of a rotation. -/
structure SideWork (K : ∀ {α : Type}, Sys RotateStats α → Prop) (job : RotateJob) : Prop
    extends Closed K where
  count : Counted K
  nomedia : K (ensureResidentNomedia job)
  mkparents : ∀ path, K (mkparents path : Sys RotateStats Bool)
  covers : ∀ p q, K (linkAlbumCovers job.now p q : Sys RotateStats Unit)
  prune : K (pruneResidentTree job.libraryRoot)

/-! ### Turns -/

section Turns

variable {sha : Sha}

theorem closed_lookupTrackPath (h : Closed K) (sha : Sha) : K (lookupTrackPath sha) :=
  closed_then h (h.query _ _) _

theorem closed_lookupTranscodePath (h : Closed K) (sha : Sha) : K (lookupTranscodePath sha) :=
  closed_then h (h.query _ _) _

/-- Placing a file, by its three ways and the `unlink` of the source. -/
theorem closed_placeAt (h : SideWork K job) {cur newPath : Path}
    (hlink : K (doLink cur newPath)) (hcopy : K (copyAndUnlink job.now cur newPath))
    (hunlink : K (unlinkPath cur)) : K (placeAt job cur newPath) := by
  have hc := h.toClosed
  have unlink : ∀ b : Option Bool, K (do unlinkSource cur; return b) := by
    intro b
    refine closed_then hc (hc.bind hunlink fun r ↦ ?_) fun _ ↦ b
    split
    · exact hc.pure _
    · exact hc.pure _
    · exact h.count _ fun _ ↦ Nat.le_succ _
  have same : K (sameInode cur newPath) := by
    apply hc.bind (hc.read _ _)
    intro r
    cases r with
    | error e => exact hc.pure _
    | ok a =>
      apply hc.bind (hc.read _ _)
      intro r
      cases r with
      | error e => exact hc.pure _
      | ok b => exact hc.pure _
  unfold placeAt
  apply hc.bind hlink
  intro r
  split
  · exact unlink _
  · apply hc.bind same
    intro b
    apply closed_ite _ (closed_giveUp hc h.count _)
    exact hc.bind (h.count _ fun _ ↦ Nat.le_refl _) fun _ ↦ unlink _
  · apply hc.bind hcopy
    intro b
    apply closed_ite _ (closed_giveUp hc h.count _)
    refine closed_then hc (h.count _ ?_) _
    exact fun _ ↦ Nat.le_refl _
  · exact closed_giveUp hc h.count _

/-- A move is of the kind when placing its file and its statements are. -/
theorem closed_moveOne (h : SideWork K job) {fromSeg toSeg : Name} {target : Location}
    (hplace : ∀ cur new, swapSegment job.libraryRoot cur fromSeg toSeg = some new →
      K (placeAt job cur new))
    (hpath : ∀ newPath, K (trackRepoUpdatePath sha newPath job.iso))
    (hrow : K (upsertResidency sha target job.iso)) :
    K (moveOne job sha fromSeg toSeg target) := by
  have hc := h.toClosed
  have fail : ∀ rc : MoveRc, K (do countError; return rc : Sys RotateStats MoveRc) :=
    fun rc ↦ closed_giveUp hc h.count rc
  have error : K countError := h.count _ fun _ ↦ Nat.le_succ _
  have record : ∀ cur newPath, K (recordMove job sha cur newPath target) := by
    intro cur newPath
    have covers : K (if target = .resident then linkAlbumCovers job.now cur newPath
        else pure ()) := closed_ite (h.covers _ _) (hc.pure _)
    have residency : K (do
        if ← upsertResidency sha target job.iso then pure () else countError
        if target = .resident then linkAlbumCovers job.now cur newPath else pure ()) :=
      hc.bind hrow fun ok ↦ closed_ite covers (hc.bind error fun _ ↦ covers)
    exact hc.bind (hpath _) fun ok ↦ closed_ite residency (hc.bind error fun _ ↦ residency)
  unfold moveOne
  apply hc.bind (closed_lookupTrackPath hc _)
  intro cur
  cases cur with
  | none => exact fail _
  | some cur =>
    dsimp only
    split
    · split
      · apply hc.bind hrow
        intro ok
        exact closed_ite (closed_then hc (closed_countAlready h.count) _) (fail _)
      · exact fail _
    · next newPath hnew =>
      apply hc.bind (h.mkparents _)
      intro ok
      apply closed_ite _ (fail _)
      apply hc.bind (hplace _ _ hnew)
      intro placed
      cases placed with
      | none => exact hc.pure _
      | some already => exact closed_then hc (record _ _) _

/-- An encode, by the two writes of the encoder and the `unlink` behind a failure. -/
theorem closed_adoptOrEncode (h : SideWork K job) {cfg : TranscodeCfg}
    {archivePath transcodePath : Path}
    (hopen : ∀ d, K (sysCall (.transcode archivePath transcodePath) fun fs ↦
      fs.overwriteAt transcodePath d))
    (hwrite : ∀ d, K (sysCall (.write transcodePath) fun fs ↦ fs.overwriteAt transcodePath d))
    (hunlink : K (unlinkPath transcodePath)) :
    K (adoptOrEncode cfg job archivePath transcodePath) := by
  have hc := h.toClosed
  have encode : K (transcodeAudio cfg job.now archivePath transcodePath) := by
    unfold transcodeAudio transcodeWith
    split
    · exact hc.pure _
    · apply hc.bind (hc.read _ _)
      intro r
      cases r with
      | error e => exact hc.pure _
      | ok d =>
        apply hc.bind (hopen _)
        intro r
        cases r with
        | error e => exact hc.pure _
        | ok u => exact closed_then hc (hwrite _) _
  unfold adoptOrEncode
  apply hc.bind (hc.read _ _)
  intro st
  cases st with
  | ok size => exact hc.pure _
  | error e =>
    refine closed_then hc (hc.bind (h.mkparents _) fun ok ↦ ?_) _
    apply closed_ite _ (closed_giveUp hc h.count _)
    apply hc.bind encode
    intro ok
    apply closed_ite
    · apply hc.bind (hc.read _ _)
      intro r
      cases r with
      | ok size => exact hc.pure _
      | error e => exact closed_giveUp hc h.count _
    · apply hc.bind (h.count _ fun _ ↦ Nat.le_succ _)
      exact fun _ ↦ closed_then hc hunlink _

/-- An encode is of the kind when adopting or encoding and its statement are. -/
theorem closed_promoteTranscode (h : SideWork K job) {cfg : TranscodeCfg}
    (hencode : ∀ archivePath transcodePath,
      (transcodeDstExt cfg).bind (derivedPath job.libraryRoot archivePath) = some transcodePath →
      K (adoptOrEncode cfg job archivePath transcodePath))
    (hrow : ∀ path size, K (upsertResidencyTranscode sha job.iso path size cfg.format)) :
    K (promoteTranscode cfg job sha) := by
  have hc := h.toClosed
  have fail : ∀ rc : MoveRc, K (do countError; return rc : Sys RotateStats MoveRc) :=
    fun rc ↦ closed_giveUp hc h.count rc
  unfold promoteTranscode
  apply hc.bind (closed_lookupTrackPath hc _)
  intro path
  cases path with
  | none => exact fail _
  | some path =>
    dsimp only
    split
    · exact fail _
    · next transcodePath hderived =>
      apply hc.bind (hencode _ _ hderived)
      intro r
      cases r with
      | none => exact hc.pure _
      | some r =>
        apply hc.bind (hrow _ _)
        intro ok
        apply closed_ite _ (fail _)
        apply hc.bind (h.covers _ _)
        intro _
        exact closed_ite (closed_then hc (closed_countAlready h.count) _) (hc.pure _)

/-- A demotion is of the kind when its `unlink` and its statement are. -/
theorem closed_demoteTranscode (h : Closed K) (hcount : Counted K)
    (hunlink : ∀ path, K (unlinkPath path))
    (hrow : K (upsertResidencyArchiveClearTranscode sha job.iso)) :
    K (demoteTranscode job sha) := by
  have clear : K (do
      if ← upsertResidencyArchiveClearTranscode sha job.iso then return MoveRc.moved
      else
        countError
        return .failed) :=
    h.bind hrow fun ok ↦ closed_ite (h.pure _) (closed_giveUp h hcount _)
  unfold demoteTranscode
  apply h.bind (closed_lookupTranscodePath h _)
  intro path
  cases path with
  | none => exact clear
  | some path => exact h.bind (hunlink _) fun _ ↦ clear

/-- Leaving the old path, by `unlink` or by `rename`. -/
theorem closed_vacate (h : Closed K) {cur expected : Path}
    (hmkparents : K (mkparents expected : Sys RotateStats Bool))
    (hrename : K (sysCall (.rename cur expected) fun fs ↦ fs.renameAt cur expected))
    (hunlink : K (unlinkPath cur)) : K (vacate cur expected) := by
  have rename : K (renameTo cur expected) := by
    apply h.bind hmkparents
    intro ok
    apply closed_ite _ (h.pure _)
    apply h.bind hrename
    intro r
    cases r with
    | error e => exact h.pure _
    | ok u => exact closed_then h (h.read _ _) _
  unfold vacate
  apply h.bind (h.read _ _)
  intro st
  split
  · apply h.bind (h.gets _)
    intro size
    apply h.bind hunlink
    intro r
    split <;> exact h.pure _
  · exact h.pure _
  · exact rename

/-- A relocation is of the kind when leaving the old path and its statement are. -/
theorem closed_relocateOne (h : Closed K) (hcount : Counted K)
    (hcovers : ∀ p q, K (linkAlbumCovers job.now p q : Sys RotateStats Unit))
    (hvacate : ∀ archivePath cur expected,
      expectedTranscode job.libraryRoot (some archivePath) (some cur) = some expected →
      expected ≠ cur → K (vacate cur expected))
    (hrow : ∀ path size, K (updateTranscodePath sha path size job.iso)) :
    K (relocateOne job sha) := by
  unfold relocateOne
  apply h.bind (closed_lookupTrackPath h _)
  intro archivePath
  apply h.bind (closed_lookupTranscodePath h _)
  intro cur
  split
  · next archivePath cur expected hexpected =>
    by_cases hsame : expected = cur
    · rw [if_pos hsame]
      exact h.pure _
    · rw [if_neg hsame]
      apply h.bind (hvacate _ _ _ hexpected hsame)
      intro r
      cases r with
      | none => exact hcount _ fun _ ↦ Nat.le_succ _
      | some size =>
        apply h.bind (hrow _ _)
        intro ok
        apply closed_ite _ (hcount _ fun _ ↦ Nat.le_succ _)
        exact h.bind (hcovers _ _) fun _ ↦ hcount _ fun _ ↦ Nat.le_refl _
  · exact h.pure _

end Turns

/-! ### The run -/

section Run

/-- Looking for the files of the resident tracks only reads and counts. -/
theorem closed_filterResidentPresent (h : Closed K) (hcount : Counted K) (transcodeOn : Bool)
    (shas : List Sha) : K (filterResidentPresent transcodeOn shas) := by
  induction shas with
  | nil => exact h.pure _
  | cons sha rest ih =>
    have behindStat : ∀ present : Bool, K (if present = true then do
          let kept ← filterResidentPresent transcodeOn rest
          pure (sha :: kept)
        else do
          tally fun c ↦ { c with respawned := c.respawned + 1 }
          filterResidentPresent transcodeOn rest) := fun present ↦
      closed_ite (closed_then h ih _) (h.bind (hcount _ fun _ ↦ Nat.le_refl _) fun _ ↦ ih)
    refine closed_ite (h.bind (closed_lookupTranscodePath h _) ?_)
      (h.bind (closed_lookupTrackPath h _) ?_) <;>
    · intro path
      cases path with
      | none => exact h.bind (h.pure _) behindStat
      | some path => exact h.bind (closed_statIsReg h _) behindStat

/-- The backfill only links covers. -/
theorem closed_backfillCovers (h : SideWork K job) : K (backfillCovers job) := by
  have hc := h.toClosed
  apply hc.bind (hc.query _ _)
  intro rows
  cases rows with
  | none => exact hc.pure _
  | some rows =>
    apply closed_each hc
    intro row _
    unfold backfillOne
    split
    · exact h.covers _ _
    · exact hc.pure _
    · split
      · exact h.covers _ _
      · exact hc.pure _

/-- The two loops, by their turns. -/
theorem closed_applyDiff (h : SideWork K job) {manifest resident : List Sha}
    (hadd : ∀ sha ∈ manifest, K (match job.transcodeOn with
      | some cfg => promoteTranscode cfg job sha
      | none => moveOne job sha archiveSeg residentSeg .resident))
    (hremove : ∀ sha ∈ resident, K (match job.transcodeOn with
      | some _ => demoteTranscode job sha
      | none => moveOne job sha residentSeg archiveSeg .archive)) :
    K (applyDiff job manifest resident) := by
  have hc := h.toClosed
  unfold applyDiff
  refine hc.bind (h.count _ ?_) fun _ ↦ hc.bind ?_ ?_
  · exact fun _ ↦ Nat.le_refl _
  · apply closed_each hc
    intro sha hsha
    have hturn := hadd sha (List.mem_filter.mp hsha).1
    unfold addOne
    apply hc.bind (hc.gets _)
    intro before
    dsimp only
    split
    · next cfg hcfg =>
      rw [hcfg] at hturn
      refine hc.bind hturn fun rc ↦ h.count _ fun c ↦ ?_
      split <;> exact Nat.le_refl _
    · next hcfg =>
      rw [hcfg] at hturn
      refine hc.bind hturn fun rc ↦ h.count _ fun c ↦ ?_
      split <;> exact Nat.le_refl _
  · intro _
    apply closed_each hc
    intro sha hsha
    have hturn := hremove sha (List.mem_filter.mp hsha).1
    unfold removeOne
    apply hc.bind (hc.gets _)
    intro before
    dsimp only
    split
    · next cfg hcfg =>
      rw [hcfg] at hturn
      refine hc.bind hturn fun rc ↦ h.count _ fun c ↦ ?_
      split <;> exact Nat.le_refl _
    · next hcfg =>
      rw [hcfg] at hturn
      refine hc.bind hturn fun rc ↦ h.count _ fun c ↦ ?_
      split <;> exact Nat.le_refl _

/-- What follows the two sets: a rotation by its turns. -/
theorem closed_rotateRunEx (h : SideWork K job)
    (hrelocate : job.transcodeOn.isSome = true → ∀ sha, K (relocateOne job sha))
    (hadd : ∀ sha, K (match job.transcodeOn with
      | some cfg => promoteTranscode cfg job sha
      | none => moveOne job sha archiveSeg residentSeg .resident))
    (hremove : ∀ sha, K (match job.transcodeOn with
      | some _ => demoteTranscode job sha
      | none => moveOne job sha residentSeg archiveSeg .archive))
    (horphans : job.transcodeOn.isSome = true → K (removeOrphanTranscodes job.libraryRoot))
    (hnumbers : K (exec (.putManifestMeta lastRotationAt) fun db ↦
      some (db.putManifestMeta lastRotationAt job.iso))) : K (rotateRunEx job) := by
  have hc := h.toClosed
  have sweep : K (do
      pruneResidentTree job.libraryRoot
      backfillCovers job
      let _ ← exec (.putManifestMeta lastRotationAt) fun db ↦
        some (db.putManifestMeta lastRotationAt job.iso)
      return true) :=
    hc.bind h.prune fun _ ↦ hc.bind (closed_backfillCovers h) fun _ ↦
      closed_then hc hnumbers fun _ ↦ true
  have diff : ∀ manifest resident, K (applyDiff job manifest resident) :=
    fun _ _ ↦ closed_applyDiff h (fun sha _ ↦ hadd sha) fun sha _ ↦ hremove sha
  unfold rotateRunEx
  apply hc.bind h.nomedia
  intro _
  apply hc.bind (hc.query _ _)
  intro manifest
  cases manifest with
  | none => exact hc.pure _
  | some manifest =>
    apply hc.bind (hc.query _ _)
    intro loaded
    cases loaded with
    | none => exact hc.pure _
    | some loaded =>
      apply hc.bind (closed_filterResidentPresent hc h.count _ _)
      intro resident
      dsimp only
      split
      · next cfg hcfg =>
        rw [hcfg] at hrelocate horphans
        apply hc.bind (closed_each hc fun sha _ ↦ hrelocate rfl sha)
        intro _
        apply hc.bind (diff _ _)
        exact fun _ ↦ hc.bind (horphans rfl) fun _ ↦ sweep
      · exact hc.bind (diff _ _) fun _ ↦ sweep

end Run

end Nocturne
