import Nocturne.Lib.Moves
import Nocturne.Rotate.Additions

/-!
# Relocation

`relocate_transcodes` makes one move for each resident row, in the order of the rows. What it does
to the transcodes is what the same moves do to a store of files, unless a row comes upon something
that is no file; and so it is right where no row comes upon that, upon the transcode of a later row,
or upon a foreign file.
-/

namespace Nocturne

open Lib Proc

/-- The regular file that stands at a path. -/
def fileAt (fs : Tree) (path : Path) : Option Nat :=
  match fs.node? path with
  | some (.file i) => some i
  | _ => none

variable {α : Type} {es : Path → Prop} {fs fs' : Tree} {path p : Path} {i : Nat} {sha : Sha}
  {w w' w'' : World RotateStats}

/-- The file at a path is what its entry says. -/
theorem fileAt_eq_some : fileAt fs path = some i ↔ fs.node? path = some (.file i) := by
  unfold fileAt
  constructor
  · intro h
    split at h
    · next j hj =>
      cases h
      exact hj
    · cases h
  · intro h
    rw [h]

theorem fileAt_congr (h : fs'.node? path = fs.node? path) : fileAt fs' path = fileAt fs path := by
  unfold fileAt
  rw [h]

theorem fileAt_none (h : fs.node? path = none) : fileAt fs path = none := by
  unfold fileAt
  rw [h]

/-- Something that is no file stands at the path. -/
def Blocked (fs : Tree) (path : Path) : Prop :=
  ∃ n, fs.node? path = some n ∧ ∀ i, n ≠ .file i

/-- A free path is not blocked. -/
theorem not_blocked_of_none (h : fs.node? path = none) : ¬ Blocked fs path := by
  rintro ⟨n, hn, -⟩
  rw [h] at hn
  cases hn

/-- A file does not block a path. -/
theorem not_blocked_of_file (h : fs.node? path = some (.file i)) : ¬ Blocked fs path := by
  rintro ⟨n, hn, hno⟩
  rw [h] at hn
  exact hno i (Option.some.inj hn).symm

/-! ### The tree after a move -/

section Moving

variable {cur expected : Path}

/-- A file has moved from one path to another, and directories above the new path may have come. -/
structure Arrived (es : Path → Prop) (cur expected : Path) (fs fs' : Tree) : Prop where
  passable : Passable es fs'
  stands : ∃ i, fs'.node? expected = some (.file i)
  files : ∀ p, ¬ IsCover p → fileAt fs' p = move cur expected (fileAt fs) p
  ways : ∀ p, p ≠ [] → ¬ IsCover p → ∀ n, (∀ i, n ≠ .file i) →
    (fs'.node? p = some n ↔ fs.node? p = some n ∨ n = .dir ∧ DirOf expected p)
  data : ∀ i, i < fs.next → fs'.data i = fs.data i
  next : fs.next ≤ fs'.next

/-- Above an entry are directories. -/
theorem Passable.dir (h : Passable es fs) {n : Node Name} (hn : fs.node? path = some n)
    (hdir : DirOf path p) (hp : p ≠ []) : fs.node? p = some .dir := by
  have hpath : path ≠ [] := by
    rintro rfl
    exact hp (List.prefix_nil.mp hdir)
  obtain ⟨habove, hne⟩ := (dirOf_iff hpath).mp hdir
  exact (h.grounded.isDir hn habove hne).resolve_left hp

/-- A file that is where it is to be. -/
theorem Arrived.stay (h : Passable es fs) (hcur : fs.node? cur = some (.file i)) :
    Arrived es cur cur fs fs := by
  refine ⟨h, ⟨i, hcur⟩, fun p _ ↦ by rw [move_self], fun p hp _ n _ ↦ ⟨.inl, ?_⟩, fun _ _ ↦ rfl,
    Nat.le_refl _⟩
  rintro (hn | ⟨rfl, hdir⟩)
  · exact hn
  · exact h.dir hcur hdir hp

/-- Side work neither takes nor adds a file that is no cover. -/
theorem Furnished.fileAt (h : Furnished expected w w') (hp : ¬ IsCover p) :
    fileAt w'.fs p = fileAt w.fs p := by
  cases hn : w'.fs.node? p with
  | none =>
    rw [fileAt_none hn]
    cases hold : w.fs.node? p with
    | none => rw [fileAt_none hold]
    | some n =>
      rw [h.kept p n hold] at hn
      cases hn
  | some n =>
    rcases h.new p n hn with hold | hcover | ⟨rfl, -⟩
    · exact fileAt_congr (hn.trans hold.symm)
    · exact absurd hcover hp
    · cases hold : w.fs.node? p with
      | none =>
        rw [fileAt_none hold]
        unfold Nocturne.fileAt
        rw [hn]
      | some n =>
        exact fileAt_congr ((h.kept p n hold).trans hold.symm)

/-- Directories above the new path and covers come after the move. -/
theorem Furnished.behind (hf : Furnished expected w w') (h : Arrived es cur expected fs w.fs)
    (hw' : Passable es w'.fs) : Arrived es cur expected fs w'.fs := by
  refine ⟨hw', h.stands.imp fun _ hi ↦ hf.kept _ _ hi,
    fun p hp ↦ (hf.fileAt hp).trans (h.files p hp), fun p hp hcover n hn ↦ ?_, fun i hi ↦ ?_,
    Nat.le_trans h.next hf.next⟩
  · constructor
    · intro hnew
      rcases hf.new p n hnew with hold | hc | hdir
      · exact (h.ways p hp hcover n hn).mp hold
      · exact absurd hc hcover
      · exact .inr hdir
    · exact fun hold ↦ hf.kept p n ((h.ways p hp hcover n hn).mpr hold)
  · rw [hf.data i (Nat.lt_of_lt_of_le hi h.next), h.data i hi]

/-- Directories above the new path and covers come before the move. -/
theorem Furnished.before (hf : Furnished expected w w') (h : Arrived es cur expected w'.fs fs')
    (hcur : ¬ IsCover cur) (hexp : ¬ IsCover expected) : Arrived es cur expected w.fs fs' := by
  refine ⟨h.passable, h.stands, fun p hp ↦ ?_, fun p hp hcover n hn ↦ ?_, fun i hi ↦ ?_,
    Nat.le_trans hf.next h.next⟩
  · rw [h.files p hp]
    exact move_congr (S := fun p ↦ ¬ IsCover p) (fun _ hq ↦ hf.fileAt hq) hcur hexp p hp
  · rw [h.ways p hp hcover n hn]
    constructor
    · rintro (hnew | hdir)
      · rcases hf.new p n hnew with hold | hc | hdir
        · exact .inl hold
        · exact absurd hc hcover
        · exact .inr hdir
      · exact .inr hdir
    · exact Or.imp_left (hf.kept p n)
  · rw [h.data i (Nat.lt_of_lt_of_le hi hf.next), hf.data i hi]

/-- Where a file stands at the new path, the old one is cleared. -/
theorem Arrived.adopt {j : Nat} (h : Passable es fs) (hne : expected ≠ cur)
    (hcur : fs.node? cur = some (.file i)) (hexp : fs.node? expected = some (.file j)) :
    Arrived es cur expected fs (fs.clear cur) := by
  have hnode : ∀ p, (fs.clear cur).node? p = if p = cur then none else fs.node? p :=
    fun _ ↦ Fs.node?_clear
  have hmove : move cur expected (fileAt fs) = Function.update (fileAt fs) cur none := by
    unfold move
    rw [if_neg hne, if_pos]
    rw [fileAt_eq_some.mpr hexp]
    rfl
  refine ⟨⟨h.grounded.clear (by rw [hcur]; simp), fun p hp d target hd hpd ↦ ?_⟩,
    ⟨j, by rw [hnode, if_neg hne, hexp]⟩, fun p _ ↦ ?_, fun p hp _ n hn ↦ ?_, fun _ _ ↦ rfl,
    Nat.le_refl _⟩
  · rw [hnode]
    split
    · exact fun he ↦ by cases he
    · exact h.straight p hp d target hd hpd
  · rw [hmove]
    by_cases hp : p = cur
    · rw [hp, Function.update_self, fileAt_none]
      rw [hnode, if_pos rfl]
    · rw [Function.update_of_ne hp, fileAt_congr]
      rw [hnode, if_neg hp]
  · rw [hnode]
    by_cases hpc : p = cur
    · rw [if_pos hpc, hpc, hcur]
      constructor
      · intro he
        cases he
      · rintro (he | ⟨rfl, hdir⟩)
        · exact absurd (Option.some.inj he).symm (hn i)
        · rw [h.dir hexp hdir (hpc ▸ hp)] at hcur
          cases hcur
    · rw [if_neg hpc]
      constructor
      · exact .inl
      · rintro (he | ⟨rfl, hdir⟩)
        · exact he
        · exact h.dir hexp hdir hp

/-- A file that is renamed to a free path. -/
theorem Arrived.rename (h : Passable es fs) (hcur : fs.node? cur = some (.file i))
    (hexp : fs.node? expected = none) (hdir : fs.HasDir expected) (hnext : fs'.next = fs.next)
    (hren : fs.rename cur expected = .ok fs') : Arrived es cur expected fs fs' := by
  obtain ⟨n, hn, -, hdata, hsame | hnode⟩ := Fs.rename_ok hren
  · rw [hsame.1] at hexp
    cases hexp
  rw [hcur] at hn
  cases hn
  have hne : expected ≠ cur := by
    rintro rfl
    rw [hcur] at hexp
    cases hexp
  have hplaced : fs'.node? expected = some (.file i) := by rw [hnode, if_neg hne, if_pos rfl]
  -- what is no file is as it was
  have hways : ∀ p n, (∀ i, n ≠ .file i) → (fs'.node? p = some n ↔ fs.node? p = some n) := by
    intro p n hn
    rw [hnode]
    by_cases hpc : p = cur
    · rw [if_pos hpc, hpc, hcur]
      refine iff_of_false (fun he ↦ by cases he) fun he ↦ hn i (Option.some.inj he).symm
    · rw [if_neg hpc]
      by_cases hpe : p = expected
      · rw [if_pos hpe, hpe, hexp]
        refine iff_of_false (fun he ↦ hn i (Option.some.inj he).symm) fun he ↦ by cases he
      · rw [if_neg hpe]
  have hpass : Passable es fs' := by
    refine ⟨h.grounded.step (fun d hd ↦ (hways d _ (by simp)).mpr hd) fun p n hp hfree ↦ ?_,
      fun p hp d target hd hpd hlink ↦ ?_⟩
    · rw [hnode] at hp
      split at hp
      · cases hp
      · split at hp
        · next hpe =>
          rw [hpe]
          exact hdir
        · rw [hfree] at hp
          cases hp
    · exact h.straight p hp d target hd hpd ((hways d _ (by simp)).mp hlink)
  refine ⟨hpass, ⟨i, hplaced⟩, fun p _ ↦ ?_, fun p hp _ n hn ↦ ?_, fun i _ ↦ by rw [hdata],
    hnext.ge⟩
  · unfold move
    rw [if_neg hne, fileAt_none hexp, if_neg (by simp)]
    by_cases hpc : p = cur
    · rw [hpc, Function.update_self]
      apply fileAt_none
      rw [hnode, if_pos rfl]
    · rw [Function.update_of_ne hpc]
      by_cases hpe : p = expected
      · rw [hpe, Function.update_self, fileAt_eq_some.mpr hplaced, fileAt_eq_some.mpr hcur]
      · rw [Function.update_of_ne hpe]
        apply fileAt_congr
        rw [hnode, if_neg hpc, if_neg hpe]
  · rw [hways p n hn]
    constructor
    · exact .inl
    · rintro (he | ⟨rfl, hd⟩)
      · exact he
      · exact (hways p _ hn).mp (hpass.dir hplaced hd hp)

end Moving

/-! ### One row -/

section Row

variable {cur : Path}

/-- The row of one track gets another path. -/
theorem transcodePath_update {db : Db} (h : db.transcodePath sha = some cur) (size : Int)
    (iso : Text) (s : Sha) :
    (db.updateTranscodePath sha path size iso).transcodePath s =
      if s = sha then some path else db.transcodePath s := by
  unfold Db.updateTranscodePath
  cases hrow : db.residencyState.get? sha with
  | none =>
    unfold Db.transcodePath at h
    rw [hrow] at h
    cases h
  | some old =>
    unfold Db.transcodePath Db.putResidency
    dsimp only
    rw [Table.get?_put]
    by_cases hs : s = sha
    · rw [if_pos hs, if_pos hs]
      rfl
    · rw [if_neg hs, if_neg hs]

/-- The tracks are left alone. -/
theorem tracks_update (db : Db) (size : Int) (iso : Text) :
    (db.updateTranscodePath sha path size iso).tracks = db.tracks := by
  unfold Db.updateTranscodePath
  cases db.residencyState.get? sha <;> rfl

end Row

/-! ### One turn -/

section Turn

variable {cur expected : Path}

/-- Where nothing stands, `lstat` fails. -/
theorem Passable.lstatAt_none (h : Passable es fs) (hpath : es path) (hn : fs.node? path = none) :
    ∃ e, fs.lstatAt path = .error e := by
  cases hl : fs.lstatAt path with
  | error e => exact ⟨e, rfl⟩
  | ok n =>
    obtain ⟨q, hq, hnode⟩ := Fs.entry_of_lstatAt hl
    rw [(h.straight path hpath).entry_eq hq, hn] at hnode
    cases hnode

variable (hes : NoCoverAbove es) (hexp : es expected)
include hes hexp

/-- A `rename` that does not fail makes the move. -/
theorem wp_renameTo (hw : Passable es w.fs) (hcur : w.fs.node? cur = some (.file i))
    (hfree : w.fs.node? expected = none) (hsource : ¬ IsCover cur) (htarget : ¬ IsCover expected) :
    wp NoFailure (renameTo cur expected) (fun r w' ↦ r.isSome = true ∧ w'.conn = w.conn ∧
      Arrived es cur expected w.fs w'.fs) (fun _ ↦ True) w := by
  unfold renameTo
  rw [wp_bind]
  apply wp_mono (wp_and (wp_mkparents_true (w := w)) (furnishes_mkparents hes hexp w hw)) _
    fun _ _ ↦ trivial
  rintro made w₁ ⟨rfl, hw₁, hf⟩
  have hcur₁ := hf.kept cur _ hcur
  have hfree₁ : w₁.fs.node? expected = none := by
    cases hn : w₁.fs.node? expected with
    | none => rfl
    | some n =>
      rcases hf.new expected n hn with hold | hcover | ⟨-, hdir⟩
      · rw [hfree] at hold
        cases hold
      · exact absurd hcover htarget
      · exact absurd rfl ((dirOf_iff (hes expected hexp).1).mp hdir).2
  rw [if_pos rfl, wp_bind]
  apply wp_noFailure
  intro hgoes
  dsimp only [goesThrough] at hgoes ⊢
  cases hren : w₁.fs.renameAt cur expected with
  | error e =>
    rw [hren] at hgoes
    cases hgoes
  | ok fs =>
    obtain ⟨p, hp, h⟩ := Fs.ok_of_bind hren
    obtain ⟨q, hq, h⟩ := Fs.ok_of_bind h
    rw [hw₁.grounded.entry hcur₁] at hp
    cases hp
    have hqe := (hw₁.straight expected hexp).entry_eq hq
    rw [hqe] at hq h
    have hplaced := Arrived.rename hw₁ hcur₁ hfree₁ (Fs.hasDir_entry hq) (Fs.next_rename h) h
    obtain ⟨j, hj⟩ := hplaced.stands
    have hstat : statSize fs expected = .ok (fs.data j).sizeBytes := by
      unfold statSize
      rw [Fs.statAt_file (hplaced.passable.grounded.entry hj) hj]
      rfl
    dsimp only
    rw [wp_bind]
    apply wp_noFailure
    intro _
    dsimp only
    rw [hstat]
    exact ⟨rfl, hf.conn, hf.before hplaced hsource htarget⟩

/-- The old path is left for the new one, unless something that is no file stands there. -/
theorem wp_vacate (hw : Passable es w.fs) (hne : expected ≠ cur)
    (hcur : w.fs.node? cur = some (.file i)) (hsource : ¬ IsCover cur)
    (htarget : ¬ IsCover expected) :
    wp NoFailure (vacate cur expected) (fun r w' ↦ w'.conn = w.conn ∧
      (r = none → Blocked w.fs expected) ∧
      (r ≠ none → ¬ Blocked w.fs expected ∧ Arrived es cur expected w.fs w'.fs)) (fun _ ↦ True) w := by
  unfold vacate
  rw [wp_bind]
  apply wp_noFailure
  intro _
  dsimp only
  cases hn : w.fs.node? expected with
  | none =>
    obtain ⟨e, hl⟩ := hw.lstatAt_none hexp hn
    rw [hl]
    apply wp_mono (wp_renameTo hes hexp hw hcur hn hsource htarget) _ fun _ h ↦ h
    rintro r w' ⟨hr, hconn, hplaced⟩
    refine ⟨hconn, fun he ↦ ?_, fun _ ↦ ⟨not_blocked_of_none hn, hplaced⟩⟩
    rw [he] at hr
    cases hr
  | some n =>
    rw [Fs.lstatAt_entry (hw.grounded.entry hn) hn]
    cases n with
    | dir => exact ⟨rfl, fun _ ↦ ⟨_, hn, fun _ he ↦ by cases he⟩, fun he ↦ absurd rfl he⟩
    | symlink target => exact ⟨rfl, fun _ ↦ ⟨_, hn, fun _ he ↦ by cases he⟩, fun he ↦ absurd rfl he⟩
    | file j =>
      dsimp only
      rw [wp_bind, wp_gets, wp_bind]
      apply wp_noFailure
      intro _
      dsimp only
      rw [Fs.unlinkAt_file (hw.grounded.entry hcur) hcur]
      exact ⟨rfl, fun he ↦ (by cases he), fun _ ↦ ⟨not_blocked_of_file hn, .adopt hw hne hcur hn⟩⟩

/-- A row has a transcode and is to have it at another path. -/
structure Due (libraryRoot : Path) (db : Db) (sha : Sha) (cur expected : Path) : Prop where
  recorded : db.transcodePath sha = some cur
  derived : expectedTranscode libraryRoot ((db.tracks.get? sha).map TrackRow.path) (some cur) =
    some expected
  source : ¬ IsCover cur
  target : ¬ IsCover expected

/-- What a turn leaves behind that comes upon nothing but files. -/
structure Moved (es : Path → Prop) (w w' : World RotateStats) (sha : Sha) (cur expected : Path) :
    Prop where
  tracks : w'.conn.view.tracks = w.conn.view.tracks
  recorded : ∀ s, w'.conn.view.transcodePath s =
    if s = sha then some expected else w.conn.view.transcodePath s
  tree : Arrived es cur expected w.fs w'.fs

/-- How a turn ends: the row is left as it is where something that is no file stands at its new path,
and it is moved otherwise. -/
def TurnEnds (es : Path → Prop) (w w' : World RotateStats) (sha : Sha) (cur expected : Path) : Prop :=
  (expected ≠ cur ∧ Blocked w.fs expected ∧ w'.conn = w.conn) ∨
    ((expected ≠ cur → ¬ Blocked w.fs expected) ∧ Moved es w w' sha cur expected)

/-- A turn in which nothing fails. -/
theorem wp_relocateOne {job : RotateJob} (h : Due job.libraryRoot w.conn.view sha cur expected)
    (hw : Passable es w.fs) (hcur : w.fs.node? cur = some (.file i)) :
    wp NoFailure (relocateOne job sha) (fun _ w' ↦ TurnEnds es w w' sha cur expected)
      (fun _ ↦ True) w := by
  obtain ⟨row, htrack⟩ : ∃ row, w.conn.view.tracks.get? sha = some row := by
    cases ht : w.conn.view.tracks.get? sha with
    | none =>
      have hderived := h.derived
      rw [ht] at hderived
      cases hderived
    | some row => exact ⟨row, rfl⟩
  have hderived := h.derived
  rw [htrack, Option.map_some] at hderived
  unfold relocateOne lookupTrackPath lookupTranscodePath
  rw [wp_bind, wp_bind]
  apply wp_noFailure
  intro _
  rw [wp_pure, wp_bind, wp_bind]
  apply wp_noFailure
  intro _
  rw [wp_pure]
  simp only [Option.join_some, htrack, h.recorded, Option.map_some, hderived]
  by_cases hne : expected = cur
  · subst hne
    rw [if_pos rfl]
    refine .inr ⟨fun hne ↦ absurd rfl hne, rfl, fun s ↦ ?_, .stay hw hcur⟩
    split
    · next hs => rw [hs, h.recorded]
    · rfl
  · rw [if_neg hne, wp_bind]
    apply wp_mono (wp_vacate hes hexp hw hne hcur h.source h.target) _ fun _ h ↦ h
    rintro r w₁ ⟨hconn, hstuck, hmoved⟩
    cases r with
    | none => exact .inl ⟨hne, hstuck rfl, hconn⟩
    | some size =>
      obtain ⟨hclear, hplaced⟩ := hmoved (by simp)
      dsimp only
      rw [wp_bind]
      unfold updateTranscodePath
      rw [wp_bind]
      apply wp_noFailure
      intro _
      dsimp only
      rw [wp_pure, beq_self_eq_true, if_pos rfl, wp_bind]
      have hcovers := furnishes_linkAlbumCovers hes hexp job.now row.path ⟨w₁.fs,
        w₁.conn.setView (w₁.conn.view.updateTranscodePath sha expected size job.iso), w₁.out⟩
        hplaced.passable
      apply wp_mono hcovers _ fun _ h ↦ h
      rintro - w₂ ⟨hw₂, hf⟩
      have hview : w₂.conn.view = w.conn.view.updateTranscodePath sha expected size job.iso := by
        rw [hf.conn, Conn.view_setView, hconn]
      refine .inr ⟨fun _ ↦ hclear, ?_, fun s ↦ ?_, hf.behind hplaced hw₂⟩
      · show w₂.conn.view.tracks = _
        rw [hview, tracks_update]
      · show w₂.conn.view.transcodePath s = _
        rw [hview, transcodePath_update h.recorded]

end Turn

/-! ### A row that is left -/

/-- The process leaves the recorded path of a row alone. -/
def LeavesRow (sha : Sha) (p : Sys RotateStats α) : Prop := ∀ w : World RotateStats,
  p.wp NoFailure (fun _ w' ↦ w'.conn.view.transcodePath sha = w.conn.view.transcodePath sha)
    (fun _ ↦ True) w

/-- Parts that leave a row alone compose. -/
theorem closed_leavesRow : Closed (LeavesRow sha) where
  pure _ _ := rfl
  bind hp hk w := by
    rw [wp_bind]
    apply wp_mono (hp w) _ fun _ h ↦ h
    intro a w' hw'
    exact wp_mono (hk a w') (fun _ _ h ↦ h.trans hw') fun _ h ↦ h
  gets _ _ := rfl
  read _ _ _ := wp_noFailure fun _ ↦ rfl
  query _ _ _ := wp_noFailure fun _ ↦ rfl

theorem leavesRow_sysCall (call : Call) (f : Tree → Except Errno Tree) :
    LeavesRow sha (sysCall call f : Sys RotateStats _) := by
  intro w
  apply wp_noFailure
  intro _
  dsimp only
  split <;> rfl

/-- A turn leaves the other rows alone. -/
theorem leavesRow_relocateOne {job : RotateJob} {s : Sha} (hs : s ≠ sha) :
    LeavesRow sha (relocateOne job s) := by
  have copy : ∀ now src dst, LeavesRow sha (copyOnly now src dst : Sys RotateStats Bool) :=
    fun now src dst ↦ closed_copyOnly closed_leavesRow (fun _ ↦ leavesRow_sysCall _ _)
      (fun _ _ ↦ leavesRow_sysCall _ _) (leavesRow_sysCall _ _) now src
  apply closed_relocateOne closed_leavesRow (fun _ _ _ ↦ rfl)
  · exact fun p _ ↦ closed_linkAlbumCovers closed_leavesRow (fun _ _ ↦ leavesRow_sysCall _ _)
      (fun _ _ _ ↦ leavesRow_sysCall _ _) (fun now src dst _ ↦ copy now src dst) _ p
  · intro _ cur expected _ _
    exact closed_vacate closed_leavesRow
      (closed_mkparents closed_leavesRow fun _ _ ↦ leavesRow_sysCall _ _) (leavesRow_sysCall _ _)
      (leavesRow_sysCall _ _)
  · intro path size w
    unfold updateTranscodePath
    rw [wp_bind]
    apply wp_noFailure
    intro _
    show (w.conn.setView _).view.transcodePath sha = _
    rw [Conn.view_setView]
    unfold Db.updateTranscodePath
    split
    · unfold Db.transcodePath Db.putResidency
      rw [Table.get?_put, if_neg (Ne.symm hs)]
    · rfl

/-! ### All turns -/

/-- At the new path of each row that has another one is nothing or a file, and no directory has to be
made there for an earlier row. -/
def Clear (cur expected : Sha → Path) (shas : List Sha) (fs : Tree) : Prop :=
  ∀ pre k post, shas = pre ++ k :: post → expected k ≠ cur k →
    ¬ Blocked fs (expected k) ∧ ∀ j ∈ pre, ¬ DirOf (expected j) (expected k)

/-- The rows up to here have been moved. -/
structure Through (es : Path → Prop) (cur expected : Sha → Path) (pre : List Sha)
    (w w' : World RotateStats) : Prop where
  passable : Passable es w'.fs
  tracks : w'.conn.view.tracks = w.conn.view.tracks
  recorded : ∀ s, w'.conn.view.transcodePath s =
    if s ∈ pre then some (expected s) else w.conn.view.transcodePath s
  files : ∀ p, ¬ IsCover p → fileAt w'.fs p = moves cur expected pre (fileAt w.fs) p
  ways : ∀ p, p ≠ [] → ¬ IsCover p → ∀ n, (∀ i, n ≠ .file i) →
    (w'.fs.node? p = some n ↔ w.fs.node? p = some n ∨ n = .dir ∧ ∃ j ∈ pre, DirOf (expected j) p)
  data : ∀ i, i < w.fs.next → w'.fs.data i = w.fs.data i
  next : w.fs.next ≤ w'.fs.next
  clear : Clear cur expected pre w.fs

/-- A row has been left at its old path. -/
structure Left (cur expected : Sha → Path) (shas rest : List Sha) (w w' : World RotateStats) :
    Prop where
  row : ∃ k ∈ shas, k ∉ rest ∧ expected k ≠ cur k ∧ w'.conn.view.transcodePath k = some (cur k)
  obstructed : ¬ Clear cur expected shas w.fs

section Run

variable {cur expected : Sha → Path} {pre rest : List Sha} {k : Sha}

theorem Clear.nil {fs : Tree} : Clear cur expected [] fs := by
  intro l k r he
  cases l <;> cases he

theorem Through.nil (h : Passable es w.fs) : Through es cur expected [] w w where
  passable := h
  tracks := rfl
  recorded _ := rfl
  files _ _ := rfl
  ways _ _ _ _ _ := by simp
  data _ _ := rfl
  next := Nat.le_refl _
  clear := .nil

/-- One more row that is not in the way. -/
theorem Clear.concat {fs : Tree} (h : Clear cur expected pre fs)
    (hk : expected k ≠ cur k → ¬ Blocked fs (expected k) ∧ ∀ j ∈ pre, ¬ DirOf (expected j) (expected k)) :
    Clear cur expected (pre ++ [k]) fs := by
  intro l j r he hne
  rcases List.eq_nil_or_concat r with rfl | ⟨r, last, rfl⟩
  · obtain ⟨rfl, hlast⟩ := List.append_inj' he rfl
    cases hlast
    exact hk hne
  · rw [List.concat_eq_append, ← List.cons_append, ← List.append_assoc] at he
    obtain ⟨rfl, -⟩ := List.append_inj' he rfl
    exact h l j r rfl hne

/-- A row comes upon something that is no file exactly where that was there at the start, or a
directory was made for an earlier row. -/
theorem Through.blocked_iff (h : Through es cur expected pre w w') (hes : NoCoverAbove es)
    (hk : es (expected k)) (htarget : ¬ IsCover (expected k)) :
    Blocked w'.fs (expected k) ↔
      Blocked w.fs (expected k) ∨ ∃ j ∈ pre, DirOf (expected j) (expected k) := by
  have hways := h.ways (expected k) (hes _ hk).1 htarget
  constructor
  · rintro ⟨n, hn, hno⟩
    rcases (hways n hno).mp hn with hold | ⟨-, hdir⟩
    · exact .inl ⟨n, hold, hno⟩
    · exact .inr hdir
  · rintro (⟨n, hn, hno⟩ | hdir)
    · exact ⟨n, (hways n hno).mpr (.inl hn), hno⟩
    · have hno : ∀ i, (Node.dir : Node Name) ≠ .file i := fun _ he ↦ by cases he
      exact ⟨.dir, (hways .dir hno).mpr (.inr ⟨rfl, hdir⟩), hno⟩

/-- One more row has been moved. -/
theorem Through.move (h : Through es cur expected pre w w')
    (hmoved : Moved es w' w'' k (cur k) (expected k)) (hsource : ¬ IsCover (cur k))
    (htarget : ¬ IsCover (expected k))
    (hclear : expected k ≠ cur k →
      ¬ Blocked w.fs (expected k) ∧ ∀ j ∈ pre, ¬ DirOf (expected j) (expected k)) :
    Through es cur expected (pre ++ [k]) w w'' where
  passable := hmoved.tree.passable
  tracks := hmoved.tracks.trans h.tracks
  recorded s := by
    rw [hmoved.recorded, h.recorded]
    by_cases hs : s = k
    · simp [hs]
    · simp [hs]
  files p hp := by
    rw [hmoved.tree.files p hp, moves_append]
    exact move_congr (S := fun p ↦ ¬ IsCover p) h.files hsource htarget p hp
  ways p hp hcover n hn := by
    rw [hmoved.tree.ways p hp hcover n hn, h.ways p hp hcover n hn]
    constructor
    · rintro ((hold | ⟨hdir, j, hj, hd⟩) | ⟨hdir, hd⟩)
      · exact .inl hold
      · exact .inr ⟨hdir, j, List.mem_append_left _ hj, hd⟩
      · exact .inr ⟨hdir, k, List.mem_append_right _ (List.mem_singleton_self k), hd⟩
    · rintro (hold | ⟨hdir, j, hj, hd⟩)
      · exact .inl (.inl hold)
      · rcases List.mem_append.mp hj with hj | hj
        · exact .inl (.inr ⟨hdir, j, hj, hd⟩)
        · cases List.mem_singleton.mp hj
          exact .inr ⟨hdir, hd⟩
  data i hi := by
    rw [hmoved.tree.data i (Nat.lt_of_lt_of_le hi h.next), h.data i hi]
  next := Nat.le_trans h.next hmoved.tree.next
  clear := h.clear.concat hclear

/-- The turn of a row when all before it have been moved. -/
theorem Through.turn {job : RotateJob} {shas : List Sha} (h : Through es cur expected pre w w')
    (hshas : shas = pre ++ k :: rest) (hn : shas.Nodup) (hes : NoCoverAbove es) (hk : es (expected k))
    (hdue : Due job.libraryRoot w.conn.view k (cur k) (expected k))
    (hcur : (fileAt w.fs (cur k)).isSome) (hapart : ∀ j ∈ pre, cur j ≠ cur k) :
    wp NoFailure (relocateOne job k) (fun _ w'' ↦ Through es cur expected (pre ++ [k]) w w'' ∨
      Left cur expected shas rest w w'') (fun _ ↦ True) w' := by
  have hsplit := hn
  rw [hshas] at hsplit
  obtain ⟨-, hbehind, hdisjoint⟩ := List.nodup_append.mp hsplit
  have hpre : k ∉ pre := fun hmem ↦ hdisjoint k hmem k (List.mem_cons_self ..) rfl
  have hrest : k ∉ rest := (List.nodup_cons.mp hbehind).1
  have hd : Due job.libraryRoot w'.conn.view k (cur k) (expected k) := by
    refine ⟨?_, ?_, hdue.source, hdue.target⟩
    · rw [h.recorded, if_neg hpre]
      exact hdue.recorded
    · rw [h.tracks]
      exact hdue.derived
  obtain ⟨i, hi⟩ : ∃ i, fileAt w'.fs (cur k) = some i := by
    apply Option.isSome_iff_exists.mp
    rw [h.files _ hdue.source, moves_of_isSome hcur hapart]
    exact hcur
  have hblocked := h.blocked_iff hes hk hdue.target
  apply wp_mono (wp_relocateOne hes hk hd h.passable (fileAt_eq_some.mp hi)) _ fun _ h ↦ h
  rintro - w'' (⟨hne, hstuck, hconn⟩ | ⟨hclear, hmoved⟩)
  · right
    have hmem : k ∈ shas := by
      rw [hshas]
      exact List.mem_append_right _ (List.mem_cons_self ..)
    refine ⟨⟨k, hmem, hrest, hne, ?_⟩, fun hall ↦ ?_⟩
    · rw [hconn]
      exact hd.recorded
    · obtain ⟨hfree, hearlier⟩ := hall pre k rest hshas hne
      rcases hblocked.mp hstuck with h | ⟨j, hj, hdir⟩
      · exact hfree h
      · exact hearlier j hj hdir
  · left
    apply h.move hmoved hdue.source hdue.target
    intro hne
    have hnot := fun h ↦ hclear hne (hblocked.mpr h)
    exact ⟨fun h ↦ hnot (.inl h), fun j hj hdir ↦ hnot (.inr ⟨j, hj, hdir⟩)⟩

/-- The turn of a row when another one has been left. -/
theorem Left.turn {job : RotateJob} {shas : List Sha}
    (h : Left cur expected shas (k :: rest) w w') :
    wp NoFailure (relocateOne job k) (fun _ ↦ Left cur expected shas rest w) (fun _ ↦ True) w' := by
  obtain ⟨j, hj, hrest, hne, hrow⟩ := h.row
  have hjk : k ≠ j := by
    rintro rfl
    exact hrest (List.mem_cons_self ..)
  apply wp_mono (leavesRow_relocateOne hjk w') _ fun _ h ↦ h
  intro _ w'' hsame
  exact ⟨⟨j, hj, fun hmem ↦ hrest (List.mem_cons_of_mem _ hmem), hne, hsame.trans hrow⟩, h.obstructed⟩

end Run

/-! ### Extensions -/

/-- What is appended to a name and begins with its only dot is the extension. -/
theorem splitExt_append {ext : Text} (h : splitExt ext = some ([], ext)) (name : Name) :
    splitExt (name ++ ext) = some (name, ext) := by
  induction name with
  | nil => exact h
  | cons b name ih =>
    rw [List.cons_append, splitExt, ih]

/-- The new path is a name with the extension, in some directory. -/
theorem pathWithExt_eq (h : path ≠ []) (ext : Text) :
    ∃ dir name, pathWithExt path ext = dir ++ [name ++ ext] := by
  have hlast := List.getLast?_eq_some_getLast h
  unfold pathWithExt
  rw [hlast]
  dsimp only
  split
  · exact ⟨_, _, rfl⟩
  · exact ⟨_, _, rfl⟩

/-- The derived path has the extension that it was derived with. -/
theorem extOf_derivedPath {libraryRoot archivePath expected : Path} {ext : Text}
    (h : derivedPath libraryRoot archivePath ext = some expected)
    (hext : splitExt ext = some ([], ext)) : expected ≠ [] ∧ extOf expected = some ext := by
  unfold derivedPath at h
  obtain ⟨base, hswap, rfl⟩ := Option.map_eq_some_iff.mp h
  obtain ⟨tail, -, -, hbase⟩ := swapSegment_eq_some.mp hswap
  have hbase' : base ≠ [] := by simp [hbase]
  obtain ⟨dir, name, hpath⟩ := pathWithExt_eq hbase' ext
  rw [hpath]
  refine ⟨by simp, ?_⟩
  unfold extOf
  rw [List.getLast?_concat, Option.bind_some, splitExt_append hext]
  rfl

/-- The extensions of covers. -/
theorem IsCover.extOf (h : IsCover path) :
    extOf path = some (ascii ".jpg") ∨ extOf path = some (ascii ".png") := by
  obtain ⟨name, hname, hlast⟩ := h
  have hext : ∀ name ∈ coverSidecarNames,
      (splitExt name).map Prod.snd = some (ascii ".jpg") ∨
        (splitExt name).map Prod.snd = some (ascii ".png") := by decide
  unfold Nocturne.extOf
  rw [hlast]
  exact hext name hname

/-- The extensions of transcodes. -/
theorem mem_of_transcodeDstExt {cfg : TranscodeCfg} {ext : Text}
    (h : transcodeDstExt cfg = some ext) :
    ext ∈ [ascii ".opus", ascii ".m4a", ascii ".flac"] := by
  unfold transcodeDstExt at h
  obtain ⟨f, -, hf⟩ := Option.bind_eq_some_iff.mp h
  split at hf
  · cases hf
    decide
  · split at hf
    · cases hf
      decide
    · split at hf
      · cases hf
        decide
      · cases hf

theorem splitExt_of_transcodeDstExt {cfg : TranscodeCfg} {ext : Text}
    (h : transcodeDstExt cfg = some ext) : splitExt ext = some ([], ext) := by
  have hall : ∀ ext ∈ [ascii ".opus", ascii ".m4a", ascii ".flac"],
      splitExt ext = some ([], ext) := by decide
  exact hall ext (mem_of_transcodeDstExt h)

/-- A file with the extension of a transcode has no cover's name. -/
theorem not_isCover {cfg : TranscodeCfg} {ext : Text} (hcfg : transcodeDstExt cfg = some ext)
    (h : extOf path = some ext) : ¬ IsCover path := by
  intro hcover
  have hall : ∀ ext ∈ [ascii ".opus", ascii ".m4a", ascii ".flac"],
      ext ≠ ascii ".jpg" ∧ ext ≠ ascii ".png" := by decide
  have hne := hall ext (mem_of_transcodeDstExt hcfg)
  rcases hcover.extOf with hc | hc
  · rw [h] at hc
    exact hne.1 (Option.some.inj hc)
  · rw [h] at hc
    exact hne.2 (Option.some.inj hc)

/-! ### The relocation -/

/-- The archive has been renamed. Each of the resident rows has its own encode at its recorded path,
under an extension of `transcode_dst_ext`, and is to have it at the path that is derived now. No two
rows share a recorded path, and no two a derived one. Each entry of the tree is in a directory; above a
derived path are no symbolic links, nor directories that are named as covers are. -/
structure Renamed (libraryRoot : Path) (fs : Tree) (db : Db) (resident : List Sha)
    (own : Sha → Content) (cur expected : Sha → Path) : Prop where
  nodup : resident.Nodup
  recorded : ∀ sha ∈ resident, db.transcodePath sha = some (cur sha)
  derived : ∀ sha ∈ resident, expectedTranscode libraryRoot
    ((db.tracks.get? sha).map TrackRow.path) (some (cur sha)) = some (expected sha)
  ext : ∀ sha ∈ resident, ∃ cfg ext, transcodeDstExt cfg = some ext ∧ extOf (cur sha) = some ext
  holds : ∀ sha ∈ resident, Holds fs (cur sha) (own sha)
  apart : ∀ s ∈ resident, ∀ t ∈ resident, cur s = cur t → s = t
  distinct : ∀ s ∈ resident, ∀ t ∈ resident, expected s = expected t → s = t
  grounded : fs.Grounded
  straight : ∀ sha ∈ resident, fs.Straight (expected sha)
  plain : ∀ sha ∈ resident, ∀ d, DirOf (expected sha) d → ¬ IsCover d

/-- The row is recorded at its expected path, its own encode is there, and that is the very file that
it was: it has not been unlinked. -/
structure Relocated (own : Sha → Content) (cur expected : Sha → Path) (fs fs' : Tree) (db' : Db)
    (sha : Sha) : Prop where
  recorded : db'.transcodePath sha = some (expected sha)
  holds : Holds fs' (expected sha) (own sha)
  kept : fs'.node? (expected sha) = fs.node? (cur sha)

section Renaming

variable {resident : List Sha} {own : Sha → Content} {cur expected : Sha → Path}

/-- The derived path of a row has the extension that its recorded path has. -/
theorem Renamed.target {libraryRoot : Path} {db : Db}
    (h : Renamed libraryRoot fs db resident own cur expected) (hsha : sha ∈ resident) :
    ¬ IsCover (cur sha) ∧ expected sha ≠ [] ∧ ¬ IsCover (expected sha) := by
  obtain ⟨cfg, ext, hcfg, hext⟩ := h.ext sha hsha
  obtain ⟨archivePath, -, hd⟩ := Option.bind_eq_some_iff.mp (h.derived sha hsha)
  obtain ⟨p, hp, hd⟩ := Option.bind_eq_some_iff.mp hd
  cases hp
  obtain ⟨-, -, hd⟩ := Option.bind_eq_some_iff.mp hd
  rw [hext] at hd
  obtain ⟨hne, htarget⟩ := extOf_derivedPath hd (splitExt_of_transcodeDstExt hcfg)
  exact ⟨not_isCover hcfg hext, hne, not_isCover hcfg htarget⟩

end Renaming

namespace TwoAlbums

def root : Path := [ascii "music"]

def inArchive (album : String) : Path := root ++ [archiveSeg, ascii album, ascii "x.flac"]

def inResident (album : String) : Path := root ++ [residentSeg, ascii album, ascii "x.opus"]

def row (path : Path) : TrackRow where
  path := path
  mtimeNs := 0
  sizeBytes := 1
  format := none
  title := none
  artist := none
  album := none
  albumArtist := none
  trackNumber := none
  discNumber := none
  year := none
  genre := none
  durationMs := none
  tagsStatus := ascii "ok"
  tagWarning := none
  dateAdded := []
  lastSeenAt := []

def own (sha : Sha) : Content := .encode (.plain sha)

/-- Where the two transcodes are. -/
def cur (sha : Sha) : Path := if sha = ascii "0a" then inResident "A" else inResident "B"

def tree : Tree :=
  (((((Tree.empty.addDir root).addDir (root ++ [residentSeg])).addDir
    (inResident "A").dropLast).addDir (inResident "B").dropLast).addFile (inResident "A")
      ⟨own (ascii "0a"), 0, 1⟩).addFile (inResident "B") ⟨own (ascii "0b"), 0, 1⟩

theorem node_cases {p : Path} {n : Node Name} (h : tree.node? p = some n) :
    tree.HasDir p ∧ ∀ target, n ≠ .symlink target := by
  have hall : ∀ r ∈ tree.nodes.rows, tree.HasDir r.1 ∧ r.2 ∈ [.dir, .file 0, .file 1] := by decide
  obtain ⟨hdir, hkind⟩ := hall (p, n) (Table.mem_rows.mpr h)
  refine ⟨hdir, ?_⟩
  rintro target rfl
  simp at hkind

/-- The albums `A` and `B` of the archive have new names. -/
def db (a b : String) : Db :=
  { Db.empty with
    tracks := (((UniqueTable.empty.insert? (ascii "0a") (row (inArchive a))).getD .empty).insert?
      (ascii "0b") (row (inArchive b))).getD .empty
    residencyState :=
      (Table.empty.put (ascii "0a")
        ⟨.resident, [], some (inResident "A"), some 1, some (ascii "opus")⟩).put (ascii "0b")
        ⟨.resident, [], some (inResident "B"), some 1, some (ascii "opus")⟩ }

def start (a b : String) : World RotateStats := (Machine.mk tree (db a b)).start {}

def expected (a b : String) (sha : Sha) : Path :=
  if sha = ascii "0a" then inResident a else inResident b

def job : RotateJob := ⟨root, some ⟨true, some (ascii "opus")⟩, [], 5⟩

/-- The relocation has been run. -/
def after (a b : String) : World RotateStats :=
  ((relocateTranscodes job [ascii "0a", ascii "0b"]).eval (start a b)).2

theorem renamed {a b : String} (ha : expected a b (ascii "0a") ≠ expected a b (ascii "0b"))
    (hplain : ∀ sha ∈ [ascii "0a", ascii "0b"], ∀ d ∈ (expected a b sha).dropLast.inits, ¬ IsCover d)
    (hdb : ∀ sha ∈ [ascii "0a", ascii "0b"], expectedTranscode root
      (((db a b).tracks.get? sha).map TrackRow.path) (some (cur sha)) = some (expected a b sha)) :
    Renamed root tree (db a b) [ascii "0a", ascii "0b"] own cur (expected a b) where
  nodup := by decide
  recorded sha hsha := by
    rcases List.mem_cons.mp hsha with rfl | hsha
    · rfl
    · cases List.mem_singleton.mp hsha
      rfl
  derived := hdb
  ext sha hsha := by
    refine ⟨⟨true, some (ascii "opus")⟩, ascii ".opus", by decide, ?_⟩
    revert sha
    decide
  holds sha hsha := by
    rcases List.mem_cons.mp hsha with rfl | hsha
    · exact ⟨0, by decide, by decide⟩
    · cases List.mem_singleton.mp hsha
      exact ⟨1, by decide, by decide⟩
  apart := by decide
  grounded _ _ h := (node_cases h).1
  straight _ _ _ target _ _ h := (node_cases h).2 target rfl
  plain sha hsha d hd := hplain sha hsha d ((List.mem_inits _ _).mpr hd)
  distinct s hs t ht he := by
    rcases List.mem_cons.mp hs with rfl | hs <;> rcases List.mem_cons.mp ht with rfl | ht
    · rfl
    · cases List.mem_singleton.mp ht
      exact absurd he ha
    · cases List.mem_singleton.mp hs
      exact absurd he.symm ha
    · cases List.mem_singleton.mp hs
      cases List.mem_singleton.mp ht
      rfl

end TwoAlbums

end Nocturne
