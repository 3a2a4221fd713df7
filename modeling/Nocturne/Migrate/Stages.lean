import Nocturne.Migrate.Transcode
import Nocturne.Migrate.Turn

/-!
# The stages of a track on its way to a transcode

A resident track has three paths: its old one, the one of its original in the archive, and the one
of its transcode. A process that is killed leaves each track in one of four stages.
-/

namespace Nocturne

open Lib Proc

/-- A track under `resident/`, by its path below that, and what its file holds. -/
structure ResidentTrack where
  sha : Sha
  rest : Path
  content : Content

namespace ResidentTrack

/-- Where the original is. -/
def cur (root : Path) (t : ResidentTrack) : Path := root ++ residentSeg :: t.rest

/-- Where the original goes. -/
def archive (root : Path) (t : ResidentTrack) : Path := root ++ archiveSeg :: t.rest

/-- Where the transcode goes. -/
def transcode (root : Path) (ext : Text) (t : ResidentTrack) : Path := pathWithExt (t.cur root) ext

/-- The three paths of a track. -/
def Own (root : Path) (ext : Text) (t : ResidentTrack) (p : Path) : Prop :=
  p = t.cur root ∨ p = t.archive root ∨ p = t.transcode root ext

/-- The directories above the paths that a track gets. -/
def Above (root : Path) (ext : Text) (t : ResidentTrack) (p : Path) : Prop :=
  DirOf (t.archive root) p ∨ DirOf (t.transcode root ext) p

end ResidentTrack

variable {root : Path} {ext : Text} {T : ResidentTrack → Prop} {t t' : ResidentTrack}
  {m m' m'' : Machine}

/-- The archive can take the original of a track, or has what it holds. -/
def ArchiveOpen (root : Path) (fs : Tree) (t : ResidentTrack) : Prop :=
  fs.node? (t.archive root) = none ∧ fs.device (t.cur root) = fs.device (t.archive root) ∨
    Holds fs (t.archive root) t.content

/-- Nothing is at the path of the transcode, or the whole transcode is and the archive path is
free. -/
def OutputOpen (root : Path) (ext : Text) (fs : Tree) (t : ResidentTrack) : Prop :=
  fs.node? (t.transcode root ext) = none ∨
    fs.node? (t.archive root) = none ∧ Holds fs (t.transcode root ext) (.encode t.content)

/-- How a resident track may stand between two runs. -/
inductive EncodeStage (root : Path) (ext : Text) (m : Machine) (t : ResidentTrack) : Prop where
  /-- The next run can take the track up; the original may have both names. -/
  | pending (i : Nat) (row : m.rowPath t.sha = some (t.cur root))
      (source : m.fs.node? (t.cur root) = some (.file i))
      (content : (m.fs.data i).content = t.content)
      (archive : ArchiveOpen root m.fs t) (output : OutputOpen root ext m.fs t)
  /-- The encoder has opened its output. -/
  | encoding (i j : Nat) (row : m.rowPath t.sha = some (t.cur root))
      (source : m.fs.node? (t.cur root) = some (.file i))
      (content : (m.fs.data i).content = t.content)
      (twin : Holds m.fs (t.archive root) t.content)
      (output : m.fs.node? (t.transcode root ext) = some (.file j))
  /-- The old name is gone, and the row still names it. -/
  | dropped (j : Nat) (row : m.rowPath t.sha = some (t.cur root))
      (source : m.fs.node? (t.cur root) = none)
      (original : Holds m.fs (t.archive root) t.content)
      (output : m.fs.node? (t.transcode root ext) = some (.file j))
  /-- The row names the original in the archive. -/
  | archived (row : m.rowPath t.sha = some (t.archive root))
      (source : m.fs.node? (t.cur root) = none)
      (original : Holds m.fs (t.archive root) t.content)
      (output : Holds m.fs (t.transcode root ext) (.encode t.content))

/-- The track is migrated: both files are there, and both rows name them. -/
structure Transcoded (root : Path) (ext : Text) (m : Machine) (t : ResidentTrack) : Prop where
  row : m.rowPath t.sha = some (t.archive root)
  residency : m.db.transcodePath t.sha = some (t.transcode root ext)
  original : Holds m.fs (t.archive root) t.content
  output : Holds m.fs (t.transcode root ext) (.encode t.content)

/-- What a run can take up or leave: both rows are written, or the row names the old path, with
the file still there, and the path of the transcode is open. -/
def Resumable (root : Path) (ext : Text) (m : Machine) (t : ResidentTrack) : Prop :=
  m.rowPath t.sha = some (t.archive root) ∧
      m.db.transcodePath t.sha = some (t.transcode root ext) ∨
    m.rowPath t.sha = some (t.cur root) ∧ m.fs.node? (t.cur root) ≠ none ∧
      OutputOpen root ext m.fs t

/-- Resident tracks of one library, whose paths do not meet. -/
structure ResidentApart (root : Path) (ext : Text) (T : ResidentTrack → Prop) : Prop where
  rest : ∀ {t}, T t → t.rest ≠ []
  plain : ∀ {t}, T t → isLikeResident (t.archive root) = false
  sha : ∀ {t t'}, T t → T t' → t.sha = t'.sha → t = t'
  inj : ∀ {t t'}, T t → T t' → t.rest = t'.rest → t = t'
  transcode : ∀ {t t'}, T t → T t' → t.transcode root ext = t'.transcode root ext → t = t'
  own : ∀ {t t'}, T t → T t' → t.transcode root ext ≠ t'.cur root
  above : ∀ {t t'}, T t → T t' → ∀ p, t.Own root ext p → ¬ t'.Above root ext p

/-- The turn of a resident track. -/
def ResidentTurn (root : Path) (ext : Text) (t : ResidentTrack) : Machine → Machine → Prop :=
  Turn (t.Own root ext) (t.Above root ext) t.sha

/-- A library on which migrations to transcodes may have been killed. -/
structure Underway (root : Path) (ext : Text) (T : ResidentTrack → Prop) (m : Machine) :
    Prop where
  stage : ∀ {t}, T t → EncodeStage root ext m t
  rows : ∀ {sha cur}, m.rowPath sha = some cur → isLikeResident cur = true →
    ∃ t, T t ∧ t.sha = sha ∧ t.cur root = cur
  unclaimed : ∀ {t}, T t → ¬ m.Claimed t.sha (t.archive root)

/-! ### Stages -/

/-- At each stage the row names the old path or that in the archive. -/
theorem EncodeStage.rowPath (h : EncodeStage root ext m t) :
    m.rowPath t.sha = some (t.cur root) ∨ m.rowPath t.sha = some (t.archive root) := by
  cases h with
  | pending _ row _ _ _ _ => exact Or.inl row
  | encoding _ _ row _ _ _ _ => exact Or.inl row
  | dropped _ row _ _ _ => exact Or.inl row
  | archived row _ _ _ => exact Or.inr row

/-- A stage stays what it is while the track's own paths and row do. -/
theorem EncodeStage.kept (hs : EncodeStage root ext m t') (h : ResidentTurn root ext t m m')
    (hown : ∀ p, t'.Own root ext p → m'.fs.node? p = m.fs.node? p)
    (hrow : m'.rowPath t'.sha = m.rowPath t'.sha) : EncodeStage root ext m' t' := by
  have hcur := hown _ (Or.inl rfl)
  have harchive := hown _ (Or.inr (Or.inl rfl))
  have htranscode := hown _ (Or.inr (Or.inr rfl))
  cases hs with
  | pending i row source content archive output =>
    refine .pending i (hrow.trans row) (hcur.trans source) ((h.content source).trans content) ?_ ?_
    · unfold ArchiveOpen at *
      rw [harchive, h.device]
      exact archive.imp id (h.holds harchive)
    · unfold OutputOpen at *
      rw [harchive, htranscode]
      exact output.imp id fun hcoded ↦ ⟨hcoded.1, h.holds htranscode hcoded.2⟩
  | encoding i j row source content twin output =>
    exact .encoding i j (hrow.trans row) (hcur.trans source) ((h.content source).trans content)
      (h.holds harchive twin) (htranscode.trans output)
  | dropped j row source original output =>
    exact .dropped j (hrow.trans row) (hcur.trans source) (h.holds harchive original)
      (htranscode.trans output)
  | archived row source original output =>
    exact .archived (hrow.trans row) (hcur.trans source) (h.holds harchive original)
      (h.holds htranscode output)

/-- The path in the archive is a new one. -/
theorem cur_ne_archive (t : ResidentTrack) : t.cur root ≠ t.archive root := by
  unfold ResidentTrack.cur ResidentTrack.archive
  intro h
  have hseg := List.head_eq_of_cons_eq (List.append_cancel_left h)
  exact archiveSeg_ne_residentSeg hseg.symm

/-- What a run can take up is not in the archive. -/
theorem resumable_iff (hrow : m.rowPath t.sha = some (t.cur root)) :
    Resumable root ext m t ↔ m.fs.node? (t.cur root) ≠ none ∧ OutputOpen root ext m.fs t := by
  unfold Resumable
  rw [hrow]
  simp [cur_ne_archive]

/-- A track that is transcoded is nothing to a re-run. -/
theorem Transcoded.resumable (h : Transcoded root ext m t) : Resumable root ext m t :=
  Or.inl ⟨h.row, h.residency⟩

/-- What is recorded is there. -/
theorem EncodeStage.transcoded (h : EncodeStage root ext m t)
    (hrow : m.rowPath t.sha = some (t.archive root))
    (hresidency : m.db.transcodePath t.sha = some (t.transcode root ext)) :
    Transcoded root ext m t := by
  have hnot : m.rowPath t.sha = some (t.cur root) → False := by
    intro hcur
    rw [hrow] at hcur
    exact cur_ne_archive t (Option.some.inj hcur).symm
  cases h with
  | pending _ row _ _ _ _ => exact (hnot row).elim
  | encoding _ _ row _ _ _ _ => exact (hnot row).elim
  | dropped _ row _ _ _ => exact (hnot row).elim
  | archived row _ original output => exact ⟨row, hresidency, original, output⟩

/-! ### Turns -/

namespace ResidentApart

variable (hT : ResidentApart root ext T)
include hT

/-- The old path is one that the `SELECT` takes. -/
theorem isLike_cur (ht : T t) : isLikeResident (t.cur root) = true :=
  isLikeResident_resident (hT.rest ht)

/-- The path of a transcode is one that the `SELECT` takes. -/
theorem isLike_transcode (ht : T t) : isLikeResident (t.transcode root ext) = true := by
  unfold ResidentTrack.transcode
  rw [isLikeResident_pathWithExt (by unfold ResidentTrack.cur; simp)]
  exact hT.isLike_cur ht

/-- What goes through `resident/` is no place in the archive. -/
theorem ne_archive {p : Path} (ht : T t) (hp : isLikeResident p = true) : p ≠ t.archive root := by
  intro h
  rw [h, hT.plain ht] at hp
  cases hp

/-- No two tracks have one old path. -/
theorem cur_inj (ht : T t) (ht' : T t') (h : t.cur root = t'.cur root) : t = t' := by
  unfold ResidentTrack.cur at h
  exact hT.inj ht ht' (List.tail_eq_of_cons_eq (List.append_cancel_left h))

/-- No two tracks have one path in the archive. -/
theorem archive_inj (ht : T t) (ht' : T t') (h : t.archive root = t'.archive root) : t = t' := by
  unfold ResidentTrack.archive at h
  exact hT.inj ht ht' (List.tail_eq_of_cons_eq (List.append_cancel_left h))

/-- No path belongs to two tracks. -/
theorem own_disjoint {p : Path} (ht : T t) (ht' : T t') (h : t.Own root ext p)
    (h' : t'.Own root ext p) : t' = t := by
  rcases h with h | h | h
  · rcases h' with h' | h' | h'
    · exact hT.cur_inj ht' ht (h'.symm.trans h)
    · exact absurd (h.symm.trans h') (hT.ne_archive ht' (hT.isLike_cur ht))
    · exact absurd (h'.symm.trans h) (hT.own ht' ht)
  · rcases h' with h' | h' | h'
    · exact absurd (h'.symm.trans h) (hT.ne_archive ht (hT.isLike_cur ht'))
    · exact hT.archive_inj ht' ht (h'.symm.trans h)
    · exact absurd (h'.symm.trans h) (hT.ne_archive ht (hT.isLike_transcode ht'))
  · rcases h' with h' | h' | h'
    · exact absurd (h.symm.trans h') (hT.own ht ht')
    · exact absurd (h.symm.trans h') (hT.ne_archive ht' (hT.isLike_transcode ht))
    · exact hT.transcode ht' ht (h'.symm.trans h)

/-- Each track has its own row. -/
theorem sha_ne (ht : T t) (ht' : T t') (hne : t' ≠ t) : t'.sha ≠ t.sha :=
  fun h ↦ hne (hT.sha ht' ht h)

/-- Another track's turn does not touch the entries of a track. -/
theorem own_kept {p : Path} (ht : T t) (ht' : T t') (hne : t' ≠ t) (h : ResidentTurn root ext t m m')
    (hp : t'.Own root ext p) : m'.fs.node? p = m.fs.node? p := by
  apply h.kept _ (hT.above ht' ht p hp)
  exact fun hp' ↦ hne (hT.own_disjoint ht ht' hp' hp)

/-- The turn of another track leaves the stage as it is. -/
theorem stage_kept (ht : T t) (ht' : T t') (hne : t' ≠ t) (h : ResidentTurn root ext t m m')
    (hs : EncodeStage root ext m t') : EncodeStage root ext m' t' :=
  hs.kept h (fun _ hp ↦ hT.own_kept ht ht' hne h hp) (h.rowPath (hT.sha_ne ht ht' hne))

/-- The turn of another track leaves the recorded transcode alone. -/
theorem transcodePath_kept (ht : T t) (ht' : T t') (hne : t' ≠ t)
    (h : ResidentTurn root ext t m m') :
    m'.db.transcodePath t'.sha = m.db.transcodePath t'.sha := by
  unfold Db.transcodePath
  rw [h.residency _ (hT.sha_ne ht ht' hne)]

/-- What is held at a path of another track is what was held there. -/
theorem holds_kept {p : Path} {c : Content} (ht : T t) (ht' : T t') (hne : t' ≠ t)
    (h : ResidentTurn root ext t m m') (hp : t'.Own root ext p) :
    Holds m'.fs p c ↔ Holds m.fs p c := by
  have hnode := hT.own_kept ht ht' hne h hp
  refine ⟨fun ⟨i, hi, hc⟩ ↦ ?_, h.holds hnode⟩
  rw [hnode] at hi
  exact ⟨i, hi, by rw [← h.data i (m.fs.fresh hi), hc]⟩

/-- The turn of another track does not decide whether a track can be resumed. -/
theorem resumable_kept (ht : T t) (ht' : T t') (hne : t' ≠ t) (h : ResidentTurn root ext t m m') :
    Resumable root ext m' t' ↔ Resumable root ext m t' := by
  unfold Resumable OutputOpen
  rw [h.rowPath (hT.sha_ne ht ht' hne), hT.transcodePath_kept ht ht' hne h,
    hT.own_kept ht ht' hne h (Or.inl rfl), hT.own_kept ht ht' hne h (Or.inr (Or.inl rfl)),
    hT.own_kept ht ht' hne h (Or.inr (Or.inr rfl)),
    hT.holds_kept ht ht' hne h (Or.inr (Or.inr rfl))]

/-- After the turn of one track the library stands as before, if that track does. -/
theorem underway_turn (ht : T t) (h : ResidentTurn root ext t m m') (hm : Underway root ext T m)
    (hs : EncodeStage root ext m' t) : Underway root ext T m' where
  stage {t'} ht' := by
    by_cases hne : t' = t
    · rw [hne]
      exact hs
    · exact hT.stage_kept ht ht' hne h (hm.stage ht')
  rows {sha cur} hrow hlike := by
    by_cases hsha : sha = t.sha
    · refine ⟨t, ht, hsha.symm, ?_⟩
      rw [hsha] at hrow
      rcases hs.rowPath with he | he
      · rw [hrow] at he
        exact (Option.some.inj he).symm
      · rw [hrow] at he
        exact absurd (Option.some.inj he) (hT.ne_archive ht hlike)
    · rw [h.rowPath hsha] at hrow
      exact hm.rows hrow hlike
  unclaimed {t'} ht' hclaimed := by
    obtain ⟨s, hs', hrow⟩ := hclaimed
    by_cases hsha : s = t.sha
    · rw [hsha] at hrow
      rcases hs.rowPath with he | he
      · rw [hrow] at he
        exact hT.ne_archive ht' (hT.isLike_cur ht) (Option.some.inj he).symm
      · rw [hrow] at he
        apply hs'
        rw [hsha, hT.archive_inj ht' ht (Option.some.inj he)]
    · rw [h.rowPath hsha] at hrow
      exact hm.unclaimed ht' ⟨s, hs', hrow⟩

/-- Making directories leaves the three paths alone. -/
theorem own_of_dirs {ω : Type} {w w' : World ω} {path p : Path} (ht : T t)
    (hpath : ∀ q, DirOf path q → t.Above root ext q) (h : MadeDirs path w w')
    (hp : t.Own root ext p) : w'.fs.node? p = w.fs.node? p :=
  h.beside.tree.node p fun he ↦ hT.above ht ht p hp (hpath p he.2)

end ResidentApart

end Nocturne
