import Nocturne.Migrate.Turn

/-!
# Where an interrupted migration leaves the tracks

Each flat track stands in one of five ways, by its row and by the entries at its old and at its
new path. A turn of the migration touches one track, and the directories above its new path.
-/

namespace Nocturne

open Lib Proc

/-- A track that lies flat under the library root, and what its file holds. -/
structure FlatTrack where
  sha : Sha
  cur : Path
  content : Content

/-- Its place in the archive. -/
def FlatTrack.goal (root : Path) (t : FlatTrack) : Path := computeArchivePath root t.cur

/-- How a flat track may stand between two runs. -/
inductive Standing (root : Path) (m : Machine) (t : FlatTrack) : Prop where
  /-- Nothing is done. -/
  | pending (row : m.rowPath t.sha = some t.cur) (source : Holds m.fs t.cur t.content)
      (free : m.fs.node? (t.goal root) = none)
  /-- One file under both names. -/
  | linked (i : Nat) (row : m.rowPath t.sha = some t.cur)
      (source : m.fs.node? t.cur = some (.file i))
      (target : m.fs.node? (t.goal root) = some (.file i))
      (content : (m.fs.data i).content = t.content)
  /-- Something else is at the new path. -/
  | torn (i : Nat) (n : Node Name) (row : m.rowPath t.sha = some t.cur)
      (source : m.fs.node? t.cur = some (.file i))
      (content : (m.fs.data i).content = t.content)
      (target : m.fs.node? (t.goal root) = some n) (other : n ≠ .file i)
      (plain : ∀ link, n ≠ .symlink link)
  /-- The file is moved, and the row still names its old path. -/
  | stale (row : m.rowPath t.sha = some t.cur) (source : m.fs.node? t.cur = none)
      (target : Holds m.fs (t.goal root) t.content)
  /-- All is done. -/
  | moved (row : m.rowPath t.sha = some (t.goal root)) (source : m.fs.node? t.cur = none)
      (target : Holds m.fs (t.goal root) t.content)

/-- The file is at its old path, and nothing else is at the new one. -/
def Free (root : Path) (fs : Tree) (t : FlatTrack) : Prop :=
  ∃ i, fs.node? t.cur = some (.file i) ∧
    (fs.node? (t.goal root) = none ∨ fs.node? (t.goal root) = some (.file i))

/-- What a run can complete: the row names the archive already, or the file is still at its old
path and its new path is to be had. -/
def Recoverable (root : Path) (m : Machine) (t : FlatTrack) : Prop :=
  m.rowPath t.sha = some (t.goal root) ∨ Free root m.fs t ∧ ¬ m.Claimed t.sha (t.goal root)

/-- The row names the place in the archive, which holds what the track held. -/
structure Migrated (root : Path) (m : Machine) (t : FlatTrack) : Prop where
  row : m.rowPath t.sha = some (t.goal root)
  source : m.fs.node? t.cur = none
  target : Holds m.fs (t.goal root) t.content

/-- Tracks of one library: no two have one key or one path, and none lies where a directory above
another one is or will be. -/
structure TracksApart (root : Path) (T : FlatTrack → Prop) : Prop where
  flat : ∀ {t}, T t → classifyPath root t.cur = .flat
  sha : ∀ {t t'}, T t → T t' → t.sha = t'.sha → t = t'
  cur : ∀ {t t'}, T t → T t' → t.cur = t'.cur → t = t'
  below : ∀ {t t'}, T t → T t' → ¬ DirOf t'.cur t.cur
  above : ∀ {t t'}, T t → T t' → ¬ DirOf (t'.goal root) t.cur

/-- The entries that a track's turn is about. -/
def FlatTrack.Own (root : Path) (t : FlatTrack) (p : Path) : Prop := p = t.cur ∨ p = t.goal root

/-- The turn of a flat track. -/
def FlatTurn (root : Path) (t : FlatTrack) : Machine → Machine → Prop :=
  Turn (t.Own root) (DirOf (t.goal root)) t.sha

/-- A library on which migrations may have been interrupted. -/
structure Midway (root : Path) (T : FlatTrack → Prop) (m : Machine) : Prop where
  base : m.fs.node? root = some .dir
  standing : ∀ {t}, T t → Standing root m t
  rows : ∀ {sha row}, m.db.tracks.get? sha = some row → classifyPath root row.path = .flat →
    ∃ t, T t ∧ t.sha = sha ∧ t.cur = row.path

variable {root : Path} {T : FlatTrack → Prop} {t t' : FlatTrack} {m m' m'' : Machine}

/-! ### Standings -/

/-- At each stage the row names the old path or the new one. -/
theorem Standing.rowPath (h : Standing root m t) :
    m.rowPath t.sha = some t.cur ∨ m.rowPath t.sha = some (t.goal root) := by
  cases h with
  | pending row _ _ => exact Or.inl row
  | linked _ row _ _ _ => exact Or.inl row
  | torn _ _ row _ _ _ _ _ => exact Or.inl row
  | stale row _ _ => exact Or.inl row
  | moved row _ _ => exact Or.inr row

/-- A row that names the archive names the right place. -/
theorem Standing.moved_of_row (h : Standing root m t) (hne : t.goal root ≠ t.cur)
    (hrow : m.rowPath t.sha = some (t.goal root)) : Migrated root m t := by
  have hnot : m.rowPath t.sha = some t.cur → False := by
    intro hcur
    rw [hrow] at hcur
    exact hne (Option.some.inj hcur)
  cases h with
  | pending row _ _ => exact (hnot row).elim
  | linked _ row _ _ _ => exact (hnot row).elim
  | torn _ _ row _ _ _ _ _ => exact (hnot row).elim
  | stale row _ _ => exact (hnot row).elim
  | moved row source target => exact ⟨row, source, target⟩

theorem Migrated.standing (h : Migrated root m t) : Standing root m t := .moved h.row h.source h.target

theorem Migrated.recoverable (h : Migrated root m t) : Recoverable root m t := Or.inl h.row

/-- What a track that is moved is not. -/
theorem Migrated.not_free (h : Migrated root m t) : ¬ Free root m.fs t := by
  intro hfree
  obtain ⟨i, hi, -⟩ := hfree
  rw [h.source] at hi
  cases hi

/-! ### Turns -/

/-- A track whose entries and whose row are left alone stands as before. -/
theorem Standing.kept (hs : Standing root m t') (h : FlatTurn root t m m')
    (hcur : m'.fs.node? t'.cur = m.fs.node? t'.cur)
    (hgoal : m'.fs.node? (t'.goal root) = m.fs.node? (t'.goal root))
    (hrow : m'.rowPath t'.sha = m.rowPath t'.sha) : Standing root m' t' := by
  cases hs with
  | pending row source free =>
    exact .pending (hrow.trans row) (h.holds hcur source) (hgoal.trans free)
  | linked i row source target content =>
    exact .linked i (hrow.trans row) (hcur.trans source) (hgoal.trans target)
      ((h.content source).trans content)
  | torn i n row source content target other plain =>
    exact .torn i n (hrow.trans row) (hcur.trans source) ((h.content source).trans content)
      (hgoal.trans target) other plain
  | stale row source target =>
    exact .stale (hrow.trans row) (hcur.trans source) (h.holds hgoal target)
  | moved row source target =>
    exact .moved (hrow.trans row) (hcur.trans source) (h.holds hgoal target)

namespace TracksApart

variable (hT : TracksApart root T)
include hT

/-- No track is to go where one is. -/
theorem goal_ne_cur (ht : T t) (ht' : T t') : t.goal root ≠ t'.cur :=
  computeArchivePath_ne (hT.flat ht) (hT.flat ht')

/-- No two tracks are to go to one path. -/
theorem goal_ne (ht : T t) (ht' : T t') (hne : t' ≠ t) : t'.goal root ≠ t.goal root := by
  intro h
  exact hne (hT.cur ht' ht (computeArchivePath_inj (hT.flat ht') (hT.flat ht) h))

/-- Each track has its own row. -/
theorem sha_ne (ht : T t) (ht' : T t') (hne : t' ≠ t) : t'.sha ≠ t.sha :=
  fun h ↦ hne (hT.sha ht' ht h)

/-- Each track has its own path. -/
theorem cur_ne (ht : T t) (ht' : T t') (hne : t' ≠ t) : t'.cur ≠ t.cur :=
  fun h ↦ hne (hT.cur ht' ht h)

/-- A place in the archive is above another one only where the old paths are. -/
theorem goal_below (ht : T t) (ht' : T t') : ¬ DirOf (t'.goal root) (t.goal root) := by
  intro h
  obtain ⟨name, rest, hcur, -⟩ := flat_cases (hT.flat ht)
  obtain ⟨name', rest', hcur', -⟩ := flat_cases (hT.flat ht')
  apply hT.below ht ht'
  unfold DirOf FlatTrack.goal at *
  rw [hcur, hcur', computeArchivePath_append, computeArchivePath_append] at h
  rw [hcur, hcur']
  rw [List.dropLast_append_of_ne_nil (by simp), List.dropLast_cons_of_ne_nil (by simp),
    List.prefix_append_right_inj, List.cons_prefix_cons] at h
  rw [List.dropLast_append_of_ne_nil (by simp), List.prefix_append_right_inj]
  exact h.2

/-- Another track's turn does not touch the entries of a track. -/
theorem cur_kept (ht : T t) (ht' : T t') (hne : t' ≠ t) (h : FlatTurn root t m m') :
    m'.fs.node? t'.cur = m.fs.node? t'.cur := by
  apply h.kept _ (hT.above ht' ht)
  rintro (he | he)
  · exact hT.cur_ne ht ht' hne he
  · exact hT.goal_ne_cur ht ht' he.symm

/-- The turn of another track leaves the new path alone. -/
theorem goal_kept (ht : T t) (ht' : T t') (hne : t' ≠ t) (h : FlatTurn root t m m') :
    m'.fs.node? (t'.goal root) = m.fs.node? (t'.goal root) := by
  apply h.kept _ (hT.goal_below ht' ht)
  rintro (he | he)
  · exact hT.goal_ne_cur ht' ht he
  · exact hT.goal_ne ht ht' hne he

/-- The turn of another track leaves the stage as it is. -/
theorem standing_kept (ht : T t) (ht' : T t') (hne : t' ≠ t) (h : FlatTurn root t m m')
    (hs : Standing root m t') : Standing root m' t' :=
  hs.kept h (hT.cur_kept ht ht' hne h) (hT.goal_kept ht ht' hne h)
    (h.rowPath (hT.sha_ne ht ht' hne))

/-- The row of a track names no place of another one. -/
theorem claimed_kept (ht : T t) (ht' : T t') (h : FlatTurn root t m m') (hs : Standing root m t)
    (hs' : Standing root m' t) :
    m'.Claimed t'.sha (t'.goal root) ↔ m.Claimed t'.sha (t'.goal root) := by
  have own : ∀ {n : Machine}, Standing root n t → n.rowPath t.sha = some (t'.goal root) →
      t' = t := by
    intro n hn he
    by_contra hne
    rcases hn.rowPath with hrow | hrow
    · rw [hrow] at he
      exact hT.goal_ne_cur ht' ht (Option.some.inj he).symm
    · rw [hrow] at he
      exact hT.goal_ne ht ht' hne (Option.some.inj he).symm
  constructor
  · rintro ⟨sha, hne, hrow⟩
    by_cases hsha : sha = t.sha
    · rw [hsha] at hrow
      exact absurd (hsha.trans (congrArg FlatTrack.sha (own hs' hrow)).symm) hne
    · exact ⟨sha, hne, by rw [← h.rowPath hsha]; exact hrow⟩
  · rintro ⟨sha, hne, hrow⟩
    by_cases hsha : sha = t.sha
    · rw [hsha] at hrow
      exact absurd (hsha.trans (congrArg FlatTrack.sha (own hs hrow)).symm) hne
    · exact ⟨sha, hne, by rw [h.rowPath hsha]; exact hrow⟩

/-- The turn of another track does not decide whether a track can be recovered. -/
theorem recoverable_kept (ht : T t) (ht' : T t') (hne : t' ≠ t) (h : FlatTurn root t m m')
    (hs : Standing root m t) (hs' : Standing root m' t) :
    Recoverable root m' t' ↔ Recoverable root m t' := by
  unfold Recoverable Free
  rw [h.rowPath (hT.sha_ne ht ht' hne), hT.cur_kept ht ht' hne h, hT.goal_kept ht ht' hne h,
    hT.claimed_kept ht ht' h hs hs']

/-- After the turn of one track the library stands as before, if that track does. -/
theorem midway_turn (ht : T t) (h : FlatTurn root t m m') (hm : Midway root T m)
    (hs : Standing root m' t) : Midway root T m' where
  base := by
    obtain ⟨name, rest, hcur, -⟩ := flat_cases (hT.flat ht)
    have hown : ¬ t.Own root root := by
      rintro (he | he)
      · rw [hcur] at he
        simp at he
      · unfold FlatTrack.goal computeArchivePath at he
        simp at he
    rcases h.node root hown with hsame | ⟨hnone, -, -⟩
    · rw [hsame, hm.base]
    · rw [hm.base] at hnone
      cases hnone
  standing {t'} ht' := by
    by_cases hne : t' = t
    · rw [hne]
      exact hs
    · exact hT.standing_kept ht ht' hne h (hm.standing ht')
  rows {sha row} hget hflat := by
    by_cases hsha : sha = t.sha
    · have hrow : m'.rowPath t.sha = some row.path := by
        unfold Machine.rowPath
        rw [← hsha, hget]
        rfl
      refine ⟨t, ht, hsha.symm, ?_⟩
      rcases hs.rowPath with he | he
      · rw [hrow] at he
        exact (Option.some.inj he).symm
      · rw [hrow] at he
        rw [Option.some.inj he, FlatTrack.goal, classifyPath_archive (hT.flat ht)] at hflat
        cases hflat
    · rw [h.row sha hsha] at hget
      exact hm.rows hget hflat

end TracksApart

end Nocturne
