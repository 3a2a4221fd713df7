import Nocturne.Migrate.Run
import Nocturne.Rotate.Side

/-!
# The turn of one track

A migration takes the tracks one by one. The turn of a track may change the entries that are the
track's own, make directories above them, write into new files, and change the rows with the
track's key. What it is made of are calls whose effect is known where no call on the tree fails.
-/

namespace Nocturne

open Lib Proc

variable {ω : Type} {own above : Path → Prop} {sha : Sha} {m m' m'' : Machine}

/-- The path that the row of a track names. -/
def Machine.rowPath (m : Machine) (sha : Sha) : Option Path :=
  (m.db.tracks.get? sha).map TrackRow.path

/-- Another row than that of `sha` names a path. -/
def Machine.Claimed (m : Machine) (sha : Sha) (path : Path) : Prop :=
  ∃ s, s ≠ sha ∧ m.rowPath s = some path

/-- What the turn of one track may change. -/
structure Turn (own above : Path → Prop) (sha : Sha) (m m' : Machine) : Prop where
  node : ∀ p, ¬ own p → m'.fs.node? p = m.fs.node? p ∨
    m.fs.node? p = none ∧ above p ∧ m'.fs.node? p = some .dir
  data : ∀ i, i < m.fs.next → m'.fs.data i = m.fs.data i
  next : m.fs.next ≤ m'.fs.next
  device : m'.fs.device = m.fs.device
  row : ∀ s, s ≠ sha → m'.db.tracks.get? s = m.db.tracks.get? s
  residency : ∀ s, s ≠ sha → m'.db.residencyState.get? s = m.db.residencyState.get? s

namespace Turn

theorem refl (own above : Path → Prop) (sha : Sha) (m : Machine) : Turn own above sha m m :=
  ⟨fun _ _ ↦ Or.inl rfl, fun _ _ ↦ rfl, Nat.le_refl _, rfl, fun _ _ ↦ rfl, fun _ _ ↦ rfl⟩

/-- Two steps of the turn of one track. -/
theorem trans (h : Turn own above sha m m') (h' : Turn own above sha m' m'') :
    Turn own above sha m m'' where
  node p hown := by
    rcases h.node p hown with hsame | ⟨hnone, hdir, hnew⟩
    · rw [← hsame]
      exact h'.node p hown
    · right
      refine ⟨hnone, hdir, ?_⟩
      rcases h'.node p hown with hsame | ⟨hnone', -, -⟩
      · rw [hsame, hnew]
      · rw [hnew] at hnone'
        cases hnone'
  data i hi := by rw [h'.data i (Nat.lt_of_lt_of_le hi h.next), h.data i hi]
  next := Nat.le_trans h.next h'.next
  device := h'.device.trans h.device
  row s hs := by rw [h'.row s hs, h.row s hs]
  residency s hs := by rw [h'.residency s hs, h.residency s hs]

/-- A change of own entries only. -/
theorem of_within {E : Bounds} {fs' : Tree} (h : Fs.Within E m.fs fs')
    (hE : ∀ p n, E p n → own p) : Turn own above sha m ⟨fs', m.db⟩ where
  node p hown := Or.inl (h.node p fun he ↦ hown (hE p _ he))
  data := h.data
  next := h.next
  device := h.device
  row _ _ := rfl
  residency _ _ := rfl

/-- The turn of a track leaves the rows of the others alone. -/
theorem rowPath (h : Turn own above sha m m') {s : Sha} (hs : s ≠ sha) :
    m'.rowPath s = m.rowPath s := by
  unfold Machine.rowPath
  rw [h.row s hs]

/-- An entry that is neither the track's own nor above one is left alone. -/
theorem kept (h : Turn own above sha m m') {p : Path} (hown : ¬ own p) (habove : ¬ above p) :
    m'.fs.node? p = m.fs.node? p := by
  rcases h.node p hown with hsame | ⟨-, hdir, -⟩
  · exact hsame
  · exact absurd hdir habove

/-- Files that were there keep their contents. -/
theorem content (h : Turn own above sha m m') {p : Path} {i : Nat}
    (hi : m.fs.node? p = some (.file i)) :
    (m'.fs.data i).content = (m.fs.data i).content := by
  rw [h.data i (m.fs.fresh hi)]

/-- A path whose entry stays holds what it held. -/
theorem holds (h : Turn own above sha m m') {p : Path} {c : Content}
    (hp : m'.fs.node? p = m.fs.node? p) (hc : Holds m.fs p c) : Holds m'.fs p c := by
  obtain ⟨i, hi, hd⟩ := hc
  exact ⟨i, hp.trans hi, by rw [h.data i (m.fs.fresh hi), hd]⟩

end Turn

/-- The turn of a track, between two points of a run. -/
structure Turned (own above : Path → Prop) (sha : Sha) (w w' : World ω) : Prop where
  turn : Turn own above sha w.stop w'.stop
  idle : w'.conn.txn = none

/-- What a track is recorded at depends on the connection only. -/
theorem rowPath_of_conn {w w' : World ω} (h : w'.conn = w.conn) (sha : Sha) :
    w'.stop.rowPath sha = w.stop.rowPath sha := by
  unfold Machine.rowPath World.stop
  rw [h]

/-- No two tracks are recorded at one path. -/
theorem rowPath_inj {sha sha' : Sha} {p : Path} (h : m.rowPath sha = some p)
    (h' : m.rowPath sha' = some p) : sha = sha' := by
  unfold Machine.rowPath at h h'
  obtain ⟨row, hget, hpath⟩ := Option.map_eq_some_iff.mp h
  obtain ⟨row', hget', hpath'⟩ := Option.map_eq_some_iff.mp h'
  exact (UniqueTable.eq_of_key hget hget' (hpath.trans hpath'.symm)).1

/-! ### The selected rows -/

/-- Each selected row comes up once. -/
theorem nodup_allTracks (db : Db) : (db.allTracks.map Prod.fst).Nodup := by
  have hperm : (db.allTracks.map Prod.fst).Perm (db.tracks.table.rows.map Prod.fst) := by
    unfold Db.allTracks
    have := (List.mergeSort_perm (db.tracks.table.rows.map fun r ↦ (r.1, r.2.path))
      fun a b ↦ decide (a.1 ≤ b.1)).map Prod.fst
    rw [List.map_map] at this
    exact this
  exact hperm.nodup_iff.mpr (Table.nodup_keys _)

/-- The list of tracks has each row of the table. -/
theorem mem_allTracks {x : Sha × Path} : x ∈ m.db.allTracks ↔ m.rowPath x.1 = some x.2 := by
  unfold Db.allTracks Machine.rowPath
  rw [List.mem_mergeSort, List.mem_map, Option.map_eq_some_iff]
  constructor
  · rintro ⟨r, hr, rfl⟩
    exact ⟨r.2, Table.mem_rows.mp hr, rfl⟩
  · rintro ⟨row, hrow, hpath⟩
    exact ⟨(x.1, row), Table.mem_rows.mpr hrow, Prod.ext rfl hpath⟩

/-! ### Directories -/

/-- Directories above a path have been made. -/
structure MadeDirs (path : Path) (w w' : World ω) : Prop where
  beside : Beside (Adds (DirOf path)) w w'
  dir : ∀ p, w'.fs.node? p = w.fs.node? p ∨ w'.fs.node? p = some .dir
  out : w'.out = w.out

theorem MadeDirs.refl (path : Path) (w : World ω) : MadeDirs path w w :=
  ⟨Beside.refl _ _, fun _ ↦ Or.inl rfl, rfl⟩

/-- Directories made in two steps. -/
theorem MadeDirs.trans {path : Path} {w w' w'' : World ω} (h : MadeDirs path w w')
    (h' : MadeDirs path w' w'') : MadeDirs path w w'' where
  beside := h.beside.trans h'.beside
  dir p := by
    rcases h'.dir p with hsame | hdir
    · rw [hsame]
      exact h.dir p
    · exact Or.inr hdir
  out := h'.out.trans h.out

/-- A made directory, or one that was there. -/
theorem MadeDirs.mkdir {path dir : Path} {w : World ω} {fs' : Tree} (hdir : DirOf path dir)
    (h : w.fs.mkdir dir = .ok fs') : MadeDirs path w { w with fs := fs' } := by
  refine ⟨⟨Fs.Within.mkdir h ⟨rfl, hdir⟩, rfl⟩, fun p ↦ ?_, rfl⟩
  unfold Fs.mkdir at h
  split at h
  · cases h
    dsimp only
    rw [Fs.node?_place]
    by_cases hp : p = dir
    · exact Or.inr (if_pos hp)
    · exact Or.inl (if_neg hp)
  · cases h

namespace Turned

variable {w w' w'' : World ω}

theorem refl (hidle : w.conn.txn = none) : Turned own above sha w w := ⟨.refl _ _ _ _, hidle⟩

/-- Two steps of the turn of one track, with no transaction left open. -/
theorem trans (h : Turned own above sha w w') (h' : Turned own above sha w' w'') :
    Turned own above sha w w'' :=
  ⟨h.turn.trans h'.turn, h'.idle⟩

/-- Changes at the paths of the track belong to its turn. -/
theorem of_beside {E : Bounds} (h : Beside E w w') (hE : ∀ p n, E p n → own p)
    (hidle : w.conn.txn = none) : Turned own above sha w w' := by
  have hturn : Turn own above sha w.stop ⟨w'.fs, w.stop.db⟩ := .of_within h.tree hE
  constructor
  · unfold World.stop at *
    rw [h.conn]
    exact hturn
  · rw [h.conn, hidle]

/-- Making directories above the paths of the track belongs to its turn. -/
theorem of_dirs {path : Path} (h : MadeDirs path w w') (hpath : ∀ p, DirOf path p → above p)
    (hidle : w.conn.txn = none) : Turned own above sha w w' := by
  have hdb : w'.stop.db = w.stop.db := by
    unfold World.stop
    rw [h.beside.conn]
  refine ⟨⟨fun p _ ↦ ?_, h.beside.tree.data, h.beside.tree.next, h.beside.tree.device,
    fun _ _ ↦ by rw [hdb], fun _ _ ↦ by rw [hdb]⟩, by rw [h.beside.conn, hidle]⟩
  by_cases hp : Adds (DirOf path) p (w.fs.node? p)
  · rcases h.dir p with hsame | hdir
    · exact Or.inl hsame
    · exact Or.inr ⟨hp.1, hpath p hp.2, hdir⟩
  · exact Or.inl (h.beside.tree.node p hp)

end Turned

section Calls

variable {A : World ω → Call → Reply Fault → Prop} {w : World ω} {path dir : Path}

/-- One directory is made, or is there. -/
theorem wp_mkdirOne (hA : FilesCalm A) (hdir : DirOf path dir) :
    wp A (Migrate.mkdirOne dir) (fun ok w' ↦ ok = true ∧ MadeDirs path w w') (MadeDirs path w) w := by
  have idle : MadeDirs path w w := .refl path w
  unfold Migrate.mkdirOne mkdirOneBy
  rw [wp_bind]
  refine (wp_ask _ _).mpr ⟨fun _ ↦ idle, fun _ ↦ ?_, fun e he ↦ (by cases hA.sql he)⟩
  dsimp only
  cases hmk : w.fs.mkdir dir with
  | ok fs' => exact ⟨rfl, .mkdir hdir hmk⟩
  | error e =>
    unfold Fs.mkdir at hmk
    split at hmk
    · cases hmk
    · cases hmk
      exact ⟨rfl, idle⟩

/-- The directories are made one after another. -/
theorem wp_mkdirEach (hA : FilesCalm A) {dirs : List Path} (hdirs : ∀ dir ∈ dirs, DirOf path dir) :
    wp A (mkdirEach Migrate.mkdirOne dirs) (fun ok w' ↦ ok = true ∧ MadeDirs path w w') (MadeDirs path w) w := by
  induction dirs generalizing w with
  | nil => exact ⟨rfl, .refl path w⟩
  | cons dir dirs ih =>
    rw [mkdirEach, wp_bind]
    apply wp_mono (wp_mkdirOne hA (hdirs dir (.head _))) _ fun _ h ↦ h
    intro ok w' hw'
    obtain ⟨rfl, hmade⟩ := hw'
    rw [if_pos rfl]
    apply wp_mono (ih fun d hd ↦ hdirs d (.tail _ hd))
    · exact fun _ _ h ↦ ⟨h.1, hmade.trans h.2⟩
    · exact fun _ h ↦ hmade.trans h

/-- The parents of a path can always be made. -/
theorem wp_mkparents (hA : FilesCalm A) : wp A (Migrate.mkparents path)
    (fun ok w' ↦ ok = true ∧ MadeDirs path w w') (MadeDirs path w) w := by
  apply wp_mkdirEach hA
  intro dir hdir
  exact (List.mem_inits _ _).mp (List.mem_of_mem_tail hdir)

/-! ### Identities -/

/-- A path to something that is no symbolic link leads to itself. -/
theorem locate_plain (fs : Tree) {p : Path} {n : Node Name} (h : fs.node? p = some n)
    (hn : ∀ link, n ≠ .symlink link) : fs.locate (Fs.maxSymlinks + 1) p = some p := by
  unfold Fs.locate
  rw [h]
  cases n with
  | file i => rfl
  | dir => rfl
  | symlink link => exact absurd rfl (hn link)

/-- The two `stat` calls tell whether a file is at the other path too. -/
theorem wp_sameInode_file {C : World ω → Prop} {Q : Bool → World ω → Prop} {p q : Path} {i : Nat}
    {n : Node Name} (hA : FilesCalm A) (hp : w.fs.node? p = some (.file i))
    (hq : w.fs.node? q = some n) (hn : ∀ link, n ≠ .symlink link) (hC : C w)
    (hQ : Q (decide (n = .file i)) w) : wp A (Migrate.sameInode p q) Q C w := by
  have hidp : Migrate.fileId w.fs p = .ok (.file i) := by
    unfold Migrate.fileId
    rw [locate_plain w.fs hp fun _ he ↦ by cases he]
    simp only [hp]
  unfold Migrate.sameInode sameInodeBy
  rw [wp_bind]
  refine (wp_ask _ _).mpr ⟨fun _ ↦ hC, fun _ ↦ ?_, fun e he ↦ (by cases hA.sql he)⟩
  dsimp only
  rw [hidp]
  dsimp only
  rw [wp_bind]
  refine (wp_ask _ _).mpr ⟨fun _ ↦ hC, fun _ ↦ ?_, fun e he ↦ (by cases hA.sql he)⟩
  dsimp only
  cases n with
  | symlink link => exact absurd rfl (hn link)
  | dir =>
    have hidq : Migrate.fileId w.fs q = .ok (.dir q) := by
      unfold Migrate.fileId
      rw [locate_plain w.fs hq hn]
      simp only [hq]
    rw [hidq]
    exact hQ
  | file j =>
    have hidq : Migrate.fileId w.fs q = .ok (.file j) := by
      unfold Migrate.fileId
      rw [locate_plain w.fs hq hn]
      simp only [hq]
    rw [hidq]
    by_cases hij : j = i
    · rw [hij] at hQ ⊢
      simpa using hQ
    · have hne : (FileId.file i == FileId.file j) = false := by
        apply beq_eq_false_iff_ne.mpr
        intro h
        cases h
        exact hij rfl
      show Q (FileId.file i == FileId.file j) w
      rw [hne]
      simpa [hij] using hQ

/-! ### Rows -/

/-- Outside of a transaction the connection sees what is committed. -/
theorem view_of_idle (hidle : w.conn.txn = none) : w.conn.view = w.stop.db := by
  unfold Conn.view World.stop
  rw [hidle]

/-- Outside of a transaction what is written is committed. -/
theorem setView_of_idle (hidle : w.conn.txn = none) (db : Db) : w.conn.setView db = ⟨db, none⟩ := by
  unfold Conn.setView
  rw [hidle]

/-- Outside of a transaction a failing statement changes nothing. -/
theorem failed_of_idle (hidle : w.conn.txn = none) (e : Fault) : w.conn.failed e = w.conn := by
  unfold Conn.failed
  split
  · rw [← hidle]
  · rfl

/-- The update of a path changes the row. -/
theorem turn_updateTrackPath {db : Db} {iso : Text} {cur : Path} (hrow : m.rowPath sha = some cur)
    (h : m.db.updateTrackPath sha path iso = some db) :
    (⟨m.fs, db⟩ : Machine).rowPath sha = some path ∧
      db.residencyState = m.db.residencyState ∧ Turn own above sha m ⟨m.fs, db⟩ := by
  unfold Machine.rowPath at hrow
  obtain ⟨row, hget, -⟩ := Option.map_eq_some_iff.mp hrow
  unfold Db.updateTrackPath at h
  rw [hget] at h
  obtain ⟨tracks, ht, rfl⟩ := Option.map_eq_some_iff.mp h
  have hsome : m.db.tracks.get? sha ≠ none := by
    rw [hget]
    exact Option.some_ne_none _
  have hnew : ∀ s, tracks.get? s = _ := fun s ↦ UniqueTable.get?_replace? ht hsome
  refine ⟨?_, rfl, fun _ _ ↦ Or.inl rfl, fun _ _ ↦ rfl, Nat.le_refl _, rfl, fun s hs ↦ ?_,
    fun _ _ ↦ rfl⟩
  · unfold Machine.rowPath
    dsimp only
    rw [hnew, if_pos rfl]
    rfl
  · dsimp only
    rw [hnew, if_neg hs]

/-- A path is updated exactly when no other row names the new one. -/
theorem updateTrackPath_isSome (iso : Text) {cur : Path} (hrow : m.rowPath sha = some cur) :
    (m.db.updateTrackPath sha path iso).isSome ↔ ¬ m.Claimed sha path := by
  unfold Machine.rowPath at hrow
  obtain ⟨row, hget, -⟩ := Option.map_eq_some_iff.mp hrow
  unfold Db.updateTrackPath
  rw [hget]
  simp only [Option.isSome_map, UniqueTable.replace?_isSome, hget, reduceCtorEq, false_or]
  constructor
  · rintro h ⟨s, hs, hclaim⟩
    obtain ⟨row', hget', hpath⟩ := Option.map_eq_some_iff.mp hclaim
    exact hs (h s row' hget' hpath)
  · intro h s row' hget' hpath
    by_contra hs
    apply h
    refine ⟨s, hs, ?_⟩
    unfold Machine.rowPath
    rw [hget', Option.map_some, hpath]

/-- `track_repo_update_path` for a row that is there, outside of a transaction. -/
theorem wp_trackRepoUpdatePath {Q : Bool → World ω → Prop} {C : World ω → Prop} {iso : Text}
    {cur : Path} (hidle : w.conn.txn = none) (hrow : w.stop.rowPath sha = some cur) (hC : C w)
    (hfail : ∀ e, A w (.sql (.updateTrackPath sha)) (.fail e) → Q false w)
    (hclaimed : w.stop.Claimed sha path → Q false w)
    (hdone : ∀ db, ¬ w.stop.Claimed sha path → (⟨w.fs, db⟩ : Machine).rowPath sha = some path →
      db.residencyState = w.stop.db.residencyState →
      (∀ own above, Turn own above sha w.stop ⟨w.fs, db⟩) →
      Q true { w with conn := ⟨db, none⟩ }) :
    wp A (trackRepoUpdatePath sha path iso) Q C w := by
  unfold trackRepoUpdatePath
  rw [wp_bind]
  refine (wp_ask _ _).mpr ⟨fun _ ↦ hC, fun _ ↦ ?_, fun e he ↦ ?_⟩
  · dsimp only
    rw [view_of_idle hidle]
    have hsome := @updateTrackPath_isSome sha w.stop path iso _ hrow
    cases hup : w.stop.db.updateTrackPath sha path iso with
    | none =>
      apply hclaimed
      by_contra hnot
      rw [hup] at hsome
      cases hsome.mpr hnot
    | some db =>
      rw [hup] at hsome
      have hturn := fun own above ↦ @turn_updateTrackPath own above sha w.stop path db iso _ hrow hup
      obtain ⟨hpath, hresidency, -⟩ := hturn (fun _ ↦ True) fun _ ↦ True
      have hq := hdone db (hsome.mp rfl) hpath hresidency fun own above ↦ (hturn own above).2.2
      rw [← setView_of_idle hidle] at hq
      exact hq
  · have hsame : ({ w with conn := w.conn.failed e } : World ω) = w := by
      rw [failed_of_idle hidle e]
    show Q false { w with conn := w.conn.failed e }
    rw [hsame]
    exact hfail e he

end Calls

end Nocturne
