import Nocturne.Scan.Collision

/-!
# What a visit does to the rows

Three things can happen in a visit that goes on: nothing, a row marked as seen, or the row of
the file's content put at the file's path. In the last case the row that held the path before
is gone, and no other row is touched.
-/

namespace Nocturne

open Lib

/-- The row of an unchanged file is marked as seen. -/
structure Marks (isoNow : Text) (fs : Tree) (db : Db) (rec : TagRecord) (sha : Sha) (db' : Db) :
    Prop where
  unchanged : Unchanged fs db rec sha
  row : db'.tracks.get? sha =
    (db.tracks.get? sha).map fun r ↦ { r with lastSeenAt := isoNow }
  spares : ∀ s, s ≠ sha → db'.tracks.get? s = db.tracks.get? s
  companions : ∀ s, db'.companions s = db.companions s
  blacklist : db'.trackBlacklist = db.trackBlacklist

/-- The file is stored under its hash. -/
structure Stores (digest : Content → Sha) (isoNow : Text) (fs : Tree) (db : Db)
    (rec : TagRecord) (hex : Sha) (db' : Db) : Prop where
  examined : Examined digest fs db rec hex
  row : ∃ row, db'.tracks.get? hex = some row ∧ row.path = rec.path ∧
    lstatTimes fs rec.path = .ok (row.mtimeNs, row.sizeBytes) ∧ row.lastSeenAt = isoNow
  keeps : db.tracks.get? hex ≠ none → db'.companions hex = db.companions hex
  frees : ∀ sha, sha ≠ hex → HoldsPath db sha rec.path →
    db.tracks.get? hex = none ∧ db'.tracks.get? sha = none
  spares : ∀ sha, sha ≠ hex → ¬ HoldsPath db sha rec.path →
    db'.tracks.get? sha = db.tracks.get? sha ∧ db'.companions sha = db.companions sha
  blacklist : db'.trackBlacklist = db.trackBlacklist

variable {digest : Content → Sha} {isoNow : Text} {fs : Tree} {db db' : Db} {rec : TagRecord}
  {hex sha : Sha} {m s : Int}

/-- A visit examines a file under one hash only. -/
theorem Examined.unique (h : Examined digest fs db rec hex) (h' : Examined digest fs db rec sha) :
    sha = hex := by
  have hh := h.2.2.1.symm.trans h'.2.2.1
  injection hh with hh
  exact hh.symm

theorem Db.trackBlacklist_updateTrack {row : TrackRow} (h : db.updateTrack sha row = some db') :
    db'.trackBlacklist = db.trackBlacklist := by
  unfold Db.updateTrack at h
  split at h
  · cases h
  · obtain ⟨t, -, rfl⟩ := Option.map_eq_some_iff.mp h
    rfl

/-- An update moves the row to the file, and it goes through because no other row is there. -/
private theorem stores_of_update (he : Examined digest fs db rec hex)
    (ht : lstatTimes fs rec.path = .ok (m, s))
    (h : db.updateTrack hex (trackRowOf rec m s isoNow) = some db') :
    Stores digest isoNow fs db rec hex db' := by
  obtain ⟨old, hold, hget⟩ := Db.get?_updateTrack h hex
  rw [if_pos rfl] at hget
  have hfree := (Db.updateTrack_isSome.mp (Option.isSome_iff_exists.mpr ⟨db', h⟩)).2
  have hcomp := Db.companions_updateTrack h
  constructor
  · exact he
  · exact ⟨_, hget, rfl, ht, rfl⟩
  · exact fun _ ↦ hcomp hex
  · intro sha hne hp
    obtain ⟨r, hr, hpath⟩ := hp
    exact absurd (hfree sha r hr hpath) hne
  · intro sha hne _
    obtain ⟨_, -, hother⟩ := Db.get?_updateTrack h sha
    rw [if_neg hne] at hother
    exact ⟨hother, hcomp sha⟩
  · exact Db.trackBlacklist_updateTrack h

/-- An insertion goes through because no row is at the path. -/
private theorem stores_of_insert (he : Examined digest fs db rec hex)
    (ht : lstatTimes fs rec.path = .ok (m, s))
    (h : db.insertTrack hex (trackRowOf rec m s isoNow) = some db') :
    Stores digest isoNow fs db rec hex db' := by
  obtain ⟨hnew, hfree⟩ := Db.insertTrack_isSome.mp (Option.isSome_iff_exists.mpr ⟨db', h⟩)
  have hget := Db.get?_insertTrack h
  have hcomp := Db.companions_insertTrack h
  constructor
  · exact he
  · exact ⟨_, by rw [hget, if_pos rfl], rfl, ht, rfl⟩
  · exact fun hne ↦ absurd hnew hne
  · intro sha _ hp
    obtain ⟨r, hr, hpath⟩ := hp
    exact absurd hpath (UniqueTable.find?_eq_none.mp hfree sha r hr)
  · intro sha hne _
    rw [hget, if_neg hne]
    exact ⟨rfl, hcomp sha⟩
  · obtain ⟨t, -, rfl⟩ := Db.insertTrack_eq_some h
    rfl

/-- New content takes the place of the row that holds the path. -/
private theorem stores_of_replace {old : Sha} (he : Examined digest fs db rec hex)
    (ht : lstatTimes fs rec.path = .ok (m, s)) (hnew : db.tracks.get? hex = none)
    (hold : HoldsPath db old rec.path)
    (h : (db.deleteTrack old).insertTrack hex (trackRowOf rec m s isoNow) = some db') :
    Stores digest isoNow fs db rec hex db' := by
  have hget := Db.get?_insertTrack h
  have hcomp := Db.companions_insertTrack h
  constructor
  · exact he
  · exact ⟨_, by rw [hget, if_pos rfl], rfl, ht, rfl⟩
  · exact fun hne ↦ absurd hnew hne
  · intro sha hne hp
    rw [hget, if_neg hne, Db.get?_deleteTrack, if_pos (hp.unique hold)]
    exact ⟨hnew, rfl⟩
  · intro sha hne hp
    have hso : sha ≠ old := fun h ↦ hp (h ▸ hold)
    rw [hget, if_neg hne, Db.get?_deleteTrack, if_neg hso, hcomp]
    exact ⟨rfl, Db.companions_deleteTracks (Db.trackSatisfies_deleteTrack hso)⟩
  · obtain ⟨t, -, rfl⟩ := Db.insertTrack_eq_some h
    rfl

/-- What a visit that goes on does. -/
theorem run_effect (hrun : (Verdict.of digest isoNow fs db rec).run isoNow db = some db') :
    (db' = db ∧ (∀ sha, ¬ Unchanged fs db rec sha) ∧ ∀ hex, ¬ Examined digest fs db rec hex) ∨
      (∃ sha, Marks isoNow fs db rec sha db') ∨
      ∃ hex, Stores digest isoNow fs db rec hex db' := by
  rcases Verdict.of_cases digest isoNow fs db rec with
    ⟨hv, hno, hne⟩ | ⟨sha, hu, hv⟩ | ⟨hex, m, s, he, ht, hv⟩
  · rw [hv] at hrun
    cases hrun
    exact Or.inl ⟨rfl, hno, hne⟩
  · rw [hv] at hrun
    obtain ⟨db'', hdb, hcomp, hbl, hget⟩ := Db.markSeen_ok db sha isoNow
    rw [Verdict.run, hdb] at hrun
    cases hrun
    refine Or.inr (Or.inl ⟨sha, hu, ?_, ?_, hcomp, hbl⟩)
    · rw [hget, if_pos rfl]
    · intro s hs
      rw [hget, if_neg hs]
  · refine Or.inr (Or.inr ⟨hex, ?_⟩)
    rw [hv] at hrun
    unfold Verdict.store at hrun
    cases hx : db.tracks.get? hex with
    | some r =>
      rw [hx] at hrun
      exact stores_of_update he ht hrun
    | none =>
      rw [hx] at hrun
      cases hf : (db.tracks.find? rec.path).map Prod.fst with
      | none =>
        rw [hf] at hrun
        exact stores_of_insert he ht hrun
      | some old =>
        rw [hf] at hrun
        exact stores_of_replace he ht hx (holder_eq_some.mp hf) hrun

/-! ### What a visit does to the files -/

/-- Entries have been taken away, and nothing else has happened. -/
def Thinned (fs fs' : Tree) : Prop :=
  fs'.data = fs.data ∧ ∀ p, fs'.node? p = fs.node? p ∨ fs'.node? p = none

namespace Thinned

variable {fs' fs'' : Tree} {p : Path}

theorem refl (fs : Tree) : Thinned fs fs := ⟨rfl, fun _ ↦ Or.inl rfl⟩

theorem trans (h : Thinned fs fs') (h' : Thinned fs' fs'') : Thinned fs fs'' := by
  refine ⟨h'.1.trans h.1, fun p ↦ ?_⟩
  rcases h'.2 p with hp | hp
  · rw [hp]
    exact h.2 p
  · exact Or.inr hp

theorem clear (fs : Tree) (q : Path) : Thinned fs (fs.clear q) := by
  refine ⟨rfl, fun p ↦ ?_⟩
  rw [Fs.node?_clear]
  split
  · exact Or.inr rfl
  · exact Or.inl rfl

theorem unlinkAll (fs : Tree) (xs : List Path) : Thinned fs (unlinkAll fs xs) := by
  induction xs generalizing fs with
  | nil => exact refl fs
  | cons x xs ih =>
    have hx : Thinned fs ((fs.unlink x).toOption.getD fs) := by
      cases hu : fs.unlink x with
      | error e => exact refl fs
      | ok fs' =>
        obtain ⟨-, rfl⟩ := Fs.unlink_ok hu
        exact clear fs x
    exact hx.trans (ih _)

/-- A file that is still read has the contents it had. -/
theorem hashFile (h : Thinned fs fs') (hr : hashFile digest fs' p = .ok hex) :
    Nocturne.hashFile digest fs p = .ok hex := by
  unfold Nocturne.hashFile at hr ⊢
  rcases h.2 p with hp | hp
  · rw [hp, h.1] at hr
    exact hr
  · rw [hp] at hr
    cases hr

/-- An entry that is still there has the times it had. -/
theorem lstatTimes {times : Int × Int} (h : Thinned fs fs') (hr : lstatTimes fs' p = .ok times) :
    Nocturne.lstatTimes fs p = .ok times := by
  unfold Nocturne.lstatTimes at hr ⊢
  rcases h.2 p with hp | hp
  · rw [hp, h.1] at hr
    exact hr
  · rw [hp] at hr
    cases hr

end Thinned

/-- A visit takes away files at most. -/
theorem thinned_visitState (digest : Content → Sha) (isoNow : Text) (w : World ScanCtx)
    (rec : TagRecord) : Thinned w.fs (visitState digest isoNow w rec).fs := by
  rw [visitState, (onFile_acts digest isoNow rec w).files]
  exact .unlinkAll w.fs _

/-- The visit cannot read the file that it has to read. -/
def Unread (digest : Content → Sha) (fs : Tree) (db : Db) (rec : TagRecord) : Prop :=
  isTranscodeArtifact rec.path = false ∧ (∀ sha, ¬ Unchanged fs db rec sha) ∧
    ∀ hex, hashFile digest fs rec.path ≠ .ok hex

private theorem hashFailed_storeTrack {w : World ScanCtx} {row : TrackRow}
    {existing : Option Sha} :
    ((storeTrack hex row existing).eval w).2.out.hashFailed = w.out.hashFailed := by
  simp only [storeTrack, trackRepoLookupBySha256, Proc.eval_bind, eval_query]
  cases (w.conn.view.tracks.get? hex).isSome with
  | true =>
    simp only [Proc.eval_bind, eval_trackRepoUpdate, eval_tally, Proc.eval_pure]
    split <;> rfl
  | false =>
    cases existing with
    | none =>
      simp only [Proc.eval_bind, eval_trackRepoInsert, eval_tally, Proc.eval_pure]
      split <;> rfl
    | some old =>
      simp only [Proc.eval_bind, eval_trackRepoDelete, eval_trackRepoInsert, eval_tally,
        Proc.eval_pure, if_true]
      split <;> rfl

private theorem hashFailed_hashAndStore {w : World ScanCtx} {existing : Option Sha} :
    ((hashAndStore digest isoNow rec m s existing).eval w).2.out.hashFailed =
      w.out.hashFailed + match hashFile digest w.fs rec.path with
        | .error _ => 1
        | .ok _ => 0 := by
  simp only [hashAndStore, Proc.eval_bind, eval_hashAudioPayload]
  cases hashFile digest w.fs rec.path with
  | error e => simp
  | ok hex =>
    simp only [Proc.eval_bind, eval_query, Proc.eval_ite]
    split
    · simp
    · simp only [eval_tally]
      generalize hq : (storeTrack hex _ existing).eval _ = q
      have hh : q.2.out.hashFailed = w.out.hashFailed := by rw [← hq, hashFailed_storeTrack]
      cases q.1 with
      | true => simp [hh]
      | false => simp [hardStop, hh]

/-- `hash_failed` counts the files that cannot be read. -/
theorem hashFailed_visitState (digest : Content → Sha) (isoNow : Text) (w : World ScanCtx)
    (rec : TagRecord) :
    w.out.hashFailed ≤ (visitState digest isoNow w rec).out.hashFailed ∧
      (Unread digest w.fs w.conn.view rec →
        w.out.hashFailed < (visitState digest isoNow w rec).out.hashFailed) := by
  unfold visitState
  simp only [onFile, Proc.eval_ite]
  split
  · next ha =>
    refine ⟨le_refl _, fun h ↦ ?_⟩
    have hno := h.1
    rw [ha] at hno
    cases hno
  · next ha =>
    simp only [Proc.eval_bind, eval_tally, eval_sysRead]
    cases hl : lstatTimes w.fs rec.path with
    | error e => simp
    | ok times =>
      have hhash : ∀ existing, w.out.hashFailed ≤ ((hashAndStore digest isoNow rec times.1 times.2
            existing).eval { w with out := { w.out with
              filesSeen := w.out.filesSeen + 1 } }).2.out.hashFailed ∧
          (Unread digest w.fs w.conn.view rec → w.out.hashFailed <
            ((hashAndStore digest isoNow rec times.1 times.2 existing).eval
              { w with out := { w.out with
                filesSeen := w.out.filesSeen + 1 } }).2.out.hashFailed) := by
        intro existing
        rw [hashFailed_hashAndStore]
        cases hh : hashFile digest w.fs rec.path with
        | error e => simp
        | ok hex => exact ⟨le_refl _, fun h ↦ absurd hh (h.2.2 hex)⟩
      simp only [trackRepoLookupByPath, Proc.eval_bind, eval_query]
      cases hp : w.conn.view.lookupByPath rec.path with
      | none => exact hhash none
      | some found =>
        obtain ⟨sha, mtime, size⟩ := found
        simp only [Proc.eval_ite]
        split
        · next hs =>
          obtain ⟨row, hr, hpath, rfl, rfl⟩ := lookupByPath_eq_some.mp hp
          have hu : Unchanged w.fs w.conn.view rec sha := by
            refine ⟨by simpa using ha, row, hr, hpath, ?_⟩
            rw [hl, hs.1, hs.2]
          obtain ⟨db, hdb, -⟩ := Db.markSeen_ok w.conn.view sha isoNow
          simp only [Proc.eval_bind, eval_trackRepoMarkSeen, hdb, if_true, eval_tally,
            Proc.eval_pure]
          exact ⟨le_refl _, fun h ↦ absurd hu (h.2.1 sha)⟩
        · exact hhash (some sha)

/-- A visit that goes on leaves the database that its verdict runs to. -/
theorem run_of_goesOn {w : World ScanCtx} (hgo : GoesOn digest isoNow w rec) :
    (Verdict.of digest isoNow w.fs w.conn.view rec).run isoNow w.conn.view =
      some (visitState digest isoNow w rec).conn.view := by
  have ha := onFile_acts digest isoNow rec w
  cases h : (Verdict.of digest isoNow w.fs w.conn.view rec).run isoNow w.conn.view with
  | none => exact absurd h (goesOn_iff.mp hgo)
  | some db => rw [visitState, (ha.goes db h).2, Conn.view_setView]

end Nocturne
