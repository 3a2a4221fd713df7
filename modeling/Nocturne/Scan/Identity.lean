import Nocturne.Scan.Effect

/-!
# Rows that outlive a scan

A row of `tracks` that is deleted takes its pin, its like, its residency row and its unsync
override along, even if the scan puts a row of the same hash back a moment later. Two
statements delete: a visit that finds new content at the path of a row, and the sweep. This
module says exactly when neither of them hits a given row.
-/

namespace Nocturne

open Lib

/-- The row is there, with everything that hangs on it. -/
def Kept (db₀ db : Db) (sha : Sha) : Prop :=
  db.tracks.get? sha ≠ none ∧ db.companions sha = db₀.companions sha

/-- In no state of the scan is the row missing. -/
def KeepsRow (digest : Content → Sha) (job : ScanJob) (m : Machine) (sha : Sha) : Prop :=
  (∀ t ∈ (scanRunInternal digest job).steps (m.start {}), Kept m.db t.conn.view sha) ∧
    Kept m.db (afterScan digest job m).db sha

/-- New content, of a hash without a row, is at the path of the row. -/
def Displaces (digest : Content → Sha) (fs : Tree) (db : Db) (rec : TagRecord) (sha : Sha) :
    Prop :=
  ∃ hex, Examined digest fs db rec hex ∧ db.tracks.get? hex = none ∧ HoldsPath db sha rec.path

/-- The visit counts the row as seen: unchanged at its path, or found by its content. -/
def Sights (digest : Content → Sha) (fs : Tree) (db : Db) (rec : TagRecord) (sha : Sha) : Prop :=
  Unchanged fs db rec sha ∨ Examined digest fs db rec sha

variable {digest : Content → Sha} {isoNow : Text} {fs : Tree} {db db' : Db} {rec : TagRecord}
  {recs : List TagRecord} {w : World ScanCtx} {sha : Sha} {row : TrackRow} {job : ScanJob}

theorem Kept.trans {db₀ : Db} (h : Kept db₀ db sha) (h' : Kept db db' sha) : Kept db₀ db' sha :=
  ⟨h'.1, h'.2.trans h.2⟩

/-! ### One visit -/

/-- The row that new content displaces is the one the visit deletes. -/
theorem of_eq_replace_iff (isoNow : Text) :
    (∃ hex r, Verdict.of digest isoNow fs db rec = .replace sha hex r) ↔
    Displaces digest fs db rec sha := by
  rcases Verdict.of_cases digest isoNow fs db rec with ⟨hv, -, hno⟩ | ⟨s, hu, hv⟩ | ⟨hex, m, s, he, -, hv⟩
  · simp only [hv, reduceCtorEq, exists_false, false_iff]
    rintro ⟨hex, he, -⟩
    exact hno hex he
  · simp only [hv, reduceCtorEq, exists_false, false_iff]
    rintro ⟨hex, he, -⟩
    exact he.2.1 s hu
  · have huniq : ∀ hex', Examined digest fs db rec hex' → hex' = hex := by
      intro hex' he'
      have hh := he.2.2.1.symm.trans he'.2.2.1
      injection hh with hh
      exact hh.symm
    rw [hv]
    unfold Verdict.store
    cases hx : db.tracks.get? hex with
    | some r =>
      simp only [Option.isSome_some, if_true, reduceCtorEq, exists_false, false_iff]
      rintro ⟨hex', he', hx', -⟩
      rw [huniq hex' he', hx] at hx'
      cases hx'
    | none =>
      simp only [Option.isSome_none, Bool.false_eq_true, if_false]
      cases hf : (db.tracks.find? rec.path).map Prod.fst with
      | none =>
        simp only [reduceCtorEq, exists_false, false_iff]
        rintro ⟨-, -, -, hp⟩
        exact holder_eq_none.mp hf sha hp
      | some old =>
        simp only [Verdict.replace.injEq]
        constructor
        · rintro ⟨-, -, rfl, -⟩
          exact ⟨hex, he, hx, holder_eq_some.mp hf⟩
        · rintro ⟨-, -, -, hp⟩
          exact ⟨hex, _, HoldsPath.unique (holder_eq_some.mp hf) hp, rfl, rfl⟩

/-- What a visit that goes on does to one row: it is still there, as seen now if the visit
sights it and untouched otherwise. -/
theorem run_row (hrun : (Verdict.of digest isoNow fs db rec).run isoNow db = some db')
    (hrow : db.tracks.get? sha = some row) (hd : ¬ Displaces digest fs db rec sha) :
    ∃ row', db'.tracks.get? sha = some row' ∧ db'.companions sha = db.companions sha ∧
      (Sights digest fs db rec sha → row'.lastSeenAt = isoNow) ∧
      (¬ Sights digest fs db rec sha → row' = row) := by
  rcases run_effect hrun with ⟨rfl, hnu, hne⟩ | ⟨s, hm⟩ | ⟨hex, hst⟩
  · refine ⟨row, hrow, rfl, ?_, fun _ ↦ rfl⟩
    rintro (h | h)
    · exact absurd h (hnu sha)
    · exact absurd h (hne sha)
  · by_cases hsha : sha = s
    · subst hsha
      exact ⟨{ row with lastSeenAt := isoNow }, by rw [hm.row, hrow]; rfl, hm.companions sha,
        fun _ ↦ rfl, fun h ↦ absurd (Or.inl hm.unchanged) h⟩
    · refine ⟨row, by rw [hm.spares sha hsha, hrow], hm.companions sha, ?_, fun _ ↦ rfl⟩
      rintro (h | h)
      · exact absurd (h.unique hm.unchanged) hsha
      · exact absurd hm.unchanged (h.2.1 s)
  · by_cases hsha : sha = hex
    · subst hsha
      obtain ⟨row', hrow', -, -, hseen⟩ := hst.row
      exact ⟨row', hrow', hst.keeps (by rw [hrow]; simp), fun _ ↦ hseen,
        fun h ↦ absurd (Or.inr hst.examined) h⟩
    · have hp : ¬ HoldsPath db sha rec.path :=
        fun hp ↦ hd ⟨hex, hst.examined, (hst.frees sha hsha hp).1, hp⟩
      obtain ⟨hget, hcomp⟩ := hst.spares sha hsha hp
      refine ⟨row, hget.trans hrow, hcomp, ?_, fun _ ↦ rfl⟩
      rintro (h | h)
      · exact absurd h (hst.examined.2.1 sha)
      · exact absurd (hst.examined.unique h) hsha

/-! ### The walk -/

/-- The walk comes to the file that follows `pre`. -/
def Reaches (digest : Content → Sha) (isoNow : Text) (w : World ScanCtx) (pre : List TagRecord) :
    Prop :=
  (walkState digest isoNow w pre).out.hardError = false

/-- Some file that the walk comes to displaces the row at its turn. -/
def DisplacedIn (digest : Content → Sha) (isoNow : Text) (w : World ScanCtx)
    (recs : List TagRecord) (sha : Sha) : Prop :=
  ∃ pre rec post, recs = pre ++ rec :: post ∧ Reaches digest isoNow w pre ∧
    Displaces digest (walkState digest isoNow w pre).fs (walkState digest isoNow w pre).conn.view
      rec sha

/-- Some file that the walk comes to sights the row at its turn. -/
def SightedIn (digest : Content → Sha) (isoNow : Text) (w : World ScanCtx)
    (recs : List TagRecord) (sha : Sha) : Prop :=
  ∃ pre rec post, recs = pre ++ rec :: post ∧ Reaches digest isoNow w pre ∧
    Sights digest (walkState digest isoNow w pre).fs (walkState digest isoNow w pre).conn.view
      rec sha

/-- What can be said of some file of a walk is said of the first one, or of a later one. -/
private theorem exists_split_cons {p : List TagRecord → TagRecord → Prop} {r : TagRecord} :
    (∃ pre rec post, r :: recs = pre ++ rec :: post ∧ p pre rec) ↔
      p [] r ∨ ∃ pre rec post, recs = pre ++ rec :: post ∧ p (r :: pre) rec := by
  constructor
  · rintro ⟨pre, rec, post, he, hp⟩
    cases pre with
    | nil =>
      cases he
      exact Or.inl hp
    | cons q pre =>
      injection he with hq he
      subst hq
      exact Or.inr ⟨pre, rec, post, he, hp⟩
  · rintro (hp | ⟨pre, rec, post, rfl, hp⟩)
    · exact ⟨[], r, recs, rfl, hp⟩
    · exact ⟨r :: pre, rec, post, rfl, hp⟩

theorem hardError_visitState (h₀ : w.out.hardError = false)
    (hgo : GoesOn digest isoNow w rec) :
    (visitState digest isoNow w rec).out.hardError = false := by
  rw [← Bool.not_eq_true, visitState_hardError]
  simp [h₀, hgo]

theorem not_reaches_of_stop (hgo : ¬ GoesOn digest isoNow w rec) :
    ¬ Reaches digest isoNow w (rec :: recs) := by
  rw [Reaches, walkState_cons_stop hgo, Bool.not_eq_false, visitState_hardError]
  exact Or.inr hgo

theorem displacedIn_cons (h₀ : w.out.hardError = false) :
    DisplacedIn digest isoNow w (rec :: recs) sha ↔
      Displaces digest w.fs w.conn.view rec sha ∨ GoesOn digest isoNow w rec ∧
        DisplacedIn digest isoNow (visitState digest isoNow w rec) recs sha := by
  unfold DisplacedIn
  rw [exists_split_cons (p := fun pre rec ↦ Reaches digest isoNow w pre ∧ Displaces digest
    (walkState digest isoNow w pre).fs (walkState digest isoNow w pre).conn.view rec sha)]
  refine or_congr (and_iff_right h₀) ?_
  by_cases hgo : GoesOn digest isoNow w rec
  · simp only [Reaches, walkState_cons hgo, hgo, true_and]
  · refine iff_of_false ?_ fun h ↦ hgo h.1
    rintro ⟨pre, r, post, -, hr, -⟩
    exact not_reaches_of_stop hgo hr

theorem sightedIn_cons (h₀ : w.out.hardError = false) :
    SightedIn digest isoNow w (rec :: recs) sha ↔
      Sights digest w.fs w.conn.view rec sha ∨ GoesOn digest isoNow w rec ∧
        SightedIn digest isoNow (visitState digest isoNow w rec) recs sha := by
  unfold SightedIn
  rw [exists_split_cons (p := fun pre rec ↦ Reaches digest isoNow w pre ∧ Sights digest
    (walkState digest isoNow w pre).fs (walkState digest isoNow w pre).conn.view rec sha)]
  refine or_congr (and_iff_right h₀) ?_
  by_cases hgo : GoesOn digest isoNow w rec
  · simp only [Reaches, walkState_cons hgo, hgo, true_and]
  · refine iff_of_false ?_ fun h ↦ hgo h.1
    rintro ⟨pre, r, post, -, hr, -⟩
    exact not_reaches_of_stop hgo hr

/-- A row that no file displaces is still there after the walk, as seen now if some file
sights it and untouched otherwise. -/
theorem walk_row (h₀ : w.out.hardError = false) (hend : Reaches digest isoNow w recs)
    (hrow : w.conn.view.tracks.get? sha = some row)
    (hd : ¬ DisplacedIn digest isoNow w recs sha) :
    ∃ row', (walkState digest isoNow w recs).conn.view.tracks.get? sha = some row' ∧
      (walkState digest isoNow w recs).conn.view.companions sha = w.conn.view.companions sha ∧
      (SightedIn digest isoNow w recs sha → row'.lastSeenAt = isoNow) ∧
      (¬ SightedIn digest isoNow w recs sha → row' = row) := by
  induction recs generalizing w row with
  | nil =>
    refine ⟨row, hrow, rfl, ?_, fun _ ↦ rfl⟩
    rintro ⟨pre, rec, post, he, -⟩
    simp at he
  | cons r recs ih =>
    have hgo : GoesOn digest isoNow w r := by
      by_contra hno
      exact not_reaches_of_stop hno hend
    rw [displacedIn_cons h₀] at hd
    push Not at hd
    obtain ⟨row₁, hrow₁, hcomp₁, hs₁, hn₁⟩ := run_row (run_of_goesOn hgo) hrow hd.1
    rw [Reaches, walkState_cons hgo] at hend
    obtain ⟨row₂, hrow₂, hcomp₂, hs₂, hn₂⟩ :=
      ih (hardError_visitState h₀ hgo) hend hrow₁ (hd.2 hgo)
    rw [walkState_cons hgo, sightedIn_cons h₀]
    refine ⟨row₂, hrow₂, hcomp₂.trans hcomp₁, ?_, ?_⟩
    · intro hs
      by_cases hlater : SightedIn digest isoNow (visitState digest isoNow w r) recs sha
      · exact hs₂ hlater
      · rw [hn₂ hlater]
        exact hs₁ (hs.resolve_right fun h ↦ hlater h.2)
    · intro hs
      push Not at hs
      rw [hn₂ (hs.2 hgo), hn₁ hs.1]

/-- The states of a walk are those of the visits that it comes to. -/
theorem mem_steps_walkFiles {t : World ScanCtx} (h₀ : w.out.hardError = false) :
    t ∈ (walkFiles digest isoNow recs).steps w ↔
      ∃ pre rec post, recs = pre ++ rec :: post ∧ Reaches digest isoNow w pre ∧
        t ∈ (onFile digest isoNow rec).steps (walkState digest isoNow w pre) := by
  induction recs generalizing w with
  | nil => simp [walkFiles]
  | cons r recs ih =>
    rw [exists_split_cons (p := fun pre rec ↦ Reaches digest isoNow w pre ∧
      t ∈ (onFile digest isoNow rec).steps (walkState digest isoNow w pre))]
    by_cases hgo : GoesOn digest isoNow w r
    · have hsteps : (walkFiles digest isoNow (r :: recs)).steps w =
          (onFile digest isoNow r).steps w ++
            (walkFiles digest isoNow recs).steps (visitState digest isoNow w r) := by
        have hc : ((onFile digest isoNow r).eval w).1 = .continue := hgo
        simp only [walkFiles, Proc.steps_bind, hc, visitState]
      rw [hsteps, List.mem_append, ih (hardError_visitState h₀ hgo)]
      refine or_congr (and_iff_right h₀).symm ?_
      simp only [Reaches, walkState_cons hgo]
    · have hsteps : (walkFiles digest isoNow (r :: recs)).steps w =
          (onFile digest isoNow r).steps w := by
        have hc : ((onFile digest isoNow r).eval w).1 = .stop := by
          cases hr : ((onFile digest isoNow r).eval w).1 with
          | «continue» => exact absurd hr hgo
          | stop => rfl
        simp [walkFiles, hc]
      rw [hsteps]
      constructor
      · exact fun h ↦ Or.inl ⟨h₀, h⟩
      · rintro (h | ⟨pre, q, post, -, hr, -⟩)
        · exact h.2
        · exact absurd hr (not_reaches_of_stop hgo)

/-- Nothing that a visit passes misses a row that it does not displace. -/
private theorem kept_of_passes
    (hpass : (Verdict.of digest isoNow fs db rec).Passes db db')
    (hrow : db.tracks.get? sha ≠ none) (hd : ¬ Displaces digest fs db rec sha) :
    Kept db db' sha := by
  rcases hpass with rfl | ⟨old, hex, r, hv, rfl⟩
  · exact ⟨hrow, rfl⟩
  · have hne : sha ≠ old := by
      rintro rfl
      exact hd ((of_eq_replace_iff isoNow).mp ⟨hex, r, hv⟩)
    refine ⟨?_, Db.companions_deleteTracks (Db.trackSatisfies_deleteTrack hne)⟩
    rw [Db.get?_deleteTrack, if_neg hne]
    exact hrow

private theorem kept_steps_onFile {t : World ScanCtx}
    (ht : t ∈ (onFile digest isoNow rec).steps w) (hrow : w.conn.view.tracks.get? sha ≠ none)
    (hd : ¬ Displaces digest w.fs w.conn.view rec sha) : Kept w.conn.view t.conn.view sha := by
  obtain ⟨db, hpass, hc⟩ := (onFile_acts digest isoNow rec w).shows t ht
  rw [hc, Conn.view_setView]
  exact kept_of_passes hpass hrow hd

/-- The walk ends, or is stopped, with the row in place. -/
private theorem kept_walkState (h₀ : w.out.hardError = false)
    (hrow : w.conn.view.tracks.get? sha = some row)
    (hd : ¬ DisplacedIn digest isoNow w recs sha) :
    Kept w.conn.view (walkState digest isoNow w recs).conn.view sha := by
  induction recs generalizing w row with
  | nil =>
    have hne : w.conn.view.tracks.get? sha ≠ none := by rw [hrow]; simp
    exact ⟨hne, rfl⟩
  | cons r recs ih =>
    rw [displacedIn_cons h₀] at hd
    push Not at hd
    by_cases hgo : GoesOn digest isoNow w r
    · obtain ⟨row', hrow', hcomp, -⟩ := run_row (run_of_goesOn hgo) hrow hd.1
      rw [walkState_cons hgo]
      exact Kept.trans ⟨by rw [hrow']; simp, hcomp⟩
        (ih (hardError_visitState h₀ hgo) hrow' (hd.2 hgo))
    · have ha := onFile_acts digest isoNow r w
      obtain ⟨-, db, hpass, hc⟩ := ha.stops (by simpa using mt goesOn_iff.mpr hgo)
      rw [walkState_cons_stop hgo, visitState, hc, Conn.view_setView]
      exact kept_of_passes hpass (by rw [hrow]; simp) hd.1

/-- No state of a walk misses a row that no file displaces. -/
private theorem kept_steps_walkFiles {t : World ScanCtx} (h₀ : w.out.hardError = false)
    (ht : t ∈ (walkFiles digest isoNow recs).steps w)
    (hrow : w.conn.view.tracks.get? sha = some row)
    (hd : ¬ DisplacedIn digest isoNow w recs sha) : Kept w.conn.view t.conn.view sha := by
  obtain ⟨pre, rec, post, rfl, hreach, ht⟩ := (mem_steps_walkFiles h₀).mp ht
  have hpre : ¬ DisplacedIn digest isoNow w pre sha := by
    rintro ⟨a, r, b, rfl, h⟩
    exact hd ⟨a, r, b ++ rec :: post, by simp, h⟩
  obtain ⟨row', hrow', hcomp, -⟩ := walk_row h₀ hreach hrow hpre
  have hne : (walkState digest isoNow w pre).conn.view.tracks.get? sha ≠ none := by
    rw [hrow']
    simp
  exact Kept.trans ⟨hne, hcomp⟩
    (kept_steps_onFile ht hne fun h ↦ hd ⟨pre, rec, post, rfl, hreach, h⟩)

/-! ### The scan -/

theorem steps_walkerWalk (digest : Content → Sha) (isoNow : Text) (w : World ScanCtx)
    (recs : List TagRecord) {root : Path} (h : w.fs.stat? root = some .dir) :
    (walkerWalk digest isoNow root recs).steps w =
      w :: (walkFiles digest isoNow recs).steps w := by
  simp [walkerWalk, h, Except.toOption]

/-- The states of a scan: of its walk, and then of the rollback, or of sweep and commit. -/
theorem steps_scanRunInternal (htxn : w.conn.txn = none)
    (hroot : w.fs.stat? job.walkRoot = some .dir) :
    (scanRunInternal digest job).steps w =
      w :: begun w :: ((walkFiles digest job.isoNow job.walk).steps (begun w) ++
        if (walked digest job w).out.hardError then [walked digest job w]
        else (sweepUnseen job).steps (walked digest job w) ++
          ((writeScanMeta job).steps (swept digest job w) ++ [accounted digest job w])) := by
  have hb : (dbBegin : Sys ScanCtx Bool).eval w = (true, begun w) := by
    simp [dbBegin, Conn.begin, htxn, begun]
  have hw : (walkerWalk digest job.isoNow job.walkRoot job.walk).eval (begun w) =
      (true, walked digest job w) := eval_walkerWalk hroot
  have hws := steps_walkerWalk digest job.isoNow (begun w) job.walk hroot
  simp only [scanRunInternal, Proc.steps_bind, hb, if_true, hw, hws, Proc.eval_gets,
    Bool.not_true, Bool.false_or, Proc.steps_ite, Proc.steps_gets, List.nil_append]
  have hbs : (dbBegin : Sys ScanCtx Bool).steps w = [w] := steps_execTxn w _ _
  rw [hbs]
  split
  · have hr : (dbRollback : Sys ScanCtx Bool).steps (walked digest job w) =
        [walked digest job w] := steps_execTxn _ _ _
    simp [hr]
  · have hc : (dbCommit : Sys ScanCtx Bool).steps (accounted digest job w) =
        [accounted digest job w] := steps_execTxn _ _ _
    have ha : (writeScanMeta job).eval ((sweepUnseen job).eval (walked digest job w)).2 =
        ((), accounted digest job w) := rfl
    simp only [eval_sweepUnseen, if_true, ha, hc]
    split <;> simp [swept]

/-- The states of the sweep are the one before it and those with its deletions. -/
private theorem steps_sweepUnseen {t : World ScanCtx} (ht : t ∈ (sweepUnseen job).steps w) :
    t.conn = w.conn ∨ t.conn = ((sweepUnseen job).eval w).2.conn := by
  unfold sweepUnseen at ht ⊢
  cases hp : job.deletionPrefix with
  | none =>
    rw [hp] at ht
    simp at ht
  | some root =>
    rw [hp] at ht
    simp only [trackRepoDeleteUnseenUnderRoot, Proc.steps_bind, steps_query, eval_query,
      steps_execChanges, eval_execChanges, Proc.steps_pure, Proc.eval_bind, Proc.eval_pure,
      steps_tally, List.append_nil, List.cons_append, List.nil_append, List.mem_cons] at ht
    rcases ht with rfl | rfl | ht
    · exact Or.inl rfl
    · exact Or.inl rfl
    · refine Or.inr ?_
      rw [steps_unlinkTranscodes ht]
      simp

/-- The sweep spares a row that is not unseen, with what hangs on it. -/
private theorem kept_sweepUnseen (hrow : w.conn.view.tracks.get? sha = some row)
    (hs : ∀ root, job.deletionPrefix = some root → Db.isUnseen root job.isoNow row = false) :
    Kept w.conn.view ((sweepUnseen job).eval w).2.conn.view sha := by
  rw [sweepUnseen_conn, Conn.view_setView]
  cases hp : job.deletionPrefix with
  | none => exact ⟨by rw [hrow]; simp, rfl⟩
  | some root =>
    have hu := hs root hp
    have hg : (w.conn.view.deleteUnseen root job.isoNow).tracks.get? sha = some row := by
      rw [Db.deleteUnseen, Db.get?_deleteTracks, hrow]
      simp [hu]
    refine ⟨?_, Db.companions_deleteTracks (by simp [Db.trackSatisfies, hrow, hu])⟩
    simp [hg]

private theorem kept_writeScanMeta (hrow : w.conn.view.tracks.get? sha ≠ none) :
    Kept w.conn.view ((writeScanMeta job).eval w).2.conn.view sha := by
  obtain ⟨m, hm⟩ := writeScanMeta_conn job w
  rw [hm, Conn.view_setView]
  exact ⟨hrow, rfl⟩

private theorem steps_writeScanMeta {t : World ScanCtx} (ht : t ∈ (writeScanMeta job).steps w) :
    t = w := by
  unfold writeScanMeta at ht
  split at ht
  · simpa using ht
  · simp at ht

/-- The row is spared by the sweep: there is none, the walk does not get to it, some file
sights the row, or the row is not among those that the sweep looks at. -/
def Spared (digest : Content → Sha) (job : ScanJob) (w : World ScanCtx) (sha : Sha)
    (row : TrackRow) : Prop :=
  ∀ root, job.deletionPrefix = some root → Reaches digest job.isoNow w job.walk →
    SightedIn digest job.isoNow w job.walk sha ∨ Db.isUnseen root job.isoNow row = false

/-- Every state of a scan has a row that no file displaces and the sweep spares. -/
private theorem keepsRow_of_spared {m : Machine} (hroot : m.fs.stat? job.walkRoot = some .dir)
    (hrow : m.db.tracks.get? sha = some row)
    (hd : ¬ DisplacedIn digest job.isoNow (begun (m.start {})) job.walk sha)
    (hs : Spared digest job (begun (m.start {})) sha row) : KeepsRow digest job m sha := by
  have hself : Kept m.db m.db sha := ⟨by rw [hrow]; simp, rfl⟩
  have hrow' : (begun (m.start ({} : ScanCtx))).conn.view.tracks.get? sha = some row := hrow
  have hwalk : ∀ t ∈ (walkFiles digest job.isoNow job.walk).steps (begun (m.start {})),
      Kept m.db t.conn.view sha := fun t ht ↦ kept_steps_walkFiles rfl ht hrow' hd
  have hwalked : Kept m.db (walked digest job (m.start {})).conn.view sha :=
    kept_walkState rfl hrow' hd
  unfold KeepsRow afterScan scanResult
  rw [steps_scanRunInternal rfl hroot, eval_scanRunInternal digest job _ rfl hroot]
  simp only [List.mem_cons, List.mem_append]
  cases hf : (walked digest job (m.start {})).out.hardError with
  | true =>
    refine ⟨fun t ht ↦ ?_, hself⟩
    simp only [if_true, List.mem_singleton] at ht
    rcases ht with rfl | rfl | ht | rfl
    · exact hself
    · exact hself
    · exact hwalk t ht
    · exact hwalked
  | false =>
    obtain ⟨row₁, hrow₁, -, hsight, hno⟩ := walk_row rfl hf hrow' hd
    -- the row that the sweep finds is seen now, or the one that the scan started with
    have hspare : ∀ root, job.deletionPrefix = some root →
        Db.isUnseen root job.isoNow row₁ = false := by
      intro root hp
      by_cases hsee : SightedIn digest job.isoNow (begun (m.start {})) job.walk sha
      · simp [Db.isUnseen, hsight hsee]
      · rw [hno hsee]
        exact (hs root hp hf).resolve_left hsee
    have hswept : Kept m.db (swept digest job (m.start {})).conn.view sha :=
      hwalked.trans (kept_sweepUnseen hrow₁ hspare)
    have haccounted : Kept m.db (accounted digest job (m.start {})).conn.view sha :=
      hswept.trans (kept_writeScanMeta hswept.1)
    refine ⟨fun t ht ↦ ?_, haccounted⟩
    simp only [Bool.false_eq_true, if_false, List.mem_append, List.mem_singleton] at ht
    rcases ht with rfl | rfl | ht | ht | ht | rfl
    · exact hself
    · exact hself
    · exact hwalk t ht
    · rcases steps_sweepUnseen ht with hc | hc
      · rw [hc]
        exact hwalked
      · rw [hc]
        exact hswept
    · rw [steps_writeScanMeta ht]
      exact hswept
    · exact haccounted

/-- A row that a file displaces is missing before the new row is inserted. -/
private theorem not_keepsRow_of_displaced {m : Machine}
    (hroot : m.fs.stat? job.walkRoot = some .dir)
    (hd : DisplacedIn digest job.isoNow (begun (m.start {})) job.walk sha) :
    ¬ KeepsRow digest job m sha := by
  rintro ⟨h, -⟩
  rw [steps_scanRunInternal rfl hroot] at h
  obtain ⟨pre, rec, post, he, hreach, hdisp⟩ := hd
  obtain ⟨hex, r, hv⟩ := (of_eq_replace_iff job.isoNow).mpr hdisp
  obtain ⟨t, ht, hc⟩ := (onFile_acts digest job.isoNow rec _).deletes sha hex r hv
  have hmem : t ∈ (walkFiles digest job.isoNow job.walk).steps (begun (m.start {})) :=
    (mem_steps_walkFiles rfl).mpr ⟨pre, rec, post, he, hreach, ht⟩
  have hk := (h t (by simp [hmem])).1
  rw [hc, Conn.view_setView, Db.get?_deleteTrack, if_pos rfl] at hk
  exact hk rfl

/-- A row that the sweep does not spare is gone when the scan ends. -/
private theorem not_kept_of_swept {m : Machine}
    (hroot : m.fs.stat? job.walkRoot = some .dir) (hrow : m.db.tracks.get? sha = some row)
    (hd : ¬ DisplacedIn digest job.isoNow (begun (m.start {})) job.walk sha)
    (hs : ¬ Spared digest job (begun (m.start {})) sha row) :
    ¬ Kept m.db (afterScan digest job m).db sha := by
  intro h
  unfold Spared at hs
  push Not at hs
  obtain ⟨root, hp, hreach, hsee, hu⟩ := hs
  have hrow' : (begun (m.start ({} : ScanCtx))).conn.view.tracks.get? sha = some row := hrow
  obtain ⟨row₁, hrow₁, -, -, hno⟩ := walk_row rfl hreach hrow' hd
  rw [hno hsee] at hrow₁
  have hf : (walked digest job (m.start {})).out.hardError = false := hreach
  obtain ⟨t, ht⟩ := writeScanMeta_conn job (swept digest job (m.start {}))
  have hview : (afterScan digest job m).db.tracks.get? sha = none := by
    unfold afterScan scanResult
    rw [eval_scanRunInternal digest job _ rfl hroot, hf]
    simp only [Bool.false_eq_true, if_false, World.stop, accounted, ht, Conn.view_setView]
    rw [swept, sweepUnseen_conn, Conn.view_setView, hp]
    have hg : (walked digest job (m.start {})).conn.view.tracks.get? sha = some row := hrow₁
    simp only [Db.deleteUnseen, Db.get?_deleteTracks, hg]
    simpa using hu
  exact h.1 hview

/-- A scan keeps a row all along exactly when no file that it comes to displaces the row and
its sweep spares it. -/
theorem keepsRow_iff {m : Machine} (hroot : m.fs.stat? job.walkRoot = some .dir)
    (hrow : m.db.tracks.get? sha = some row) :
    KeepsRow digest job m sha ↔
      ¬ DisplacedIn digest job.isoNow (begun (m.start {})) job.walk sha ∧
        Spared digest job (begun (m.start {})) sha row := by
  constructor
  · intro h
    have hd : ¬ DisplacedIn digest job.isoNow (begun (m.start {})) job.walk sha :=
      fun hd ↦ not_keepsRow_of_displaced hroot hd h
    refine ⟨hd, ?_⟩
    by_contra hs
    exact not_kept_of_swept hroot hrow hd hs h.2
  · rintro ⟨hd, hs⟩
    exact keepsRow_of_spared hroot hrow hd hs

/-- A row that no file displaces outlives a scan exactly when the sweep spares it. -/
theorem kept_afterScan_iff {m : Machine} (hroot : m.fs.stat? job.walkRoot = some .dir)
    (hrow : m.db.tracks.get? sha = some row)
    (hd : ¬ DisplacedIn digest job.isoNow (begun (m.start {})) job.walk sha) :
    Kept m.db (afterScan digest job m).db sha ↔
      Spared digest job (begun (m.start {})) sha row := by
  constructor
  · intro h
    by_contra hs
    exact not_kept_of_swept hroot hrow hd hs h
  · exact fun hs ↦ (keepsRow_of_spared hroot hrow hd hs).2

/-! ### Histories -/

/-- What happens to a library. -/
inductive ScanEvent where
  | edit (fs : Tree)
  | scan (job : ScanJob)

/-- The machine after an event. -/
def ScanEvent.apply (digest : Content → Sha) (m : Machine) : ScanEvent → Machine
  | edit fs => ⟨fs, m.db⟩
  | scan job => afterScan digest job m

/-- The machine after a history. -/
def runScans (digest : Content → Sha) (m : Machine) (events : List ScanEvent) : Machine :=
  events.foldl (ScanEvent.apply digest) m

/-- The scan reads the tree, the hash has a row, and a file of the walk has that content. -/
def Walked (digest : Content → Sha) (job : ScanJob) (m : Machine) (sha : Sha) : Prop :=
  m.fs.stat? job.walkRoot = some .dir ∧ m.db.tracks.get? sha ≠ none ∧
    ∃ rec ∈ job.walk, hashFile digest m.fs rec.path = .ok sha

/-- No file that the scan comes to displaces the row, and the sweep spares it. -/
def Undisturbed (digest : Content → Sha) (job : ScanJob) (m : Machine) (sha : Sha) : Prop :=
  ¬ DisplacedIn digest job.isoNow (begun (m.start {})) job.walk sha ∧
    ∀ row, m.db.tracks.get? sha = some row → Spared digest job (begun (m.start {})) sha row

/-- All along a history of full and subtree scans and changes of the files, every row whose
content is walked is kept exactly when none of them is disturbed. -/
theorem scans_keep_rows_iff (digest : Content → Sha) (m : Machine) (events : List ScanEvent) :
    (∀ pre job post sha, events = pre ++ .scan job :: post →
        Walked digest job (runScans digest m pre) sha →
        KeepsRow digest job (runScans digest m pre) sha) ↔
      ∀ pre job post sha, events = pre ++ .scan job :: post →
        Walked digest job (runScans digest m pre) sha →
        Undisturbed digest job (runScans digest m pre) sha := by
  have hstep : ∀ m' job sha, Walked digest job m' sha →
      (KeepsRow digest job m' sha ↔ Undisturbed digest job m' sha) := by
    rintro m' job sha ⟨hroot, hne, -⟩
    obtain ⟨row, hrow⟩ := Option.ne_none_iff_exists'.mp hne
    rw [keepsRow_iff hroot hrow]
    unfold Undisturbed
    simp only [hrow, Option.some.injEq, forall_eq']
  constructor
  · intro h pre job post sha he hw
    exact (hstep _ job sha hw).mp (h pre job post sha he hw)
  · intro h pre job post sha he hw
    exact (hstep _ job sha hw).mpr (h pre job post sha he hw)

namespace MoveAndReplace

/-- The library of the run below. -/
def root : Path := [ascii "music"]

def pathA : Path := root ++ [ascii "a.flac"]
def pathB : Path := root ++ [ascii "b.flac"]

/-- One track. -/
def before : Tree := (Tree.empty.addDir root).addFile pathA ⟨.plain [1], 1, 1⟩

/-- The track has moved, and a new one is at its old path. -/
def after : Tree :=
  ((Tree.empty.addDir root).addFile pathA ⟨.plain [3], 3, 1⟩).addFile pathB ⟨.plain [1], 1, 1⟩

/-- What happens before the scan that loses the row. -/
def history : List ScanEvent := [.scan (scanJob root [1] [.untagged pathA]), .edit after]

/-- The scan of both files. -/
def walk : List TagRecord := [.untagged pathA, .untagged pathB]

end MoveAndReplace

/-- A track that moved loses its row when the walk first finds new content at its old path. -/
theorem row_lost_on_move_and_replace :
    ¬ ∀ (digest : Content → Sha) (fs : Tree) (history : List ScanEvent) (libraryRoot : Path)
      (isoNow : Text) (walk : List TagRecord) (sha : Sha),
      Lists (runScans digest ⟨fs, .empty⟩ history).fs libraryRoot walk →
      Walked digest (scanJob libraryRoot isoNow walk) (runScans digest ⟨fs, .empty⟩ history) sha →
      KeepsRow digest (scanJob libraryRoot isoNow walk)
        (runScans digest ⟨fs, .empty⟩ history) sha := by
  intro h
  have hlists : Lists MoveAndReplace.after MoveAndReplace.root MoveAndReplace.walk := by
    refine ⟨by decide, fun p ↦ ?_⟩
    simp only [MoveAndReplace.after, MoveAndReplace.walk, Tree.addDir, Fs.node?_addFile,
      Fs.node?_place, List.map_cons, List.map_nil, List.mem_cons, List.not_mem_nil, or_false]
    constructor
    · rintro (rfl | rfl)
      · exact ⟨by decide, 0, rfl⟩
      · exact ⟨by decide, 1, rfl⟩
    · rintro ⟨-, i, hi⟩
      split at hi
      · next hp => exact Or.inr hp
      · split at hi
        · next hp => exact Or.inl hp
        · split at hi <;> cases hi
  have hkeep := h rawDigest MoveAndReplace.before MoveAndReplace.history MoveAndReplace.root [2]
    MoveAndReplace.walk [1] hlists
    ⟨by decide, by decide +kernel, .untagged MoveAndReplace.pathB, by decide, by decide⟩
  have hall : ((scanRunInternal rawDigest (scanJob MoveAndReplace.root [2]
      MoveAndReplace.walk)).steps ((runScans rawDigest ⟨MoveAndReplace.before, .empty⟩
        MoveAndReplace.history).start {})).all
        (fun t ↦ (t.conn.view.tracks.get? [1]).isSome) = true := by
    rw [List.all_eq_true]
    intro t ht
    exact Option.isSome_iff_ne_none.mpr (hkeep.1 t ht).1
  revert hall
  decide +kernel

end Nocturne
