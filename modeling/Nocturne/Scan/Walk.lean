import Nocturne.Scan.Visit

/-!
# Whole scans

The walk as a sequence of visits, and a scan as begin, walk, sweep and commit. Everything
here is about runs in which no call fails.
-/

namespace Nocturne

open Lib

variable {digest : Content → Sha} {isoNow : Text} {rec : TagRecord} {recs : List TagRecord}
  {w : World ScanCtx} {job : ScanJob}

/-- The state in which the walk leaves the command after some files. -/
def walkState (digest : Content → Sha) (isoNow : Text) (w : World ScanCtx)
    (recs : List TagRecord) : World ScanCtx :=
  ((walkFiles digest isoNow recs).eval w).2

/-- The state that one visit leaves. -/
def visitState (digest : Content → Sha) (isoNow : Text) (w : World ScanCtx) (rec : TagRecord) :
    World ScanCtx :=
  ((onFile digest isoNow rec).eval w).2

/-- The visit of a file goes on to the next one. -/
def GoesOn (digest : Content → Sha) (isoNow : Text) (w : World ScanCtx) (rec : TagRecord) :
    Prop :=
  ((onFile digest isoNow rec).eval w).1 = .continue

/-- A visit goes on exactly when its verdict has an effect on the database. -/
theorem goesOn_iff : GoesOn digest isoNow w rec ↔
    (Verdict.of digest isoNow w.fs w.conn.view rec).run isoNow w.conn.view ≠ none := by
  have ha := onFile_acts digest isoNow rec w
  unfold GoesOn
  cases h : (Verdict.of digest isoNow w.fs w.conn.view rec).run isoNow w.conn.view with
  | none => simp [(ha.stops h).1]
  | some db => simp [(ha.goes db h).1]

private theorem stop_of_not_goesOn (h : ¬ GoesOn digest isoNow w rec) :
    ((onFile digest isoNow rec).eval w).1 = .stop := by
  unfold GoesOn at h
  cases hc : ((onFile digest isoNow rec).eval w).1 with
  | «continue» => exact absurd hc h
  | stop => rfl

theorem walkState_nil : walkState digest isoNow w [] = w := rfl

theorem walkState_cons (h : GoesOn digest isoNow w rec) :
    walkState digest isoNow w (rec :: recs) =
      walkState digest isoNow (visitState digest isoNow w rec) recs := by
  unfold GoesOn at h
  simp only [walkState, walkFiles, Proc.eval_bind, h, visitState]

theorem walkState_cons_stop (h : ¬ GoesOn digest isoNow w rec) :
    walkState digest isoNow w (rec :: recs) = visitState digest isoNow w rec := by
  simp only [walkState, walkFiles, Proc.eval_bind, stop_of_not_goesOn h, visitState,
    Proc.eval_pure]

/-- A visit changes the database only. -/
theorem visitState_conn (digest : Content → Sha) (isoNow : Text) (w : World ScanCtx)
    (rec : TagRecord) : ∃ db, (visitState digest isoNow w rec).conn = w.conn.setView db := by
  have ha := onFile_acts digest isoNow rec w
  cases h : (Verdict.of digest isoNow w.fs w.conn.view rec).run isoNow w.conn.view with
  | none =>
    obtain ⟨-, db, -, hc⟩ := ha.stops h
    exact ⟨db, hc⟩
  | some db => exact ⟨db, (ha.goes db h).2⟩

theorem walkState_conn (digest : Content → Sha) (isoNow : Text) (w : World ScanCtx)
    (recs : List TagRecord) : ∃ db, (walkState digest isoNow w recs).conn = w.conn.setView db := by
  induction recs generalizing w with
  | nil => exact ⟨w.conn.view, by rw [walkState_nil, Conn.setView_view]⟩
  | cons rec recs ih =>
    obtain ⟨db, hdb⟩ := visitState_conn digest isoNow w rec
    by_cases h : GoesOn digest isoNow w rec
    · rw [walkState_cons h]
      obtain ⟨db', hdb'⟩ := ih (visitState digest isoNow w rec)
      exact ⟨db', by rw [hdb', hdb, Conn.setView_setView]⟩
    · rw [walkState_cons_stop h]
      exact ⟨db, hdb⟩

theorem visitState_hardError : (visitState digest isoNow w rec).out.hardError = true ↔
    w.out.hardError = true ∨ ¬ GoesOn digest isoNow w rec := by
  rw [visitState, hardError_onFile, Bool.or_eq_true, beq_iff_eq]
  unfold GoesOn
  constructor
  · rintro (h | h)
    · exact Or.inl h
    · exact Or.inr (by rw [h]; simp)
  · rintro (h | h)
    · exact Or.inl h
    · exact Or.inr (stop_of_not_goesOn h)

/-- A walk raises the flag exactly when one of its visits stops it. -/
theorem walkState_hardError (digest : Content → Sha) (isoNow : Text) (recs : List TagRecord)
    (h₀ : w.out.hardError = false) :
    (walkState digest isoNow w recs).out.hardError = false ↔
      ∀ pre rec post, recs = pre ++ rec :: post →
        GoesOn digest isoNow (walkState digest isoNow w pre) rec := by
  induction recs generalizing w with
  | nil => simp [walkState_nil, h₀]
  | cons r recs ih =>
    by_cases hgo : GoesOn digest isoNow w r
    · have h₁ : (visitState digest isoNow w r).out.hardError = false := by
        rw [← Bool.not_eq_true, visitState_hardError]
        simp [h₀, hgo]
      rw [walkState_cons hgo, ih h₁]
      constructor
      · intro h pre rec post he
        cases pre with
        | nil =>
          cases he
          exact hgo
        | cons p pre =>
          injection he with hp he
          subst hp
          rw [walkState_cons hgo]
          exact h pre rec post he
      · intro h pre rec post he
        have := h (r :: pre) rec post (by rw [he, List.cons_append])
        rwa [walkState_cons hgo] at this
    · rw [walkState_cons_stop hgo]
      refine iff_of_false ?_ fun h ↦ hgo (h [] r recs rfl)
      rw [Bool.not_eq_false, visitState_hardError]
      exact Or.inr hgo

/-! ### From begin to commit -/

/-- The state behind `BEGIN`. -/
def begun (w : World ScanCtx) : World ScanCtx :=
  { w with conn := { w.conn with txn := some ⟨w.conn.committed, [], false⟩ } }

/-- The state behind the walk. -/
def walked (digest : Content → Sha) (job : ScanJob) (w : World ScanCtx) : World ScanCtx :=
  walkState digest job.isoNow (begun w) job.walk

/-- The state behind the sweep. -/
def swept (digest : Content → Sha) (job : ScanJob) (w : World ScanCtx) : World ScanCtx :=
  ((sweepUnseen job).eval (walked digest job w)).2

/-- The state before the commit. -/
def accounted (digest : Content → Sha) (job : ScanJob) (w : World ScanCtx) : World ScanCtx :=
  ((writeScanMeta job).eval (swept digest job w)).2

theorem eval_walkerWalk {root : Path} (h : w.fs.stat? root = some .dir) :
    (walkerWalk digest isoNow root recs).eval w = (true, walkState digest isoNow w recs) := by
  simp [walkerWalk, h, walkState, Except.toOption]

@[simp] theorem eval_trackRepoDeleteUnseenUnderRoot (root : Path) (cutoff : Text)
    (w : World ScanCtx) :
    (trackRepoDeleteUnseenUnderRoot root cutoff).eval w =
      (some (w.conn.view.unseenShas root cutoff).length,
        { w with
          fs := unlinkAll w.fs (w.conn.view.transcodesOf (w.conn.view.unseenShas root cutoff))
          conn := w.conn.setView (w.conn.view.deleteUnseen root cutoff) }) := by
  simp [trackRepoDeleteUnseenUnderRoot, eval_unlinkTranscodes]

/-- The sweep goes through. -/
theorem eval_sweepUnseen (w : World ScanCtx) : ((sweepUnseen job).eval w).1 = true := by
  unfold sweepUnseen
  cases job.deletionPrefix <;> simp

/-- What the sweep leaves of the database. -/
theorem sweepUnseen_conn (job : ScanJob) (w : World ScanCtx) :
    ((sweepUnseen job).eval w).2.conn = w.conn.setView
      (match job.deletionPrefix with
      | some root => w.conn.view.deleteUnseen root job.isoNow
      | none => w.conn.view) := by
  unfold sweepUnseen
  cases job.deletionPrefix <;> simp

theorem writeScanMeta_conn (job : ScanJob) (w : World ScanCtx) :
    ∃ m, ((writeScanMeta job).eval w).2.conn = w.conn.setView { w.conn.view with scanMeta := m } := by
  unfold writeScanMeta
  split
  · simp only [Proc.eval_bind, Proc.eval_gets, eval_exec, Db.putScanMeta, Proc.eval_pure]
    exact ⟨_, rfl⟩
  · exact ⟨w.conn.view.scanMeta, (Conn.setView_view w.conn).symm⟩

/-- All that happens up to the commit happens inside the transaction. -/
theorem accounted_conn (digest : Content → Sha) (job : ScanJob) (w : World ScanCtx) :
    ∃ db, (accounted digest job w).conn = (begun w).conn.setView db := by
  obtain ⟨db, hdb⟩ := walkState_conn digest job.isoNow (begun w) job.walk
  obtain ⟨m, hm⟩ := writeScanMeta_conn job (swept digest job w)
  have hs := sweepUnseen_conn job (walked digest job w)
  have h₂ := hs.trans (Conn.setView_of hdb _)
  exact ⟨_, hm.trans (Conn.setView_of h₂ _)⟩

theorem accounted_hardError :
    (accounted digest job w).out.hardError = (walked digest job w).out.hardError := by
  have hs : (swept digest job w).out.hardError = (walked digest job w).out.hardError := by
    unfold swept sweepUnseen
    cases job.deletionPrefix <;> simp
  rw [← hs]
  unfold accounted writeScanMeta
  split
  · simp [Db.putScanMeta]
  · simp

/-- A scan that nothing stops sweeps and commits; a scan that a visit stops rolls back. -/
theorem eval_scanRunInternal (digest : Content → Sha) (job : ScanJob) (w : World ScanCtx)
    (htxn : w.conn.txn = none)
    (hroot : w.fs.stat? job.walkRoot = some .dir) :
    (scanRunInternal digest job).eval w =
      if (walked digest job w).out.hardError then
        (-1, { walked digest job w with conn := ⟨w.conn.committed, none⟩ })
      else
        (scanRc (accounted digest job w).out,
          { accounted digest job w with
            conn := ⟨(accounted digest job w).conn.view, none⟩ }) := by
  have hb : (dbBegin : Sys ScanCtx Bool).eval w = (true, begun w) := by
    simp [dbBegin, Conn.begin, htxn, begun]
  have hw : (walkerWalk digest job.isoNow job.walkRoot job.walk).eval (begun w) =
      (true, walked digest job w) := eval_walkerWalk hroot
  simp only [scanRunInternal, Proc.eval_bind, hb, if_true, hw, Proc.eval_gets, Bool.not_true,
    Bool.false_or, Proc.eval_ite, eval_sweepUnseen]
  split
  · obtain ⟨db, hdb⟩ := walkState_conn digest job.isoNow (begun w) job.walk
    have hconn : (walked digest job w).conn = ⟨w.conn.committed, some ⟨db, [], false⟩⟩ := hdb
    have hr : (dbRollback : Sys ScanCtx Bool).eval (walked digest job w) =
        (true, { walked digest job w with conn := ⟨w.conn.committed, none⟩ }) := by
      simp [dbRollback, Conn.rollback, hconn]
    simp only [hr, Proc.eval_pure]
  · have hc : (dbCommit : Sys ScanCtx Bool).eval (accounted digest job w) =
        (true, { accounted digest job w with
          conn := ⟨(accounted digest job w).conn.view, none⟩ }) := by
      obtain ⟨db, hdb⟩ := accounted_conn digest job w
      have hconn : (accounted digest job w).conn = ⟨w.conn.committed, some ⟨db, [], false⟩⟩ := hdb
      simp [dbCommit, Conn.commit, hconn, Conn.view]
    have ha : (writeScanMeta job).eval ((sweepUnseen job).eval (walked digest job w)).2 =
        ((), accounted digest job w) := rfl
    simp only [ha, hc, if_true, Proc.eval_pure]

/-- A scan whose root is not a directory rolls back. -/
theorem eval_scanRunInternal_no_root (digest : Content → Sha) (job : ScanJob)
    (w : World ScanCtx) (htxn : w.conn.txn = none)
    (hroot : w.fs.stat? job.walkRoot ≠ some .dir) :
    (scanRunInternal digest job).eval w = (-1, { w with conn := ⟨w.conn.committed, none⟩ }) := by
  have hb : (dbBegin : Sys ScanCtx Bool).eval w = (true, begun w) := by
    simp [dbBegin, Conn.begin, htxn, begun]
  have hw : (walkerWalk digest job.isoNow job.walkRoot job.walk).eval (begun w) =
      (false, begun w) := by
    have hr : ((begun w).fs.stat? job.walkRoot) ≠ some .dir := hroot
    simp [walkerWalk, hr, Except.toOption]
  have hr : (dbRollback : Sys ScanCtx Bool).eval (begun w) =
      (true, { w with conn := ⟨w.conn.committed, none⟩ }) := by
    simp [dbRollback, Conn.rollback, begun]
  simp only [scanRunInternal, Proc.eval_bind, hb, if_true, hw, Proc.eval_gets, Bool.not_false,
    Bool.true_or, hr, Proc.eval_pure]

/-! ### Scans on a machine -/

/-- The run of a scan that no call fails. -/
def scanResult (digest : Content → Sha) (job : ScanJob) (m : Machine) : Int × World ScanCtx :=
  (scanRunInternal digest job).eval (m.start {})

/-- The machine after a scan. -/
def afterScan (digest : Content → Sha) (job : ScanJob) (m : Machine) : Machine :=
  (scanResult digest job m).2.stop

/-- A scan that does not get through its walk leaves the database alone. -/
theorem afterScan_stopped {m : Machine} (h : m.fs.stat? job.walkRoot = some .dir →
    (walked digest job (m.start {})).out.hardError = true) :
    (afterScan digest job m).db = m.db := by
  unfold afterScan scanResult
  by_cases hroot : m.fs.stat? job.walkRoot = some .dir
  · rw [eval_scanRunInternal digest job _ rfl hroot, h hroot]
    rfl
  · rw [eval_scanRunInternal_no_root digest job _ rfl hroot]
    rfl

/-- What a full scan leaves that gets through its walk: the rows of the walk, less those that
the sweep deletes. -/
theorem afterScan_completed {m : Machine} {root : Path}
    (hroot : m.fs.stat? root = some .dir)
    (hf : (walkState digest isoNow (begun (m.start {})) recs).out.hardError = false) :
    ∃ scans, (afterScan digest (scanJob root isoNow recs) m).db =
      { (walkState digest isoNow (begun (m.start {})) recs).conn.view.deleteUnseen root isoNow with
        scanMeta := scans } := by
  have hf' : (walked digest (scanJob root isoNow recs) (m.start {})).out.hardError = false := hf
  obtain ⟨scans, hm⟩ := writeScanMeta_conn (scanJob root isoNow recs)
    (swept digest (scanJob root isoNow recs) (m.start {}))
  refine ⟨scans, ?_⟩
  unfold afterScan scanResult
  rw [eval_scanRunInternal digest (scanJob root isoNow recs) _ rfl hroot, hf']
  simp only [Bool.false_eq_true, if_false, World.stop, accounted, hm, Conn.view_setView]
  rw [swept, sweepUnseen_conn, Conn.view_setView]
  rfl

/-- The machines that scans and changes of the files lead to, from an empty database. -/
inductive ScanReachable (digest : Content → Sha) : Machine → Prop where
  | fresh (fs : Tree) : ScanReachable digest ⟨fs, .empty⟩
  | edit {m : Machine} (fs : Tree) : ScanReachable digest m → ScanReachable digest ⟨fs, m.db⟩
  | scan {m : Machine} (job : ScanJob) : ScanReachable digest m →
      ScanReachable digest (afterScan digest job m)

/-- A component below the root starts with a dot: the walker skips the entry. -/
def isHidden (root path : Path) : Bool :=
  (path.drop root.length).any fun name ↦ name.head? == some dot

/-- What `walker_walk` hands over for the files of the tree. -/
def isWalked (root path : Path) : Bool :=
  isUnder root path && !isHidden root path && tagsFormatFromPath path != .unknown

/-- The walk hands over each audio file below the root once, in any order. -/
def Lists (fs : Tree) (root : Path) (walk : List TagRecord) : Prop :=
  (walk.map TagRecord.path).Nodup ∧
    ∀ p, p ∈ walk.map TagRecord.path ↔ isWalked root p ∧ ∃ i, fs.node? p = some (.file i)

end Nocturne
