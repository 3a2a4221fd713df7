import Nocturne.Ingest.Trail

/-!
# Ingest runs without incident

A run whose calls all go through, and whose reads do not fail, reports success. It leaves
nothing to take in any log, so that it delivers the lines behind the stored offsets.
-/

namespace Nocturne

open Lib Lib.Records Proc IngestStats

variable {base work : Db} {w : World IngestStats} {job : IngestJob} {kind : FileKind}
  {abs relpath : Path}

theorem soundPolicy_calm : SoundPolicy Calm := by
  rintro w call r rfl
  exact ingestSound_ok w call

theorem findsAll_calm : FindsAll Calm := fun _ _ _ _ he ↦ by cases he

/-! ### Handlers -/

theorem calm_blacklistAndDelete (sha : Sha) (iso : Text) (w : World IngestStats) :
    ((blacklistAndDelete sha iso).eval w).1 = true := by
  simp [blacklistAndDelete]

theorem calm_writeEvent (relpath : Path) (now : Int) (ev : Event) (w : World IngestStats) :
    ((writeEvent relpath now ev).eval w).1.ok = true := by
  cases ev with
  | play ts kind track playedMs =>
    simp only [writeEvent, writePlay, eval_bind, eval_exec]
    cases w.conn.view.insertPlay (playRow relpath ts kind track playedMs) <;> rfl
  | like unit id liked ts => rfl
  | pin unit id pinned ts =>
    simp only [writeEvent, writePin, eval_bind]
    split
    · rfl
    · simp only [eval_bind, eval_exec, if_true]
      split <;> rfl
  | unsync unit id ts =>
    cases unit with
    | track =>
      simp only [writeEvent, eval_bind]
      split <;> rfl
    | album => rfl
  | delete unit id ts =>
    cases unit with
    | track =>
      simp only [writeEvent, deleteTrackEverywhere, eval_bind, calm_blacklistAndDelete]
      rfl
    | album => rfl

/-- A line does not fail the file. -/
theorem calm_ingestLine (now maxTs : Int) (line : Text) (w : World IngestStats) :
    ((ingestLine job kind relpath now maxTs line).eval w).1.1 = false := by
  unfold ingestLine
  split
  · rfl
  · split
    · next root _ =>
      obtain ⟨count, hc⟩ := handle_eq kind
      rw [hc, eval_bind]
      have hok : ((handler (eventOf kind) count relpath job.dryRun now maxTs root).eval w).1.1.ok =
          true := by
        unfold handler
        split
        · rfl
        · next ev _ =>
          split
          · rfl
          · simp only [eval_bind, eval_pure]
            exact calm_writeEvent relpath now ev w
      generalize (handler (eventOf kind) count relpath job.dryRun now maxTs root).eval w = out at hok ⊢
      obtain ⟨⟨rc, ts⟩, w'⟩ := out
      cases rc with
      | counted => rfl
      | skipped => rfl
      | failed => cases hok
    · rfl

/-- Nor does the loop, when no read fails. -/
theorem calm_ingestLoop {r : JsonlReader} (hr : r.Calm) (n : Nat) (maxTs : Int)
    (w : World IngestStats) :
    ((ingestLoop job kind abs relpath r n maxTs).eval w).1.1 = false := by
  have hcalm := jsonlReadLine_calm hr
  unfold ingestLoop
  split
  · rfl
  · next e r' hl =>
    rw [hl] at hcalm
    exact absurd rfl (hcalm.1 e)
  · next r' hl =>
    rw [hl] at hcalm
    have := unread_jsonlReadLine hl (Or.inr rfl)
    rw [eval_bind]
    exact calm_ingestLoop hcalm.2 n maxTs _
  · next line r' hl =>
    rw [hl] at hcalm
    have := unread_jsonlReadLine hl (Or.inl ⟨line, rfl⟩)
    have hline : ((ingestLine job kind relpath (job.clock abs (n + 1)) maxTs line).eval w).1.1 =
        false := calm_ingestLine (job.clock abs (n + 1)) maxTs line w
    rw [eval_bind]
    generalize (ingestLine job kind relpath (job.clock abs (n + 1)) maxTs line).eval w = out at hline ⊢
    obtain ⟨⟨failed, ts⟩, w'⟩ := out
    cases hline
    exact calm_ingestLoop hcalm.2 (n + 1) ts w'
termination_by r.unread.length

/-! ### Files -/

/-- The connection is open for a transaction. -/
def AtRest (w : World IngestStats) : Prop := w.conn.txn = none

theorem calm_commit (h : InWork base work w) :
    (dbCommit.eval w).1 = true ∧ AtRest (dbCommit.eval w).2 := by
  obtain ⟨saves, hs⟩ := h.txn
  simp only [dbCommit, eval_execTxn, Conn.commit, hs, Option.map_some]
  exact ⟨trivial, rfl⟩

theorem calm_ingestOpened {content : Text} {old : Nat} (hdry : job.dryRun = false)
    (hreads : ∀ e, .err e ∉ job.reads abs) (h : InWork base base w) :
    ((ingestOpened job kind abs relpath content old).eval w).1 = true ∧
      AtRest ((ingestOpened job kind abs relpath content old).eval w).2 := by
  have hloop := @wp_ingestLoop job kind abs relpath base base w
    (jsonlOpen content (job.reads abs) old) hdry 0 0 h
  have hpass := wp_calm.mp (wp_policy (A := Calm) hloop soundPolicy_calm)
  have hopen : (jsonlOpen content (job.reads abs) old).Calm := jsonlOpen_calm hreads
  have hok : ((ingestLoop job kind abs relpath (jsonlOpen content (job.reads abs) old) 0 0).eval
      w).1.1 = false := calm_ingestLoop hopen 0 0 w
  rw [ingestOpened, eval_bind]
  generalize (ingestLoop job kind abs relpath (jsonlOpen content (job.reads abs) old) 0 0).eval w
    = out at hok hpass ⊢
  obtain ⟨⟨failed, ts, r⟩, w'⟩ := out
  cases hok
  have hwork := hpass.work rfl
  simp only [hdry, Bool.false_eq_true, if_false]
  by_cases hadv : old < jsonlOffset r
  · rw [if_pos ⟨trivial, hadv⟩]
    exact calm_commit ((hwork.setView _).tally countOffset)
  · rw [if_neg fun h ↦ hadv h.2]
    exact calm_commit hwork

/-- A file goes well. -/
theorem calm_ingestOneFile (hdry : job.dryRun = false) (hreads : ∀ e, .err e ∉ job.reads abs)
    (h : AtRest w) :
    ((ingestOneFile job kind abs).eval w).1 = true ∧
      AtRest ((ingestOneFile job kind abs).eval w).2 := by
  unfold ingestOneFile
  split
  · exact ⟨rfl, h⟩
  · next relpath hrel =>
    simp only [eval_bind, eval_sysRead]
    have hlookup : (lookupOffset relpath).eval w = (w.conn.view.storedOffset relpath, w) := rfl
    rw [hlookup]
    cases readLog job abs with
    | error e => exact ⟨rfl, h⟩
    | ok content =>
      have hbegin : w.conn.begin =
          some { w.conn with txn := some ⟨w.conn.committed, [], false⟩ } := by
        rw [Conn.begin, show w.conn.txn = none from h]
      simp only [hdry, Bool.false_eq_true, if_false, eval_bind, dbBegin, eval_execTxn, hbegin,
        if_true]
      exact calm_ingestOpened hdry hreads ⟨rfl, [], rfl⟩

theorem calm_ingestFiles (hdry : job.dryRun = false)
    (hreads : ∀ abs e, .err e ∉ job.reads abs) (paths : List Path) {w : World IngestStats}
    (h : AtRest w) :
    ((ingestFiles job kind paths).eval w).1 = true ∧
      AtRest ((ingestFiles job kind paths).eval w).2 := by
  induction paths generalizing w with
  | nil => exact ⟨rfl, h⟩
  | cons abs rest ih =>
    have hcounted : AtRest { w with out := countFile w.out } := h
    have hfile : ((ingestOneFile job kind abs).eval { w with out := countFile w.out }).1 = true ∧
        AtRest ((ingestOneFile job kind abs).eval { w with out := countFile w.out }).2 :=
      calm_ingestOneFile hdry (hreads abs) hcounted
    have hrest := ih hfile.2
    simp only [ingestFiles, eval_bind, eval_tally, eval_pure]
    rw [hfile.1, hrest.1]
    exact ⟨rfl, hrest.2⟩

/-- A run without incident reports success. -/
theorem calm_ingestRun (hdry : job.dryRun = false) (hreads : ∀ abs e, .err e ∉ job.reads abs)
    {w : World IngestStats} (h : AtRest w) : ((ingestRun job).eval w).1 = true := by
  have glob : ∀ kind (w : World IngestStats), AtRest w →
      ((runGlob job kind).eval w).1 = true ∧ AtRest ((runGlob job kind).eval w).2 := by
    intro kind w hw
    simp only [runGlob, eval_bind, eval_sysRead]
    exact calm_ingestFiles hdry hreads _ hw
  unfold ingestRun
  split
  · rfl
  · have h₁ := glob .stats w h
    have h₂ := glob .likes _ h₁.2
    have h₃ := glob .pins _ h₂.2
    have h₄ := glob .actions _ h₃.2
    simp only [eval_bind, eval_pure, h₁.1, h₂.1, h₃.1, h₄.1, Bool.and_self]

/-! ### Successful commands -/

section Commands

variable {jsonLoadb : Text → Option Json} {metaDir relpath : Path} {content : Text} {d : Desk}
  {c : IngestCall}

/-- A command that reports success, is not a dry run, and found and opened the logs. -/
structure Desk.Succeeds (jsonLoadb : Text → Option Json) (metaDir : Path) (d : Desk)
    (c : IngestCall) : Prop where
  configured : metaDir ≠ []
  real : c.dryRun = false
  finds : ∃ A, SoundPolicy A ∧ FindsAll A ∧
    (ingestRun (d.job jsonLoadb metaDir c)).Obeys A (d.machine.start {}) c.answers
  reports : ((ingestRun (d.job jsonLoadb metaDir c)).run (d.machine.start {}) c.answers).value? =
    some true

/-- A log is found by the run that owns it. -/
theorem mem_globLogs_of_owns {job : IngestJob} {kind : FileKind} {content : Text}
    (howns : kind.owns relpath = true)
    (hlog : job.logs.get? (job.metaDir ++ relpath) = some content) :
    job.metaDir ++ relpath ∈ globLogs job kind := by
  have hne : relpath ≠ [] := by
    intro h
    rw [h] at howns
    cases howns
  unfold globLogs
  rw [List.mem_mergeSort, List.mem_filter]
  refine ⟨List.mem_map_of_mem (Table.mem_rows.mpr hlog), ?_⟩
  rw [Bool.and_eq_true, isUnder_iff, List.drop_left]
  exact ⟨⟨relpath, hne, rfl⟩, howns⟩

/-- A successful command leaves nothing to take. -/
theorem Desk.Succeeds.idle (h : d.Succeeds jsonLoadb metaDir c)
    {kind : FileKind} (howns : kind.owns relpath = true)
    (hlog : d.logs.get? (metaDir ++ relpath) = some content) :
    takenText (content.drop
      (passStart (d.next jsonLoadb metaDir (.ingest c)).machine.db relpath content)) = [] := by
  obtain ⟨A, hA, hf, hobeys⟩ := h.finds
  have hmem : metaDir ++ relpath ∈ globLogs (d.job jsonLoadb metaDir c) kind :=
    @mem_globLogs_of_owns _ (d.job jsonLoadb metaDir c) _ _ howns hlog
  have hrel : makeRelpath metaDir (metaDir ++ relpath) = some relpath := by
    obtain ⟨relpath', he, hrel', -⟩ := mem_globLogs hmem
    rw [← List.append_cancel_left he] at hrel'
    exact hrel'
  have hkeep : PassesKeep (d.job jsonLoadb metaDir c) fun _ ↦ True := fun _ _ _ _ _ _ _ ↦ trivial
  have hwp := @wp_ingestRun_ok (d.job jsonLoadb metaDir c) A hA hf h.real h.configured
    (d.machine.start {})
  have hreports := h.reports
  show takenText (content.drop (passStart (afterIngest _ _ _).db relpath content)) = []
  unfold afterIngest
  rcases run_of_wp hwp hobeys with ⟨ok, t, rs, he, ht⟩ | ⟨t, he, -⟩
  · rw [he] at hreports ⊢
    cases hreports
    exact ht rfl kind _ hmem relpath content hrel hlog
  · rw [he] at hreports
    cases hreports

/-- A command that nothing disturbs. -/
structure IngestCall.Undisturbed (c : IngestCall) : Prop where
  real : c.dryRun = false
  answers : c.answers = []
  reads : ∀ abs e, .err e ∉ c.reads abs

/-- It succeeds. -/
theorem IngestCall.Undisturbed.succeeds (h : c.Undisturbed) (hmeta : metaDir ≠ []) (d : Desk) :
    d.Succeeds jsonLoadb metaDir c where
  configured := hmeta
  real := h.real
  finds := by
    refine ⟨Calm, soundPolicy_calm, findsAll_calm, ?_⟩
    rw [h.answers]
    exact obeys_calm _ _
  reports := by
    rw [h.answers, run_nil]
    exact congrArg some (@calm_ingestRun (d.job jsonLoadb metaDir c) h.real h.reads _ rfl)

end Commands

end Nocturne
