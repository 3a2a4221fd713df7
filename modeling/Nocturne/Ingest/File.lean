import Nocturne.Ingest.Pass

/-!
# From files to runs

A run of `ingest_run` is a sequence of passes: what each of them preserves, the run preserves,
and a run that reports success leaves nothing to take. Where no line is over the limit and no
offset overshoots, a pass commits all complete lines behind the stored offset.
-/

namespace Nocturne

open Lib Lib.Records Proc IngestStats

variable {base work : Db} {w : World IngestStats} {job : IngestJob} {kind : FileKind}
  {abs relpath : Path}

/-! ### One run -/

/-- A log that the run finds is in its place below the metadata directory. -/
theorem mem_globLogs (h : abs ∈ globLogs job kind) :
    ∃ relpath, abs = job.metaDir ++ relpath ∧ makeRelpath job.metaDir abs = some relpath ∧
      kind.owns relpath = true := by
  unfold globLogs at h
  rw [List.mem_mergeSort, List.mem_filter, Bool.and_eq_true] at h
  obtain ⟨relpath, -, rfl⟩ := isUnder_iff.mp h.2.1
  refine ⟨relpath, rfl, ?_, ?_⟩
  · rw [makeRelpath, if_pos h.2.1, List.drop_left]
  · have ho := h.2.2
    rw [List.drop_left] at ho
    exact ho

/-- A log is below the metadata directory. -/
theorem makeRelpath_eq_some {metaDir : Path} (h : makeRelpath metaDir abs = some relpath) :
    abs = metaDir ++ relpath := by
  unfold makeRelpath at h
  split at h
  · next hu =>
    obtain ⟨tail, -, rfl⟩ := isUnder_iff.mp hu
    rw [List.drop_left] at h
    cases h
    rfl
  · cases h

section OneRun

variable {A : World IngestStats → Call → Reply Fault → Prop} {P : Db → Prop}

/-- Passes over the logs of a run preserve a property. -/
def PassesKeep (job : IngestJob) (P : Db → Prop) : Prop :=
  ∀ kind abs base db, P base → abs ∈ globLogs job kind → TakesFile job kind abs base db → P db

/-- What each pass keeps is kept by all files of a kind. -/
theorem wp_ingestFiles (hA : SoundPolicy A) (hP : PassesKeep job P) {paths : List Path}
    (hmem : ∀ abs ∈ paths, abs ∈ globLogs job kind) {w : World IngestStats}
    (h : P w.conn.committed) :
    wp A (ingestFiles job kind paths) (fun _ w ↦ P w.conn.committed)
      (fun w ↦ P w.conn.committed) w := by
  induction paths generalizing w with
  | nil => exact h
  | cons abs rest ih =>
    rw [ingestFiles, wp_bind, wp_tally, wp_bind]
    refine wp_mono (wp_ingestOneFile hA rfl) (fun ok w' hw' ↦ ?_) fun w' hw' ↦ ?_
    · have hw'' : P w'.conn.committed := by
        rcases hw' with ⟨he, -⟩ | ⟨-, hi⟩
        · rw [he]
          exact h
        · exact hP kind abs _ _ h (hmem abs (List.mem_cons_self ..)) hi
      rw [wp_bind]
      exact wp_mono (ih (fun a ha ↦ hmem a (List.mem_cons_of_mem _ ha)) hw'')
        (fun _ _ hw ↦ hw) fun _ hc ↦ hc
    · rw [hw']
      exact h

/-- What each pass keeps is kept by the files of a pattern. -/
theorem wp_runGlob (hA : SoundPolicy A) (hP : PassesKeep job P) {w : World IngestStats}
    (h : P w.conn.committed) :
    wp A (runGlob job kind) (fun _ w ↦ P w.conn.committed) (fun w ↦ P w.conn.committed) w := by
  rw [runGlob, wp_bind]
  exact (wp_ask _ _).mpr ⟨fun _ ↦ h, fun _ ↦ wp_ingestFiles hA hP (fun _ ha ↦ ha) h, fun _ _ ↦ h⟩

/-- What the passes over all files preserve, the run preserves, however it ends. -/
theorem wp_ingestRun (hA : SoundPolicy A) (hP : PassesKeep job P) {w : World IngestStats}
    (h : P w.conn.committed) :
    wp A (ingestRun job) (fun _ w ↦ P w.conn.committed) (fun w ↦ P w.conn.committed) w := by
  unfold ingestRun
  split
  · exact h
  · rw [wp_bind]
    refine wp_mono (wp_runGlob hA hP h) (fun _ w₁ hw₁ ↦ ?_) fun _ hc ↦ hc
    rw [wp_bind]
    refine wp_mono (wp_runGlob hA hP hw₁) (fun _ w₂ hw₂ ↦ ?_) fun _ hc ↦ hc
    rw [wp_bind]
    refine wp_mono (wp_runGlob hA hP hw₂) (fun _ w₃ hw₃ ↦ ?_) fun _ hc ↦ hc
    rw [wp_bind]
    exact wp_mono (wp_runGlob hA hP hw₃) (fun _ _ hw₄ ↦ hw₄) fun _ hc ↦ hc

/-! ### Successful runs -/

/-- One offset is stored. -/
theorem storedOffset_upsertOffset (db : Db) (relpath relpath' : Path) (offset : Nat)
    (ts now : Int) : (db.upsertOffset relpath offset ts now).storedOffset relpath' =
      if relpath' = relpath then offset else db.storedOffset relpath' := by
  unfold Db.storedOffset Db.upsertOffset
  dsimp only
  rw [Table.get?_put]
  by_cases h : relpath' = relpath
  · rw [if_pos h, if_pos h]
  · rw [if_neg h, if_neg h]

/-- A pass moves the offset of its own file only. -/
theorem Takes.storedOffset {start : Nat} {u : Text} {db : Db}
    (h : Takes job kind abs relpath base start u db) (relpath' : Path) :
    db.storedOffset relpath' =
      if relpath' = relpath then start + (takenText u).length else base.storedOffset relpath' := by
  obtain ⟨-, ts, rfl⟩ := h
  rw [storedOffset_upsertOffset, storedOffset_applyLines]

/-- Behind what was taken nothing is to be taken. -/
theorem rest_idle (u : Text) : takenText (u.drop (takenText u).length) = [] := by
  have hu : u.drop (takenText u).length = rest newline jsonlMaxLine u := by
    have hsplit : takenText u ++ rest newline jsonlMaxLine u = u := taken_append_rest jsonlMaxLine u
    calc u.drop (takenText u).length
        = (takenText u ++ rest newline jsonlMaxLine u).drop (takenText u).length := by rw [hsplit]
      _ = rest newline jsonlMaxLine u := List.drop_left
  rw [hu, takenText]
  unfold rest
  split
  · next h =>
    rw [taken, split_of_not_mem (not_mem_tail newline u), if_pos h]
    rfl
  · rfl

/-- No more is taken than there is. -/
theorem length_takenText_le (u : Text) : (takenText u).length ≤ u.length := by
  have := length_takenText u
  omega

/-- Behind a committed pass there is nothing to take. -/
theorem TakesFile.idle {db : Db} (h : TakesFile job kind abs base db) : Idle job abs db := by
  obtain ⟨relpath, content, hrel, hlog, htakes⟩ := h
  have hoff := htakes.storedOffset relpath
  rw [if_pos rfl] at hoff
  apply idle_of_eq hrel hlog
  have hle := length_takenText_le (content.drop (passStart base relpath content))
  have hpos := List.length_pos_iff.mpr htakes.1
  rw [List.length_drop] at hle
  have hstart : passStart db relpath content = db.storedOffset relpath := by
    apply if_neg
    omega
  rw [hstart, hoff, ← List.drop_drop]
  exact rest_idle _

/-- Passes over other files do not matter. -/
theorem Idle.takesFile {abs' : Path} {db : Db} (h : Idle job abs base)
    (ht : TakesFile job kind abs' base db) : Idle job abs db := by
  obtain ⟨relpath', content', hrel', hlog', htakes⟩ := ht
  intro relpath content hrel hlog
  have hoff := htakes.storedOffset relpath
  by_cases he : relpath = relpath'
  · have habs : abs = abs' := by
      rw [makeRelpath_eq_some hrel, makeRelpath_eq_some hrel', he]
    subst habs
    exact absurd (h relpath' content' hrel' hlog') htakes.1
  · rw [if_neg he] at hoff
    have hstart : passStart db relpath content = passStart base relpath content := by
      rw [passStart, passStart, hoff]
    rw [hstart]
    exact h relpath content hrel hlog

/-- An idle file stays idle in the passes of the others. -/
theorem idle_kept : PassesKeep job (Idle job abs) := fun _ _ _ _ h _ ht ↦ h.takesFile ht

section Success

variable (hA : SoundPolicy A) (hf : FindsAll A) (hdry : job.dryRun = false)

include hA hf hdry

/-- A file that was passed without a failure is idle. -/
theorem wp_ingestOneFile_ok {w : World IngestStats} :
    wp A (ingestOneFile job kind abs) (fun ok w ↦ ok = true → Idle job abs w.conn.committed)
      (fun _ ↦ True) w := by
  refine wp_mono (wp_ingestOneFile hA rfl) (fun ok w' hw' he ↦ ?_) fun _ _ ↦ trivial
  rcases hw' with ⟨hbase, hidle⟩ | ⟨-, ht⟩
  · rw [hbase]
    exact hidle he hdry hf
  · exact ht.idle

/-- Files that were passed without a failure are idle. -/
theorem wp_ingestFiles_ok (paths : List Path)
    (hmem : ∀ abs ∈ paths, abs ∈ globLogs job kind) {w : World IngestStats} :
    wp A (ingestFiles job kind paths)
      (fun ok w ↦ ok = true → ∀ abs ∈ paths, Idle job abs w.conn.committed) (fun _ ↦ True) w := by
  induction paths generalizing w with
  | nil => exact fun _ _ h ↦ by cases h
  | cons abs rest ih =>
    have hrest : ∀ a ∈ rest, a ∈ globLogs job kind := fun a ha ↦ hmem a (List.mem_cons_of_mem _ ha)
    rw [ingestFiles, wp_bind, wp_tally, wp_bind]
    refine wp_mono (wp_ingestOneFile_ok hA hf hdry) (fun ok w' hw' ↦ ?_) fun _ _ ↦ trivial
    rw [wp_bind]
    cases ok with
    | false => exact wp_mono (ih hrest) (fun others w'' _ he ↦ by cases he) fun _ _ ↦ trivial
    | true =>
      have hidle : Idle job abs w'.conn.committed := hw' rfl
      refine wp_mono (wp_and (ih hrest) (wp_ingestFiles hA idle_kept hrest hidle))
        (fun others w'' hw'' he ↦ ?_) fun _ _ ↦ trivial
      intro a ha
      cases ha with
      | head => exact hw''.2
      | tail _ ha => exact hw''.1 he a ha

/-- The files of a pattern that were passed without a failure are idle. -/
theorem wp_runGlob_ok {w : World IngestStats} :
    wp A (runGlob job kind)
      (fun ok w ↦ ok = true → ∀ abs ∈ globLogs job kind, Idle job abs w.conn.committed)
      (fun _ ↦ True) w := by
  rw [runGlob, wp_bind]
  refine (wp_ask _ _).mpr ⟨fun _ ↦ trivial, fun _ ↦ ?_, fun e he ↦ absurd he (hf _ _ _ trivial)⟩
  exact wp_ingestFiles_ok hA hf hdry _ fun _ ha ↦ ha

/-- One more kind of logs in a run that goes well so far. -/
theorem wp_runGlob_more {L : List Path} {ok : Bool} {w : World IngestStats}
    (h : ok = true → ∀ abs ∈ L, Idle job abs w.conn.committed) :
    wp A (runGlob job kind)
      (fun ok' w ↦ (ok && ok') = true → ∀ abs ∈ L ++ globLogs job kind,
        Idle job abs w.conn.committed) (fun _ ↦ True) w := by
  cases ok with
  | false => exact wp_mono (wp_runGlob_ok hA hf hdry) (fun _ _ _ he ↦ by cases he) fun _ _ ↦ trivial
  | true =>
    have hkeep : PassesKeep job fun db ↦ ∀ abs ∈ L, Idle job abs db :=
      fun _ _ _ _ hL _ ht abs habs ↦ (hL abs habs).takesFile ht
    refine wp_mono (wp_and (wp_runGlob_ok hA hf hdry) (wp_runGlob hA hkeep (h rfl)))
      (fun ok' w' hw' he ↦ ?_) fun _ _ ↦ trivial
    intro abs habs
    rw [List.mem_append] at habs
    rcases habs with habs | habs
    · exact hw'.2 abs habs
    · exact hw'.1 he abs habs

/-- A run that reports success, and found its files, leaves nothing to take. -/
theorem wp_ingestRun_ok (hmeta : job.metaDir ≠ []) {w : World IngestStats} :
    wp A (ingestRun job) (fun ok w ↦ ok = true →
      ∀ kind, ∀ abs ∈ globLogs job kind, Idle job abs w.conn.committed) (fun _ ↦ True) w := by
  rw [ingestRun, if_neg hmeta, wp_bind]
  have hnone : true = true → ∀ abs ∈ ([] : List Path), Idle job abs w.conn.committed :=
    fun _ _ h ↦ (by cases h)
  refine wp_mono (wp_runGlob_more hA hf hdry hnone) (fun ok₁ w₁ hw₁ ↦ ?_) fun _ hc ↦ hc
  rw [Bool.true_and] at hw₁
  rw [wp_bind]
  refine wp_mono (wp_runGlob_more hA hf hdry hw₁) (fun ok₂ w₂ hw₂ ↦ ?_) fun _ hc ↦ hc
  rw [wp_bind]
  refine wp_mono (wp_runGlob_more hA hf hdry hw₂) (fun ok₃ w₃ hw₃ ↦ ?_) fun _ hc ↦ hc
  rw [wp_bind]
  refine wp_mono (wp_runGlob_more hA hf hdry hw₃) (fun ok₄ w₄ hw₄ ↦ ?_) fun _ hc ↦ hc
  intro he kind abs habs
  apply hw₄ he abs
  cases kind <;> simp [habs]

end Success

end OneRun

/-! ### Short lines -/

/-- No line of a text is over the limit, finished or not. -/
def ShortLines (u : Text) : Prop :=
  (∀ l ∈ (split newline u).1, l.length ≤ jsonlMaxLine) ∧
    (split newline u).2.length ≤ jsonlMaxLine

/-- Of short lines all are kept. -/
theorem ShortLines.kept {u : Text} (h : ShortLines u) : keptLines u = (split newline u).1 := by
  apply List.filter_eq_self.mpr
  intro l hl
  exact decide_eq_true (h.1 l hl)

/-- Of short lines all complete ones are taken. -/
theorem ShortLines.taken {u : Text} (h : ShortLines u) :
    takenText u = join newline (split newline u).1 := if_pos h.2

/-- What a file's transaction commits when it goes through: the effects of the complete lines
`lines`, which there are, and the offset behind them. -/
def CommitsLines (job : IngestJob) (kind : FileKind) (abs relpath : Path) (base : Db)
    (lines : List Text) (offset : Nat) (db : Db) : Prop :=
  lines ≠ [] ∧ ∃ ts, db = (base.applyLines job kind abs relpath 0 lines).upsertOffset relpath
    (offset + (join newline lines).length) ts (job.clock abs 0)

/-- A file was ingested: its complete lines behind the stored offset are committed. -/
def Ingested (job : IngestJob) (kind : FileKind) (abs : Path) (base db : Db) : Prop :=
  ∃ relpath content, makeRelpath job.metaDir abs = some relpath ∧
    job.logs.get? abs = some content ∧ CommitsLines job kind abs relpath base
      (split newline (content.drop (base.storedOffset relpath))).1 (base.storedOffset relpath) db

/-- The logs of a job agree with the stored offsets: these do not overshoot, and no line
behind them is over the limit. -/
def LogsFit (job : IngestJob) (base : Db) : Prop :=
  ∀ abs relpath content, makeRelpath job.metaDir abs = some relpath →
    job.logs.get? abs = some content → base.storedOffset relpath ≤ content.length ∧
      ShortLines (content.drop (base.storedOffset relpath))

/-- A pass over logs that fit ingests the complete lines. -/
theorem TakesFile.ingested {db : Db} (h : TakesFile job kind abs base db) (hfit : LogsFit job base) :
    Ingested job kind abs base db := by
  obtain ⟨relpath, content, hrel, hlog, hne, ts, hdb⟩ := h
  obtain ⟨hle, hshort⟩ := hfit abs relpath content hrel hlog
  have hstart : passStart base relpath content = base.storedOffset relpath :=
    if_neg (Nat.not_lt.mpr hle)
  rw [hstart, hshort.taken] at hne hdb
  rw [hshort.kept] at hdb
  refine ⟨relpath, content, hrel, hlog, fun hnil ↦ hne ?_, ts, hdb⟩
  rw [hnil]
  rfl

end Nocturne
