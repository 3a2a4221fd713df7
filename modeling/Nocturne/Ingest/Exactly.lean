import Nocturne.Ingest.File
import Nocturne.Jsonl.Object

/-!
# Every line once

The logs grow by appends, and ingest commands run in between, with failing statements and
deaths. The committed database is then the replay of a list of lines, in which the lines of
each log are its complete lines before the committed offset, in their order.
-/

namespace Nocturne

open Lib Lib.Records Proc

/-! ### Replay -/

/-- A line that was handled: its log, the handler, and the time at which it was handled. -/
structure LogEntry where
  relpath : Path
  kind : FileKind
  now : Int
  line : Text
  deriving DecidableEq, Repr

/-- Apply the handlers to some lines in order. -/
def replay (jsonLoadb : Text → Option Json) (log : List LogEntry) (db : Db) : Db :=
  log.foldl (fun db e ↦ db.applyLine jsonLoadb e.kind e.relpath e.now e.line) db

/-- The lines of one log, in order. -/
def linesOf (relpath : Path) (log : List LogEntry) : List Text :=
  (log.filter fun e ↦ e.relpath == relpath).map LogEntry.line

section Blind

variable {jsonLoadb : Text → Option Json} {kind : FileKind} {relpath : Path} {now : Int}

open Db

theorem blind_replay (log : List LogEntry) : Blind (replay jsonLoadb log) := by
  induction log with
  | nil => exact fun _ _ ↦ rfl
  | cons e rest ih => exact ih.comp (blind_applyLine e.line)

end Blind

theorem replay_append (jsonLoadb : Text → Option Json) (log log' : List LogEntry) (db : Db) :
    replay jsonLoadb (log ++ log') db = replay jsonLoadb log' (replay jsonLoadb log db) :=
  List.foldl_append

/-- The entries of lines that a run handles in order, the first of which is behind line `n`. -/
def entriesOf (job : IngestJob) (kind : FileKind) (abs relpath : Path) :
    Nat → List Text → List LogEntry
  | _, [] => []
  | n, line :: rest =>
    ⟨relpath, kind, job.clock abs (n + 1), line⟩ :: entriesOf job kind abs relpath (n + 1) rest

section Entries

variable {job : IngestJob} {kind : FileKind} {abs relpath : Path}

theorem applyLines_eq (lines : List Text) (n : Nat) (db : Db) :
    db.applyLines job kind abs relpath n lines =
      replay job.jsonLoadb (entriesOf job kind abs relpath n lines) db := by
  induction lines generalizing n db with
  | nil => rfl
  | cons line rest ih => exact ih (n + 1) _

theorem mem_entriesOf {lines : List Text} {n : Nat} {e : LogEntry}
    (h : e ∈ entriesOf job kind abs relpath n lines) : e.relpath = relpath ∧ e.kind = kind := by
  induction lines generalizing n with
  | nil => cases h
  | cons line rest ih =>
    cases h with
    | head => exact ⟨rfl, rfl⟩
    | tail _ h => exact ih h

theorem linesOf_entriesOf (lines : List Text) (n : Nat) :
    linesOf relpath (entriesOf job kind abs relpath n lines) = lines := by
  induction lines generalizing n with
  | nil => rfl
  | cons line rest ih =>
    have ih := ih (n + 1)
    unfold linesOf at ih ⊢
    rw [entriesOf, List.filter_cons_of_pos (by simp), List.map_cons, ih]

theorem linesOf_entriesOf_ne {relpath' : Path} (h : relpath ≠ relpath') (lines : List Text)
    (n : Nat) : linesOf relpath' (entriesOf job kind abs relpath n lines) = [] := by
  unfold linesOf
  rw [List.map_eq_nil_iff, List.filter_eq_nil_iff]
  intro e he hr
  rw [(mem_entriesOf he).1] at hr
  exact h (by simpa using hr)

end Entries

theorem linesOf_append (relpath : Path) (log log' : List LogEntry) :
    linesOf relpath (log ++ log') = linesOf relpath log ++ linesOf relpath log' := by
  rw [linesOf, List.filter_append, List.map_append]
  rfl

/-! ### Histories -/

/-- What varies from one ingest command to the next. -/
structure IngestCall where
  reads : Path → List ReadReply
  clock : Path → Nat → Int
  dryRun : Bool
  answers : List (Reply Fault)

/-- The logs, and the machine that ingests them. -/
structure Desk where
  logs : Logs
  machine : Machine

/-- The logs grow, or a command runs. -/
inductive DeskStep where
  | append (logs : Logs)
  | ingest (call : IngestCall)

section History

variable (jsonLoadb : Text → Option Json) (metaDir : Path)

/-- The job of a command. -/
def Desk.job (d : Desk) (c : IngestCall) : IngestJob :=
  ⟨jsonLoadb, metaDir, d.logs, c.reads, c.clock, c.dryRun⟩

/-- One step of a history. -/
def Desk.next (d : Desk) : DeskStep → Desk
  | .append logs => { d with logs := logs }
  | .ingest c => { d with machine := afterIngest (d.job jsonLoadb metaDir c) c.answers d.machine }

/-- A history. -/
def Desk.after (d : Desk) (steps : List DeskStep) : Desk := steps.foldl (Desk.next jsonLoadb metaDir) d

/-- Files are only appended to. -/
def Appends (logs logs' : Logs) : Prop :=
  ∀ abs content, logs.get? abs = some content →
    ∃ more, logs'.get? abs = some (content ++ more)

/-- No line of a log is over the limit. -/
def ShortLogs (logs : Logs) : Prop := ∀ abs content, logs.get? abs = some content → ShortLines content

/-- A step that meets the conditions: an append leaves short lines, and the answers to a
command are harmless. -/
def Desk.Fine (d : Desk) : DeskStep → Prop
  | .append logs => Appends d.logs logs ∧ ShortLogs logs
  | .ingest c =>
    (ingestRun (d.job jsonLoadb metaDir c)).Obeys IngestSound (d.machine.start {}) c.answers

/-- Every step of a history meets the conditions in the state before it. -/
def Desk.AllFine : Desk → List DeskStep → Prop
  | _, [] => True
  | d, step :: steps =>
    d.Fine jsonLoadb metaDir step ∧ AllFine (d.next jsonLoadb metaDir step) steps

end History

/-! ### Explained histories -/

/-- A line that a command read: it stands in its log, and the time is that of the clock at the
line. -/
def IngestJob.HasEntry (job : IngestJob) (e : LogEntry) : Prop :=
  e.kind.owns e.relpath = true ∧ ∃ content start i,
    job.logs.get? (job.metaDir ++ e.relpath) = some content ∧
    (keptLines (content.drop start))[i]? = some e.line ∧
    e.now = job.clock (job.metaDir ++ e.relpath) (i + 1)

/-- The database `db` is `db₀` after the lines `log`, which the command read. -/
structure Trail (job : IngestJob) (db₀ db : Db) (log : List LogEntry) : Prop where
  replayed : db = (replay job.jsonLoadb log db₀).withOffsets db
  source : ∀ e ∈ log, job.HasEntry e

/-- The lines `log` are what the commands of a history ingested. -/
def Desk.Explains (jsonLoadb : Text → Option Json) (metaDir : Path) :
    Desk → List DeskStep → List LogEntry → Prop
  | _, [], log => log = []
  | d, .append logs :: steps, log =>
    Explains jsonLoadb metaDir (d.next jsonLoadb metaDir (.append logs)) steps log
  | d, .ingest c :: steps, log => ∃ now later, log = now ++ later ∧
      Trail (d.job jsonLoadb metaDir c) d.machine.db
        (d.next jsonLoadb metaDir (.ingest c)).machine.db now ∧
      Explains jsonLoadb metaDir (d.next jsonLoadb metaDir (.ingest c)) steps later

section Explained

variable {jsonLoadb : Text → Option Json} {metaDir : Path} {db₀ db db' : Db}
  {log : List LogEntry} {job : IngestJob} {kind : FileKind} {abs relpath : Path}

theorem trail_nil (job : IngestJob) (db : Db) : Trail job db db [] :=
  ⟨rfl, fun e he ↦ (by cases he)⟩

theorem now_of_mem_entriesOf {lines : List Text} {n : Nat} {e : LogEntry}
    (h : e ∈ entriesOf job kind abs relpath n lines) :
    ∃ i, lines[i]? = some e.line ∧ e.now = job.clock abs (n + i + 1) := by
  induction lines generalizing n with
  | nil => cases h
  | cons line rest ih =>
    cases h with
    | head => exact ⟨0, rfl, rfl⟩
    | tail _ h =>
      obtain ⟨i, hline, hnow⟩ := ih h
      refine ⟨i + 1, hline, hnow.trans ?_⟩
      rw [Nat.add_right_comm n 1 i, Nat.add_assoc n i 1]

/-- A committed pass adds its lines. -/
theorem Trail.takesFile {content : Text} {start : Nat} (h : Trail job db₀ db log)
    (howns : kind.owns relpath = true)
    (hlog : job.logs.get? (job.metaDir ++ relpath) = some content)
    (ht : Takes job kind (job.metaDir ++ relpath) relpath db start (content.drop start) db') :
    Trail job db₀ db' (log ++ entriesOf job kind (job.metaDir ++ relpath) relpath 0
      (keptLines (content.drop start))) := by
  obtain ⟨-, ts, hdb'⟩ := ht
  generalize hlines : keptLines (content.drop start) = lines at hdb'
  constructor
  · rw [replay_append, hdb', applyLines_eq]
    have hr : replay job.jsonLoadb (entriesOf job kind (job.metaDir ++ relpath) relpath 0 lines) db =
        (replay job.jsonLoadb (entriesOf job kind (job.metaDir ++ relpath) relpath 0 lines)
          (replay job.jsonLoadb log db₀)).withOffsets db := by
      rw [← blind_replay, ← h.replayed]
    rw [hr]
    rfl
  · intro e he
    rw [List.mem_append] at he
    rcases he with he | he
    · exact h.source e he
    · obtain ⟨hrel, hkind⟩ := mem_entriesOf he
      obtain ⟨i, hline, hnow⟩ := now_of_mem_entriesOf he
      rw [← hlines] at hline
      rw [IngestJob.HasEntry, hkind, hrel]
      refine ⟨howns, content, start, i, hlog, hline, ?_⟩
      rw [hnow, Nat.zero_add]

theorem Desk.Explains.ingest {d : Desk} {steps : List DeskStep} {c : IngestCall}
    {now : List LogEntry} (h : d.Explains jsonLoadb metaDir steps log)
    (hnow : Trail ((d.after jsonLoadb metaDir steps).job jsonLoadb metaDir c)
      (d.after jsonLoadb metaDir steps).machine.db
      ((d.after jsonLoadb metaDir steps).next jsonLoadb metaDir (.ingest c)).machine.db now) :
    d.Explains jsonLoadb metaDir (steps ++ [.ingest c]) (log ++ now) := by
  induction steps generalizing d log with
  | nil =>
    have hlog : log = [] := h
    subst hlog
    exact ⟨now, [], (List.append_nil _).symm, hnow, rfl⟩
  | cons first steps ih =>
    cases first with
    | append logs => exact ih h hnow
    | ingest c' =>
      obtain ⟨l₁, l₂, rfl, htrail, hrest⟩ := h
      exact ⟨l₁, l₂ ++ now, List.append_assoc .., htrail, ih hrest hnow⟩

end Explained

/-! ### Exactly once -/

section History

variable (jsonLoadb : Text → Option Json) (metaDir : Path)

/-- The contents of a log. -/
def Desk.content (d : Desk) (relpath : Path) : Text := (d.logs.get? (metaDir ++ relpath)).getD []

/-- The committed offset of a log. -/
def Desk.offset (d : Desk) (relpath : Path) : Nat := d.machine.db.storedOffset relpath

/-- The committed database replays `log`, in which the lines of each file are the complete
lines before its committed offset. -/
structure ExactlyOnce (db₀ : Db) (logs : Logs) (db : Db) (log : List LogEntry) : Prop where
  replayed : db = (replay jsonLoadb log db₀).withOffsets db
  owned : ∀ e ∈ log, e.kind.owns e.relpath = true
  lines : ∀ relpath content, content = (logs.get? (metaDir ++ relpath)).getD [] →
    split newline (content.take (db.storedOffset relpath)) = (linesOf relpath log, []) ∧
      db.storedOffset relpath ≤ content.length

/-- A file whose ingest fails leaves the committed database as it is. -/
def FailedFileKeeps (d : Desk) : Prop :=
  ∀ (c : IngestCall) (kind : FileKind) (abs : Path) (w w' : World IngestStats)
    (answers rest : List (Reply Fault)), w.conn.committed = d.machine.db →
    (ingestOneFile (d.job jsonLoadb metaDir c) kind abs).Obeys IngestSound w answers →
    (ingestOneFile (d.job jsonLoadb metaDir c) kind abs).run w answers = .done false w' rest →
    w'.conn.committed = d.machine.db

/-- A command that finds no new complete line leaves the committed database as it is. -/
def IdleRunKeeps (d : Desk) : Prop :=
  ∀ c : IngestCall, d.Fine jsonLoadb metaDir (.ingest c) →
    (∀ (kind : FileKind) (relpath : Path), kind.owns relpath = true →
      (split newline ((d.content metaDir relpath).drop (d.offset relpath))).1 = []) →
    (d.next jsonLoadb metaDir (.ingest c)).machine.db = d.machine.db

variable {jsonLoadb : Text → Option Json} {metaDir : Path} {db₀ : Db} {logs : Logs} {db : Db}
  {log : List LogEntry}

theorem content_of_get? {abs relpath : Path} {content : Text}
    (hrel : makeRelpath metaDir abs = some relpath) (hlog : logs.get? abs = some content) :
    (logs.get? (metaDir ++ relpath)).getD [] = content := by
  rw [← makeRelpath_eq_some hrel, hlog, Option.getD_some]

/-- The text behind complete lines consists of short lines when the whole does. -/
theorem ShortLines.drop {u : Text} (h : ShortLines u) {n : Nat}
    (hn : (split newline (u.take n)).2 = []) : ShortLines (u.drop n) := by
  have hs := split_of_cut hn (u.drop n)
  rw [List.take_append_drop] at hs
  unfold ShortLines at h
  rw [hs] at h
  exact ⟨fun l hl ↦ h.1 l (List.mem_append_right _ hl), h.2⟩

/-- The offsets of a replayed database fit its logs. -/
theorem ExactlyOnce.fits (h : ExactlyOnce jsonLoadb metaDir db₀ logs db log)
    (hshort : ShortLogs logs) {job : IngestJob} (hj : job.metaDir = metaDir)
    (hl : job.logs = logs) : LogsFit job db := by
  intro abs relpath content hrel hlog
  rw [hj] at hrel
  rw [hl] at hlog
  obtain ⟨hsplit, hle⟩ := h.lines relpath content (content_of_get? hrel hlog).symm
  refine ⟨hle, (hshort abs content hlog).drop ?_⟩
  rw [hsplit]

/-- The complete lines behind a cut follow those before it. -/
theorem split_take_join {content : Text} {n : Nat} {lines lines' : List Text}
    (hcut : split newline (content.take n) = (lines, [])) (hle : n ≤ content.length)
    (hrest : (split newline (content.drop n)).1 = lines') :
    split newline (content.take (n + (join newline lines').length)) = (lines ++ lines', []) ∧
      n + (join newline lines').length ≤ content.length := by
  have hjoin := join_split newline (content.drop n)
  rw [hrest] at hjoin
  have hlen := congrArg List.length hjoin
  rw [List.length_append, List.length_drop] at hlen
  have hno : ∀ r ∈ lines', newline ∉ r := by
    intro r hr
    rw [← hrest] at hr
    exact not_mem_record hr
  constructor
  · have htake : content.take (n + (join newline lines').length) =
        content.take n ++ join newline lines' := by
      rw [List.take_add, ← hjoin, List.take_left]
    have hsplit := split_join_append hno []
    rw [List.append_nil, split_nil, List.append_nil] at hsplit
    rw [htake, split_of_cut (by rw [hcut]), hcut, hsplit]
  · omega

/-- A committed pass adds the new complete lines of its file to the replayed ones. -/
theorem ExactlyOnce.takesFile {db' : Db} {job : IngestJob} {kind : FileKind} {relpath : Path}
    {content : Text} (h : ExactlyOnce job.jsonLoadb job.metaDir db₀ job.logs db log)
    (hshort : ShortLogs job.logs) (howns : kind.owns relpath = true)
    (hlog : job.logs.get? (job.metaDir ++ relpath) = some content)
    (ht : Takes job kind (job.metaDir ++ relpath) relpath db (passStart db relpath content)
      (content.drop (passStart db relpath content)) db') :
    ExactlyOnce job.jsonLoadb job.metaDir db₀ job.logs db'
      (log ++ entriesOf job kind (job.metaDir ++ relpath) relpath 0
        (keptLines (content.drop (passStart db relpath content)))) := by
  have hcontent : content = (job.logs.get? (job.metaDir ++ relpath)).getD [] := by
    rw [hlog]
    rfl
  obtain ⟨hsplit, hle⟩ := h.lines relpath content hcontent
  have hstart : passStart db relpath content = db.storedOffset relpath :=
    if_neg (Nat.not_lt.mpr hle)
  have hfit : ShortLines (content.drop (db.storedOffset relpath)) :=
    (hshort _ content hlog).drop (by rw [hsplit])
  obtain ⟨-, ts, hdb'⟩ := ht
  rw [hstart, hfit.taken] at hdb'
  rw [hstart]
  rw [hfit.kept] at hdb' ⊢
  generalize hlines : (split newline (content.drop (db.storedOffset relpath))).1 = lines at hdb' ⊢
  constructor
  · rw [replay_append, hdb', applyLines_eq]
    have hr : replay job.jsonLoadb (entriesOf job kind (job.metaDir ++ relpath) relpath 0 lines) db =
        (replay job.jsonLoadb (entriesOf job kind (job.metaDir ++ relpath) relpath 0 lines)
          (replay job.jsonLoadb log db₀)).withOffsets db := by
      rw [← blind_replay, ← h.replayed]
    rw [hr]
    rfl
  · intro e he
    rw [List.mem_append] at he
    rcases he with he | he
    · exact h.owned e he
    · rw [(mem_entriesOf he).1, (mem_entriesOf he).2]
      exact howns
  · intro relpath' content' hcontent'
    rw [hdb', storedOffset_upsertOffset, linesOf_append]
    by_cases he : relpath' = relpath
    · rw [he, ← hcontent] at hcontent'
      rw [hcontent', he, if_pos rfl, linesOf_entriesOf]
      exact split_take_join hsplit hle hlines
    · rw [if_neg he, linesOf_entriesOf_ne (fun h ↦ he h.symm), List.append_nil,
        storedOffset_applyLines]
      exact h.lines relpath' content' hcontent'

/-- Whatever its fate, a run with harmless answers adds the lines that it read to the replay. -/
theorem ExactlyOnce.run {m : Machine} {answers : List (Reply Fault)} (job : IngestJob)
    (h : ExactlyOnce job.jsonLoadb job.metaDir db₀ job.logs m.db log) (hshort : ShortLogs job.logs)
    (hrs : (ingestRun job).Obeys IngestSound (m.start {}) answers) :
    ∃ now, Trail job m.db (afterIngest job answers m).db now ∧
      ExactlyOnce job.jsonLoadb job.metaDir db₀ job.logs (afterIngest job answers m).db
        (log ++ now) := by
  have hkeep : PassesKeep job fun db ↦ ∃ now, Trail job m.db db now ∧
      ExactlyOnce job.jsonLoadb job.metaDir db₀ job.logs db (log ++ now) := by
    rintro kind abs base db ⟨now, htrail, honce⟩ habs ⟨relpath, content, hrel, hlog, ht⟩
    obtain ⟨relpath', rfl, hrel', howns⟩ := mem_globLogs habs
    rw [hrel] at hrel'
    cases hrel'
    refine ⟨_, htrail.takesFile howns hlog ht, ?_⟩
    rw [← List.append_assoc]
    exact honce.takesFile hshort howns hlog ht
  have hstart : ExactlyOnce job.jsonLoadb job.metaDir db₀ job.logs m.db (log ++ []) := by
    rw [List.append_nil]
    exact h
  have hwp := wp_ingestRun (fun _ _ _ ha ↦ ha) hkeep (w := m.start {}) ⟨[], trail_nil _ _, hstart⟩
  unfold afterIngest
  rcases run_of_wp hwp hrs with ⟨a, t, rs, he, ht⟩ | ⟨t, he, ht⟩
  · rw [he]
    exact ht
  · rw [he]
    exact ht

/-- Appending to the logs does not change what is before the offsets. -/
theorem ExactlyOnce.append {logs' : Logs} (h : ExactlyOnce jsonLoadb metaDir db₀ logs db log)
    (ha : Appends logs logs') : ExactlyOnce jsonLoadb metaDir db₀ logs' db log := by
  refine ⟨h.replayed, h.owned, fun relpath content hcontent ↦ ?_⟩
  obtain ⟨hsplit, hle⟩ := h.lines relpath _ rfl
  have hpre : ∃ more, content = (logs.get? (metaDir ++ relpath)).getD [] ++ more := by
    cases hlog : logs.get? (metaDir ++ relpath) with
    | none => exact ⟨content, rfl⟩
    | some old =>
      obtain ⟨more, hmore⟩ := ha _ old hlog
      rw [hmore] at hcontent
      exact ⟨more, hcontent⟩
  obtain ⟨more, rfl⟩ := hpre
  constructor
  · rw [List.take_append_of_le_length hle]
    exact hsplit
  · rw [List.length_append]
    omega

/-- Fine histories keep short logs, and add what their commands read to the replay. -/
theorem exactlyOnce_after {steps : List DeskStep} {d : Desk} {log : List LogEntry}
    (h : ExactlyOnce jsonLoadb metaDir db₀ d.logs d.machine.db log) (hshort : ShortLogs d.logs)
    (hfine : d.AllFine jsonLoadb metaDir steps) :
    ShortLogs (d.after jsonLoadb metaDir steps).logs ∧
      ∃ more, d.Explains jsonLoadb metaDir steps more ∧
        ExactlyOnce jsonLoadb metaDir db₀ (d.after jsonLoadb metaDir steps).logs
          (d.after jsonLoadb metaDir steps).machine.db (log ++ more) := by
  induction steps generalizing d log with
  | nil =>
    refine ⟨hshort, [], rfl, ?_⟩
    rw [List.append_nil]
    exact h
  | cons step steps ih =>
    obtain ⟨hstep, hrest⟩ := hfine
    cases step with
    | append logs' => exact ih (h.append hstep.1) hstep.2 hrest
    | ingest c =>
      obtain ⟨now, htrail, hnow⟩ := ExactlyOnce.run (d.job jsonLoadb metaDir c) h hshort hstep
      have hnext : ExactlyOnce jsonLoadb metaDir db₀ d.logs
          (d.next jsonLoadb metaDir (.ingest c)).machine.db (log ++ now) := hnow
      obtain ⟨hshort', later, hlater, honce⟩ :=
        ih (d := d.next jsonLoadb metaDir (.ingest c)) hnext hshort hrest
      refine ⟨hshort', now ++ later, ⟨now, later, rfl, htrail, hlater⟩, ?_⟩
      rw [← List.append_assoc]
      exact honce

/-- Without stored offsets nothing was replayed yet. -/
theorem exactlyOnce_start (logs : Logs) (h : db₀.ingestOffsets = .empty) :
    ExactlyOnce jsonLoadb metaDir db₀ logs db₀ [] := by
  refine ⟨rfl, fun e he ↦ (by cases he), fun relpath content _ ↦ ?_⟩
  have hz : db₀.storedOffset relpath = 0 := by
    rw [Db.storedOffset, h]
    rfl
  rw [hz]
  exact ⟨rfl, Nat.zero_le _⟩

theorem failedFileKeeps (d : Desk) :
    FailedFileKeeps jsonLoadb metaDir d := by
  intro c kind abs w w' answers rest hw hobeys hrun
  rcases run_of_wp (wp_ingestOneFile (fun _ _ _ ha ↦ ha) hw) hobeys with
    ⟨a, t, rs, he, ht⟩ | ⟨t, he, ht⟩
  · rw [hrun] at he
    cases he
    rcases ht with ⟨hbase, -⟩ | ⟨hok, -⟩
    · exact hbase
    · cases hok
  · rw [hrun] at he
    cases he

theorem idleRunKeeps {d : Desk}
    (h : ExactlyOnce jsonLoadb metaDir db₀ d.logs d.machine.db log) (hshort : ShortLogs d.logs) :
    IdleRunKeeps jsonLoadb metaDir d := by
  intro c hfine hidle
  have hwp : wp IngestSound (ingestRun (d.job jsonLoadb metaDir c))
      (fun _ w ↦ w.conn.committed = d.machine.db) (fun w ↦ w.conn.committed = d.machine.db)
      (d.machine.start {}) := by
    refine wp_ingestRun (P := fun db ↦ db = d.machine.db) (fun _ _ _ ha ↦ ha) ?_ rfl
    intro kind abs base db hbase habs ht
    rw [hbase] at ht
    obtain ⟨relpath, content, hrel, hlog, hne, -⟩ := ht.ingested (h.fits hshort rfl rfl)
    obtain ⟨relpath', -, hrel', howns⟩ := mem_globLogs habs
    rw [hrel] at hrel'
    cases hrel'
    have hcontent : d.content metaDir relpath = content := content_of_get? hrel hlog
    have hnone := hidle kind relpath howns
    rw [hcontent] at hnone
    exact absurd hnone hne
  show (afterIngest _ c.answers d.machine).db = _
  unfold afterIngest
  rcases run_of_wp hwp hfine with ⟨a, t, rs, he, ht⟩ | ⟨t, he, ht⟩
  · rw [he]
    exact ht
  · rw [he]
    exact ht

/-- In every history whose logs only grow, by short lines, and whose answers are harmless: the
committed database replays what the commands read, and this is each complete line before a
committed offset once and in order; a failed file leaves it alone, and so does a run that finds no
new complete line. -/
theorem ingest_exactly_once {d : Desk} {steps : List DeskStep}
    (hlogs : ShortLogs d.logs) (h₀ : d.machine.db.ingestOffsets = .empty)
    (hfine : d.AllFine jsonLoadb metaDir steps) :
    (∃ log, d.Explains jsonLoadb metaDir steps log ∧
      ExactlyOnce jsonLoadb metaDir d.machine.db (d.after jsonLoadb metaDir steps).logs
        (d.after jsonLoadb metaDir steps).machine.db log) ∧
    FailedFileKeeps jsonLoadb metaDir (d.after jsonLoadb metaDir steps) ∧
    IdleRunKeeps jsonLoadb metaDir (d.after jsonLoadb metaDir steps) := by
  obtain ⟨hshort, log, hlog, h⟩ := exactlyOnce_after (exactlyOnce_start d.logs h₀) hlogs hfine
  exact ⟨⟨log, hlog, h⟩, failedFileKeeps _, idleRunKeeps h hshort⟩

end History

/-! ### A lookup that fails -/

theorem ingestSound_ok (w : World IngestStats) (call : Call) : IngestSound w call .ok := by
  unfold IngestSound
  split <;> trivial

theorem plays_pin (db : Db) (unit : ItemUnit) (id : Text) (pinned : Bool) (ts : Int) :
    (db.pin unit id pinned ts).plays = db.plays := by
  have hu : ∀ row, (db.upsertPin unit id row).plays = db.plays := by
    intro row
    unfold Db.upsertPin
    split
    · split <;> rfl
    · rfl
  unfold Db.pin
  dsimp only
  split
  · unfold Db.dropUnsync
    split <;> exact hu _
  · exact hu _

/-- An event adds at most one play. -/
theorem length_plays_apply (relpath : Path) (now : Int) (db : Db) (ev : Event) :
    (db.apply relpath now ev).plays.length ≤ db.plays.length + 1 := by
  cases ev with
  | play ts kind track playedMs =>
    dsimp only [Db.apply, Db.play, Db.insertPlay]
    split
    · simp
    · exact Nat.le_succ _
  | like unit id liked ts =>
    dsimp only [Db.apply, Db.upsertLike]
    split
    · split <;> exact Nat.le_succ _
    · exact Nat.le_succ _
  | pin unit id pinned ts =>
    dsimp only [Db.apply]
    split
    · exact Nat.le_succ _
    · rw [plays_pin]
      exact Nat.le_succ _
  | unsync unit id ts =>
    cases unit with
    | album => exact Nat.le_succ _
    | track =>
      dsimp only [Db.apply, Db.unsync, Db.putUnsync, Db.clearPin]
      split
      · exact Nat.le_succ _
      · split <;> exact Nat.le_succ _
  | delete unit id ts =>
    cases unit with
    | album => exact Nat.le_succ _
    | track => exact Nat.le_succ_of_le (List.length_filter_le _ _)

/-- Replaying a line adds at most one play. -/
theorem length_plays_replay (jsonLoadb : Text → Option Json) (log : List LogEntry) (db : Db) :
    (replay jsonLoadb log db).plays.length ≤ db.plays.length + log.length := by
  induction log generalizing db with
  | nil => exact Nat.le_refl _
  | cons e rest ih =>
    have hline : (db.applyLine jsonLoadb e.kind e.relpath e.now e.line).plays.length ≤
        db.plays.length + 1 := by
      unfold Db.applyLine
      split
      · exact length_plays_apply _ _ _ _
      · exact Nat.le_succ _
    have hrest := ih (db.applyLine jsonLoadb e.kind e.relpath e.now e.line)
    show (replay jsonLoadb rest (db.applyLine jsonLoadb e.kind e.relpath e.now e.line)).plays.length
      ≤ _
    rw [List.length_cons]
    omega

/-- A replay of one log has as many entries as that log has lines. -/
theorem length_linesOf {relpath : Path} {log : List LogEntry}
    (h : ∀ relpath', relpath' ≠ relpath → linesOf relpath' log = []) :
    (linesOf relpath log).length = log.length := by
  unfold linesOf at h ⊢
  rw [List.length_map, List.filter_eq_self.mpr]
  intro e he
  by_contra hne
  have hnil := h e.relpath (by simpa using hne)
  rw [List.map_eq_nil_iff, List.filter_eq_nil_iff] at hnil
  exact hnil e he (by simp)

namespace LostOffset

/-- The log of the history below. -/
def relpath : Path := [ascii "stats", ascii "phone-A.jsonl"]

/-- A known track. -/
def sha : Sha := List.replicate 64 97

/-- The line of a play of the track. -/
def playLine (ts : Int) : Text :=
  dumpObject [(ascii "v", .integer 1), (ascii "ts", .integer ts),
    (ascii "kind", .string (ascii "play")), (ascii "track", .string sha),
    (ascii "played_ms", .integer 1000)]

def content : Text := playLine 1600000000000 ++ [newline]

def metaDir : Path := [ascii "meta"]

/-- The row of the track. -/
def track : TrackRow where
  path := [ascii "music", ascii "a.flac"]
  mtimeNs := 0
  sizeBytes := 0
  format := none
  title := none
  artist := none
  album := none
  albumArtist := none
  trackNumber := none
  discNumber := none
  year := none
  genre := none
  durationMs := none
  tagsStatus := ascii "ok"
  tagWarning := none
  dateAdded := []
  lastSeenAt := []

/-- The log is there, and nothing is ingested. -/
def desk : Desk where
  logs := (Table.empty : Logs).put (metaDir ++ relpath) content
  machine := ⟨.empty, (Db.empty.insertTrack sha track).getD .empty⟩

/-- A command whose calls are answered so. -/
def call (answers : List (Reply Fault)) : IngestCall where
  reads _ := []
  clock _ _ := 1700000000000
  dryRun := false
  answers := answers

/-- Two commands: in the second one the lookup of the offset fails. -/
def steps : List DeskStep :=
  [.ingest (call []), .ingest (call [.ok, .fail ⟨.other 5, false⟩])]

theorem shortLogs : ShortLogs desk.logs := by
  intro abs c h
  have hget := Table.get?_put (Table.empty : Logs) (metaDir ++ relpath) abs content
  have hlogs : desk.logs.get? abs = some c := h
  rw [desk, hget] at hlogs
  split at hlogs
  · cases hlogs
    exact ⟨by decide +kernel, by decide +kernel⟩
  · cases hlogs

end LostOffset

/-- A failing lookup of the offset replays the log: its one line becomes two plays. -/
theorem play_counted_twice :
    ShortLogs LostOffset.desk.logs ∧ LostOffset.desk.machine.db.ingestOffsets = .empty ∧
      ¬ ∃ log, LostOffset.desk.Explains readObject LostOffset.metaDir LostOffset.steps log ∧
        ExactlyOnce readObject LostOffset.metaDir LostOffset.desk.machine.db
          (LostOffset.desk.after readObject LostOffset.metaDir LostOffset.steps).logs
          (LostOffset.desk.after readObject LostOffset.metaDir LostOffset.steps).machine.db log := by
  refine ⟨LostOffset.shortLogs, rfl, ?_⟩
  rintro ⟨log, -, h⟩
  have hplays : (LostOffset.desk.after readObject LostOffset.metaDir
      LostOffset.steps).machine.db.plays.length = 2 := by decide +kernel
  have hoff : (LostOffset.desk.after readObject LostOffset.metaDir
      LostOffset.steps).machine.db.storedOffset LostOffset.relpath =
      LostOffset.content.length := by decide +kernel
  have hone : (linesOf LostOffset.relpath log).length = 1 := by
    have hl := (h.lines LostOffset.relpath LostOffset.content rfl).1
    rw [hoff] at hl
    have hf : (split newline (LostOffset.content.take LostOffset.content.length)).1 = linesOf LostOffset.relpath log :=
      congrArg Prod.fst hl
    rw [← hf]
    decide +kernel
  have hother : ∀ relpath, relpath ≠ LostOffset.relpath → linesOf relpath log = [] := by
    intro relpath hne
    have hget : LostOffset.desk.logs.get? (LostOffset.metaDir ++ relpath) = none := by
      rw [LostOffset.desk, Table.get?_put_ne _ _ fun he ↦ hne (List.append_cancel_left he)]
      rfl
    have hnil : (LostOffset.desk.logs.get? (LostOffset.metaDir ++ relpath)).getD [] = [] := by
      rw [hget]
      rfl
    have hl := (h.lines relpath [] hnil.symm).1
    rw [List.take_nil] at hl
    exact (congrArg Prod.fst hl).symm
  have hreplay := congrArg (fun db ↦ db.plays.length) h.replayed
  have hle := length_plays_replay readObject log LostOffset.desk.machine.db
  rw [← length_linesOf hother, hone] at hle
  have hnone : LostOffset.desk.machine.db.plays.length = 0 := by decide +kernel
  have htwo : (replay readObject log LostOffset.desk.machine.db).plays.length = 2 :=
    hreplay.symm.trans hplays
  omega

/-- With answers that are harmless, the same log is replayed once. -/
theorem play_counted_once :
    (∃ log, LostOffset.desk.Explains readObject LostOffset.metaDir
        [.ingest (LostOffset.call []), .ingest (LostOffset.call [])] log ∧
      ExactlyOnce readObject LostOffset.metaDir LostOffset.desk.machine.db
        (LostOffset.desk.after readObject LostOffset.metaDir
          [.ingest (LostOffset.call []), .ingest (LostOffset.call [])]).logs
        (LostOffset.desk.after readObject LostOffset.metaDir
          [.ingest (LostOffset.call []), .ingest (LostOffset.call [])]).machine.db log) ∧
      FailedFileKeeps readObject LostOffset.metaDir
        (LostOffset.desk.after readObject LostOffset.metaDir
          [.ingest (LostOffset.call []), .ingest (LostOffset.call [])]) ∧
      IdleRunKeeps readObject LostOffset.metaDir
        (LostOffset.desk.after readObject LostOffset.metaDir
          [.ingest (LostOffset.call []), .ingest (LostOffset.call [])]) :=
  ingest_exactly_once LostOffset.shortLogs rfl
    ⟨obeys_nil _ ingestSound_ok _, obeys_nil _ ingestSound_ok _, trivial⟩

end Nocturne
