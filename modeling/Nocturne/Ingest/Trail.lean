import Nocturne.Ingest.Exactly

/-!
# What a history ingested

However the logs change between the commands, each command brings the database to the replay
of some lines of the logs it found. A command makes at most one pass over a log, and `run_trail`
says what this means for the lines and the offset of the log.
-/

namespace Nocturne

open Lib Lib.Records Proc

section Trail

variable {jsonLoadb : Text → Option Json} {metaDir : Path} {logs : Logs} {db₀ db db' : Db}
  {log : List LogEntry} {job : IngestJob} {kind : FileKind} {abs relpath : Path}

/-- A history leaves the replay of what it ingested. -/
theorem Desk.Explains.replayed {d : Desk} {steps : List DeskStep}
    (h : d.Explains jsonLoadb metaDir steps log) :
    (d.after jsonLoadb metaDir steps).machine.db =
      (replay jsonLoadb log d.machine.db).withOffsets (d.after jsonLoadb metaDir steps).machine.db := by
  induction steps generalizing d log with
  | nil =>
    rw [show log = [] from h]
    rfl
  | cons step steps ih =>
    cases step with
    | append logs => exact ih h
    | ingest c =>
      obtain ⟨now, later, rfl, htrail, hlater⟩ := h
      have hnow := htrail.replayed
      have hend := ih hlater
      rw [hnow, blind_replay] at hend
      rw [replay_append]
      exact hend

/-- What a command does to the offset of one log: nothing, or one pass over the log, which
delivers `lines`. -/
def OnePass (logs : Logs) (metaDir relpath : Path) (db db' : Db) (lines : List Text) : Prop :=
  lines = [] ∧ db'.storedOffset relpath = db.storedOffset relpath ∨
    ∃ content, logs.get? (metaDir ++ relpath) = some content ∧
      lines = keptLines (content.drop (passStart db relpath content)) ∧
      db'.storedOffset relpath = passStart db relpath content +
        (takenText (content.drop (passStart db relpath content))).length

/-- A second pass over a log takes nothing. -/
theorem OnePass.takesFile {db₁ db₂ : Db} {lines : List Text} {content : Text}
    (h : OnePass logs metaDir relpath db₀ db₁ lines)
    (hlog : logs.get? (metaDir ++ relpath) = some content)
    (ht : Takes job kind abs relpath db₁ (passStart db₁ relpath content)
      (content.drop (passStart db₁ relpath content)) db₂) :
    OnePass logs metaDir relpath db₀ db₂
      (lines ++ keptLines (content.drop (passStart db₁ relpath content))) := by
  have hoff := ht.storedOffset relpath
  rw [if_pos rfl] at hoff
  rcases h with ⟨rfl, hsame⟩ | ⟨content', hlog', -, hoff'⟩
  · have hstart : passStart db₁ relpath content = passStart db₀ relpath content := by
      rw [passStart, passStart, hsame]
    rw [hstart] at hoff ⊢
    exact Or.inr ⟨content, hlog, rfl, hoff⟩
  · rw [hlog] at hlog'
    cases hlog'
    have hle := length_takenText_le (content.drop (passStart db₀ relpath content))
    rw [List.length_drop] at hle
    by_cases hin : db₁.storedOffset relpath ≤ content.length
    · have hstart : passStart db₁ relpath content = db₁.storedOffset relpath :=
        if_neg (Nat.not_lt.mpr hin)
      have hidle := rest_idle (content.drop (passStart db₀ relpath content))
      rw [List.drop_drop, ← hoff', ← hstart] at hidle
      exact absurd hidle ht.1
    · have hstart : passStart db₀ relpath content ≤ content.length := by
        unfold passStart startOffset
        dsimp only
        split <;> omega
      omega

/-- A command with harmless answers ingests lines of the logs, in at most one pass over each
of them. -/
theorem run_trail {m : Machine} {answers : List (Reply Fault)}
    (hrs : (ingestRun job).Obeys IngestSound (m.start {}) answers) :
    ∃ log, Trail job m.db (afterIngest job answers m).db log ∧
      ∀ relpath, OnePass job.logs job.metaDir relpath m.db (afterIngest job answers m).db
        (linesOf relpath log) := by
  have hkeep : PassesKeep job fun db ↦ ∃ log, Trail job m.db db log ∧
      ∀ relpath, OnePass job.logs job.metaDir relpath m.db db (linesOf relpath log) := by
    rintro kind abs base db ⟨log, htrail, hi⟩ habs ⟨relpath', content, hrel, hlog, ht⟩
    obtain ⟨relpath'', rfl, hrel', howns⟩ := mem_globLogs habs
    rw [hrel] at hrel'
    cases hrel'
    refine ⟨_, htrail.takesFile howns hlog ht, fun relpath ↦ ?_⟩
    rw [linesOf_append]
    by_cases he : relpath = relpath'
    · subst he
      rw [linesOf_entriesOf]
      exact (hi relpath).takesFile hlog ht
    · have hoff := ht.storedOffset relpath
      rw [if_neg he] at hoff
      rw [linesOf_entriesOf_ne (fun h ↦ he h.symm), List.append_nil]
      unfold OnePass
      rw [hoff]
      exact hi relpath
  have hwp := wp_ingestRun (fun _ _ _ ha ↦ ha) hkeep (w := m.start {})
    ⟨[], trail_nil _ _, fun _ ↦ Or.inl ⟨rfl, rfl⟩⟩
  unfold afterIngest
  rcases run_of_wp hwp hrs with ⟨a, t, rs, he, ht⟩ | ⟨t, he, ht⟩
  · rw [he]
    exact ht
  · rw [he]
    exact ht

/-- One command of a history. -/
theorem Desk.ingest_trail {d : Desk} {c : IngestCall}
    (h : (ingestRun (d.job jsonLoadb metaDir c)).Obeys IngestSound (d.machine.start {}) c.answers) :
    ∃ now, Trail (d.job jsonLoadb metaDir c) d.machine.db
        (d.next jsonLoadb metaDir (.ingest c)).machine.db now ∧
      ∀ relpath, OnePass d.logs metaDir relpath d.machine.db
        (d.next jsonLoadb metaDir (.ingest c)).machine.db (linesOf relpath now) :=
  run_trail h

end Trail

end Nocturne
