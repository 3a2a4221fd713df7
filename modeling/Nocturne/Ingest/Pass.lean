import Nocturne.Ingest.Effect

/-!
# One pass over a file

`ingest_one_file` either leaves the committed database as it is, or commits the events of the
lines that one pass from the stored offset delivers, together with the offset behind them.
Lines over the limit are passed over, and a file smaller than the stored offset is read from
its start.
-/

namespace Nocturne

open Lib Lib.Records Proc IngestStats

/-! ### Lines -/

/-- The event that a line of a log is at the time `now`, if any. -/
def lineEvent (jsonLoadb : Text → Option Json) (kind : FileKind) (now : Int) (line : Text) :
    Option Event :=
  if line = [] then none
  else
    match jsonLoadb line with
    | some (.object root) => eventOf kind now root
    | _ => none

/-- A line is an event of its log. -/
theorem lineEvent_kind {jsonLoadb : Text → Option Json} {kind : FileKind} {now : Int} {l : Text}
    {ev : Event} (h : lineEvent jsonLoadb kind now l = some ev) : ev.kind = kind := by
  unfold lineEvent at h
  split at h
  · cases h
  · split at h
    · exact eventOf_kind h
    · cases h

/-- A line has a plausible `ts`. -/
theorem ts_of_lineEvent {jsonLoadb : Text → Option Json} {kind : FileKind} {now : Int} {l : Text}
    {ev : Event} (h : lineEvent jsonLoadb kind now l = some ev) : tsPlausible now ev.ts = true := by
  unfold lineEvent at h
  split at h
  · cases h
  · split at h
    · exact ts_of_eventOf h
    · cases h

/-- The effect of a line. -/
def Db.applyLine (jsonLoadb : Text → Option Json) (kind : FileKind) (relpath : Path) (now : Int)
    (line : Text) (db : Db) : Db :=
  match lineEvent jsonLoadb kind now line with
  | some ev => db.apply relpath now ev
  | none => db

/-- The effect of lines in order, the first of which is behind line `n`. -/
def Db.applyLines (job : IngestJob) (kind : FileKind) (abs relpath : Path) :
    Nat → List Text → Db → Db
  | _, [], db => db
  | n, line :: rest, db => applyLines job kind abs relpath (n + 1) rest
      (db.applyLine job.jsonLoadb kind relpath (job.clock abs (n + 1)) line)

/-- The lines that a pass over a text delivers: those within the limit. -/
def keptLines (u : Text) : List Text := kept newline jsonlMaxLine u

/-- What a pass over a text leaves behind the offset. -/
def takenText (u : Text) : Text := taken newline jsonlMaxLine u

variable {base work : Db} {w : World IngestStats} {job : IngestJob} {kind : FileKind}
  {abs relpath : Path}

/-- Every handler is the frame around the checks of its kind. -/
theorem handle_eq (kind : FileKind) : ∃ count, handle kind = handler (eventOf kind) count := by
  cases kind with
  | stats => exact ⟨_, rfl⟩
  | likes => exact ⟨_, rfl⟩
  | pins => exact ⟨_, rfl⟩
  | actions => exact ⟨_, rfl⟩

/-- A line that is an object is read as the event of the object. -/
theorem lineEvent_object {jsonLoadb : Text → Option Json} {line : Text} {now : Int}
    {root : List (Text × JsonValue)} (hl : line ≠ []) (hj : jsonLoadb line = some (.object root)) :
    lineEvent jsonLoadb kind now line = eventOf kind now root := by
  rw [lineEvent, if_neg hl, hj]

/-- A handler has the effect of the event that its line is, if it does not fail. -/
theorem writes_handle (hdry : job.dryRun = false) (now maxTs : Int)
    (root : List (Text × JsonValue)) :
    Writes (handle kind relpath job.dryRun now maxTs root) (fun r ↦ r.1.ok) fun db ↦
      match eventOf kind now root with
      | some ev => db.apply relpath now ev
      | none => db := by
  intro base work w h
  obtain ⟨count, hc⟩ := handle_eq kind
  rw [hc, handler, hdry]
  cases eventOf kind now root with
  | none => exact h.wrote _
  | some ev =>
    dsimp only
    rw [if_neg (by simp), wp_bind]
    exact wp_mono (writes_event relpath now ev base work w h) (fun _ _ hw' ↦ hw') fun _ hc ↦ hc

/-- A line that does not fail the file has its effect. -/
theorem writes_line (hdry : job.dryRun = false) (now maxTs : Int) (line : Text) :
    Writes (ingestLine job kind relpath now maxTs line) (fun r ↦ !r.1)
      (Db.applyLine job.jsonLoadb kind relpath now line) := by
  intro base work w h
  unfold Db.applyLine
  by_cases hl : line = []
  · rw [ingestLine, if_pos hl, lineEvent, if_pos hl]
    exact h.wrote _
  · rw [ingestLine, if_neg hl]
    cases hj : job.jsonLoadb line with
    | none =>
      rw [lineEvent, if_neg hl, hj]
      exact (h.tally _).wrote _
    | some json =>
      cases json with
      | other =>
        rw [lineEvent, if_neg hl, hj]
        exact (h.tally _).wrote _
      | object root =>
        dsimp only
        rw [lineEvent_object hl hj, wp_bind]
        refine wp_mono (writes_handle hdry now maxTs root base work w h) (fun r w' hw' ↦ ?_)
          fun _ hc ↦ hc
        obtain ⟨rc, ts⟩ := r
        cases rc with
        | counted => exact (hw'.work rfl).wrote _
        | skipped => exact ((hw'.work rfl).tally _).wrote _
        | failed => exact wrote_failed hw'.committed

/-! ### Offsets -/

/-- A line is applied without a look at the offsets. -/
theorem blind_applyLine {jsonLoadb : Text → Option Json} {now : Int} (line : Text) :
    Db.Blind (Db.applyLine jsonLoadb kind relpath now line) := by
  intro db db'
  unfold Db.applyLine
  cases lineEvent jsonLoadb kind now line with
  | none => rfl
  | some ev => exact Db.blind_apply relpath now ev db db'

/-- Lines leave the offsets alone. -/
theorem storedOffset_applyLines (lines : List Text) (n : Nat) (db : Db) (relpath' : Path) :
    (db.applyLines job kind abs relpath n lines).storedOffset relpath' =
      db.storedOffset relpath' := by
  induction lines generalizing n db with
  | nil => rfl
  | cons line rest ih =>
    have hline : (db.applyLine job.jsonLoadb kind relpath (job.clock abs (n + 1)) line).ingestOffsets =
        db.ingestOffsets := (blind_applyLine line).ingestOffsets db
    rw [Db.applyLines, ih, Db.storedOffset, hline]
    rfl

/-! ### The loop -/

/-- What is taken and what is left are all of it. -/
theorem length_takenText (u : Text) :
    (takenText u).length + (rest newline jsonlMaxLine u).length = u.length := by
  rw [← List.length_append, takenText, taken_append_rest]

/-- Where nothing is taken, no line is kept. -/
theorem keptLines_of_taken_nil {u : Text} (h : takenText u = []) : keptLines u = [] :=
  kept_of_taken_nil h

/-- A stretch that is read leaves the end of the pass where it was. -/
theorem Moves.taken {r r' : JsonlReader} {s : Text} (h : Moves r r' s)
    (hr : rest newline jsonlMaxLine r.unread = rest newline jsonlMaxLine r'.unread) :
    r.offset + (takenText r.unread).length = r'.offset + (takenText r'.unread).length := by
  have hu := length_takenText r.unread
  have hu' := length_takenText r'.unread
  have hlen := congrArg List.length h.unread
  rw [List.length_append] at hlen
  rw [hr] at hu
  have hoff := h.offset
  omega

/-- A line that is read is the next one that is kept. -/
theorem ReadsLine.kept_line {r r' : JsonlReader} {l : Text} (h : ReadsLine r r' (.line l)) :
    keptLines r.unread = l :: keptLines r'.unread ∧
      r.offset + (takenText r.unread).length = r'.offset + (takenText r'.unread).length := by
  obtain ⟨hsplit, hfit⟩ := h.split_line
  obtain ⟨s, hs⟩ := h.moves fun e he ↦ by cases he
  constructor
  · rw [keptLines, kept, hsplit, List.filter_cons_of_pos (by simpa using hfit)]
    rfl
  · apply hs.taken
    rw [rest, rest, hsplit]

/-- A line that is too long is not kept. -/
theorem ReadsLine.kept_oversize {r r' : JsonlReader} (h : ReadsLine r r' .oversize) :
    keptLines r.unread = keptLines r'.unread ∧
      r.offset + (takenText r.unread).length = r'.offset + (takenText r'.unread).length := by
  obtain ⟨s, hs⟩ := h.moves fun e he ↦ by cases he
  obtain ⟨l, hlong, hsplit | ⟨hsplit, hr⟩⟩ := h.split_oversize
  · constructor
    · rw [keptLines, kept, hsplit, List.filter_cons_of_neg (by simpa using hlong)]
      rfl
    · apply hs.taken
      rw [rest, rest, hsplit]
  · constructor
    · rw [keptLines, kept, hsplit, hr]
      rfl
    · apply hs.taken
      rw [rest, hsplit, if_neg hlong, hr]
      rfl

/-- At the end of the file no line is left. -/
theorem ReadsLine.kept_eof {r r' : JsonlReader} (h : ReadsLine r r' .eof) :
    keptLines r.unread = [] ∧ takenText r.unread = [] ∧ r'.offset = r.offset := by
  obtain ⟨hsplit, hfit⟩ := h.split_eof
  refine ⟨?_, ?_, ?_⟩
  · rw [keptLines, kept, hsplit]
    rfl
  · rw [takenText, taken, hsplit, if_pos hfit]
    rfl
  · cases h with
    | eof moves => exact moves.offset

/-- How the loop ends: what is committed is as before and, if the file did not fail, the lines
of the pass have had their effects and the offset is behind it. -/
structure Passed (job : IngestJob) (kind : FileKind) (abs relpath : Path) (base work : Db)
    (u : Text) (offset n : Nat) (out : Bool × Int × JsonlReader) (w : World IngestStats) :
    Prop where
  committed : w.conn.committed = base
  offset : out.1 = false → jsonlOffset out.2.2 = offset + (takenText u).length
  work : out.1 = false → InWork base (work.applyLines job kind abs relpath n (keptLines u)) w

/-- A pass that fails leaves what is committed. -/
theorem passed_failed {u : Text} {offset n : Nat} {ts : Int} {r : JsonlReader}
    (h : w.conn.committed = base) :
    Passed job kind abs relpath base work u offset n (true, ts, r) w :=
  ⟨h, fun he ↦ by simp at he, fun he ↦ by simp at he⟩

/-- The loop over the lines of a file applies those that are kept, or fails. -/
theorem wp_ingestLoop {base work : Db} {w : World IngestStats} {r : JsonlReader}
    (hdry : job.dryRun = false) (n : Nat) (maxTs : Int) (h : InWork base work w) :
    wp IngestSound (ingestLoop job kind abs relpath r n maxTs)
      (Passed job kind abs relpath base work r.unread r.offset n)
      (fun w ↦ w.conn.committed = base) w := by
  have hspec := jsonlReadLine_spec r
  unfold ingestLoop
  split
  · next r' hr =>
    rw [hr] at hspec
    obtain ⟨hkept, htaken, hoff⟩ := hspec.kept_eof
    refine ⟨h.committed, fun _ ↦ ?_, fun _ ↦ ?_⟩
    · rw [htaken]
      exact hoff
    · rw [hkept]
      exact h
  · next e r' hr => exact passed_failed h.committed
  · next r' hr =>
    rw [hr] at hspec
    have hlt : r'.unread.length < r.unread.length := hspec.shorter (Or.inr rfl)
    obtain ⟨hkept, htaken⟩ := hspec.kept_oversize
    rw [wp_bind]
    refine wp_tally_inWork h fun w' hw' ↦ ?_
    refine wp_mono (wp_ingestLoop hdry n maxTs hw') (fun out w'' hw'' ↦ ?_) fun _ hc ↦ hc
    refine ⟨hw''.committed, fun he ↦ ?_, fun he ↦ ?_⟩
    · rw [hw''.offset he, htaken]
    · rw [hkept]
      exact hw''.work he
  · next line r' hr =>
    rw [hr] at hspec
    have hlt : r'.unread.length < r.unread.length := hspec.shorter (Or.inl ⟨line, rfl⟩)
    obtain ⟨hkept, htaken⟩ := hspec.kept_line
    rw [wp_bind]
    refine wp_mono (writes_line hdry _ maxTs line base work w h) (fun out w' hw' ↦ ?_)
      fun _ hc ↦ hc
    obtain ⟨failed, maxTs'⟩ := out
    cases failed with
    | true => exact passed_failed hw'.committed
    | false =>
      have ih := wp_ingestLoop hdry (r := r') (n + 1) maxTs' (hw'.work rfl)
      refine wp_mono ih (fun out w'' hw'' ↦ ⟨hw''.committed, fun he ↦ ?_, fun he ↦ ?_⟩)
        fun _ hc ↦ hc
      · rw [hw''.offset he, htaken]
      · rw [hkept]
        exact hw''.work he
termination_by r.unread.length

/-! ### The transaction -/

/-- What a file's transaction commits when it goes through: the effects of the lines of a pass
over `u`, which takes something, and the offset behind it. -/
def Takes (job : IngestJob) (kind : FileKind) (abs relpath : Path) (base : Db) (start : Nat)
    (u : Text) (db : Db) : Prop :=
  takenText u ≠ [] ∧ ∃ ts, db = (base.applyLines job kind abs relpath 0 (keptLines u)).upsertOffset
    relpath (start + (takenText u).length) ts (job.clock abs 0)

/-- How a file's transaction ends: nothing is committed, which is a success when there was
nothing to take, or the pass is. -/
def FileDone (job : IngestJob) (kind : FileKind) (abs relpath : Path) (base : Db) (start : Nat)
    (u : Text) (ok : Bool) (w : World IngestStats) : Prop :=
  w.conn.committed = base ∧ (ok = true → takenText u = []) ∨
    ok = true ∧ Takes job kind abs relpath base start u w.conn.committed

/-- Rolling back, whatever the state of the transaction. -/
theorem wp_rollback (h : w.conn.committed = base) :
    wp IngestSound (do let _ ← dbRollback; pure false)
      (fun ok w ↦ w.conn.committed = base ∧ ok = false) (fun w ↦ w.conn.committed = base) w := by
  rw [wp_bind]
  refine (wp_ask _ _).mpr ⟨fun _ ↦ h, fun _ ↦ ⟨?_, rfl⟩, fun e _ ↦ ⟨?_, rfl⟩⟩
  · dsimp only
    split
    · next c hc =>
      obtain ⟨t, -, rfl⟩ := Option.map_eq_some_iff.mp hc
      exact h
    · exact h
  · show (w.conn.failed e).committed = base
    unfold Conn.failed
    split <;> exact h

/-- A commit that goes through commits the working state. -/
theorem wp_commit (h : InWork base work w) :
    wp IngestSound dbCommit (fun ok w ↦ (w.conn.committed = base ∧ ok = false) ∨
      ok = true ∧ w.conn.committed = work) (fun w ↦ w.conn.committed = base) w := by
  obtain ⟨saves, hs⟩ := h.txn
  refine (wp_ask _ _).mpr ⟨fun _ ↦ h.committed, fun _ ↦ ?_, fun e _ ↦ ?_⟩
  · simp only [Conn.commit, hs, Option.map_some]
    exact Or.inr ⟨trivial, trivial⟩
  · exact Or.inl ⟨(h.quiet.failed e).committed, rfl⟩

/-- A file that is opened is passed once, or fails. -/
theorem wp_ingestOpened {content : Text} {old : Nat} (hdry : job.dryRun = false)
    (h : InWork base base w) :
    wp IngestSound (ingestOpened job kind abs relpath content old)
      (FileDone job kind abs relpath base old (content.drop old))
      (fun w ↦ w.conn.committed = base) w := by
  have hloop : wp IngestSound
      (ingestLoop job kind abs relpath (jsonlOpen content (job.reads abs) old) 0 0)
      (Passed job kind abs relpath base base (content.drop old) old 0)
      (fun w ↦ w.conn.committed = base) w := wp_ingestLoop hdry 0 0 h
  have undo : ∀ w', w'.conn.committed = base →
      wp IngestSound (do let _ ← dbRollback; pure false)
        (FileDone job kind abs relpath base old (content.drop old))
        (fun w ↦ w.conn.committed = base) w' :=
    fun w' hw' ↦ wp_mono (wp_rollback hw')
      (fun _ _ hc ↦ Or.inl ⟨hc.1, fun he ↦ by rw [hc.2] at he; cases he⟩) fun _ hc ↦ hc
  rw [ingestOpened, wp_bind]
  refine wp_mono hloop (fun out w₁ hl ↦ ?_) fun _ hc ↦ hc
  obtain ⟨failed, maxTs, r⟩ := out
  simp only [hdry, Bool.false_eq_true, if_false]
  cases failed with
  | true =>
    rw [if_neg (by simp), wp_bind]
    exact undo w₁ hl.committed
  | false =>
    have hoff : jsonlOffset r = old + (takenText (content.drop old)).length := hl.offset rfl
    have hwork := hl.work rfl
    by_cases htaken : takenText (content.drop old) = []
    · rw [htaken] at hoff
      rw [keptLines_of_taken_nil htaken] at hwork
      rw [if_neg (by rw [hoff]; simp), wp_bind, wp_pure, if_neg Bool.false_ne_true]
      refine wp_mono (wp_commit hwork) (fun ok w₂ hw₂ ↦ Or.inl ⟨?_, fun _ ↦ htaken⟩) fun _ hc ↦ hc
      exact hw₂.elim And.left And.right
    · have hpos := List.length_pos_iff.mpr htaken
      rw [if_pos ⟨rfl, by omega⟩, wp_bind, upsertOffset, wp_map]
      refine wp_exec_some hwork hwork.committed (fun w₂ hw₂ ↦ ?_) fun w₂ hw₂ ↦ ?_
      · rw [if_pos (by decide), wp_bind]
        refine wp_tally_inWork hw₂ fun w₃ hw₃ ↦ ?_
        rw [wp_bind, wp_pure, if_neg Bool.false_ne_true]
        refine wp_mono (wp_commit hw₃) (fun ok w₄ hw₄ ↦ ?_) fun _ hc ↦ hc
        rcases hw₄ with ⟨hbase, hok⟩ | ⟨hok, hdone⟩
        · exact Or.inl ⟨hbase, fun he ↦ by rw [hok] at he; cases he⟩
        · exact Or.inr ⟨hok, htaken, maxTs, by rw [hdone, hoff]⟩
      · exact undo w₂ hw₂.committed

/-! ### Dry runs -/

/-- The run does not touch what is committed. -/
def Keeps {α : Type} (p : Sys IngestStats α) : Prop :=
  ∀ (base : Db) (w : World IngestStats), w.conn.committed = base →
    wp IngestSound p (fun _ w ↦ w.conn.committed = base) (fun w ↦ w.conn.committed = base) w

/-- Sequencing. -/
theorem Keeps.bind {α β : Type} {p : Sys IngestStats α} {k : α → Sys IngestStats β}
    (hp : Keeps p) (hk : ∀ a, Keeps (k a)) : Keeps (p >>= k) := by
  intro base w h
  rw [wp_bind]
  exact wp_mono (hp base w h) (fun a w' hw' ↦ hk a base w' hw') fun _ hc ↦ hc

theorem keeps_pure {α : Type} (a : α) : Keeps (pure a) := fun _ _ h ↦ h

theorem keeps_tally (f : IngestStats → IngestStats) : Keeps (tally f) := fun _ _ h ↦ h

/-- In a dry run a line changes nothing. -/
theorem keeps_line (hdry : job.dryRun = true) (now maxTs : Int) (line : Text) :
    Keeps (ingestLine job kind relpath now maxTs line) := by
  unfold ingestLine
  split
  · exact keeps_pure _
  · split
    · next root _ =>
      obtain ⟨count, hc⟩ := handle_eq kind
      rw [hc, handler, hdry]
      refine Keeps.bind ?_ fun out ↦ ?_
      · split
        · exact keeps_pure _
        · exact (keeps_tally _).bind fun _ ↦ keeps_pure _
      · obtain ⟨rc, ts⟩ := out
        cases rc with
        | counted => exact keeps_pure _
        | skipped => exact (keeps_tally _).bind fun _ ↦ keeps_pure _
        | failed => exact keeps_pure _
    · exact (keeps_tally _).bind fun _ ↦ keeps_pure _

/-- In a dry run the loop changes nothing. -/
theorem keeps_loop (hdry : job.dryRun = true) (r : JsonlReader) (n : Nat) (maxTs : Int) :
    Keeps (ingestLoop job kind abs relpath r n maxTs) := by
  unfold ingestLoop
  split
  · exact keeps_pure _
  · exact keeps_pure _
  · next r' hr =>
    have := unread_jsonlReadLine hr (Or.inr rfl)
    exact (keeps_tally _).bind fun _ ↦ keeps_loop hdry r' n maxTs
  · next line r' hr =>
    have := unread_jsonlReadLine hr (Or.inl ⟨line, rfl⟩)
    refine (keeps_line hdry _ _ _).bind fun out ↦ ?_
    obtain ⟨failed, maxTs'⟩ := out
    cases failed with
    | true => exact keeps_pure _
    | false => exact keeps_loop hdry r' (n + 1) maxTs'
termination_by r.unread.length

/-- In a dry run a file changes nothing. -/
theorem keeps_opened (hdry : job.dryRun = true) (content : Text) (old : Nat) :
    Keeps (ingestOpened job kind abs relpath content old) := by
  unfold ingestOpened
  refine (keeps_loop hdry _ _ _).bind fun out ↦ ?_
  obtain ⟨failed, maxTs, r⟩ := out
  simp only [hdry, if_true]
  split
  · exact (keeps_tally _).bind fun _ ↦ (keeps_pure _).bind fun _ ↦ keeps_pure _
  · exact (keeps_pure _).bind fun _ ↦ keeps_pure _


/-! ### One file -/

/-- Where a pass over a file starts. -/
def passStart (base : Db) (relpath : Path) (content : Text) : Nat :=
  startOffset (base.storedOffset relpath) (.ok content.length)

/-- A pass over a file was committed. -/
def TakesFile (job : IngestJob) (kind : FileKind) (abs : Path) (base db : Db) : Prop :=
  ∃ relpath content, makeRelpath job.metaDir abs = some relpath ∧
    job.logs.get? abs = some content ∧
    Takes job kind abs relpath base (passStart base relpath content)
      (content.drop (passStart base relpath content)) db

/-- A pass over the file would take nothing. -/
def Idle (job : IngestJob) (abs : Path) (base : Db) : Prop :=
  ∀ relpath content, makeRelpath job.metaDir abs = some relpath →
    job.logs.get? abs = some content →
    takenText (content.drop (passStart base relpath content)) = []

/-- The calls by which a run finds and opens its files. -/
def Call.Finds : Call → Prop
  | .stat _ => True
  | .openFile _ => True
  | .openDir _ => True
  | _ => False

/-- A policy under which every file is found and opened. -/
def FindsAll (A : World IngestStats → Call → Reply Fault → Prop) : Prop :=
  ∀ w call e, call.Finds → ¬ A w call (.fail e)

/-- The look-up of an offset, which fails harmlessly or finds what is stored. -/
theorem wp_lookupOffset (relpath : Path) (h : w.conn.committed = base) :
    wp IngestSound (lookupOffset relpath)
      (fun stored w' ↦ w'.conn.committed = base ∧
        (w'.conn.txn = none → stored = base.storedOffset relpath))
      (fun w ↦ w.conn.committed = base) w := by
  rw [lookupOffset, wp_map]
  refine (wp_ask _ _).mpr ⟨fun _ ↦ h, fun _ ↦ ⟨h, fun ht ↦ ?_⟩, fun e he ↦ ⟨?_, fun _ ↦ ?_⟩⟩
  · show w.conn.view.storedOffset relpath = base.storedOffset relpath
    have hv : w.conn.view = base := by
      have ht' : w.conn.txn = none := ht
      rw [Conn.view, ht', h]
    rw [hv]
  · show (w.conn.failed e).committed = base
    unfold Conn.failed
    split <;> exact h
  · have hz : w.conn.committed.storedOffset relpath = 0 := he
    rw [h] at hz
    exact hz.symm

/-- A pass from behind the end of a file takes nothing. -/
theorem passStart_of_le {relpath : Path} {content : Text}
    (h : takenText (content.drop (base.storedOffset relpath)) ≠ []) :
    passStart base relpath content = base.storedOffset relpath := by
  apply if_neg
  intro hlt
  apply h
  rw [List.drop_eq_nil_of_le (Nat.le_of_lt hlt)]
  rfl

/-- A transaction that begins has the committed state for its working state. -/
theorem Conn.begin_some {c c' : Conn} (h : c.begin = some c') :
    c.txn = none ∧ c' = ⟨c.committed, some ⟨c.committed, [], false⟩⟩ := by
  unfold Conn.begin at h
  split at h
  · cases h
  · next ht =>
    cases h
    exact ⟨ht, rfl⟩

/-- The part of `ingest_one_file` behind the opening of the file. -/
theorem wp_ingest_begin {relpath : Path} {content : Text} {stored : Nat} {size : Except Errno Nat}
    (h : w.conn.committed = base)
    (hst : w.conn.txn = none → stored = base.storedOffset relpath) :
    wp IngestSound (do
      let began ← if job.dryRun then pure true else dbBegin
      if began then ingestOpened job kind abs relpath content (startOffset stored size)
      else pure false)
      (fun ok w ↦ w.conn.committed = base ∧ (ok = true → job.dryRun = true) ∨
        FileDone job kind abs relpath base (startOffset (base.storedOffset relpath) size)
          (content.drop (startOffset (base.storedOffset relpath) size)) ok w)
      (fun w ↦ w.conn.committed = base) w := by
  cases hdry : job.dryRun with
  | true =>
    rw [if_pos rfl, wp_bind, wp_pure]
    dsimp only
    rw [if_pos rfl]
    exact wp_mono (keeps_opened hdry content _ base w h) (fun _ _ hc ↦ Or.inl ⟨hc, fun _ ↦ rfl⟩)
      fun _ hc ↦ hc
  | false =>
    rw [if_neg Bool.false_ne_true, wp_bind]
    refine (wp_ask _ _).mpr ⟨fun _ ↦ h, fun _ ↦ ?_, fun e _ ↦ Or.inl ⟨?_, fun he ↦ (by cases he)⟩⟩
    · cases hc : w.conn.begin with
      | none => exact Or.inl ⟨h, fun he ↦ (by cases he)⟩
      | some c =>
        obtain ⟨ht, rfl⟩ := Conn.begin_some hc
        dsimp only
        rw [if_pos rfl, hst ht]
        exact wp_mono (wp_ingestOpened hdry ⟨h, [], by rw [h]⟩) (fun ok w' hw' ↦ Or.inr hw')
          fun _ hc ↦ hc
    · show (w.conn.failed e).committed = base
      unfold Conn.failed
      split <;> exact h

/-- How a file ends: what is committed stays, and then a success means that there was nothing
to take, or a pass over the file is committed. -/
def FileEnds (A : World IngestStats → Call → Reply Fault → Prop) (job : IngestJob)
    (kind : FileKind) (abs : Path) (base : Db) (ok : Bool) (w : World IngestStats) : Prop :=
  w.conn.committed = base ∧
      (ok = true → job.dryRun = false → FindsAll A → Idle job abs base) ∨
    ok = true ∧ TakesFile job kind abs base w.conn.committed

section OneFile

variable {A : World IngestStats → Call → Reply Fault → Prop}

/-- Only harmless answers are allowed. -/
def SoundPolicy (A : World IngestStats → Call → Reply Fault → Prop) : Prop :=
  ∀ w call r, A w call r → IngestSound w call r

/-- A file with no new line is idle. -/
theorem idle_of_eq {relpath : Path} {content : Text}
    (hrel : makeRelpath job.metaDir abs = some relpath) (hlog : job.logs.get? abs = some content)
    (h : takenText (content.drop (passStart base relpath content)) = []) : Idle job abs base := by
  intro relpath' content' hrel' hlog'
  rw [hrel] at hrel'
  rw [hlog] at hlog'
  cases hrel'
  cases hlog'
  exact h

/-- The look at the size fails, or agrees with what is opened. -/
theorem wp_statLog (h : w.conn.committed = base) :
    wp A (sysRead (.stat abs) fun _ ↦ (readLog job abs).map List.length)
      (fun size w' ↦ w' = w ∧ ∀ content, job.logs.get? abs = some content →
        size = .ok content.length ∨ ∃ e, size = .error e ∧ ¬ FindsAll A)
      (fun w ↦ w.conn.committed = base) w := by
  refine (wp_ask _ _).mpr ⟨fun _ ↦ h, fun _ ↦ ⟨rfl, fun content hlog ↦ Or.inl ?_⟩,
    fun e he ↦ ⟨rfl, fun _ _ ↦ Or.inr ⟨e.errno, rfl, ?_⟩⟩⟩
  · dsimp only
    rw [readLog, hlog]
    rfl
  · exact fun hf ↦ hf w (.stat abs) e trivial he

/-- A file whose ingest fails, or during which the process dies, leaves the committed database
as it is. -/
theorem wp_ingestOneFile (hA : SoundPolicy A)
    (h : w.conn.committed = base) :
    wp A (ingestOneFile job kind abs) (FileEnds A job kind abs base)
      (fun w ↦ w.conn.committed = base) w := by
  unfold ingestOneFile
  cases hrel : makeRelpath job.metaDir abs with
  | none =>
    refine Or.inl ⟨h, fun _ _ _ relpath content hrel' ↦ ?_⟩
    rw [hrel] at hrel'
    cases hrel'
  | some relpath =>
    dsimp only
    rw [wp_bind]
    refine wp_mono (wp_policy (wp_lookupOffset relpath h) hA) (fun stored w₁ ⟨hw₁, hst⟩ ↦ ?_)
      fun _ hc ↦ hc
    rw [wp_bind]
    refine wp_mono (wp_statLog hw₁) (fun size _ ⟨heq, hsize⟩ ↦ ?_) fun _ hc ↦ hc
    subst heq
    rw [wp_bind]
    refine (wp_ask _ _).mpr ⟨fun _ ↦ hw₁, fun _ ↦ ?_, fun e he ↦ Or.inl ⟨hw₁, fun _ _ hf ↦ ?_⟩⟩
    · dsimp only
      cases hlog : job.logs.get? abs with
      | none =>
        rw [readLog, hlog]
        refine Or.inl ⟨hw₁, fun _ _ _ relpath content _ hlog' ↦ ?_⟩
        rw [hlog] at hlog'
        cases hlog'
      | some content =>
        rw [readLog, hlog]
        refine wp_mono (wp_policy (wp_ingest_begin hw₁ hst) hA) (fun ok w₂ hw₂ ↦ ?_)
          fun _ hc ↦ hc
        rcases hw₂ with ⟨hbase, hok⟩ | ⟨hbase, hnil⟩ | ⟨hok, htakes⟩
        · refine Or.inl ⟨hbase, fun he hdry _ ↦ ?_⟩
          rw [hok he] at hdry
          cases hdry
        · refine Or.inl ⟨hbase, fun he _ hf ↦ ?_⟩
          rcases hsize content hlog with rfl | ⟨e, -, hnf⟩
          · exact idle_of_eq hrel hlog (hnil he)
          · exact absurd hf hnf
        · refine Or.inr ⟨hok, relpath, content, hrel, hlog, ?_⟩
          rcases hsize content hlog with rfl | ⟨e, rfl, -⟩
          · exact htakes
          · rw [passStart_of_le htakes.1]
            exact htakes
    · exact absurd he (hf _ (.openFile abs) e trivial)

end OneFile

end Nocturne
