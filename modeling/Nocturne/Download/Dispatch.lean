import Nocturne.Download.Status

/-!
# The download dispatcher

`download_run` loads the ids that are through, goes over the request files, and for each new id
appends `running`, executes flacget and appends how it went. A run may be killed anywhere, and an
append may write only a part of its line. `executed_once` says when an id whose terminal state was
recorded is never executed again.
-/

namespace Nocturne

open Lib Lib.Records Lib.Steps

/-! ### Requests -/

/-- A request line that passed the checks. -/
structure DownloadRequest where
  id : Text
  query : Text
  deriving DecidableEq

/-- Where a run stands: between two lines, or at a step of `handle_request_line`. -/
inductive DispatchStage where
  | idle
  | running (r : DownloadRequest)
  | fork (r : DownloadRequest)
  | wait (id : Text)
  | finish (id : Text) (state : DesktopState) (msg : Text)
  deriving DecidableEq

/-- A run: `done_ids`, the lines of the request file that are still to be handled, and the stage. -/
structure DispatchRun where
  done : List Text
  lines : List Text
  stage : DispatchStage

/-- The status log and the run that is going on. The last two fields only record what happened: the
ids with a terminal append that returned 0, and those executed once more. -/
structure Dispatch where
  log : Text
  run : Option DispatchRun
  settled : List Text
  again : List Text

/-- The steps of the runs. -/
inductive DispatchStep where
  /-- `load_terminal_ids`: whether `stat` and `open` go well, and what the reads return. A log that
  is not there is an empty one. -/
  | start (stats opens : Bool) (replies : List ReadReply)
  /-- `scan_request_file` opens the next file. -/
  | openFile (content : Text) (replies : List ReadReply)
  | request
  | append (o : AppendReply) (now : Int64)
  | spawn (forks : Bool)
  /-- flacget ends with a status and a result file. -/
  | exit (rc : Int) (result : Option Text)
  /-- The run ends or is killed. -/
  | stop

/-- `FLACGET_RC_NOT_FILED`. -/
def flacgetRcNotFiled : Int := 3

/-- The size of `result_msg` and `buf`. -/
def msgCap : Nat := 1024

/-- The `while` of `utf8_copy`. -/
def utf8Cut (src : Text) : Nat → Nat
  | 0 => 0
  | n + 1 => if src.getD (n + 1) 0 &&& 0xC0 = 0x80 then utf8Cut src n else n + 1

/-- `utf8_copy`, `download.c:211–220`. -/
def utf8Copy (cap : Nat) (src : Text) : Text :=
  if cap ≤ src.length then src.take (utf8Cut src (cap - 1)) else src

/-- The message of a failed request, `download.c:334–346`. -/
def errorMsg (rc : Int) (resultMsg : Text) : Text :=
  if resultMsg ≠ [] then utf8Copy msgCap resultMsg
  else if rc = flacgetRcNotFiled then
    ascii "not filed by beets " ++ [0xE2, 0x80, 0x94] ++ ascii " parked in staging/skipped"
  else ascii "flacget rc=" ++ decimal rc

/-- What follows flacget: the state and the message that are appended, `download.c:329–347`. -/
def finishStage (id : Text) (rc : Int) (resultMsg : Text) : DispatchStage :=
  if rc = 0 then .finish id .done resultMsg else .finish id .error (errorMsg rc resultMsg)

section Run

variable (dumps : JsonDumps) (load : Text → Option Json)

/-- The checks of `handle_request_line`, `download.c:294–313`. -/
def requestOf (line : Text) : Option DownloadRequest :=
  match load line with
  | some (.object root) => do
    let v ← integerAt root (ascii "v")
    let id ← stringAt root (ascii "id")
    let query ← stringAt root (ascii "query")
    guard (v = 1 ∧ id ≠ [] ∧ query ≠ [])
    return ⟨id, query⟩
  | _ => none

/-- `read_result_msg`, `download.c:222–231`. -/
def readResultMsg (result : Option Text) : Text :=
  match result.bind load with
  | some (.object root) =>
    match stringAt root (ascii "msg") with
    | some m => utf8Copy msgCap m
    | none => []
  | _ => []

/-- A line of a request file, `download.c:294–321`. -/
def requestStage (done : List Text) (line : Text) : DispatchStage :=
  if line.isEmpty then .idle
  else
    match requestOf load line with
    | some r => if r.id ∈ done then .idle else .running r
    | none => .idle

/-- The entry that an append writes at a stage. -/
def DispatchStage.entry (now : Int64) : DispatchStage → Option StatusEntry
  | .running r => some ⟨r.id, .running, now, []⟩
  | .finish id state msg => some ⟨id, state, now, msg⟩
  | _ => none

/-- The run after an append that returned. `idset_add` does not depend on what was returned. -/
def DispatchRun.appended (p : DispatchRun) : DispatchRun :=
  match p.stage with
  | .running r => { p with stage := .fork r }
  | .finish id _ _ => { p with done := p.done.insert id, stage := .idle }
  | _ => p

/-- The ids that an append settles. -/
def DispatchStage.settles : DispatchStage → List Text
  | .finish id _ _ => [id]
  | _ => []

/-- One step of a run. A step that does not fit the stage does nothing. -/
def Dispatch.stepRun (s : Dispatch) (p : DispatchRun) : DispatchStep → Dispatch
  | .start _ _ _ => s
  | .openFile content replies =>
    match p.stage, p.lines with
    | .idle, [] =>
      { s with run := some { p with lines := recordsOf (readAll (jsonlOpen content replies 0)).1 } }
    | _, _ => s
  | .request =>
    match p.stage, p.lines with
    | .idle, line :: lines =>
      { s with run := some { p with lines := lines, stage := requestStage load p.done line } }
    | _, _ => s
  | .append o now =>
    match p.stage.entry now with
    | some e =>
      let out := statusAppend dumps o e s.log
      { s with
        log := out.1
        run := out.2.map fun _ ↦ p.appended
        settled := if out.2 = some true then p.stage.settles ++ s.settled else s.settled }
    | none => s
  | .spawn forks =>
    match p.stage with
    | .fork r =>
      if forks then
        { s with
          run := some { p with stage := .wait r.id }
          again := if r.id ∈ s.settled then r.id :: s.again else s.again }
      else { s with run := some { p with stage := finishStage r.id (-1) [] } }
    | _ => s
  | .exit rc result =>
    match p.stage with
    | .wait id =>
      { s with run := some { p with stage := finishStage id rc (readResultMsg load result) } }
    | _ => s
  | .stop => { s with run := none }

/-- One step. -/
def Dispatch.step (s : Dispatch) (a : DispatchStep) : Dispatch :=
  match s.run with
  | some p => s.stepRun dumps load p a
  | none =>
    match a with
    | .start stats opens replies =>
      -- whatever the error of `stat`, it is taken for a log that does not exist
      if !stats then { s with run := some ⟨[], [], .idle⟩ }
      else if !opens then s
      else { s with run := some ⟨loadTerminalIds load s.log replies, [], .idle⟩ }
    | _ => s

end Run

/-- No request is executed after its terminal state was recorded. -/
def Dispatch.Once (s : Dispatch) : Prop := s.again = []

/-- At the start the log is missing or can be read, and a terminal append that returns 0 finds the log between two
lines and writes a line within the limit of the reader. -/
def Recorded (dumps : JsonDumps) (s : Dispatch) : DispatchStep → Bool
  | .start stats _ replies => stats && replies.all fun | .err _ => false | _ => true
  | .append o now =>
    match s.run with
    | some p =>
      match p.stage with
      | .finish id state msg =>
        let line := (statusFormat dumps).encode ⟨id, state, now, msg⟩
        !o.succeeds line ||
          (split newline s.log).2.isEmpty && decide (line.length ≤ jsonlMaxLine)
      | _ => true
    | none => true
  | _ => true

/-! ### What the runs keep -/

/-- What is known at a stage: ids and messages are C strings, a request that is not through is to be
executed, and what is appended at last is terminal. -/
def DispatchStage.Sound (done : List Text) : DispatchStage → Prop
  | .idle => True
  | .running r => IsText r.id ∧ r.id ∉ done
  | .fork r => IsText r.id ∧ r.id ∉ done
  | .wait id => IsText id
  | .finish id state msg => IsText id ∧ 0 ∉ msg ∧ state ≠ .running

/-- Settled ids have a line in the log that the next run finds, and this run knows them. -/
structure Dispatch.Sound (load : Text → Option Json) (s : Dispatch) : Prop where
  lines : ∀ id ∈ s.settled, ∃ line ∈ linesIn s.log, line.length ≤ jsonlMaxLine ∧
    terminalId load line = some id
  known : ∀ p ∈ s.run, ∀ id ∈ s.settled, id ∈ p.done
  stage : ∀ p ∈ s.run, p.stage.Sound p.done
  once : s.Once

variable {dumps : JsonDumps} {load : Text → Option Json} {s : Dispatch} {p : DispatchRun} {done : List Text}
  {line log : Text}

theorem isText_stringAt (hload : JsonLoad dumps load) {root : List (Text × JsonValue)} {key v : Text}
    (hline : load line = some (.object root)) (hv : stringAt root key = some v) : IsText v := by
  unfold stringAt at hv
  split at hv
  · next hlookup =>
    cases hv
    obtain ⟨front, back, rfl, -⟩ := List.lookup_eq_some_iff.mp hlookup
    exact hload.texts line _ hline key v (List.mem_append_right _ List.mem_cons_self)
  · cases hv

theorem isText_requestOf (hload : JsonLoad dumps load) {r : DownloadRequest}
    (h : requestOf load line = some r) : IsText r.id := by
  unfold requestOf at h
  split at h
  · next root hroot =>
    simp only [Option.bind_eq_bind, Option.bind_eq_some_iff] at h
    obtain ⟨v, -, id, hid, query, -, -, -, hr⟩ := h
    cases hr
    exact isText_stringAt hload hroot hid
  · cases h

/-- A copy has no bytes of its own. -/
theorem zero_notMem_utf8Copy {cap : Nat} {src : Text} (h : 0 ∉ src) : 0 ∉ utf8Copy cap src := by
  unfold utf8Copy
  split
  · exact fun hmem ↦ h (List.mem_of_mem_take hmem)
  · exact h

theorem zero_notMem_readResultMsg (hload : JsonLoad dumps load) (result : Option Text) :
    0 ∉ readResultMsg load result := by
  unfold readResultMsg
  split
  · next root hroot =>
    obtain ⟨text, -, htext⟩ := Option.bind_eq_some_iff.mp hroot
    split
    · next m hm => exact zero_notMem_utf8Copy (isText_stringAt hload htext hm).2
    · exact List.not_mem_nil
  · exact List.not_mem_nil

theorem zero_notMem_errorMsg {rc : Int} {msg : Text} (h : 0 ∉ msg) : 0 ∉ errorMsg rc msg := by
  unfold errorMsg
  split
  · exact zero_notMem_utf8Copy h
  · split
    · decide +kernel
    · intro hmem
      rcases List.mem_append.mp hmem with htext | hnumber
      · revert htext
        decide +kernel
      · exact notMem_decimal (by decide) (by decide) rc hnumber

theorem sound_finishStage {id msg : Text} {rc : Int} (hid : IsText id) (hmsg : 0 ∉ msg) :
    (finishStage id rc msg).Sound done := by
  unfold finishStage
  split
  · exact ⟨hid, hmsg, by decide⟩
  · exact ⟨hid, zero_notMem_errorMsg hmsg, by decide⟩

theorem sound_requestStage (hload : JsonLoad dumps load) : (requestStage load done line).Sound done := by
  unfold requestStage
  split
  · trivial
  · split
    · next r hr =>
      split
      · trivial
      · next hnew => exact ⟨isText_requestOf hload hr, hnew⟩
    · trivial

/-- A change of the run keeps the rest. -/
theorem Dispatch.Sound.withRun (h : s.Sound load) (hrun : s.run = some p) {p' : DispatchRun}
    (hdone : p'.done = p.done) (hstage : p'.stage.Sound p'.done) :
    ({ s with run := some p' } : Dispatch).Sound load where
  lines := h.lines
  known q hq id hid := by
    cases hq
    rw [hdone]
    exact h.known p hrun id hid
  stage q hq := by
    cases hq
    exact hstage
  once := h.once

/-- An append keeps what is known when a terminal entry that settles its id is recorded. -/
theorem sound_append (hload : JsonLoad dumps load) (h : s.Sound load) (hrun : s.run = some p)
    {o : AppendReply} {now : Int64} (hrec : Recorded dumps s (.append o now) = true) :
    (s.stepRun dumps load p (.append o now)).Sound load := by
  have hstage := h.stage p hrun
  have hgrows : ∀ (e : StatusEntry), ∀ id ∈ s.settled,
      ∃ line ∈ linesIn (statusAppend dumps o e s.log).1, line.length ≤ jsonlMaxLine ∧
        terminalId load line = some id := by
    intro e id hid
    obtain ⟨line, hline, hfound⟩ := h.lines id hid
    exact ⟨line, (linesIn_grows s.log _).subset hline, hfound⟩
  unfold Dispatch.stepRun
  cases hs : p.stage with
  | idle => exact h
  | fork r => exact h
  | wait id => exact h
  | running r =>
    rw [hs] at hstage
    refine ⟨?_, ?_, ?_, h.once⟩
    · simpa only [DispatchStage.entry, DispatchStage.settles, List.nil_append, ite_self] using
        hgrows ⟨r.id, .running, now, []⟩
    · intro q hq id hid
      simp only [DispatchStage.entry, DispatchStage.settles, List.nil_append, ite_self] at hq hid
      obtain ⟨ok, -, rfl⟩ := Option.map_eq_some_iff.mp hq
      simp only [DispatchRun.appended, hs]
      exact h.known p hrun id hid
    · intro q hq
      simp only [DispatchStage.entry] at hq
      obtain ⟨ok, -, rfl⟩ := Option.map_eq_some_iff.mp hq
      simp only [DispatchRun.appended, hs]
      exact hstage
  | finish id state msg =>
    rw [hs] at hstage
    obtain ⟨hid, hmsg, hstate⟩ := hstage
    refine ⟨?_, ?_, ?_, h.once⟩
    · simp only [DispatchStage.entry, DispatchStage.settles]
      split
      · next hok =>
        have hsucceeds : o.succeeds ((statusFormat dumps).encode ⟨id, state, now, msg⟩) = true := by
          unfold statusAppend at hok
          dsimp only at hok
          split at hok
          · cases hok
          · exact Option.some.inj hok
        unfold Recorded at hrec
        simp only [hrun, hs, hsucceeds, Bool.not_true, Bool.false_or, Bool.and_eq_true,
          List.isEmpty_iff, decide_eq_true_eq] at hrec
        intro id' hid'
        rcases List.mem_cons.mp hid' with rfl | hid'
        · refine ⟨(statusFormat dumps).encode ⟨id', state, now, msg⟩, ?_, hrec.2,
            terminalId_encode hload hid hmsg hstate⟩
          rw [linesIn_statusAppend hok hrec.1]
          exact List.mem_append_right _ (List.mem_singleton.mpr rfl)
        · exact hgrows _ id' hid'
      · exact hgrows _
    · intro q hq id' hid'
      simp only [DispatchStage.entry, DispatchStage.settles] at hq hid'
      obtain ⟨ok, -, rfl⟩ := Option.map_eq_some_iff.mp hq
      simp only [DispatchRun.appended, hs, List.mem_insert_iff]
      by_cases heq : id' = id
      · exact Or.inl heq
      · right
        refine h.known p hrun id' ?_
        split at hid'
        · rcases List.mem_cons.mp hid' with he | hmem
          · exact absurd he heq
          · exact hmem
        · exact hid'
    · intro q hq
      simp only [DispatchStage.entry] at hq
      obtain ⟨ok, -, rfl⟩ := Option.map_eq_some_iff.mp hq
      simp only [DispatchRun.appended, hs]
      trivial

/-- A start finds every settled id in the log. -/
theorem sound_start (h : s.Sound load) {stats opens : Bool} {replies : List ReadReply}
    (hnone : s.run = none) (hrec : Recorded dumps s (.start stats opens replies) = true) :
    (s.step dumps load (.start stats opens replies)).Sound load := by
  simp only [Recorded, Bool.and_eq_true, List.all_eq_true] at hrec
  unfold Dispatch.step
  rw [hnone]
  simp only [hrec.1, Bool.not_true, Bool.false_eq_true, if_false]
  split
  · exact h
  · refine ⟨h.lines, ?_, ?_, h.once⟩
    · intro q hq id hid
      cases hq
      obtain ⟨line, hline, hfits, hterminal⟩ := h.lines id hid
      have hcalm : ∀ e, .err e ∉ replies := fun e he ↦ absurd (hrec.2 _ he) (by simp)
      exact mem_loadTerminalIds hcalm hline hfits hterminal
    · intro q hq
      cases hq
      trivial

theorem Dispatch.Sound.step (hload : JsonLoad dumps load) (h : s.Sound load) {a : DispatchStep}
    (hrec : Recorded dumps s a = true) : (s.step dumps load a).Sound load := by
  cases hrun : s.run with
  | none =>
    cases a with
    | start stats opens replies => exact sound_start h hrun hrec
    | _ =>
      unfold Dispatch.step
      rw [hrun]
      exact h
  | some p =>
    have hstage := h.stage p hrun
    have hstep : s.step dumps load a = s.stepRun dumps load p a := by
      unfold Dispatch.step
      rw [hrun]
    rw [hstep]
    cases a with
    | start stats opens replies => exact h
    | append o now => exact sound_append hload h hrun hrec
    | stop =>
      exact ⟨h.lines, fun q hq ↦ (by cases hq), fun q hq ↦ (by cases hq), h.once⟩
    | openFile content replies =>
      simp only [Dispatch.stepRun]
      split
      · next hidle hlines =>
        refine h.withRun hrun rfl ?_
        rw [hidle]
        trivial
      · exact h
    | request =>
      simp only [Dispatch.stepRun]
      split
      · exact h.withRun hrun rfl (sound_requestStage hload)
      · exact h
    | spawn forks =>
      simp only [Dispatch.stepRun]
      split
      · next r hs =>
        rw [hs] at hstage
        split
        · have hnew : r.id ∉ s.settled := fun hmem ↦ hstage.2 (h.known p hrun r.id hmem)
          rw [if_neg hnew]
          exact h.withRun hrun rfl hstage.1
        · have hfinish : (finishStage r.id (-1) []).Sound p.done :=
            sound_finishStage hstage.1 List.not_mem_nil
          exact h.withRun hrun rfl hfinish
      · exact h
    | exit rc result =>
      simp only [Dispatch.stepRun]
      split
      · next id hs =>
        rw [hs] at hstage
        exact h.withRun hrun rfl
          (sound_finishStage hstage (zero_notMem_readResultMsg hload result))
      · exact h

/-- Before the first run, with whatever log there is. -/
def Dispatch.init (log : Text) : Dispatch := ⟨log, none, [], []⟩

/-- In runs whose terminal appends that return 0 are recorded, no request is executed after its
terminal state was appended. -/
theorem executed_once (hload : JsonLoad dumps load) (log : Text) (steps : List DispatchStep)
    (h : Meets (Dispatch.step dumps load) (fun s a ↦ Recorded dumps s a = true) (.init log) steps) :
    Always (Dispatch.step dumps load) Dispatch.Once (.init log) steps := by
  refine always_of_inv (I := Dispatch.Sound load) (fun s hs ↦ hs.once)
    (fun s a hs ha ↦ hs.step hload ha) ?_ h
  exact ⟨fun id hid ↦ (by cases hid), fun q hq ↦ (by cases hq), fun q hq ↦ (by cases hq), rfl⟩

namespace TornStatus

/-- The request file. -/
def requests : Text :=
  ascii "\x7b\"v\":1,\"id\":\"r\",\"query\":\"song\"\x7d" ++ [newline]

/-- An append that goes well. -/
def whole : AppendReply := ⟨true, 4096, true, false⟩

/-- An append whose disk is full after nine bytes. -/
def torn : AppendReply := ⟨true, 9, false, false⟩

/-- A run over the file, up to the end of flacget. -/
def upToExit (first : AppendReply) : List DispatchStep :=
  [.start true true [], .openFile requests [], .request, .append first 1, .spawn true,
    .exit 0 none]

/-- The run, and a second one. -/
def twoRuns (first : AppendReply) : List DispatchStep :=
  upToExit first ++ [.append whole 2, .stop, .start true true [], .openFile requests [], .request,
    .append whole 3, .spawn true]

end TornStatus

/-- After whole appends the second run finds the request in the log. -/
theorem second_run_skips : Always (Dispatch.step compactDumps readObject) Dispatch.Once (.init [])
    (TornStatus.twoRuns TornStatus.whole) :=
  executed_once jsonLoad_readObject [] (TornStatus.twoRuns TornStatus.whole)
    (by decide +kernel)

/-- A torn `running` line takes the terminal line with it, and the second run executes flacget
again. -/
theorem executed_twice : ¬ Always (Dispatch.step compactDumps readObject) Dispatch.Once (.init [])
    (TornStatus.twoRuns TornStatus.torn) := by
  intro h
  have hlast : (after (Dispatch.step compactDumps readObject) (.init [])
      (TornStatus.twoRuns TornStatus.torn)).again = [] := h.last
  have hagain : (after (Dispatch.step compactDumps readObject) (.init [])
      (TornStatus.twoRuns TornStatus.torn)).again = [ascii "r"] := by decide +kernel
  rw [hagain] at hlast
  cases hlast

end Nocturne
