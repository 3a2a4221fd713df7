import Nocturne.Ingest.Run
import Nocturne.Lib.Steps

/-!
# The gate of the pin cycle

`nocturne-pin-cycle-runner` starts a cycle when a log of pins or actions has a later ctime than
the published manifest. A cycle runs the handlers of `cycle_cmd.c` one after the other, each
under the lock of the daemon, while files go on landing in the metadata directory.
-/

namespace Nocturne

open Lib

/-! ### Cycles -/

/-- The handlers of a cycle, in their order. -/
inductive Handler where
  | scan
  | ingest
  | resolve
  | rotate
  | publish
  deriving DecidableEq, Repr

/-- `NOCT_EXIT_OK` and `NOCT_EXIT_LOCK_BUSY`, `cli.h:9–11`. -/
def noctExitOk : Nat := 0
def noctExitLockBusy : Nat := 4

/-- `cycle_cmd_main`, `cycle_cmd.c:26–88`: what follows a handler that returned `rc`; `none`
where the cycle ends. -/
def Handler.next (rc : Nat) : Handler → Option Handler
  | scan => if rc ≠ noctExitOk then none else some ingest
  | ingest => if rc = noctExitLockBusy then none else some resolve
  | resolve => if rc ≠ noctExitOk ∧ rc ≠ 1 then none else some rotate
  | rotate => if rc ≠ noctExitOk then none else some publish
  | publish => none

/-- A cycle in progress: the handler that comes next, or runs and holds the lock. -/
structure Cycle where
  handler : Handler
  running : Bool
  deriving DecidableEq, Repr

/-! ### The metadata directory -/

/-- A log: its ctime, its complete lines with the ctime they landed at, and the time at which
ingest last opened it. -/
structure LandedLog where
  ctime : Nat
  lines : List (Nat × Text)
  lastRead : Nat
  deriving DecidableEq, Repr

/-- The lines of a file that lands over another one: those that both begin with are the old ones,
and the others land now. -/
def landedLines (now : Nat) : List (Nat × Text) → List Text → List (Nat × Text)
  | l :: old, text :: content =>
    if l.2 = text then l :: landedLines now old content
    else (text :: content).map fun text ↦ (now, text)
  | _, content => content.map fun text ↦ (now, text)

/-- The logs, the ctime of `manifest.json`, and the cycles, by their process. -/
structure MetaDir where
  clock : Nat
  manifest : Option Nat
  logs : Table Text LandedLog
  cycles : Table Nat Cycle

/-- Nothing there yet. -/
def MetaDir.fresh : MetaDir := ⟨0, none, .empty, .empty⟩

/-- What happens in time. A file lands with its whole content. -/
inductive MetaStep where
  | tick
  | land (name : Text) (content : List Text)
  | start (pid : Nat)
  | runner (pid : Nat)
  | acquire (pid : Nat)
  | read (pid : Nat) (name : Text)
  | putManifest (pid : Nat)
  | finish (pid rc : Nat)
  | die (pid : Nat)
  deriving DecidableEq, Repr

namespace MetaDir

/-- The logs that the gate looks at. -/
def isGated (name : Text) : Bool := FileKind.pins.owns [name] || FileKind.actions.owns [name]

/-- `manifest_ns`, `nocturne-pin-cycle-runner:58–59`. -/
def manifestNs (m : MetaDir) : Nat := m.manifest.getD 0

/-- `needs_cycle`, `nocturne-pin-cycle-runner:61–70`. -/
def needsCycle (m : MetaDir) : Bool :=
  m.logs.rows.any fun r ↦ isGated r.1 && decide (m.manifestNs < r.2.ctime)

/-- A handler runs, and holds the lock. -/
def locked (m : MetaDir) : Bool := m.cycles.rows.any fun r ↦ r.2.running

/-- A new cycle. -/
def begin (m : MetaDir) (pid : Nat) : MetaDir :=
  match m.cycles.get? pid with
  | some _ => m
  | none => { m with cycles := m.cycles.put pid ⟨.scan, false⟩ }

/-- A handler returned. -/
def proceed (m : MetaDir) (pid rc : Nat) (h : Handler) : MetaDir :=
  match h.next rc with
  | some h' => { m with cycles := m.cycles.put pid ⟨h', false⟩ }
  | none => { m with cycles := m.cycles.drop pid }

/-- One step. A step whose process is not there, or not at that point, does nothing. -/
def step (m : MetaDir) : MetaStep → MetaDir
  | .tick => { m with clock := m.clock + 1 }
  | .land name content =>
    -- the rename gives the file a ctime of its own
    let now := m.clock + 1
    let old := (m.logs.get? name).getD ⟨0, [], 0⟩
    { m with
      clock := now
      logs := m.logs.put name ⟨now, landedLines now old.lines content, old.lastRead⟩ }
  | .start pid => m.begin pid
  | .runner pid => if m.needsCycle then m.begin pid else m
  | .acquire pid =>
    match m.cycles.get? pid with
    | some ⟨h, false⟩ =>
      if m.locked then m.proceed pid noctExitLockBusy h
      else { m with cycles := m.cycles.put pid ⟨h, true⟩ }
    | _ => m
  | .read pid name =>
    match m.cycles.get? pid, m.logs.get? name with
    | some ⟨.ingest, true⟩, some log =>
      { m with logs := m.logs.put name { log with lastRead := m.clock } }
    | _, _ => m
  | .putManifest pid =>
    match m.cycles.get? pid with
    | some ⟨.publish, true⟩ => { m with manifest := some m.clock }
    | _ => m
  | .finish pid rc =>
    match m.cycles.get? pid with
    | some ⟨h, true⟩ => m.proceed pid rc h
    | _ => m
  | .die pid => { m with cycles := m.cycles.drop pid }

/-- No cycle is in progress. -/
def Idle (m : MetaDir) : Prop := ∀ pid, m.cycles.get? pid = none

end MetaDir

/-- A complete line landed after ingest last read the log. -/
def LandedLog.HasNews (log : LandedLog) : Prop := ∃ l ∈ log.lines, log.lastRead < l.1

namespace MetaDir

/-- Some log that the gate looks at has news. -/
def HasNews (m : MetaDir) : Prop :=
  ∃ name log, m.logs.get? name = some log ∧ isGated name = true ∧ log.HasNews

/-- Between cycles the gate opens for every log with news. -/
def GateOpens (m : MetaDir) : Prop := m.Idle → m.HasNews → m.needsCycle = true

/-- A manifest is put in place only where ingest has read all that landed. -/
def PublishesRead (m : MetaDir) : MetaStep → Prop
  | .putManifest pid => m.cycles.get? pid = some ⟨.publish, true⟩ → ¬ m.HasNews
  | _ => True

/-- Times lie in the past, lines have landed with their log, and news is newer than the
manifest. -/
structure Timed (m : MetaDir) : Prop where
  manifest : m.manifestNs ≤ m.clock
  ctime : ∀ name log, m.logs.get? name = some log → log.ctime ≤ m.clock
  lines : ∀ name log, m.logs.get? name = some log → ∀ l ∈ log.lines, l.1 ≤ log.ctime
  news : ∀ name log, m.logs.get? name = some log → isGated name = true → log.HasNews →
    m.manifestNs < log.ctime

theorem timed_fresh : fresh.Timed :=
  ⟨Nat.le_refl _, fun _ _ h ↦ (by cases h), fun _ _ h ↦ (by cases h), fun _ _ h ↦ (by cases h)⟩

/-- The invariant does not look at the cycles. -/
theorem Timed.cycles {m : MetaDir} (h : m.Timed) (cycles : Table Nat Cycle) :
    Timed { m with cycles := cycles } := ⟨h.manifest, h.ctime, h.lines, h.news⟩

theorem Timed.begin {m : MetaDir} (h : m.Timed) (pid : Nat) : (m.begin pid).Timed := by
  unfold MetaDir.begin
  split
  · exact h
  · exact h.cycles _

theorem Timed.proceed {m : MetaDir} (h : m.Timed) (pid rc : Nat) (handler : Handler) :
    (m.proceed pid rc handler).Timed := by
  unfold MetaDir.proceed
  split
  · exact h.cycles _
  · exact h.cycles _

theorem mem_landedLines {now : Nat} {old : List (Nat × Text)} {content : List Text}
    {l : Nat × Text} (h : l ∈ landedLines now old content) : l ∈ old ∨ l.1 = now := by
  induction old generalizing content with
  | nil =>
    obtain ⟨text, -, rfl⟩ := List.mem_map.mp (by simpa [landedLines] using h)
    exact .inr rfl
  | cons first old ih =>
    cases content with
    | nil => cases h
    | cons text content =>
      rw [landedLines] at h
      split at h
      · rcases List.mem_cons.mp h with rfl | h
        · exact .inl (.head _)
        · exact (ih h).imp_left (.tail _)
      · obtain ⟨_, -, rfl⟩ := List.mem_map.mp h
        exact .inr rfl

/-- A log that lands is newer than the manifest. -/
theorem Timed.land {m : MetaDir} (h : m.Timed) (name : Text) (content : List Text) :
    (m.step (.land name content)).Timed := by
  have hlogs : ∀ name' log, (m.step (.land name content)).logs.get? name' = some log →
      log.ctime = m.clock + 1 ∧ (∀ l ∈ log.lines, l.1 ≤ m.clock + 1) ∨
        m.logs.get? name' = some log := by
    intro name' log hlog
    by_cases hname : name' = name
    · left
      rw [hname] at hlog
      have hput := Table.get?_put_self m.logs name
        ⟨m.clock + 1, landedLines (m.clock + 1) ((m.logs.get? name).getD ⟨0, [], 0⟩).lines content,
          ((m.logs.get? name).getD ⟨0, [], 0⟩).lastRead⟩
      cases Option.some.inj (hput.symm.trans hlog)
      refine ⟨rfl, fun l hl ↦ ?_⟩
      rcases mem_landedLines hl with hl | hl
      · cases hold : m.logs.get? name with
        | none =>
          rw [hold] at hl
          cases hl
        | some old =>
          rw [hold] at hl
          have hline := h.lines name old hold l hl
          have hctime := h.ctime name old hold
          omega
      · exact hl.le
    · right
      exact (Table.get?_put_ne _ _ hname).symm.trans hlog
  have hclock : (m.step (.land name content)).clock = m.clock + 1 := rfl
  have hmanifest : (m.step (.land name content)).manifestNs = m.manifestNs := rfl
  have hold := h.manifest
  constructor
  · omega
  · intro name' log hlog
    rcases hlogs name' log hlog with ⟨hctime, -⟩ | hlog
    · omega
    · have hctime := h.ctime name' log hlog
      omega
  · intro name' log hlog l hl
    rcases hlogs name' log hlog with ⟨hctime, hlines⟩ | hlog
    · rw [hctime]
      exact hlines l hl
    · exact h.lines name' log hlog l hl
  · intro name' log hlog hgated hnews
    rcases hlogs name' log hlog with ⟨hctime, -⟩ | hlog
    · omega
    · exact h.news name' log hlog hgated hnews

/-- A log that is read has no news. -/
theorem Timed.read {m : MetaDir} (h : m.Timed) (pid : Nat) (name : Text) :
    (m.step (.read pid name)).Timed := by
  dsimp only [step]
  split
  · next log _ hlog =>
    have hlogs : ∀ name' log', (m.logs.put name { log with lastRead := m.clock }).get? name' =
        some log' → ∃ old, m.logs.get? name' = some old ∧ log'.ctime = old.ctime ∧
          log'.lines = old.lines ∧ (log'.HasNews → old.HasNews) := by
      intro name' log' hlog'
      rw [Table.get?_put] at hlog'
      by_cases hname : name' = name
      · rw [if_pos hname] at hlog'
        cases hlog'
        refine ⟨log, by rw [hname]; exact hlog, rfl, rfl, ?_⟩
        rintro ⟨l, hl, hlt⟩
        have hline := h.lines name log hlog l hl
        have hctime := h.ctime name log hlog
        dsimp only at hlt
        omega
      · rw [if_neg hname] at hlog'
        exact ⟨log', hlog', rfl, rfl, id⟩
    constructor
    · exact h.manifest
    · intro name' log' hlog'
      obtain ⟨old, hold, hctime, -⟩ := hlogs name' log' hlog'
      rw [hctime]
      exact h.ctime name' old hold
    · intro name' log' hlog' l hl
      obtain ⟨old, hold, hctime, hlines, -⟩ := hlogs name' log' hlog'
      rw [hlines] at hl
      rw [hctime]
      exact h.lines name' old hold l hl
    · intro name' log' hlog' hgated hnews
      obtain ⟨old, hold, hctime, -, hold'⟩ := hlogs name' log' hlog'
      rw [hctime]
      exact h.news name' old hold hgated (hold' hnews)
  · exact h

/-- A manifest put in place where there is no news does not hide any. -/
theorem Timed.putManifest {m : MetaDir} (h : m.Timed) (pid : Nat)
    (hc : m.PublishesRead (.putManifest pid)) : (m.step (.putManifest pid)).Timed := by
  dsimp only [step]
  split
  · next hpid =>
    constructor
    · exact Nat.le_refl _
    · exact h.ctime
    · exact h.lines
    · intro name log hlog hgated hnews
      exact absurd ⟨name, log, hlog, hgated, hnews⟩ (hc hpid)
  · exact h

theorem Timed.step {m : MetaDir} (h : m.Timed) (s : MetaStep) (hc : m.PublishesRead s) :
    (m.step s).Timed := by
  cases s with
  | tick =>
    constructor
    · exact Nat.le_succ_of_le h.manifest
    · exact fun name log hlog ↦ Nat.le_succ_of_le (h.ctime name log hlog)
    · exact h.lines
    · exact h.news
  | land name content => exact h.land name content
  | start pid => exact h.begin pid
  | runner pid =>
    dsimp only [MetaDir.step]
    split
    · exact h.begin pid
    · exact h
  | acquire pid =>
    dsimp only [MetaDir.step]
    split
    · split
      · exact h.proceed pid _ _
      · exact h.cycles _
    · exact h
  | read pid name => exact h.read pid name
  | putManifest pid => exact h.putManifest pid hc
  | finish pid rc =>
    dsimp only [MetaDir.step]
    split
    · exact h.proceed pid rc _
    · exact h
  | die pid => exact h.cycles _

/-- News opens the gate, whether or not a cycle is in progress. -/
theorem Timed.gateOpens {m : MetaDir} (h : m.Timed) : m.GateOpens := by
  rintro - ⟨name, log, hlog, hgated, hnews⟩
  unfold needsCycle
  rw [List.any_eq_true]
  refine ⟨(name, log), Table.mem_rows.mpr hlog, ?_⟩
  rw [Bool.and_eq_true, decide_eq_true_iff]
  exact ⟨hgated, h.news name log hlog hgated hnews⟩

/-- Right after a manifest is put in place the gate is shut, whatever news there is. -/
theorem Timed.gate_shut {m : MetaDir} (h : m.Timed) {pid : Nat}
    (hpid : m.cycles.get? pid = some ⟨.publish, true⟩) :
    (m.step (.putManifest pid)).needsCycle = false := by
  have hstep : m.step (.putManifest pid) = { m with manifest := some m.clock } := by
    simp only [MetaDir.step, hpid]
  rw [hstep, needsCycle, List.any_eq_false]
  intro r hr
  have hctime := h.ctime r.1 r.2 (Table.mem_rows.mp hr)
  rw [Bool.and_eq_true, decide_eq_true_iff]
  rintro ⟨-, hlt⟩
  have hlt : m.clock < r.2.ctime := hlt
  omega

/-- News, as a check of the rows. -/
theorem hasNews_iff {m : MetaDir} : m.HasNews ↔
    ∃ r ∈ m.logs.rows, isGated r.1 = true ∧ ∃ l ∈ r.2.lines, r.2.lastRead < l.1 := by
  constructor
  · rintro ⟨name, log, hlog, hgated, hnews⟩
    exact ⟨(name, log), Table.mem_rows.mpr hlog, hgated, hnews⟩
  · rintro ⟨⟨name, log⟩, hr, hgated, hnews⟩
    exact ⟨name, log, Table.mem_rows.mp hr, hgated, hnews⟩

theorem idle_of_rows {m : MetaDir} (h : m.cycles.rows = []) : m.Idle := by
  intro pid
  cases hpid : m.cycles.get? pid with
  | none => rfl
  | some c =>
    have hmem := Table.mem_rows.mpr hpid
    rw [h] at hmem
    cases hmem

end MetaDir

/-- Where no manifest is put in place over news, the gate opens for all news. -/
theorem gate_misses_nothing {run : List MetaStep}
    (h : Steps.Meets MetaDir.step MetaDir.PublishesRead .fresh run) :
    Steps.Always MetaDir.step MetaDir.GateOpens .fresh run :=
  Steps.always_of_inv (fun _ ht ↦ ht.gateOpens) (fun _ s ht hc ↦ ht.step s hc)
    MetaDir.timed_fresh h

namespace LateLanding

def pins : Text := ascii "pins-phone-A.jsonl"

/-- A handler runs, with some steps in between, and succeeds. -/
def ran (steps : List MetaStep) : List MetaStep := [.acquire 1] ++ steps ++ [.finish 1 0]

/-- A cycle for a line that landed; `between` happens after its ingest read the log. -/
def cycle (between : List MetaStep) : List MetaStep :=
  [.land pins [[49]], .runner 1] ++ ran [] ++ ran ([.read 1 pins] ++ between) ++ ran [] ++
    ran [] ++ ran [.putManifest 1]

end LateLanding

/-- A line that lands between the ingest and the publish of a cycle is missed. -/
theorem landing_missed : ¬ Steps.Always MetaDir.step MetaDir.GateOpens .fresh
    (LateLanding.cycle [.land LateLanding.pins [[49], [50]]]) := by
  intro h
  have hopens := h.last (MetaDir.idle_of_rows (by decide +kernel))
    (MetaDir.hasNews_iff.mpr (by decide +kernel))
  revert hopens
  decide +kernel

/-- A cycle in which nothing lands misses nothing. -/
theorem quiet_cycle_gated :
    Steps.Always MetaDir.step MetaDir.GateOpens .fresh (LateLanding.cycle []) := by
  apply gate_misses_nothing
  have hread : ∀ m : MetaDir, (¬ ∃ r ∈ m.logs.rows, MetaDir.isGated r.1 = true ∧
      ∃ l ∈ r.2.lines, r.2.lastRead < l.1) → m.PublishesRead (.putManifest 1) :=
    fun _ h _ hnews ↦ h (MetaDir.hasNews_iff.mp hnews)
  refine ⟨trivial, trivial, trivial, trivial, trivial, trivial, trivial, trivial, trivial, trivial,
    trivial, trivial, hread _ (by decide +kernel), trivial, trivial⟩

end Nocturne
