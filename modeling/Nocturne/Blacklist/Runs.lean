import Nocturne.Blacklist.Commands
import Nocturne.Ingest.Trail
import Nocturne.Lib.Steps
import Nocturne.Rotate.Writes
import Nocturne.Scan.Walk

/-!
# Runs of the daemon and the blacklist

Scans, ingested events, `catalog_import` and rotations in any order. Along a run in which each
operation spares the blacklist, the invariant holds in every state, and an event that does not
spare it breaks it at once.
-/

namespace Nocturne

open Lib Lib.Steps

/-! ### Rotations and imports -/

section Commands

variable {black : Table Sha BlacklistRow} {ω : Type}

theorem cleanUnder_blind : RotateBlind (Db.CleanUnder black) where
  residency _ sha row h := h.putResidency sha row
  path _ _ _ _ _ h hdb := h.updateTrackPath hdb
  numbers _ key value h := h.putManifestMeta key value

/-- The hash that a track of a catalog is stored under: it has an id, a path and its time. -/
def restoredSha : JsonTree → Option Sha
  | .object t =>
    match jsonStrOrNull t (ascii "id"), jsonStrOrNull t (ascii "path"),
      jsonStrOrNull t (ascii "date_added") with
    | some sha, some _, some _ => some sha
    | _, _, _ => none
  | _ => none

/-- The hashes that `catalog_import` stores. -/
def restoredShas (catalog : JsonTree) : List Sha :=
  ((catalogTracks catalog).getD []).filterMap restoredSha

variable {A : World Nat → Call → Reply Fault → Prop} {jsonDumps : JsonTree → Text}

/-- A row that misses its times is not stored. -/
theorem upholds_trackRepoUpsert {sha : Sha} {row : Option TrackRow}
    (h : row.isSome = true → black.get? sha = none) :
    Upholds A (Db.CleanUnder black) (trackRepoUpsert sha row : Sys Nat Bool) := by
  refine upholds_bind (upholds_query _ _) fun known ↦ ?_
  cases known with
  | none => exact upholds_pure _
  | some known =>
    cases known with
    | true =>
      refine upholds_bind (upholds_exec fun db db' hdb he ↦ ?_) fun _ ↦ upholds_pure _
      obtain ⟨r, rfl, hr⟩ := Option.bind_eq_some_iff.mp he
      exact hdb.updateTrack hr
    | false =>
      refine upholds_bind (upholds_exec fun db db' hdb he ↦ ?_) fun _ ↦ upholds_pure _
      obtain ⟨r, rfl, hr⟩ := Option.bind_eq_some_iff.mp he
      exact hdb.insertTrack (h rfl) hr

theorem upholds_importTrack {root : Option Text} {t : JsonTree}
    (h : ∀ sha, restoredSha t = some sha → black.get? sha = none) :
    Upholds A (Db.CleanUnder black) (importTrack jsonDumps root t) := by
  unfold importTrack
  split
  · next t =>
    split
    · next sha rel hsha hrel =>
      refine upholds_bind (upholds_trackRepoUpsert fun hrow ↦ ?_) fun ok ↦ ?_
      · apply h
        unfold restoredRow at hrow
        rw [Option.isSome_map] at hrow
        obtain ⟨time, htime⟩ := Option.isSome_iff_exists.mp hrow
        simp only [restoredSha, hsha, hrel, htime]
      · exact upholds_ite (upholds_tally _) (upholds_pure _)
    · exact upholds_pure _
  · exact upholds_pure _

/-- A catalog without a blacklisted hash keeps the invariant. -/
theorem upholds_catalogImport {catalog : JsonTree}
    (h : ∀ sha ∈ restoredShas catalog, black.get? sha = none) :
    Upholds A (Db.CleanUnder black) (catalogImport jsonDumps catalog) := by
  unfold catalogImport
  split
  · exact upholds_pure _
  · next tracks htracks =>
    refine upholds_bind (upholds_bind (upholds_query _ _) fun _ ↦ upholds_pure _) fun root ↦ ?_
    refine upholds_bind (upholds_each fun t ht ↦ upholds_importTrack fun sha hsha ↦ ?_) fun _ ↦
      upholds_pure _
    apply h
    unfold restoredShas
    rw [htracks]
    exact List.mem_filterMap.mpr ⟨t, ht, hsha⟩

end Commands

/-! ### Operations -/

/-- What happens to a machine: other programs change its files, or the daemon does something. -/
inductive Operation where
  | edit (fs : Tree)
  | scan (job : ScanJob) (answers : List (Reply Fault))
  | ingest (relpath : Path) (now : Int) (ev : Event)
  | catalogImport (catalog : JsonTree) (answers : List (Reply Fault))
  | rotate (job : RotateJob) (answers : List (Reply Fault))

/-- The tree after an `unlink` whose failure does not matter. -/
def Tree.unlinked (fs : Tree) (path : Option Path) : Tree :=
  match path with
  | none => fs
  | some path => (fs.unlink path).toOption.getD fs

/-- The files after an event: a deletion unlinks the two files of its track. -/
def Event.files (m : Machine) : Event → Tree
  | .delete .track id _ =>
    (m.fs.unlinked ((m.db.tracks.get? id).map TrackRow.path)).unlinked (m.db.transcodePath id)
  | _ => m.fs

/-- The machine after an operation. -/
def Machine.perform (digest : Content → Sha) (jsonDumps : JsonTree → Text) (m : Machine) :
    Operation → Machine
  | .edit fs => ⟨fs, m.db⟩
  | .scan job answers => ((scanRunInternal digest job).run (m.start {}) answers).state.stop
  | .ingest relpath now ev => ⟨ev.files m, m.db.apply relpath now ev⟩
  | .catalogImport catalog answers =>
    ((Nocturne.catalogImport jsonDumps catalog).run (m.start 0) answers).state.stop
  | .rotate job answers => afterRotate job answers m

/-- The operations that keep the blacklist invariant. -/
def Operation.Spares (digest : Content → Sha) (m : Machine) : Operation → Prop
  | .edit _ => True
  | .scan job answers => (scanRunInternal digest job).Obeys BlacklistRead (m.start {}) answers
  | .ingest _ _ ev => ev.Spares m.db
  | .catalogImport catalog _ => ∀ sha ∈ restoredShas catalog, m.db.isBlacklisted sha = false
  | .rotate _ _ => True

variable {digest : Content → Sha} {jsonDumps : JsonTree → Text} {m : Machine} {op : Operation}

/-- One operation. -/
theorem clean_perform (h : m.db.Clean) (hop : op.Spares digest m) :
    (m.perform digest jsonDumps op).db.Clean := by
  have hunder : m.db.CleanUnder m.db.trackBlacklist := ⟨h, rfl⟩
  cases op with
  | edit fs => exact h
  | scan job answers => exact ((scanUpholds_run digest job).after hop hunder).clean
  | ingest relpath now ev => exact (clean_apply_iff h).mpr hop
  | catalogImport catalog answers =>
    have hfree : ∀ sha ∈ restoredShas catalog, m.db.trackBlacklist.get? sha = none := by
      intro sha hsha
      have hb := hop sha hsha
      unfold Db.isBlacklisted at hb
      simpa using hb
    have hup : Upholds (fun _ _ _ ↦ True) _ (Nocturne.catalogImport jsonDumps catalog) :=
      upholds_catalogImport hfree
    exact (hup.after (Proc.obeys_of_forall (fun _ _ _ ↦ trivial) _ _ _) hunder).clean
  | rotate job answers =>
    have hup : Upholds (fun _ _ _ ↦ True) (Db.CleanUnder m.db.trackBlacklist) (rotateRunEx job) :=
      upholds_rotateRunEx cleanUnder_blind job
    exact (hup.after (Proc.obeys_of_forall (fun _ _ _ ↦ trivial) _ _ _) hunder).clean

/-- The invariant holds along a run whose operations spare the blacklist. -/
theorem always_clean {run : List Operation} (h : m.db.Clean)
    (hrun : Meets (Machine.perform digest jsonDumps) (fun m op ↦ op.Spares digest m) m run) :
    Always (Machine.perform digest jsonDumps) (fun m ↦ m.db.Clean) m run := by
  refine always_of_inv (fun _ hm ↦ hm) (fun m op hm hop ↦ ?_) h hrun
  exact clean_perform hm hop

/-! ### Ingest commands -/

/-- The operation that a line of a log is. -/
def LogEntry.operation (jsonLoadb : Text → Option Json) (e : LogEntry) : Option Operation :=
  (lineEvent jsonLoadb e.kind e.now e.line).map (.ingest e.relpath e.now)

/-- The operations of some lines replay them. -/
theorem replay_operations (jsonLoadb : Text → Option Json) (log : List LogEntry) (m : Machine) :
    (after (Machine.perform digest jsonDumps) m (log.filterMap (LogEntry.operation jsonLoadb))).db =
      replay jsonLoadb log m.db := by
  induction log generalizing m with
  | nil => rfl
  | cons e log ih =>
    show _ = replay jsonLoadb log (m.db.applyLine jsonLoadb e.kind e.relpath e.now e.line)
    cases hev : lineEvent jsonLoadb e.kind e.now e.line with
    | none =>
      have hop : e.operation jsonLoadb = none := by rw [LogEntry.operation, hev]; rfl
      rw [List.filterMap_cons_none hop, ih, Db.applyLine, hev]
    | some ev =>
      have hop : e.operation jsonLoadb = some (.ingest e.relpath e.now ev) := by
        rw [LogEntry.operation, hev]
        rfl
      rw [List.filterMap_cons_some hop, after, List.foldl_cons, Db.applyLine, hev]
      exact ih _

/-- An ingest command with harmless answers performs the events of some lines of its logs, and
keeps the invariant when these spare the blacklist. -/
theorem clean_ingest {job : IngestJob} {answers : List (Reply Fault)} (h : m.db.Clean)
    (hrs : (ingestRun job).Obeys IngestSound (m.start {}) answers) :
    ∃ log : List LogEntry, (∀ e ∈ log, job.HasEntry e) ∧
      (Meets (Machine.perform digest jsonDumps) (fun m op ↦ op.Spares digest m) m
        (log.filterMap (LogEntry.operation job.jsonLoadb)) → (afterIngest job answers m).db.Clean) := by
  obtain ⟨log, htrail, -⟩ := run_trail hrs
  refine ⟨log, htrail.source, fun hmeets ↦ ?_⟩
  have hclean := (always_clean h hmeets).last
  rw [replay_operations] at hclean
  rw [htrail.replayed]
  exact Db.clean_withOffsets.mpr hclean

/-! ### Runs -/

/-- Along a run whose operations spare the blacklist, nothing of a blacklisted track is left. -/
theorem blacklist_upheld (digest : Content → Sha) (jsonDumps : JsonTree → Text) (fs : Tree)
    (run : List Operation)
    (h : Meets (Machine.perform digest jsonDumps) (fun m op ↦ op.Spares digest m)
      ⟨fs, .empty⟩ run) :
    Always (Machine.perform digest jsonDumps) (fun m ↦ m.db.Clean) ⟨fs, .empty⟩ run :=
  always_clean Db.clean_empty h

namespace LateLike

/-- Two hashes in hexadecimal digits. -/
def sha : Sha := List.replicate 64 97

def other : Sha := List.replicate 64 98

/-- A track is deleted, and a like of it comes later. -/
def run : List Operation :=
  [.ingest [ascii "actions-phone-1.jsonl"] 1700000001000 (.delete .track sha 1700000000000),
    .ingest [ascii "likes-phone-1.jsonl"] 1700000003000 (.like .track sha true 1700000002000)]

/-- A track is liked, another one is deleted and pinned afterwards, and a scan finds nothing. -/
def refusedPin : List Operation :=
  [.ingest [ascii "likes-phone-1.jsonl"] 1700000001000 (.like .track other true 1700000000000),
    .ingest [ascii "actions-phone-1.jsonl"] 1700000003000 (.delete .track sha 1700000002000),
    .ingest [ascii "pins-phone-1.jsonl"] 1700000005000 (.pin .track sha true 1700000004000),
    .scan (scanJob [ascii "music"] [] []) []]

end LateLike

/-- The like of a blacklisted track is written. -/
theorem blacklisted_like_written : ¬ Always (Machine.perform (fun _ ↦ []) fun _ ↦ [])
    (fun m ↦ m.db.Clean) ⟨Tree.empty, .empty⟩ LateLike.run := by
  intro h
  have hclean := h.2.1
  have hlike := (@clean_like [ascii "likes-phone-1.jsonl"] 1700000003000 _ _ _ _ hclean).mp h.2.2
  exact absurd hlike (by decide +kernel)

/-- The pin of a blacklisted track is refused. -/
theorem blacklist_upheld_refusedPin : Always (Machine.perform (fun _ ↦ []) fun _ ↦ [])
    (fun m ↦ m.db.Clean) ⟨Tree.empty, .empty⟩ LateLike.refusedPin := by
  apply blacklist_upheld
  refine ⟨?_, ?_, trivial, ?_, trivial⟩
  · show Db.isBlacklisted .empty LateLike.other = false
    rfl
  · intro _
    refine ⟨fun row hrow ↦ ?_, ?_, ?_⟩
    · cases hrow
    · decide +kernel
    · rfl
  · apply Proc.obeys_nil
    intro t l
    cases l with
    | sql stmt => cases stmt <;> exact trivial
    | _ => exact trivial

end Nocturne
