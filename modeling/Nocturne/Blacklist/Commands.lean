import Nocturne.Blacklist.Clean
import Nocturne.Catalog.Restore
import Nocturne.Rotate.Run
import Nocturne.Upkeep

/-!
# The commands and the blacklist

A scan looks each hash up before it stores a row, a rotation puts no row of `tracks` at all, and
`catalog_import` puts whatever hash the catalog names. None of them changes the blacklist.
-/

namespace Nocturne

open Lib

/-- The blacklist invariant under a given blacklist. -/
structure Db.CleanUnder (black : Table Sha BlacklistRow) (db : Db) : Prop where
  clean : db.Clean
  black : db.trackBlacklist = black

namespace Db.CleanUnder

variable {black : Table Sha BlacklistRow} {db db' : Db} {sha : Sha} {row : TrackRow}

/-- A track is on the blacklist of the table. -/
theorem isBlacklisted (h : db.CleanUnder black) (sha : Sha) :
    db.isBlacklisted sha = (black.get? sha).isSome := by
  rw [← h.black]
  rfl

/-- A new row of `tracks`, under a hash that is not blacklisted. -/
theorem insertTrack (h : db.CleanUnder black) (hsha : black.get? sha = none)
    (hdb : db.insertTrack sha row = some db') : db'.CleanUnder black := by
  have hfree : db.isBlacklisted sha = false := by
    rw [h.isBlacklisted, hsha]
    rfl
  have hget := get?_insertTrack hdb
  obtain ⟨t, -, rfl⟩ := insertTrack_eq_some hdb
  exact ⟨h.clean.putTrack hfree rfl hget rfl rfl rfl, h.black⟩

/-- An update finds a row, so that its hash is not blacklisted. -/
theorem updateTrack (h : db.CleanUnder black) (hdb : db.updateTrack sha row = some db') :
    db'.CleanUnder black := by
  have hget := get?_updateTrack hdb
  unfold Db.updateTrack at hdb
  split at hdb
  · cases hdb
  · obtain ⟨t, -, rfl⟩ := Option.map_eq_some_iff.mp hdb
    refine ⟨h.clean.congr rfl (fun s hs ↦ ?_) rfl rfl rfl, h.black⟩
    obtain ⟨old, hold, hput⟩ := hget s
    rw [hput, if_neg]
    · exact hs
    · intro he
      rw [he, hold] at hs
      cases hs

/-- A change of a row that exists. -/
theorem replace (h : db.CleanUnder black) {t : UniqueTable Sha TrackRow Path TrackRow.path}
    {old : TrackRow} (hold : db.tracks.get? sha = some old)
    (ht : db.tracks.replace? sha row = some t) : ({ db with tracks := t } : Db).CleanUnder black := by
  refine ⟨h.clean.congr rfl (fun s hs ↦ ?_) rfl rfl rfl, h.black⟩
  show t.get? s = none
  rw [UniqueTable.get?_replace? ht (by rw [hold]; simp), if_neg]
  · exact hs
  · intro he
    rw [he, hold] at hs
    cases hs

/-- Another path for a row that is there. -/
theorem updateTrackPath {path : Path} {iso : Text} (h : db.CleanUnder black)
    (hdb : db.updateTrackPath sha path iso = some db') : db'.CleanUnder black := by
  unfold Db.updateTrackPath at hdb
  split at hdb
  · cases hdb
    exact h
  · next old hold =>
    obtain ⟨t, ht, rfl⟩ := Option.map_eq_some_iff.mp hdb
    exact h.replace hold ht

/-- A row that is there is seen again. -/
theorem markSeen {iso : Text} (h : db.CleanUnder black) (hdb : db.markSeen sha iso = some db') :
    db'.CleanUnder black := by
  unfold Db.markSeen at hdb
  split at hdb
  · cases hdb
    exact h
  · next old hold =>
    obtain ⟨t, ht, rfl⟩ := Option.map_eq_some_iff.mp hdb
    exact h.replace hold ht

/-- Rows of tracks are deleted. -/
theorem deleteTracks (h : db.CleanUnder black) (p : Sha → TrackRow → Bool) :
    (db.deleteTracks p).CleanUnder black := ⟨h.clean.deleteTracks p, h.black⟩

theorem putResidency (h : db.CleanUnder black) (sha : Sha) (row : ResidencyRow) :
    (db.putResidency sha row).CleanUnder black :=
  ⟨h.clean.congr rfl (fun _ hs ↦ hs) rfl rfl rfl, h.black⟩

theorem putManifestMeta (h : db.CleanUnder black) (key value : Text) :
    (db.putManifestMeta key value).CleanUnder black :=
  ⟨h.clean.congr rfl (fun _ hs ↦ hs) rfl rfl rfl, h.black⟩

end Db.CleanUnder

/-! ### Scans -/

/-- A lookup in the blacklist does not fail for a hash that is in it. -/
def BlacklistRead {ω : Type} (w : World ω) : Call → Reply Fault → Prop
  | .sql (.blacklisted sha), .fail _ => w.conn.view.isBlacklisted sha = false
  | _, _ => True

section Scan

variable {black : Table Sha BlacklistRow} {digest : Content → Sha} {isoNow : Text} {sha : Sha}
  {row : TrackRow} {rec : TagRecord} {job : ScanJob}

/-- The scan keeps the invariant. -/
abbrev ScanUpholds {α : Type} (black : Table Sha BlacklistRow) (p : Sys ScanCtx α) : Prop :=
  Upholds BlacklistRead (Db.CleanUnder black) p

/-- A row that is deleted. -/
theorem scanUpholds_delete (sha : Sha) : ScanUpholds black (trackRepoDelete sha) := by
  unfold trackRepoDelete
  refine upholds_bind (upholds_query _ _) fun r ↦ ?_
  cases r with
  | none => exact upholds_pure _
  | some xs =>
    refine upholds_bind (upholds_exec fun db db' h hdb ↦ ?_) fun rc ↦ ?_
    · cases hdb
      exact h.deleteTracks _
    · apply upholds_ite
      · apply upholds_bind
        · exact upholds_each fun x _ ↦ upholds_bind (upholds_sysCall _ _) fun _ ↦ upholds_pure _
        · exact fun _ ↦ upholds_pure _
      · exact upholds_pure _

/-- A row is stored under a hash that is not blacklisted. -/
theorem scanUpholds_storeTrack (hsha : black.get? sha = none) (existing : Option Sha) :
    ScanUpholds black (storeTrack sha row existing) := by
  have insert : ScanUpholds black (trackRepoInsert sha row) :=
    upholds_bind (upholds_exec fun _ _ h hdb ↦ h.insertTrack hsha hdb) fun _ ↦ upholds_pure _
  have update : ScanUpholds black (trackRepoUpdate sha row) :=
    upholds_bind (upholds_exec fun _ _ h hdb ↦ h.updateTrack hdb) fun _ ↦ upholds_pure _
  have count : ∀ (f : ScanCtx → ScanCtx) (ok : Bool),
      ScanUpholds black (do tally f; return ok) :=
    fun f ok ↦ upholds_bind (upholds_tally f) fun _ ↦ upholds_pure ok
  unfold storeTrack
  refine upholds_bind (upholds_query _ _) fun known ↦ ?_
  cases known with
  | none => exact upholds_pure _
  | some known =>
    cases known with
    | true => exact upholds_bind update fun ok ↦ count _ ok
    | false =>
      cases existing with
      | none => exact upholds_bind insert fun ok ↦ count _ ok
      | some old =>
        refine upholds_bind (scanUpholds_delete old) fun deleted ↦ ?_
        apply upholds_ite
        · exact upholds_bind insert fun ok ↦ count _ ok
        · exact count _ false

/-- A scan that stops for good writes nothing. -/
theorem scanUpholds_hardStop : ScanUpholds black hardStop :=
  upholds_bind (upholds_tally _) fun _ ↦ upholds_pure _

/-- The lookup in the blacklist guards the row. -/
theorem scanUpholds_hashAndStore (mtimeNs sizeBytes : Int) (existing : Option Sha) :
    ScanUpholds black (hashAndStore digest isoNow rec mtimeNs sizeBytes existing) := by
  have hash : ScanUpholds black (hashAudioPayload digest rec.path) := by
    unfold hashAudioPayload
    refine upholds_bind (upholds_sysRead _ _) fun r ↦ ?_
    split
    · exact upholds_sysRead _ _
    · exact upholds_pure _
  unfold hashAndStore
  refine upholds_bind hash fun r ↦ ?_
  cases r with
  | error e => exact upholds_bind (upholds_tally _) fun _ ↦ upholds_pure _
  | ok hex =>
    have store : black.get? hex = none → ScanUpholds black (do
        tally fun c ↦
          { c with tagParseFailed := c.tagParseFailed + if rec.tagReadFailed then 1 else 0 }
        if ← storeTrack hex (trackRowOf rec mtimeNs sizeBytes isoNow) existing then
          return .continue
        else hardStop) := by
      intro hhex
      refine upholds_bind (upholds_tally _) fun _ ↦ ?_
      refine upholds_bind (scanUpholds_storeTrack hhex existing) fun ok ↦ ?_
      exact upholds_ite (upholds_pure _) scanUpholds_hardStop
    refine upholds_queryBind (fun db h ↦ ?_) fun w e h he ↦ ?_
    · rw [h.black, Option.getD_some]
      cases hhex : black.get? hex with
      | none => exact store hhex
      | some row => exact upholds_pure _
    · apply store
      have hfree : w.conn.view.isBlacklisted hex = false := he
      rw [h.view.isBlacklisted] at hfree
      simpa using hfree

/-- One file of a walk. -/
theorem scanUpholds_onFile : ScanUpholds black (onFile digest isoNow rec) := by
  have mark : ∀ sha, ScanUpholds black (trackRepoMarkSeen sha isoNow) := fun sha ↦
    upholds_bind (upholds_exec fun _ _ h hdb ↦ h.markSeen hdb) fun _ ↦ upholds_pure _
  unfold onFile
  refine upholds_ite (upholds_pure _) (upholds_bind (upholds_tally _) fun _ ↦ ?_)
  refine upholds_bind (upholds_sysRead _ _) fun st ↦ ?_
  cases st with
  | error e => exact upholds_bind (upholds_tally _) fun _ ↦ upholds_pure _
  | ok times =>
    refine upholds_bind (upholds_query _ _) fun known ↦ ?_
    cases known with
    | none => exact scanUpholds_hardStop
    | some known =>
      cases known with
      | none => exact scanUpholds_hashAndStore _ _ _
      | some old =>
        apply upholds_ite
        · refine upholds_bind (mark _) fun ok ↦ upholds_ite ?_ scanUpholds_hardStop
          exact upholds_bind (upholds_tally _) fun _ ↦ upholds_pure _
        · exact scanUpholds_hashAndStore _ _ _

/-- A walk, file by file. -/
theorem scanUpholds_walkFiles (recs : List TagRecord) :
    ScanUpholds black (walkFiles digest isoNow recs) := by
  induction recs with
  | nil => exact upholds_pure _
  | cons rec recs ih =>
    refine upholds_bind scanUpholds_onFile fun r ↦ ?_
    cases r with
    | stop => exact upholds_pure _
    | «continue» => exact ih

/-- The sweep of the rows that were not seen. -/
theorem scanUpholds_sweepUnseen : ScanUpholds black (sweepUnseen job) := by
  unfold sweepUnseen
  split
  · exact upholds_pure _
  · unfold trackRepoDeleteUnseenUnderRoot
    refine upholds_bind (upholds_bind (upholds_query _ _) fun r ↦ ?_) fun r ↦ ?_
    · cases r with
      | none => exact upholds_pure _
      | some xs =>
        refine upholds_bind (upholds_execChanges fun _ h ↦ h.deleteTracks _) fun r ↦ ?_
        cases r with
        | none => exact upholds_pure _
        | some n =>
          apply upholds_bind
          · exact upholds_each fun x _ ↦ upholds_bind (upholds_sysCall _ _) fun _ ↦ upholds_pure _
          · exact fun _ ↦ upholds_pure _
    · cases r with
      | none => exact upholds_pure _
      | some n => exact upholds_bind (upholds_tally _) fun _ ↦ upholds_pure _

/-- A scan keeps the invariant, also where it is cut short. -/
theorem scanUpholds_run (digest : Content → Sha) (job : ScanJob) :
    ScanUpholds black (scanRunInternal digest job) := by
  have rollback : ScanUpholds black (do let _ ← dbRollback; return (-1 : Int)) :=
    upholds_bind (upholds_execTxn fun _ _ h hc ↦ h.rollback hc) fun _ ↦ upholds_pure _
  have putMeta : ScanUpholds black (writeScanMeta job) := by
    unfold writeScanMeta
    refine upholds_ite (upholds_bind (upholds_gets _) fun _ ↦ ?_) (upholds_pure _)
    refine upholds_bind (upholds_exec fun db db' h hdb ↦ ?_) fun _ ↦ upholds_pure _
    cases hdb
    exact ⟨h.clean.congr rfl (fun _ hs ↦ hs) rfl rfl rfl, h.black⟩
  unfold scanRunInternal
  refine upholds_bind (upholds_execTxn fun _ _ h hc ↦ h.begin hc) fun began ↦ ?_
  refine upholds_ite (upholds_bind ?_ fun walked ↦ ?_) (upholds_pure _)
  · unfold walkerWalk
    refine upholds_bind (upholds_sysRead _ _) fun st ↦ upholds_ite ?_ (upholds_pure _)
    exact upholds_bind (scanUpholds_walkFiles _) fun _ ↦ upholds_pure _
  refine upholds_bind (upholds_gets _) fun c ↦ upholds_ite rollback ?_
  refine upholds_bind scanUpholds_sweepUnseen fun swept ↦ upholds_ite ?_ rollback
  refine upholds_bind putMeta fun _ ↦ ?_
  refine upholds_bind (upholds_execTxn fun _ _ h hc ↦ h.commit hc) fun done ↦ ?_
  refine upholds_ite (upholds_bind (upholds_gets _) fun _ ↦ upholds_pure _) (upholds_pure _)

end Scan

end Nocturne
