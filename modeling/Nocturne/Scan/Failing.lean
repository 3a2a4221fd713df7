import Nocturne.Scan.Identity
import Nocturne.Lib.Answers

/-!
# Scans whose files cannot be read

During a scan `lstat` and the hash of a file may fail. A visit that misses its file in this
way leaves no trace in the database, so a scan with such failures is the scan, without
incident, of the files that it did not miss. The sweep does not tell a missed file from one
that is gone.
-/

namespace Nocturne

open Lib

/-- The calls that a scan reads a file with. -/
def Call.ReadsFile : Call → Prop
  | .lstat _ => True
  | .hash _ => True
  | _ => False

/-- Reading a file may fail; everything else goes through. -/
def ReadsMayFail {ω : Type} : World ω → Call → Reply Fault → Prop := fun _ c r ↦
  r = .ok ∨ c.ReadsFile ∧ ∃ e, r = .fail e

instance (c : Call) : Decidable c.ReadsFile :=
  match c with
  | .lstat _ | .hash _ => .isTrue trivial
  | .sql _ | .stat _ | .link _ _ | .unlink _ | .rename _ _ | .mkdir _ | .rmdir _ | .openDir _
  | .openFile _ | .create _ | .write _ | .fsync _ | .transcode _ _ => .isFalse id

instance {ω : Type} (w : World ω) (c : Call) (r : Reply Fault) :
    Decidable (ReadsMayFail w c r) :=
  match r with
  | .ok => .isTrue (Or.inl rfl)
  | .fail e => decidable_of_iff c.ReadsFile ⟨fun h ↦ Or.inr ⟨h, e, rfl⟩,
      fun h ↦ (h.resolve_left (by simp)).1⟩
  | .die => .isFalse (by simp [ReadsMayFail])

/-- The next call fails. -/
def failsNext : List (Reply Fault) → Bool
  | .fail _ :: _ => true
  | _ => false

/-- The digest fails for good: at once, or again after `EAGAIN`. -/
def hashFails : List (Reply Fault) → Bool
  | .fail e :: rs => e.errno != .EAGAIN || failsNext rs
  | _ => false

/-- A row found at the path of a file has not the file's times. -/
def differs (mtimeNs sizeBytes : Int) (found : Sha × Int × Int) : Bool :=
  !decide (found.2.1 = mtimeNs ∧ found.2.2 = sizeBytes)

/-- The visit gets past the incremental skip. -/
def asksForHash (fs : Tree) (db : Db) (rec : TagRecord) : Bool :=
  match lstatTimes fs rec.path with
  | .error _ => false
  | .ok (mtimeNs, sizeBytes) => (db.lookupByPath rec.path).all (differs mtimeNs sizeBytes)

/-- The visit misses its file: the answers to come let `lstat` fail, or the digest that the
visit asks for after one lookup in the table. -/
def misses (fs : Tree) (db : Db) (rec : TagRecord) (rs : List (Reply Fault)) : Bool :=
  !isTranscodeArtifact rec.path &&
    (failsNext rs || asksForHash fs db rec && hashFails (rs.drop 2))

variable {digest : Content → Sha} {isoNow : Text} {rec : TagRecord} {recs : List TagRecord}
  {w u : World ScanCtx} {rs : List (Reply Fault)} {path : Path} {sha hex : Sha}
  {row : TrackRow} {job : ScanJob}

/-! ### What does not read a file goes through -/

section ReadsNothing

variable {ω α β : Type}

/-- No call of the process reads a file. -/
def ReadsNothing (p : Sys ω α) : Prop := p.Uses fun c ↦ ¬ c.ReadsFile

namespace ReadsNothing

theorem pure (a : α) : ReadsNothing (Pure.pure a : Sys ω α) := Proc.uses_pure a

theorem bind {p : Sys ω α} {k : α → Sys ω β} (hp : ReadsNothing p)
    (hk : ∀ a, ReadsNothing (k a)) : ReadsNothing (p >>= k) := Proc.uses_bind hp hk

theorem ite {c : Prop} [Decidable c] {p q : Sys ω α} (hp : ReadsNothing p)
    (hq : ReadsNothing q) : ReadsNothing (if c then p else q) := Proc.uses_ite hp hq

theorem gets (f : World ω → α) : ReadsNothing (Proc.gets f : Sys ω α) := Proc.uses_gets f

theorem tally (f : ω → ω) : ReadsNothing (Nocturne.tally f) := Proc.uses_modify _

theorem query (stmt : Stmt) (f : Db → α) : ReadsNothing (Nocturne.query stmt f : Sys ω _) :=
  Proc.uses_ask _ id

theorem exec (stmt : Stmt) (f : Db → Option Db) :
    ReadsNothing (Nocturne.exec stmt f : Sys ω _) := Proc.uses_ask _ id

theorem execChanges (stmt : Stmt) (f : Db → Db × Nat) :
    ReadsNothing (Nocturne.execChanges stmt f : Sys ω _) := Proc.uses_ask _ id

theorem execTxn (stmt : Stmt) (f : Conn → Option Conn) :
    ReadsNothing (Nocturne.execTxn stmt f : Sys ω _) := Proc.uses_ask _ id

theorem stat (p : Path) (f : Tree → Except Errno α) :
    ReadsNothing (sysRead (.stat p) f : Sys ω _) := Proc.uses_ask _ id

/-- Removing transcodes reads no file. -/
theorem unlinkTranscodes (xs : List Path) :
    ReadsNothing (Nocturne.unlinkTranscodes xs : Sys ω Unit) := by
  apply Proc.uses_each
  intro x
  exact bind (Proc.uses_ask _ id) fun _ ↦ pure ()

/-- Inserting a row reads no file. -/
theorem trackRepoInsert (sha : Sha) (row : TrackRow) :
    ReadsNothing (Nocturne.trackRepoInsert sha row : Sys ω Bool) :=
  bind (exec _ _) fun _ ↦ pure _

/-- Updating a row reads no file. -/
theorem trackRepoUpdate (sha : Sha) (row : TrackRow) :
    ReadsNothing (Nocturne.trackRepoUpdate sha row : Sys ω Bool) :=
  bind (exec _ _) fun _ ↦ pure _

/-- Marking a row as seen reads no file. -/
theorem trackRepoMarkSeen (sha : Sha) (isoNow : Text) :
    ReadsNothing (Nocturne.trackRepoMarkSeen sha isoNow : Sys ω Bool) :=
  bind (exec _ _) fun _ ↦ pure _

/-- Deleting a row reads no file. -/
theorem trackRepoDelete (sha : Sha) :
    ReadsNothing (Nocturne.trackRepoDelete sha : Sys ω Bool) := by
  apply bind (query _ _)
  intro xs
  cases xs with
  | none => exact pure false
  | some xs =>
    apply bind (exec _ _)
    intro rc
    apply ite
    · exact bind (unlinkTranscodes xs) fun _ ↦ pure true
    · exact pure false

/-- The sweep's statement reads no file. -/
theorem trackRepoDeleteUnseenUnderRoot (root : Path) (cutoff : Text) :
    ReadsNothing (Nocturne.trackRepoDeleteUnseenUnderRoot root cutoff : Sys ω (Option Nat)) := by
  apply bind (query _ _)
  intro xs
  cases xs with
  | none => exact pure none
  | some xs =>
    apply bind (execChanges _ _)
    intro deleted
    cases deleted with
    | none => exact pure none
    | some n => exact bind (unlinkTranscodes xs) fun _ ↦ pure (some n)

/-- Storing a track reads no file. -/
theorem storeTrack (hex : Sha) (row : TrackRow) (existing : Option Sha) :
    ReadsNothing (Nocturne.storeTrack hex row existing) := by
  apply bind (query _ _)
  intro found
  cases found with
  | none => exact pure false
  | some found =>
    cases found with
    | true => exact bind (trackRepoUpdate hex row) fun _ ↦ bind (tally _) fun _ ↦ pure _
    | false =>
      cases existing with
      | none => exact bind (trackRepoInsert hex row) fun _ ↦ bind (tally _) fun _ ↦ pure _
      | some old =>
        apply bind (trackRepoDelete old)
        intro ok
        apply ite
        · exact bind (trackRepoInsert hex row) fun _ ↦ bind (tally _) fun _ ↦ pure _
        · exact bind (tally _) fun _ ↦ pure false

theorem hardStop : ReadsNothing Nocturne.hardStop := bind (tally _) fun _ ↦ pure _

/-- The sweep reads no file. -/
theorem sweepUnseen (job : ScanJob) : ReadsNothing (Nocturne.sweepUnseen job) := by
  unfold Nocturne.sweepUnseen
  cases job.deletionPrefix with
  | none => exact pure true
  | some root =>
    apply bind (trackRepoDeleteUnseenUnderRoot root job.isoNow)
    intro deleted
    cases deleted with
    | none => exact pure false
    | some n => exact bind (tally _) fun _ ↦ pure true

/-- Writing the scan's row reads no file. -/
theorem writeScanMeta (job : ScanJob) : ReadsNothing (Nocturne.writeScanMeta job) := by
  apply ite
  · exact bind (gets _) fun _ ↦ bind (exec _ _) fun _ ↦ pure ()
  · exact pure ()

/-- Such a process runs as without incident. -/
theorem run {p : Sys ω α} {w : World ω} {rs : List (Reply Fault)} (hp : ReadsNothing p)
    (hrs : p.Obeys ReadsMayFail w rs) :
    ∃ rest, p.run w rs = .done (p.eval w).1 (p.eval w).2 rest := by
  refine Proc.run_of_uses hp ?_ hrs
  rintro t l r hl (h | h)
  · exact h
  · exact absurd h.1 hl

end ReadsNothing

end ReadsNothing

/-! ### One visit -/

/-- A read fails when the next answer says so, and gives what is there otherwise. -/
private theorem run_sysRead {α : Type} {c : Call} {f : Tree → Except Errno α}
    (hrs : (sysRead c f : Sys ScanCtx _).Obeys ReadsMayFail w rs) :
    (failsNext rs = true → ∃ e, (sysRead c f).run w rs = .done (.error e) w rs.tail ∧
        ∃ fault, Reply.next rs = .fail fault ∧ e = fault.errno) ∧
      (failsNext rs = false → (sysRead c f).run w rs = .done (f w.fs) w rs.tail) := by
  rcases Proc.obeys_ask.mp hrs with h | ⟨-, fault, h⟩
  · have hno : failsNext rs = false := by
      cases rs with
      | nil => rfl
      | cons r rs =>
        change r = .ok at h
        rw [h]
        rfl
    rw [hno]
    exact ⟨fun hf ↦ (by cases hf), fun _ ↦ Proc.run_ask_ok h⟩
  · have hyes : failsNext rs = true := by
      cases rs with
      | nil => cases h
      | cons r rs =>
        change r = .fail fault at h
        rw [h]
        rfl
    rw [hyes]
    exact ⟨fun _ ↦ ⟨fault.errno, Proc.run_ask_fail h, fault, h, rfl⟩, fun hf ↦ (by cases hf)⟩

/-- A fault at the first read: it counts unless the read is tried again. -/
private theorem hashFails_of_next {fault : Fault} (h : Reply.next rs = .fail fault) :
    hashFails rs = (fault.errno != .EAGAIN || failsNext rs.tail) := by
  cases rs with
  | nil => cases h
  | cons r rs =>
    change r = .fail fault at h
    rw [h]
    rfl

/-- Where the next read does not fail, the hash does not. -/
private theorem hashFails_of_ok (h : failsNext rs = false) : hashFails rs = false := by
  cases rs with
  | nil => rfl
  | cons r rs =>
    cases r with
    | ok => rfl
    | fail e => cases h
    | die => rfl

/-- The digest of a file: none when it fails for good, and otherwise the one that is there. -/
private theorem run_hashAudioPayload
    (hrs : (hashAudioPayload digest path).Obeys ReadsMayFail w rs) :
    ∃ r rest, (hashAudioPayload digest path).run w rs = .done r w rest ∧
      r.toOption = if hashFails rs then none else (hashFile digest w.fs path).toOption := by
  unfold hashAudioPayload at hrs ⊢
  obtain ⟨h₁, h₂⟩ := Proc.obeys_bind.mp hrs
  rw [Proc.run_bind]
  obtain ⟨hfail, hok⟩ := run_sysRead h₁
  cases hf : failsNext rs with
  | true =>
    obtain ⟨e, hrun, fault, hnext, he⟩ := hfail hf
    have h₃ := h₂ _ _ _ hrun
    rw [hrun, hashFails_of_next hnext, ← he]
    by_cases ha : e = .EAGAIN
    · subst ha
      obtain ⟨hfail', hok'⟩ := run_sysRead h₃
      cases hf' : failsNext rs.tail with
      | true =>
        obtain ⟨e', hrun', -⟩ := hfail' hf'
        exact ⟨.error e', _, hrun', rfl⟩
      | false => exact ⟨_, _, hok' hf', rfl⟩
    · have hne : (e != .EAGAIN) = true := by simpa using ha
      refine ⟨.error e, rs.tail, ?_, by rw [hne]; rfl⟩
      cases e <;> first | rfl | exact absurd rfl ha
  | false =>
    have hrun := hok hf
    have h₃ := h₂ _ _ _ hrun
    rw [hrun, hashFails_of_ok hf]
    cases hh : hashFile digest w.fs path with
    | ok hex => exact ⟨.ok hex, rs.tail, rfl, rfl⟩
    | error e =>
      by_cases ha : e = .EAGAIN
      · subst ha
        rw [hh] at h₃
        obtain ⟨hfail', hok'⟩ := run_sysRead h₃
        cases hf' : failsNext rs.tail with
        | true =>
          obtain ⟨e', hrun', -⟩ := hfail' hf'
          exact ⟨.error e', _, hrun', rfl⟩
        | false =>
          have hsecond := hok' hf'
          rw [hh] at hsecond
          exact ⟨.error .EAGAIN, _, hsecond, rfl⟩
      · refine ⟨.error e, rs.tail, ?_, rfl⟩
        cases e <;> first | rfl | exact absurd rfl ha

/-- What `hashAndStore` does with the digest. -/
private def storeDigest (isoNow : Text) (rec : TagRecord) (mtimeNs sizeBytes : Int)
    (existing : Option Sha) : Except Errno Sha → Sys ScanCtx WalkResult
  | .error _ => do
    tally fun c ↦ { c with hashFailed := c.hashFailed + 1 }
    return .continue
  | .ok hex => do
    let hit ← query (.blacklisted hex) fun db ↦ (db.trackBlacklist.get? hex).isSome
    if hit.getD false then return .continue
    else
      tally fun c ↦
        { c with tagParseFailed := c.tagParseFailed + if rec.tagReadFailed then 1 else 0 }
      if ← storeTrack hex (trackRowOf rec mtimeNs sizeBytes isoNow) existing then
        return .continue
      else hardStop

/-- A file is hashed, and then its digest is stored. -/
private theorem hashAndStore_eq (mtimeNs sizeBytes : Int) (existing : Option Sha) :
    hashAndStore digest isoNow rec mtimeNs sizeBytes existing =
      hashAudioPayload digest rec.path >>= storeDigest isoNow rec mtimeNs sizeBytes existing :=
  rfl

/-- Storing a digest reads no file. -/
private theorem readsNothing_storeDigest (mtimeNs sizeBytes : Int) (existing : Option Sha)
    (r : Except Errno Sha) :
    ReadsNothing (storeDigest isoNow rec mtimeNs sizeBytes existing r) := by
  cases r with
  | error e => exact .bind (.tally _) fun _ ↦ .pure _
  | ok hex =>
    apply ReadsNothing.bind (.query _ _)
    intro hit
    apply ReadsNothing.ite (.pure _)
    apply ReadsNothing.bind (.tally _)
    intro _
    apply ReadsNothing.bind (.storeTrack _ _ _)
    intro ok
    exact .ite (.pure _) .hardStop

/-- A visit that misses its file goes on and changes nothing but its statistics. -/
def Missed (o : Outcome (World ScanCtx) Fault WalkResult) (w : World ScanCtx) : Prop :=
  ∃ out rest, o = .done .continue { w with out := out } rest ∧ out.hardError = w.out.hardError

/-- A run that ends as without incident. -/
def AsEvaluated {α : Type} (p : Sys ScanCtx α) (w : World ScanCtx) (rs : List (Reply Fault)) :
    Prop :=
  ∃ rest, p.run w rs = .done (p.eval w).1 (p.eval w).2 rest

/-- A file whose reads fail is missed, and any other one is stored as when nothing fails. -/
private theorem run_hashAndStore {mtimeNs sizeBytes : Int} {existing : Option Sha}
    (hrs : (hashAndStore digest isoNow rec mtimeNs sizeBytes existing).Obeys ReadsMayFail w rs) :
    (hashFails rs = true →
        Missed ((hashAndStore digest isoNow rec mtimeNs sizeBytes existing).run w rs) w) ∧
      (hashFails rs = false →
        AsEvaluated (hashAndStore digest isoNow rec mtimeNs sizeBytes existing) w rs) := by
  rw [AsEvaluated, hashAndStore_eq] at *
  obtain ⟨h₁, h₂⟩ := Proc.obeys_bind.mp hrs
  obtain ⟨r, rest, hrun, hr⟩ := run_hashAudioPayload h₁
  obtain ⟨rest', hstore⟩ :=
    (readsNothing_storeDigest mtimeNs sizeBytes existing r).run (h₂ _ _ _ hrun)
  rw [Proc.run_bind, hrun]
  constructor
  · intro hf
    rw [hf, if_pos rfl] at hr
    cases r with
    | ok hex => cases hr
    | error e => exact ⟨_, rest', hstore, rfl⟩
  · intro hf
    rw [hf] at hr
    rw [Proc.eval_bind, eval_hashAudioPayload]
    have hsame : storeDigest isoNow rec mtimeNs sizeBytes existing r =
        storeDigest isoNow rec mtimeNs sizeBytes existing (hashFile digest w.fs rec.path) := by
      cases hh : hashFile digest w.fs rec.path with
      | error e =>
        rw [hh] at hr
        cases r with
        | error e' => rfl
        | ok hex => cases hr
      | ok hex =>
        rw [hh] at hr
        cases r with
        | error e' => cases hr
        | ok hex' =>
          cases hr
          rfl
    rw [hsame] at hstore
    refine ⟨rest', ?_⟩
    change (storeDigest isoNow rec mtimeNs sizeBytes existing r).run w rest = _
    rw [hsame]
    exact hstore

/-- What `on_file` does with the row that it finds at the path of its file. -/
private def examine (digest : Content → Sha) (isoNow : Text) (rec : TagRecord)
    (mtimeNs sizeBytes : Int) : Option (Option (Sha × Int × Int)) → Sys ScanCtx WalkResult
  | none => hardStop
  | some none => hashAndStore digest isoNow rec mtimeNs sizeBytes none
  | some (some (sha, mtime, size)) =>
    if mtime = mtimeNs ∧ size = sizeBytes then do
      if ← trackRepoMarkSeen sha isoNow then
        tally fun c ↦ { c with filesSkippedUnchanged := c.filesSkippedUnchanged + 1 }
        return .continue
      else hardStop
    else hashAndStore digest isoNow rec mtimeNs sizeBytes (some sha)

/-- What `on_file` does with the times of its file. -/
private def lookUp (digest : Content → Sha) (isoNow : Text) (rec : TagRecord) :
    Except Errno (Int × Int) → Sys ScanCtx WalkResult
  | .error _ => do
    tally fun c ↦ { c with hashFailed := c.hashFailed + 1 }
    return .continue
  | .ok (mtimeNs, sizeBytes) =>
    trackRepoLookupByPath rec.path >>= examine digest isoNow rec mtimeNs sizeBytes

/-- A file that is no artifact is counted, looked at, and stored. -/
private theorem onFile_eq (h : isTranscodeArtifact rec.path = false) :
    onFile digest isoNow rec = (do
      tally fun c ↦ { c with filesSeen := c.filesSeen + 1 }
      sysRead (.lstat rec.path) (fun fs ↦ lstatTimes fs rec.path) >>=
        lookUp digest isoNow rec) := by
  unfold onFile
  rw [h]
  rfl

/-- The incremental skip reads no file; behind it stands the digest. -/
private theorem run_examine {mtimeNs sizeBytes : Int} (found : Option (Sha × Int × Int))
    (hrs : (examine digest isoNow rec mtimeNs sizeBytes (some found)).Obeys ReadsMayFail w rs) :
    ((found.all (differs mtimeNs sizeBytes) && hashFails rs) = true →
        Missed ((examine digest isoNow rec mtimeNs sizeBytes (some found)).run w rs) w) ∧
      ((found.all (differs mtimeNs sizeBytes) && hashFails rs) = false →
        AsEvaluated (examine digest isoNow rec mtimeNs sizeBytes (some found)) w rs) := by
  cases found with
  | none => exact run_hashAndStore hrs
  | some row =>
    obtain ⟨sha, mtime, size⟩ := row
    by_cases hs : mtime = mtimeNs ∧ size = sizeBytes
    · have hall : (some (sha, mtime, size)).all (differs mtimeNs sizeBytes) = false := by
        simpa [differs] using hs
      rw [hall]
      refine ⟨fun h ↦ (by cases h), fun _ ↦ ReadsNothing.run ?_ hrs⟩
      simp only [examine, hs, and_self, if_true]
      apply ReadsNothing.bind (.trackRepoMarkSeen _ _)
      intro ok
      exact .ite (.bind (.tally _) fun _ ↦ .pure _) .hardStop
    · have hall : (some (sha, mtime, size)).all (differs mtimeNs sizeBytes) = true := by
        rw [Option.all_some, differs, decide_eq_false hs, Bool.not_false]
      rw [hall, Bool.true_and]
      unfold AsEvaluated
      simp only [examine, hs, if_false] at hrs ⊢
      exact run_hashAndStore hrs

/-- The visit behind `lstat`: one lookup, and then the digest unless the skip applies. -/
private theorem run_lookUp {times : Except Errno (Int × Int)}
    (ht : lstatTimes w.fs rec.path = times)
    (hrs : (lookUp digest isoNow rec times).Obeys ReadsMayFail w rs) :
    ((asksForHash w.fs w.conn.view rec && hashFails rs.tail) = true →
        Missed ((lookUp digest isoNow rec times).run w rs) w) ∧
      ((asksForHash w.fs w.conn.view rec && hashFails rs.tail) = false →
        AsEvaluated (lookUp digest isoNow rec times) w rs) := by
  unfold asksForHash
  rw [ht]
  cases times with
  | error e => exact ⟨fun h ↦ (by cases h), fun _ ↦ ⟨rs, rfl⟩⟩
  | ok times =>
    obtain ⟨mtimeNs, sizeBytes⟩ := times
    have hnext : Reply.next rs = .ok := by
      rcases Proc.obeys_ask.mp (Proc.obeys_bind.mp hrs).1 with h | ⟨h, -⟩
      · exact h
      · cases h
    have hlook : (trackRepoLookupByPath rec.path : Sys ScanCtx _).run w rs =
        .done (some (w.conn.view.lookupByPath rec.path)) w rs.tail := Proc.run_ask_ok hnext
    have hex := run_examine _ ((Proc.obeys_bind.mp hrs).2 _ _ _ hlook)
    have hrun : (lookUp digest isoNow rec (.ok (mtimeNs, sizeBytes))).run w rs =
        (examine digest isoNow rec mtimeNs sizeBytes
          (some (w.conn.view.lookupByPath rec.path))).run w rs.tail := by
      simp only [lookUp]
      rw [Proc.run_bind, hlook]
    have heval : (lookUp digest isoNow rec (.ok (mtimeNs, sizeBytes))).eval w =
        (examine digest isoNow rec mtimeNs sizeBytes
          (some (w.conn.view.lookupByPath rec.path))).eval w := by
      simp only [lookUp]
      rw [Proc.eval_bind]
      rfl
    unfold AsEvaluated
    rw [hrun, heval]
    exact hex

/-- A visit misses its file, or ends as without incident. -/
theorem run_onFile (hrs : (onFile digest isoNow rec).Obeys ReadsMayFail w rs) :
    (misses w.fs w.conn.view rec rs = true → Missed ((onFile digest isoNow rec).run w rs) w) ∧
      (misses w.fs w.conn.view rec rs = false → AsEvaluated (onFile digest isoNow rec) w rs) := by
  unfold misses
  cases ha : isTranscodeArtifact rec.path with
  | true =>
    refine ⟨fun h ↦ (by cases h), fun _ ↦ ?_⟩
    unfold AsEvaluated onFile
    rw [ha]
    exact ⟨rs, rfl⟩
  | false =>
    rw [onFile_eq ha] at hrs
    obtain ⟨-, hrs⟩ := Proc.obeys_bind.mp hrs
    have hrs' := hrs () _ rs rfl
    obtain ⟨hread, hrest⟩ := Proc.obeys_bind.mp hrs'
    obtain ⟨hfail, hok⟩ := run_sysRead hread
    unfold AsEvaluated
    rw [onFile_eq ha, Bool.not_false, Bool.true_and, Proc.run_bind, Proc.eval_bind]
    simp only [tally, Proc.run_modify, Proc.eval_modify]
    rw [Proc.run_bind, Proc.eval_bind]
    cases hf : failsNext rs with
    | true =>
      obtain ⟨e, hrun, -⟩ := hfail hf
      rw [hrun]
      exact ⟨fun _ ↦ ⟨_, rs.tail, rfl, rfl⟩, fun h ↦ (by cases h)⟩
    | false =>
      have hrun := hok hf
      have hlook := run_lookUp rfl (hrest _ _ _ hrun)
      rw [hrun, Bool.false_or]
      have hdrop : rs.drop 2 = rs.tail.tail := by
        rw [← List.drop_one, ← List.drop_one, List.drop_drop]
      rw [hdrop]
      exact hlook

/-! ### The walk -/

/-- The files of a walk that are not missed, up to one that stops it. -/
def heard (digest : Content → Sha) (isoNow : Text) :
    World ScanCtx → List (Reply Fault) → List TagRecord → List TagRecord
  | _, _, [] => []
  | w, rs, rec :: recs =>
    match (onFile digest isoNow rec).run w rs with
    | .done .continue w' rest =>
      if misses w.fs w.conn.view rec rs then heard digest isoNow w' rest recs
      else rec :: heard digest isoNow w' rest recs
    | _ => [rec]

/-- The commands have the same files and the same database, and neither or both of them have
met an error. -/
structure Alike (w u : World ScanCtx) : Prop where
  fs : w.fs = u.fs
  conn : w.conn = u.conn
  hardError : w.out.hardError = u.out.hardError

namespace Alike

/-- Whether the walk goes on does not depend on what differs. -/
theorem goesOn (h : Alike w u) : GoesOn digest isoNow w rec ↔ GoesOn digest isoNow u rec := by
  rw [goesOn_iff, goesOn_iff, h.fs, h.conn]

/-- A visit that goes on takes like states to like states. -/
theorem visit (h : Alike w u) (hgo : GoesOn digest isoNow w rec) :
    Alike (visitState digest isoNow w rec) (visitState digest isoNow u rec) := by
  have hw := onFile_acts digest isoNow rec w
  have hu := onFile_acts digest isoNow rec u
  have hrun := run_of_goesOn hgo
  have hrun' := run_of_goesOn (h.goesOn.mp hgo)
  constructor
  · rw [visitState, visitState, hw.files, hu.files, h.fs, h.conn]
  · rw [visitState, visitState, (hw.goes _ hrun).2, (hu.goes _ hrun').2]
    rw [← h.fs, ← h.conn, hrun] at hrun'
    rw [h.conn, Option.some.inj hrun']
  · rw [Bool.eq_iff_iff, visitState_hardError, visitState_hardError, h.hardError, h.goesOn]

end Alike

/-- A file that is missed is not heard of. -/
private theorem heard_cons_missed {out : ScanCtx} {rest : List (Reply Fault)}
    (hm : misses w.fs w.conn.view rec rs = true)
    (hrun : (onFile digest isoNow rec).run w rs = .done .continue { w with out := out } rest) :
    heard digest isoNow w rs (rec :: recs) =
      heard digest isoNow { w with out := out } rest recs := by
  simp only [heard, hrun, hm, if_true]

/-- A file that is read is heard of. -/
private theorem heard_cons {rest : List (Reply Fault)}
    (hm : misses w.fs w.conn.view rec rs = false) (hgo : GoesOn digest isoNow w rec)
    (hrun : (onFile digest isoNow rec).run w rs =
      .done ((onFile digest isoNow rec).eval w).1 ((onFile digest isoNow rec).eval w).2 rest) :
    heard digest isoNow w rs (rec :: recs) =
      rec :: heard digest isoNow (visitState digest isoNow w rec) rest recs := by
  rw [GoesOn] at hgo
  rw [hgo] at hrun
  simp only [heard, hrun, hm, Bool.false_eq_true, if_false, visitState]

/-- A file that stops the walk is the last one that is heard of. -/
private theorem heard_cons_stop {rest : List (Reply Fault)}
    (hstop : ((onFile digest isoNow rec).eval w).1 = .stop)
    (hrun : (onFile digest isoNow rec).run w rs =
      .done ((onFile digest isoNow rec).eval w).1 ((onFile digest isoNow rec).eval w).2 rest) :
    heard digest isoNow w rs (rec :: recs) = [rec] := by
  rw [hstop] at hrun
  simp only [heard, hrun]

/-- What a walk with failing reads comes to: a walk, without incident, of the files heard. -/
structure WalksAs (w' u' w : World ScanCtx) : Prop where
  conn : ∃ db, w'.conn = w.conn.setView db
  hardError : w'.out.hardError = u'.out.hardError
  alike : w'.out.hardError = false → Alike w' u'

/-- A walk with failing reads is the walk of the files that are not missed. -/
theorem run_walkFiles (hrs : (walkFiles digest isoNow recs).Obeys ReadsMayFail w rs)
    (h : Alike w u) :
    ∃ w' rest, (walkFiles digest isoNow recs).run w rs = .done () w' rest ∧
      WalksAs w' (walkState digest isoNow u (heard digest isoNow w rs recs)) w := by
  induction recs generalizing w u rs with
  | nil => exact ⟨w, rs, rfl, ⟨w.conn.view, w.conn.setView_view.symm⟩, h.hardError, fun _ ↦ h⟩
  | cons rec recs ih =>
    obtain ⟨hvisit, hnext⟩ := Proc.obeys_bind.mp hrs
    obtain ⟨hmiss, heval⟩ := run_onFile hvisit
    simp only [walkFiles]
    rw [Proc.run_bind]
    cases hm : misses w.fs w.conn.view rec rs with
    | true =>
      obtain ⟨out, rest, hrun, hout⟩ := hmiss hm
      have hlike : Alike { w with out := out } u := ⟨h.fs, h.conn, hout.trans h.hardError⟩
      rw [hrun, heard_cons_missed hm hrun]
      obtain ⟨w', rest', hrun', hwalk⟩ := ih (hnext _ _ _ hrun) hlike
      exact ⟨w', rest', hrun', hwalk.conn, hwalk.hardError, hwalk.alike⟩
    | false =>
      obtain ⟨rest, hrun⟩ := heval hm
      have hobeys := hnext _ _ _ hrun
      cases hr : ((onFile digest isoNow rec).eval w).1 with
      | stop =>
        have hno : ¬ GoesOn digest isoNow w rec := by
          rw [GoesOn, hr]
          simp
        have herr : (visitState digest isoNow w rec).out.hardError = true :=
          visitState_hardError.mpr (Or.inr hno)
        have herr' : (visitState digest isoNow u rec).out.hardError = true :=
          visitState_hardError.mpr (Or.inr (mt h.goesOn.mpr hno))
        rw [heard_cons_stop hr hrun, walkState_cons_stop (mt h.goesOn.mpr hno), hrun, hr]
        refine ⟨visitState digest isoNow w rec, rest, rfl, visitState_conn digest isoNow w rec,
          herr.trans herr'.symm, fun hf ↦ ?_⟩
        rw [herr] at hf
        cases hf
      | «continue» =>
        have hgo : GoesOn digest isoNow w rec := hr
        rw [hr] at hobeys
        rw [heard_cons hm hgo hrun, walkState_cons (h.goesOn.mp hgo), hrun, hr]
        obtain ⟨w', rest', hrun', ⟨db, hdb⟩, herr, hlike⟩ := ih hobeys (h.visit hgo)
        obtain ⟨db₁, hdb₁⟩ := visitState_conn digest isoNow w rec
        exact ⟨w', rest', hrun', ⟨db, hdb.trans (Conn.setView_of hdb₁ db)⟩, herr, hlike⟩

/-! ### The scan -/

/-- What a scan does behind its walk. -/
private def finish (job : ScanJob) (walked : Bool) : Sys ScanCtx Int := do
  let c ← Proc.gets World.out
  if !walked || c.hardError then
    let _ ← dbRollback
    return -1
  else if ← sweepUnseen job then
    writeScanMeta job
    if ← dbCommit then
      let c ← Proc.gets World.out
      return scanRc c
    else return -1
  else
    let _ ← dbRollback
    return -1

/-- A scan begins, walks and finishes. -/
private theorem scanRunInternal_eq : scanRunInternal digest job = (do
    if ← dbBegin then
      walkerWalk digest job.isoNow job.walkRoot job.walk >>= finish job
    else return -1) := rfl

/-- The end of a scan reads no file. -/
private theorem readsNothing_finish (walked : Bool) : ReadsNothing (finish job walked) := by
  apply ReadsNothing.bind (.gets _)
  intro c
  apply ReadsNothing.ite
  · exact .bind (.execTxn _ _) fun _ ↦ .pure _
  · apply ReadsNothing.bind (.sweepUnseen job)
    intro ok
    apply ReadsNothing.ite
    · apply ReadsNothing.bind (.writeScanMeta job)
      intro _
      apply ReadsNothing.bind (.execTxn _ _)
      intro ok
      exact .ite (.bind (.gets _) fun _ ↦ .pure _) (.pure _)
    · exact .bind (.execTxn _ _) fun _ ↦ .pure _

/-- An error of the walk is rolled back. -/
private theorem finish_stopped {m : Machine} {walked : Bool} {db : Db}
    (hconn : w.conn = (begun (m.start ({} : ScanCtx))).conn.setView db)
    (h : walked = false ∨ w.out.hardError = true) :
    ((finish job walked).eval w).2.stop.db = m.db := by
  have hif : (!walked || w.out.hardError) = true := by
    rcases h with h | h
    · rw [h]
      rfl
    · rw [h, Bool.or_true]
  have hr : (dbRollback : Sys ScanCtx Bool).eval w =
      (true, { w with conn := ⟨m.db, none⟩ }) := by
    simp [dbRollback, Conn.rollback, hconn, begun, Conn.setView, Machine.start]
  simp only [finish, Proc.eval_bind, Proc.eval_gets, hif, if_true, hr, Proc.eval_pure]
  rfl

/-- A walk without an error is swept and committed. -/
private theorem finish_completed {m : Machine} {db : Db} {root : Path}
    (hconn : w.conn = (begun (m.start ({} : ScanCtx))).conn.setView db)
    (h : w.out.hardError = false) :
    ∃ scans, ((finish (scanJob root isoNow recs) true).eval w).2.stop.db =
      { w.conn.view.deleteUnseen root isoNow with scanMeta := scans } := by
  have hs := sweepUnseen_conn (scanJob root isoNow recs) w
  obtain ⟨scans, hm⟩ := writeScanMeta_conn (scanJob root isoNow recs)
    ((sweepUnseen (scanJob root isoNow recs)).eval w).2
  rw [hs, Conn.view_setView, Conn.setView_setView, Conn.setView_of hconn] at hm
  refine ⟨scans, ?_⟩
  generalize hw : ((writeScanMeta (scanJob root isoNow recs)).eval
    ((sweepUnseen (scanJob root isoNow recs)).eval w).2).2 = w' at hm
  have hcommit : (dbCommit : Sys ScanCtx Bool).eval w' =
      (true, { w' with conn := ⟨w'.conn.view, none⟩ }) := by
    simp [dbCommit, Conn.commit, hm, begun, Conn.setView, Conn.view]
  have hview : w'.conn.view =
      { w.conn.view.deleteUnseen root isoNow with scanMeta := scans } := by
    rw [hm, Conn.view_setView]
    rfl
  simp only [finish, Proc.eval_bind, Proc.eval_gets, h, Bool.not_true, Bool.or_self,
    Bool.false_eq_true, if_false, eval_sweepUnseen, if_true, hw, hcommit, Proc.eval_pure,
    World.stop]
  exact hview

/-- The machine that a scan leaves under a queue of answers. -/
def afterScanUnder (digest : Content → Sha) (job : ScanJob) (m : Machine)
    (rs : List (Reply Fault)) : Machine :=
  ((scanRunInternal digest job).run (m.start {}) rs).state.stop

/-- The files that a scan does not miss: its first two calls are `BEGIN` and `stat`. -/
def heardBy (digest : Content → Sha) (job : ScanJob) (m : Machine) (rs : List (Reply Fault)) :
    List TagRecord :=
  heard digest job.isoNow (begun (m.start {})) (rs.drop 2) job.walk

/-- A call that reads no file goes through. -/
private theorem next_of_plain {ω α : Type} {c : Call} {f : World ω → Option Fault → α × World ω}
    {t : World ω} (hc : ¬ c.ReadsFile)
    (h : (Proc.ask c f : Sys ω α).Obeys ReadsMayFail t rs) : Reply.next rs = .ok := by
  rcases Proc.obeys_ask.mp h with h | h
  · exact h
  · exact absurd h.1 hc

/-- The walk of a scan, under the answers behind `BEGIN`. -/
private theorem run_walkerWalk {m : Machine} {root : Path}
    (hrs : (walkerWalk digest isoNow root recs).Obeys ReadsMayFail (begun (m.start {})) rs) :
    ∃ found w' rest, (walkerWalk digest isoNow root recs).run (begun (m.start {})) rs =
        .done found w' rest ∧ (found = true ↔ m.fs.stat? root = some .dir) ∧
      (found = true → WalksAs w' (walkState digest isoNow (begun (m.start {}))
        (heard digest isoNow (begun (m.start {})) rs.tail recs)) (begun (m.start {}))) ∧
      (found = false → w' = begun (m.start {})) := by
  obtain ⟨hstat, hnext⟩ := Proc.obeys_bind.mp hrs
  have hok : Reply.next rs = .ok := next_of_plain id hstat
  have hrun : (sysRead (.stat root) fun fs ↦ .ok (fs.stat? root) : Sys ScanCtx _).run
      (begun (m.start {})) rs = .done (.ok (m.fs.stat? root)) (begun (m.start {})) rs.tail :=
    Proc.run_ask_ok hok
  have hrest := hnext _ _ _ hrun
  simp only [walkerWalk]
  rw [Proc.run_bind, hrun]
  by_cases hroot : m.fs.stat? root = some .dir
  · have hif : (Except.ok (ε := Errno) (m.fs.stat? root)).toOption.join = some .dir := hroot
    simp only [hif, if_true] at hrest ⊢
    obtain ⟨w', rest, hw, hwalk⟩ :=
      run_walkFiles (Proc.obeys_bind.mp hrest).1 ⟨rfl, rfl, rfl⟩
    rw [Proc.run_bind, hw]
    exact ⟨true, w', rest, rfl, by simp [hroot], fun _ ↦ hwalk, fun h ↦ by cases h⟩
  · have hif : ¬ (Except.ok (ε := Errno) (m.fs.stat? root)).toOption.join = some .dir := hroot
    simp only [hif, if_false]
    exact ⟨false, _, rs.tail, rfl, by simp [hroot], fun h ↦ (by cases h), fun _ ↦ rfl⟩

/-- A scan with failing reads leaves the table that the scan of the files it has not missed
leaves without incident. -/
theorem afterScanUnder_db {m : Machine} {root : Path} (walk : List TagRecord)
    (hrs : (scanRunInternal digest (scanJob root isoNow walk)).Obeys ReadsMayFail
      (m.start {}) rs) :
    ∃ scans, (afterScanUnder digest (scanJob root isoNow walk) m rs).db =
      { (afterScan digest (scanJob root isoNow
          (heardBy digest (scanJob root isoNow walk) m rs)) m).db with scanMeta := scans } := by
  rw [scanRunInternal_eq] at hrs
  obtain ⟨hbegin, hnext⟩ := Proc.obeys_bind.mp hrs
  have hok : Reply.next rs = .ok := next_of_plain id hbegin
  have hrun : (dbBegin : Sys ScanCtx Bool).run (m.start {}) rs =
      .done true (begun (m.start {})) rs.tail := Proc.run_ask_ok hok
  have hrest := hnext _ _ _ hrun
  simp only [if_true] at hrest
  obtain ⟨hwalker, hfinish⟩ := Proc.obeys_bind.mp hrest
  obtain ⟨found, w', rest, hw, hroot, hwalk, hnone⟩ := run_walkerWalk hwalker
  obtain ⟨rest', hend⟩ := (readsNothing_finish found).run (hfinish _ _ _ hw)
  have hstate : afterScanUnder digest (scanJob root isoNow walk) m rs =
      ((finish (scanJob root isoNow walk) found).eval w').2.stop := by
    rw [afterScanUnder, scanRunInternal_eq, Proc.run_bind, hrun]
    simp only [if_true]
    rw [Proc.run_bind, hw]
    change (Proc.run _ w' rest).state.stop = _
    rw [hend]
    rfl
  have hdrop : heardBy digest (scanJob root isoNow walk) m rs =
      heard digest isoNow (begun (m.start {})) rs.tail.tail walk := by
    rw [heardBy, ← List.drop_one, ← List.drop_one, List.drop_drop]
    rfl
  rw [hstate, hdrop]
  cases found with
  | false =>
    have hno : m.fs.stat? root ≠ some .dir := fun h ↦ by simpa using hroot.mpr h
    have hstop : (afterScan digest (scanJob root isoNow
        (heard digest isoNow (begun (m.start {})) rs.tail.tail walk)) m).db = m.db :=
      afterScan_stopped fun h ↦ absurd h hno
    have hconn : w'.conn = (begun (m.start ({} : ScanCtx))).conn.setView m.db := by
      rw [hnone rfl]
      rfl
    rw [finish_stopped hconn (Or.inl rfl), hstop]
    exact ⟨m.db.scanMeta, rfl⟩
  | true =>
    have hfound : m.fs.stat? root = some .dir := hroot.mp rfl
    have hwalks : WalksAs w' (walkState digest isoNow (begun (m.start {}))
        (heard digest isoNow (begun (m.start {})) rs.tail.tail walk)) (begun (m.start {})) :=
      hwalk rfl
    obtain ⟨⟨db, hconn⟩, herr, hlike⟩ := hwalks
    cases hf : w'.out.hardError with
    | true =>
      have hstop : (afterScan digest (scanJob root isoNow
          (heard digest isoNow (begun (m.start {})) rs.tail.tail walk)) m).db = m.db :=
        afterScan_stopped fun _ ↦ herr.symm.trans hf
      rw [finish_stopped hconn (Or.inr hf), hstop]
      exact ⟨m.db.scanMeta, rfl⟩
    | false =>
      have hdone : ∃ scans, ((finish (scanJob root isoNow walk) true).eval w').2.stop.db =
          { w'.conn.view.deleteUnseen root isoNow with scanMeta := scans } :=
        finish_completed hconn hf
      obtain ⟨scans, hdb⟩ := hdone
      obtain ⟨scans', hdb'⟩ := afterScan_completed hfound (herr.symm.trans hf)
      rw [hdb, hdb', (hlike hf).conn]
      exact ⟨scans, rfl⟩

/-! ### Rows whose file is still there -/

/-- A row is at a path where nothing but its own content is found. -/
def AtHome (digest : Content → Sha) (sha : Sha) (fs : Tree) (db : Db) : Prop :=
  ∃ row, db.tracks.get? sha = some row ∧
    ∀ hex, hashFile digest fs row.path = .ok hex → hex = sha

namespace AtHome

/-- A file at its home displaces nothing. -/
theorem not_displaces {fs : Tree} {db : Db} (h : AtHome digest sha fs db) :
    ¬ Displaces digest fs db rec sha := by
  rintro ⟨hex, he, hnone, r, hr, hp⟩
  obtain ⟨row, hrow, hhome⟩ := h
  rw [hrow] at hr
  cases hr
  have hsame := hhome hex (by rw [hp]; exact he.2.2.1)
  rw [hsame, hrow] at hnone
  cases hnone

/-- A visit leaves the row at home: where it moves the row, it has read the row's content. -/
theorem visit (h : AtHome digest sha w.fs w.conn.view) (hgo : GoesOn digest isoNow w rec) :
    AtHome digest sha (visitState digest isoNow w rec).fs
      (visitState digest isoNow w rec).conn.view := by
  have hthin := thinned_visitState digest isoNow w rec
  have hd : ¬ Displaces digest w.fs w.conn.view rec sha := h.not_displaces
  obtain ⟨row, hrow, hhome⟩ := h
  have hhome' : ∀ hex, hashFile digest (visitState digest isoNow w rec).fs row.path = .ok hex →
      hex = sha := fun hex hh ↦ hhome hex (hthin.hashFile hh)
  rcases run_effect (run_of_goesOn hgo) with ⟨hdb, -, -⟩ | ⟨s, hm⟩ | ⟨hex, hs⟩
  · rw [hdb]
    exact ⟨row, hrow, hhome'⟩
  · by_cases he : sha = s
    · subst he
      exact ⟨{ row with lastSeenAt := isoNow }, by rw [hm.row, hrow]; rfl, hhome'⟩
    · exact ⟨row, (hm.spares sha he).trans hrow, hhome'⟩
  · by_cases he : sha = hex
    · subst he
      obtain ⟨row', hrow', hp, -, -⟩ := hs.row
      refine ⟨row', hrow', fun hex hh ↦ ?_⟩
      have hread := hs.examined.2.2.1
      rw [hp] at hh
      rw [hthin.hashFile hh] at hread
      exact Except.ok.inj hread
    · have hp : ¬ HoldsPath w.conn.view sha rec.path :=
        fun hp ↦ hd ⟨hex, hs.examined, (hs.frees sha he hp).1, hp⟩
      exact ⟨row, (hs.spares sha he hp).1.trans hrow, hhome'⟩

/-- Along a walk nothing displaces the row. -/
theorem not_displacedIn (h : AtHome digest sha w.fs w.conn.view)
    (h₀ : w.out.hardError = false) : ¬ DisplacedIn digest isoNow w recs sha := by
  induction recs generalizing w with
  | nil =>
    rintro ⟨pre, rec, post, he, -⟩
    simp at he
  | cons rec recs ih =>
    rw [displacedIn_cons h₀]
    rintro (hd | ⟨hgo, hd⟩)
    · exact h.not_displaces hd
    · exact ih (h.visit hgo) (hardError_visitState h₀ hgo) hd

end AtHome

/-- What keeps the row of a file that is still there: the scan does not find its root, or a
collision stops it, or a file that the scan does not miss sights the row, as unchanged at its
path or by its content, or the row was seen no earlier than now. -/
def SafeIn (digest : Content → Sha) (m : Machine) (libraryRoot : Path) (isoNow : Text)
    (heard : List TagRecord) (sha : Sha) (row : TrackRow) : Prop :=
  m.fs.stat? libraryRoot ≠ some .dir ∨
    (∃ pre rec post, heard = pre ++ rec :: post ∧
      CollidesAfter digest isoNow (begun (m.start {})) pre rec) ∨
    SightedIn digest isoNow (begun (m.start {})) heard sha ∨ ¬ row.lastSeenAt < isoNow

/-- The walk gets to its end exactly where no file collides. -/
private theorem reaches_iff {m : Machine} : Reaches digest isoNow (begun (m.start {})) recs ↔
    ¬ ∃ pre rec post, recs = pre ++ rec :: post ∧
      CollidesAfter digest isoNow (begun (m.start {})) pre rec := by
  rw [Reaches, walkState_hardError digest isoNow recs rfl]
  simp only [goesOn_walkState_iff]
  push Not
  rfl

/-- A scan keeps the row of a file that is still there exactly when the row is safe. -/
theorem scan_spares_iff (digest : Content → Sha) (m : Machine) (libraryRoot : Path)
    (isoNow : Text) (walk : List TagRecord) (rs : List (Reply Fault))
    (hrs : (scanRunInternal digest (scanJob libraryRoot isoNow walk)).Obeys ReadsMayFail
      (m.start {}) rs)
    (sha : Sha) (row : TrackRow) (hrow : m.db.tracks.get? sha = some row)
    (hunder : isUnder libraryRoot row.path = true)
    (hfile : hashFile digest m.fs row.path = .ok sha) :
    Kept m.db (afterScanUnder digest (scanJob libraryRoot isoNow walk) m rs).db sha ↔
      SafeIn digest m libraryRoot isoNow
        (heardBy digest (scanJob libraryRoot isoNow walk) m rs) sha row := by
  obtain ⟨scans, hdb⟩ := afterScanUnder_db walk hrs
  generalize heardBy digest (scanJob libraryRoot isoNow walk) m rs = heard at hdb
  have hkept : Kept m.db (afterScanUnder digest (scanJob libraryRoot isoNow walk) m rs).db sha ↔
      Kept m.db (afterScan digest (scanJob libraryRoot isoNow heard) m).db sha := by
    rw [hdb]
    rfl
  rw [hkept]
  unfold SafeIn
  by_cases hroot : m.fs.stat? libraryRoot = some .dir
  · have hhome : AtHome digest sha (begun (m.start ({} : ScanCtx))).fs
        (begun (m.start ({} : ScanCtx))).conn.view := by
      refine ⟨row, hrow, fun hex hh ↦ ?_⟩
      have hread : hashFile digest m.fs row.path = .ok hex := hh
      rw [hfile] at hread
      exact (Except.ok.inj hread).symm
    have hseen : Db.isUnseen libraryRoot isoNow row = false ↔ ¬ row.lastSeenAt < isoNow := by
      simp [Db.isUnseen, hunder]
    have hspared : Spared digest (scanJob libraryRoot isoNow heard) (begun (m.start {})) sha row ↔
        (Reaches digest isoNow (begun (m.start {})) heard →
          SightedIn digest isoNow (begun (m.start {})) heard sha ∨
            Db.isUnseen libraryRoot isoNow row = false) := by
      constructor
      · exact fun h ↦ h libraryRoot rfl
      · rintro h root ⟨⟩
        exact h
    have hno : ¬ m.fs.stat? libraryRoot ≠ some .dir := not_not_intro hroot
    rw [kept_afterScan_iff hroot hrow (hhome.not_displacedIn rfl), hspared, reaches_iff, hseen,
      or_iff_right hno]
    exact or_iff_not_imp_left.symm
  · have hstop : (afterScan digest (scanJob libraryRoot isoNow heard) m).db = m.db :=
      afterScan_stopped fun h ↦ absurd h hroot
    rw [hstop]
    refine iff_of_true ⟨by rw [hrow]; simp, rfl⟩ (Or.inl hroot)

namespace TouchedAndMissed

/-- The library of the run below. -/
def library : Path := [ascii "music"]

def pathA : Path := library ++ [ascii "a.flac"]

/-- One track. -/
def before : Tree := (Tree.empty.addDir library).addFile pathA ⟨.plain [1], 1, 1⟩

/-- `touch a.flac`. -/
def after : Tree := (Tree.empty.addDir library).addFile pathA ⟨.plain [1], 2, 1⟩

def walk : List TagRecord := [.untagged pathA]

/-- The machine when the second scan starts. -/
def machine : Machine := ⟨after, (afterScan rawDigest (scanJob library [1] walk) ⟨before, .empty⟩).db⟩

/-- `BEGIN`, `stat`, `lstat` and the lookup go through, and the digest meets an input error. -/
def answers : List (Reply Fault) := [.ok, .ok, .ok, .ok, .fail ⟨.other 5, false⟩]

/-- What the scan asks for besides the digest goes through. -/
theorem obeyed : (scanRunInternal rawDigest (scanJob library [2] walk)).Obeys ReadsMayFail
    (machine.start {}) answers := by
  decide +kernel

/-- The walk below lists the library. -/
theorem lists : Lists after library walk := by
  refine ⟨by decide, fun p ↦ ?_⟩
  simp only [after, walk, Tree.addDir, Fs.node?_addFile, Fs.node?_place, List.map_cons,
    List.map_nil, List.mem_singleton]
  constructor
  · rintro rfl
    exact ⟨by decide, 0, rfl⟩
  · rintro ⟨-, i, hi⟩
    split at hi
    · next hp => exact hp
    · split at hi <;> cases hi

/-- The row of the track before the second scan. -/
theorem row_at_home : ∃ row, machine.db.tracks.get? [1] = some row ∧
    isUnder library row.path = true ∧ hashFile rawDigest machine.fs row.path = .ok [1] := by
  have hrow : (machine.db.tracks.get? [1]).isSome = true ∧
      (machine.db.tracks.get? [1]).all (fun row ↦ isUnder library row.path &&
        hashFile rawDigest machine.fs row.path == .ok [1]) = true := by
    decide +kernel
  obtain ⟨row, hr⟩ := Option.isSome_iff_exists.mp hrow.1
  have hall := hrow.2
  rw [hr] at hall
  simp only [Option.all_some, Bool.and_eq_true, beq_iff_eq] at hall
  exact ⟨row, hr, hall⟩

/-- The sweep has deleted the row. -/
theorem row_gone : (afterScanUnder rawDigest (scanJob library [2] walk) machine
    answers).db.tracks.get? [1] = none := by
  decide +kernel

end TouchedAndMissed

/-- A file that has only been touched loses its row, and what hangs on it, when the scan
cannot hash it. -/
theorem missed_file_loses_row :
    ¬ ∀ (digest : Content → Sha) (m : Machine), ScanReachable digest m →
      ∀ (libraryRoot : Path) (isoNow : Text) (walk : List TagRecord) (rs : List (Reply Fault)),
        Lists m.fs libraryRoot walk →
        (scanRunInternal digest (scanJob libraryRoot isoNow walk)).Obeys ReadsMayFail
          (m.start {}) rs →
        ∀ sha row, m.db.tracks.get? sha = some row → isUnder libraryRoot row.path = true →
          hashFile digest m.fs row.path = .ok sha →
          Kept m.db (afterScanUnder digest (scanJob libraryRoot isoNow walk) m rs).db sha := by
  intro h
  have hreach : ScanReachable rawDigest TouchedAndMissed.machine :=
    .edit TouchedAndMissed.after (.scan _ (.fresh TouchedAndMissed.before))
  obtain ⟨row, hr, hunder, hfile⟩ := TouchedAndMissed.row_at_home
  have hkept := h rawDigest TouchedAndMissed.machine hreach TouchedAndMissed.library [2]
    TouchedAndMissed.walk TouchedAndMissed.answers TouchedAndMissed.lists
    TouchedAndMissed.obeyed [1] row hr hunder hfile
  exact hkept.1 TouchedAndMissed.row_gone

/-- The row of the touched file is not safe. -/
theorem missed_row_not_safe : ∃ row, TouchedAndMissed.machine.db.tracks.get? [1] = some row ∧
    ¬ SafeIn rawDigest TouchedAndMissed.machine TouchedAndMissed.library [2]
      (heardBy rawDigest (scanJob TouchedAndMissed.library [2] TouchedAndMissed.walk)
        TouchedAndMissed.machine TouchedAndMissed.answers) [1] row := by
  obtain ⟨row, hr, hunder, hfile⟩ := TouchedAndMissed.row_at_home
  refine ⟨row, hr, fun hsafe ↦ ?_⟩
  have hkept := (scan_spares_iff rawDigest TouchedAndMissed.machine TouchedAndMissed.library [2]
    TouchedAndMissed.walk TouchedAndMissed.answers TouchedAndMissed.obeyed [1] row hr hunder
    hfile).mpr hsafe
  exact hkept.1 TouchedAndMissed.row_gone

end Nocturne
