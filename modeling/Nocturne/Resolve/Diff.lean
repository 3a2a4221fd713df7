import Nocturne.Lib.Lockstep
import Nocturne.Resolve.Exclude

/-!
# The diff of a manifest

`print_resolve_diff` walks along `manifest_current` and a new manifest. It joins the buckets of the
new tracks in full, and looks at no exclusion, so that the diff against what the writer stored of
the same manifest need not be empty.
-/

namespace Nocturne

open Lib

/-! ### Lists of buckets -/

/-- `buckets_to_csv`, `diff.c:113–129`. -/
def bucketsToCsv (buckets : List Text) : Text := (csvPieces buckets).flatten

/-- `csv_split`, `diff.c:133–166`. -/
def csvSplit (csv : Text) : List Text := if csv = [] then [] else csv.splitOn 44

/-- `set_diff`, `diff.c:178–207`. -/
def setDiff (a b : List Text) : List Text := a.filter fun x ↦ !b.contains x

/-! ### The diff -/

/-- `struct prev_track`. -/
structure PrevTrack where
  sha256 : Sha
  bucketsCsv : Text
  sizeBytes : Int
  deriving DecidableEq, Repr

/-- `struct diff_added`, and `struct diff_removed`. -/
structure DiffTrack where
  sha256 : Sha
  sizeBytes : Int
  bucketsCsv : Text
  buckets : List Text
  deriving DecidableEq, Repr

/-- `struct diff_shifted`. -/
structure DiffShifted where
  sha256 : Sha
  gained : List Text
  lost : List Text
  deriving DecidableEq, Repr

/-- What `print_resolve_diff` prints, as text or as JSON. -/
structure ResolveDiff where
  added : List DiffTrack
  removed : List DiffTrack
  shifted : List DiffShifted
  netTracks : Int
  netBytes : Int
  usedBefore : Int
  usedAfter : Int
  capEffectiveBytes : Int
  deriving DecidableEq, Repr

/-- `prev_load`, `diff.c:54–78`. -/
def Db.prevLoad (db : Db) : List PrevTrack :=
  (db.manifestCurrent.rows.map fun r ↦ PrevTrack.mk r.1 r.2.bucketsCsv r.2.sizeBytes).mergeSort
    fun a b ↦ decide (a.sha256 ≤ b.sha256)

/-- `read_used_before`, `diff.c:91–107`. -/
def Db.readUsedBefore (db : Db) : Int :=
  match db.manifestMeta.get? (ascii "used_bytes") with
  | some v => atoll v
  | none => 0

/-- The entry of a track that is in the new manifest only. -/
def ManifestTrack.diff (n : ManifestTrack) : DiffTrack :=
  ⟨n.sha256, n.sizeBytes, bucketsToCsv n.buckets, n.buckets⟩

/-- The entry of a track that is in the previous manifest only. -/
def PrevTrack.diff (p : PrevTrack) : DiffTrack :=
  ⟨p.sha256, p.sizeBytes, p.bucketsCsv, csvSplit p.bucketsCsv⟩

/-- The entry of a track whose buckets differ. -/
def shiftedDiff (p : PrevTrack) (n : ManifestTrack) : DiffShifted :=
  ⟨n.sha256, setDiff n.buckets (csvSplit p.bucketsCsv), setDiff (csvSplit p.bucketsCsv) n.buckets⟩

/-- The comparison of the buckets, `diff.c:346`. -/
def sameBuckets (p : PrevTrack) (n : ManifestTrack) : Bool :=
  p.bucketsCsv == bucketsToCsv n.buckets

/-- The three-way merge, `diff.c:313–391`. -/
def diffWalk (db : Db) (next : Resolution) : Lockstep PrevTrack ManifestTrack :=
  Lockstep.walk PrevTrack.sha256 ManifestTrack.sha256 sameBuckets db.prevLoad next.resident

/-- `print_resolve_diff`, `diff.c:279–395`. -/
def printResolveDiff (db : Db) (next : Resolution) : ResolveDiff :=
  let d := diffWalk db next
  { added := d.added.map ManifestTrack.diff
    removed := d.removed.map PrevTrack.diff
    shifted := d.shifted.map fun x ↦ shiftedDiff x.1 x.2
    netTracks := d.added.length - d.removed.length
    netBytes := (d.added.map ManifestTrack.sizeBytes).sum - (d.removed.map PrevTrack.sizeBytes).sum
    usedBefore := db.readUsedBefore
    usedAfter := next.usedBytes
    capEffectiveBytes := next.capEffectiveBytes }

/-- The diff shows no difference. -/
structure ResolveDiff.Empty (d : ResolveDiff) : Prop where
  added : d.added = []
  removed : d.removed = []
  shifted : d.shifted = []
  net : d.netBytes = 0
  used : d.usedBefore = d.usedAfter

/-! ### Write, then diff -/

section Diff

variable {env : ResolverEnv} {cfg : ResolverConfig} {db db' : Db} {pick : BucketConfig → List Picked}
  {m : Resolution}

theorem mem_prevLoad {p : PrevTrack} : p ∈ db.prevLoad ↔
    db.manifestCurrent.get? p.sha256 = some ⟨p.bucketsCsv, p.sizeBytes⟩ := by
  unfold Db.prevLoad
  rw [List.mem_mergeSort, List.mem_map]
  constructor
  · rintro ⟨r, hr, rfl⟩
    exact Table.mem_rows.mp hr
  · intro h
    exact ⟨(p.sha256, ⟨p.bucketsCsv, p.sizeBytes⟩), Table.mem_rows.mpr h, rfl⟩

/-- A list that is sorted by its keys, which are different, ascends. -/
theorem ascending {α : Type} {key : α → Sha} {xs : List α}
    (honce : (xs.map key).Nodup) :
    (xs.mergeSort fun a b ↦ decide (key a ≤ key b)).Pairwise fun a b ↦ key a < key b := by
  have hsorted : (xs.mergeSort fun a b ↦ decide (key a ≤ key b)).Pairwise fun a b ↦
      decide (key a ≤ key b) = true := by
    apply List.pairwise_mergeSort
    · intro x y z hxy hyz
      rw [decide_eq_true_iff] at hxy hyz ⊢
      exact le_trans hxy hyz
    · intro x y
      rw [Bool.or_eq_true, decide_eq_true_iff, decide_eq_true_iff]
      exact le_total ..
  have hne : (xs.mergeSort fun a b ↦ decide (key a ≤ key b)).Pairwise fun a b ↦ key a ≠ key b := by
    rw [← List.pairwise_map]
    exact ((List.mergeSort_perm ..).map key).nodup_iff.mpr honce
  apply (hsorted.and hne).imp
  intro a b hab
  exact lt_of_le_of_ne (of_decide_eq_true hab.1) hab.2

theorem ascending_prevLoad (db : Db) :
    db.prevLoad.Pairwise fun p q ↦ p.sha256 < q.sha256 := by
  apply ascending
  rw [List.map_map]
  exact Table.nodup_keys _

/-- The resident tracks ascend. -/
theorem ascending_resident (env : ResolverEnv) (cfg : ResolverConfig) (db : Db)
    (pick : BucketConfig → List Picked) :
    (resolveWith env cfg db pick).resident.Pairwise fun n n' ↦ n.sha256 < n'.sha256 := by
  apply ascending
  have honce := nodup_resident cfg.hysteresisRatio db.prevSet cfg.capEffective
    (bucketRows cfg db pick)
  exact ((List.mergeSort_perm ..).map _).nodup_iff.mp honce

/-- What the walk finds. -/
theorem of_diffWalk (hm : m.resident.Pairwise fun n n' ↦ n.sha256 < n'.sha256) (db : Db) :
    Lockstep.Of PrevTrack.sha256 ManifestTrack.sha256 sameBuckets db.prevLoad m.resident
      (diffWalk db m) := Lockstep.of_walk (ascending_prevLoad db) hm

/-- A stored manifest has no track that the manifest does not have. -/
theorem removed_eq_nil (hm : m.resident.Pairwise fun n n' ↦ n.sha256 < n'.sha256)
    (h : db.Manifested m db') : (diffWalk db' m).removed = [] := by
  apply List.eq_nil_iff_forall_not_mem.mpr
  intro p hp
  obtain ⟨hp, hne⟩ := ((of_diffWalk hm db').removed p).mp hp
  obtain ⟨-, t, ht, hsha, -⟩ := (h.tracks _ _).mp (mem_prevLoad.mp hp)
  exact hne t ht hsha.symm

/-- No track is added exactly where none is excluded. -/
theorem added_eq_nil_iff (hm : m.resident.Pairwise fun n n' ↦ n.sha256 < n'.sha256)
    (h : db.Manifested m db') :
    (diffWalk db' m).added = [] ↔ ∀ t ∈ m.resident, db.isExcluded t.sha256 = false := by
  rw [List.eq_nil_iff_forall_not_mem]
  constructor
  · intro hnone t ht
    by_contra hin
    apply hnone t
    refine ((of_diffWalk hm db').added t).mpr ⟨ht, fun p hp he ↦ hin ?_⟩
    rw [← he]
    exact ((h.tracks _ _).mp (mem_prevLoad.mp hp)).1
  · intro hall t ht
    obtain ⟨ht, hne⟩ := ((of_diffWalk hm db').added t).mp ht
    have hrow := (h.tracks t.sha256 ⟨bucketsCsv t.buckets, t.sizeBytes⟩).mpr
      ⟨hall t ht, t, ht, rfl, rfl⟩
    exact hne ⟨t.sha256, bucketsCsv t.buckets, t.sizeBytes⟩ (mem_prevLoad.mpr hrow) rfl

/-- The writer stores the buckets in full where they fit its buffer. -/
theorem bucketsCsv_eq_bucketsToCsv {buckets : List Text} :
    bucketsCsv buckets = bucketsToCsv buckets ↔ (bucketsToCsv buckets).length ≤ 511 := by
  rw [bucketsCsv_eq]
  exact List.take_eq_self_iff _

/-- No track is shifted exactly where the buckets of those that are stored fit. -/
theorem shifted_eq_nil_iff (hm : m.resident.Pairwise fun n n' ↦ n.sha256 < n'.sha256)
    (h : db.Manifested m db') :
    (diffWalk db' m).shifted = [] ↔
      ∀ t ∈ m.resident, db.isExcluded t.sha256 = false → (bucketsToCsv t.buckets).length ≤ 511 := by
  have hone : ∀ t ∈ m.resident, ∀ t' ∈ m.resident, t.sha256 = t'.sha256 → t = t' := by
    have hnodup : (m.resident.map ManifestTrack.sha256).Nodup := by
      rw [List.Nodup, List.pairwise_map]
      exact hm.imp fun hlt ↦ hlt.ne
    exact fun t ht t' ht' he ↦ List.inj_on_of_nodup_map hnodup ht ht' he
  rw [List.eq_nil_iff_forall_not_mem]
  constructor
  · intro hnone t ht hin
    have hrow := (h.tracks t.sha256 ⟨bucketsCsv t.buckets, t.sizeBytes⟩).mpr ⟨hin, t, ht, rfl, rfl⟩
    by_contra hlong
    apply hnone (⟨t.sha256, bucketsCsv t.buckets, t.sizeBytes⟩, t)
    refine ((of_diffWalk hm db').shifted _ _).mpr ⟨mem_prevLoad.mpr hrow, ht, rfl, ?_⟩
    rw [sameBuckets, beq_eq_false_iff_ne]
    exact fun he ↦ hlong (bucketsCsv_eq_bucketsToCsv.mp he)
  · rintro hall ⟨p, n⟩ hpn
    obtain ⟨hp, hn, he, hdiffer⟩ := ((of_diffWalk hm db').shifted p n).mp hpn
    obtain ⟨hin, t, ht, hsha, hcsv⟩ := (h.tracks _ _).mp (mem_prevLoad.mp hp)
    have hsame := hone t ht n hn (hsha.trans he)
    rw [he] at hin
    have hfits := bucketsCsv_eq_bucketsToCsv.mpr (hall n hn hin)
    have hbuckets : p.bucketsCsv = bucketsCsv n.buckets := by
      rw [← hsame]
      exact congrArg ManifestRow.bucketsCsv hcsv
    rw [sameBuckets, beq_eq_false_iff_ne] at hdiffer
    exact hdiffer (hbuckets.trans hfits)

/-- The used bytes are read back. -/
theorem readUsedBefore_eq (h : db.Manifested m db') : db'.readUsedBefore = m.usedBytes := by
  have hnumber := h.numbers (ascii "used_bytes", decimal m.usedBytes) (List.mem_cons_self ..)
  rw [Db.readUsedBefore, hnumber]
  exact atoll_decimal _

/-- The diff against what was stored of the manifest. -/
theorem empty_iff (hm : m.resident.Pairwise fun n n' ↦ n.sha256 < n'.sha256)
    (h : db.Manifested m db') : (printResolveDiff db' m).Empty ↔
      ∀ t ∈ m.resident, db.isExcluded t.sha256 = false ∧ (bucketsToCsv t.buckets).length ≤ 511 := by
  have hremoved := removed_eq_nil hm h
  constructor
  · intro hempty
    have hadded := (added_eq_nil_iff hm h).mp (List.map_eq_nil_iff.mp hempty.added)
    have hshifted := (shifted_eq_nil_iff hm h).mp (List.map_eq_nil_iff.mp hempty.shifted)
    exact fun t ht ↦ ⟨hadded t ht, hshifted t ht (hadded t ht)⟩
  · intro hall
    have hadded := (added_eq_nil_iff hm h).mpr fun t ht ↦ (hall t ht).1
    have hshifted := (shifted_eq_nil_iff hm h).mpr fun t ht _ ↦ (hall t ht).2
    constructor
    · exact List.map_eq_nil_iff.mpr hadded
    · exact List.map_eq_nil_iff.mpr hremoved
    · exact List.map_eq_nil_iff.mpr hshifted
    · show ((diffWalk db' m).added.map ManifestTrack.sizeBytes).sum -
        ((diffWalk db' m).removed.map PrevTrack.sizeBytes).sum = 0
      rw [hadded, hremoved]
      rfl
    · exact readUsedBefore_eq h

/-- After a manifest is written with no more than harmless failures, its diff is empty exactly where
none of its tracks is excluded and the joined buckets of each fit the buffer of the writer. -/
theorem diff_after_write (env : ResolverEnv) (cfg : ResolverConfig) (db : Db)
    (pick : BucketConfig → List Picked) (hpick : MayPick env cfg db pick) (fs : Tree)
    (pattern : List (Option Fault)) (w : World Unit) (rest : List (Reply Fault))
    (hharm : Harmless (manifestWrites (resolveWith env cfg db pick)).length pattern = true)
    (hrun : (writeManifestToDb (resolveWith env cfg db pick)).run ((Machine.mk fs db).start ())
      (replies pattern) = .done true w rest) :
    (printResolveDiff w.conn.view (resolveWith env cfg db pick)).Empty ↔
      ∀ t ∈ (resolveWith env cfg db pick).resident,
        db.isExcluded t.sha256 = false ∧ (bucketsToCsv t.buckets).length ≤ 511 := by
  obtain ⟨ok, w', rest', hrun', htxn, hwritten, -⟩ :=
    allOrNothing_of_harmless hharm fs db (fits_resolveWith hpick)
  rw [hrun] at hrun'
  injection hrun' with hok hw
  have hview : w.conn.view = w'.conn.committed := by
    rw [hw, Conn.view, htxn]
  rw [hview]
  exact empty_iff (ascending_resident env cfg db pick) (hwritten hok.symm)

end Diff

namespace OneUnsynced

/-- The unsynced track is added again and again. -/
theorem added_again :
    ¬ (printResolveDiff (db.afterWrite (resolve .sample cfg db)) (resolve .sample cfg db)).Empty := by
  intro hempty
  rw [afterWrite_eq] at hempty
  have hresident : (⟨[97], 50, [ascii "recent_adds"]⟩ : ManifestTrack) ∈
      (resolve .sample cfg db).resident := by
    rw [resolve_eq_evalRun]
    decide +kernel
  have hin : db.isExcluded [97] = true := by decide +kernel
  have hall := (empty_iff (ascending_resident .sample cfg db _)
    (manifested_written (fits_resolve .sample cfg db))).mp hempty
  have hout := (hall _ hresident).1
  rw [hin] at hout
  cases hout

end OneUnsynced

namespace ThreeTracks

/-- No track is excluded, and the names are short. -/
theorem written_and_compared : ∃ w rest,
    (writeManifestToDb (resolve .sample cfg db)).run ((Machine.mk .empty db).start ())
      (replies []) = .done true w rest ∧
    (printResolveDiff w.conn.view (resolve .sample cfg db)).Empty := by
  obtain ⟨rest, hrun⟩ := run_writeManifestToDb (resolve .sample cfg db) Tree.empty db () []
  rw [writeOutcome_nil] at hrun
  have hharm : Harmless (manifestWrites (resolve .sample cfg db)).length [] = true := by
    have hsettles : ∀ n, TxnSettles n false [] = true := by
      intro n
      induction n with
      | zero => rfl
      | succ n ih => exact ih
    exact hsettles _
  have hall : ∀ t ∈ (resolve .sample cfg db).resident,
      db.isExcluded t.sha256 = false ∧ (bucketsToCsv t.buckets).length ≤ 511 := by
    rw [resolve_eq_evalRun]
    decide +kernel
  exact ⟨_, rest, hrun, (diff_after_write .sample cfg db _ (mayPick_storedPick .sample cfg db)
    .empty [] _ rest hharm hrun).mpr hall⟩

end ThreeTracks

end Nocturne
