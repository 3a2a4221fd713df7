import Nocturne.Resolve.Buckets

/-!
# The hysteresis of the resolver

A resolution whose previous manifest is its own result does not change: what was admitted is
charged less than before, or as much, and what was passed over is charged more.
-/

namespace Nocturne

open Lib

variable {h : ℚ} {prev : List Sha} {cap : Int} {rows : List BucketRow}

/-! ### Charges -/

theorem truncate_mono {p q : ℚ} (hp : 0 ≤ p) (hpq : p ≤ q) : truncate p ≤ truncate q := by
  rw [truncate_of_nonneg hp, truncate_of_nonneg (le_trans hp hpq)]
  exact Int.floor_mono hpq

/-- The discount is no more than what a track is charged in any case. -/
theorem discounted_le {c : Cand} (h1 : h ≤ 1) (hsize : 0 ≤ c.sizeBytes)
    {prev' : List Sha} (hin : c.sha256 ∈ prev') :
    effectiveSize h prev' c ≤ effectiveSize h prev c := by
  have hq : (0 : ℚ) ≤ c.sizeBytes := by exact_mod_cast hsize
  unfold effectiveSize
  rw [if_pos hin]
  split
  · apply truncate_mono
    · exact mul_nonneg hq (by linarith)
    · apply mul_le_mul_of_nonneg_left _ hq
      split <;> linarith
  · exact Int.le_refl _

/-- The surcharge is no less than what a track is charged in any case. -/
theorem le_surcharged {c : Cand} (h1 : h ≤ 1) (hsize : 0 ≤ c.sizeBytes)
    {prev' : List Sha} (hout : c.sha256 ∉ prev') :
    effectiveSize h prev c ≤ effectiveSize h prev' c := by
  have hq : (0 : ℚ) ≤ c.sizeBytes := by exact_mod_cast hsize
  unfold effectiveSize
  rw [if_neg hout]
  split
  · apply truncate_mono
    · apply mul_nonneg hq
      split <;> linarith
    · apply mul_le_mul_of_nonneg_left _ hq
      split <;> linarith
  · exact Int.le_refl _

/-! ### The fixpoint -/

theorem nodup_sorted (rows : List BucketRow) :
    (((candidates rows).mergeSort cmpCandPriority).map Cand.sha256).Nodup :=
  ((List.mergeSort_perm ..).map _).nodup_iff.mpr (candsOf_candidates rows).distinct

/-- The admission repeats itself. -/
theorem resolverRun_again (h1 : h ≤ 1) (hrows : ∀ r ∈ rows, 0 ≤ r.sizeBytes)
    {prev' : List Sha}
    (hprev : ∀ sha, sha ∈ prev' ↔ ∃ t ∈ (resolverRun h prev cap rows).resident, t.sha256 = sha) :
    resolverRun h prev' cap rows = resolverRun h prev cap rows := by
  have hsize : ∀ c ∈ (candidates rows).mergeSort cmpCandPriority, 0 ≤ c.sizeBytes := by
    intro c hc
    obtain ⟨r, hr, he⟩ := ((candsOf_candidates rows).each c (mem_sorted.mp hc)).size
    rw [← he]
    exact hrows r hr
  have hnodup := nodup_sorted rows
  -- a candidate is in the new previous set where it was admitted
  have hin : ∀ c ∈ (candidates rows).mergeSort cmpCandPriority, c.sha256 ∈ prev' ↔
      c ∈ (admission h prev cap ((candidates rows).mergeSort cmpCandPriority)).admitted := by
    intro c hc
    rw [hprev]
    constructor
    · rintro ⟨t, ht, he⟩
      obtain ⟨c', hc', rfl⟩ := mem_resident.mp ht
      have hsame : c' = c :=
        List.inj_on_of_nodup_map hnodup ((admitted_sublist ..).subset hc') hc he
      exact hsame ▸ hc'
    · intro hadm
      exact ⟨c.track, mem_resident.mpr ⟨c, hadm, rfl⟩, rfl⟩
  have hrun : admission h prev' cap ((candidates rows).mergeSort cmpCandPriority) =
      admission h prev cap ((candidates rows).mergeSort cmpCandPriority) := by
    apply Greedy.run_eq_run (List.Nodup.of_map _ hnodup)
    · exact fun c _ hc ↦ by cases hc
    · intro c hc hadm
      exact discounted_le h1 (hsize c hc) ((hin c hc).mpr hadm)
    · intro c hc hadm
      exact le_surcharged h1 (hsize c hc) fun hmem ↦ hadm ((hin c hc).mp hmem)
  unfold resolverRun
  rw [hrun]

/-- A resolution on a database whose `manifest_current` is its own result has the same result:
the manifest is a fixpoint where the sizes of the tracks are not negative. -/
theorem hysteresis_fixpoint (env : ResolverEnv) (cfg : ResolverConfig) (db : Db)
    (h1 : cfg.hysteresisRatio ≤ 1)
    (hsizes : ∀ sha row, db.tracks.get? sha = some row → 0 ≤ row.sizeBytes)
    (pick : BucketConfig → List Picked) (hpick : MayPick env cfg db pick)
    (previous : Table Sha ManifestRow)
    (hprev : ∀ sha, (previous.get? sha).isSome ↔
      ∃ t ∈ (resolveWith env cfg db pick).resident, t.sha256 = sha) :
    resolveWith env cfg { db with manifestCurrent := previous } pick =
      resolveWith env cfg db pick := by
  have hrows : ∀ r ∈ bucketRows cfg db pick, 0 ≤ r.sizeBytes := by
    intro r hr
    obtain ⟨row, hrow, he⟩ := size_of_bucketRows hpick hr
    rw [← he]
    exact hsizes _ _ hrow
  have hmem : ∀ sha, sha ∈ ({ db with manifestCurrent := previous } : Db).prevSet ↔
      ∃ t ∈ (resolveWith env cfg db pick).resident, t.sha256 = sha := by
    intro sha
    rw [← hprev, Option.isSome_iff_exists, Db.prevSet, List.mem_map]
    constructor
    · rintro ⟨⟨s, row⟩, hr, rfl⟩
      exact ⟨row, Table.mem_rows.mp hr⟩
    · rintro ⟨row, hrow⟩
      exact ⟨(sha, row), Table.mem_rows.mpr hrow, rfl⟩
  have hrun := @resolverRun_again _ _ cfg.capEffective _ h1 hrows _ hmem
  unfold resolveWith
  rw [show bucketRows cfg { db with manifestCurrent := previous } pick = bucketRows cfg db pick
    from rfl, hrun]
  rfl

/-! Three tracks under a cap that has room for two, one of them pinned. -/

namespace ThreeTracks

def db : Db := (Db.ofTracks [([97], 20), ([98], 30), ([99], 30)]).upsertPin .track [97] ⟨true, 0, []⟩

def cfg : ResolverConfig where
  capBytes := 60
  capEffectiveRatio := 1
  hysteresisRatio := 1 / 10
  coldStartPlayThreshold := 10
  randomSeed := 0
  buckets := [⟨ascii "recent_adds", 80, ascii "recent_adds_by_mtime", 14⟩,
    ⟨ascii "manual_pins", 200, ascii "manual_pins", 0⟩]
  distinct := by decide

def previous : Table Sha ManifestRow :=
  (Table.empty.put [97] ⟨ascii "manual_pins,recent_adds", 20⟩).put [98] ⟨ascii "recent_adds", 30⟩

theorem resident : (resolve .sample cfg db).resident.map ManifestTrack.sha256 = [[97], [98]] := by
  rw [resolve_eq_evalRun]
  decide +kernel

/-- The first two stay. -/
theorem settled : resolve .sample cfg { db with manifestCurrent := previous } =
    resolve .sample cfg db := by
  have hprev : ∀ sha, (previous.get? sha).isSome ↔
      ∃ t ∈ (resolve .sample cfg db).resident, t.sha256 = sha := by
    intro sha
    rw [← List.mem_map, resident, previous, Table.get?_put, Table.get?_put]
    by_cases hb : sha = [98] <;> by_cases ha : sha = [97] <;> simp [ha, hb]
  have hsizes : ∀ sha row, db.tracks.get? sha = some row → 0 ≤ row.sizeBytes := by
    intro sha row hrow
    have hall : ∀ r ∈ db.tracks.table.rows, 0 ≤ r.2.sizeBytes := by decide +kernel
    exact hall (sha, row) (Table.mem_rows.mpr hrow)
  exact hysteresis_fixpoint .sample cfg db (by norm_num [cfg]) hsizes _
    (mayPick_storedPick .sample cfg db) previous hprev

end ThreeTracks

/-! A pinned track, and one whose size is negative: no constraint of the table refuses it. -/

namespace NegativeSize

def db : Db := (Db.ofTracks [([97], 20), ([98], -10)]).upsertPin .track [97] ⟨true, 0, []⟩

def cfg : ResolverConfig where
  capBytes := 8
  capEffectiveRatio := 1
  hysteresisRatio := 1 / 2
  coldStartPlayThreshold := 10
  randomSeed := 0
  buckets := ThreeTracks.cfg.buckets
  distinct := ThreeTracks.cfg.distinct

def previous : Table Sha ManifestRow :=
  (Table.empty.put [97] ⟨ascii "manual_pins,recent_adds", 20⟩).put [98] ⟨ascii "recent_adds", -10⟩

/-- The track of negative size is charged −15 at first, and admitted; in the second run it is
charged −5, which exceeds the cap. -/
theorem drops_out : (resolve .sample cfg db).resident.map ManifestTrack.sha256 = [[97], [98]] ∧
    (resolve .sample cfg db).usedBytes = 10 ∧
    { db with manifestCurrent := previous }.prevSet = [[98], [97]] ∧
    (resolve .sample cfg { db with manifestCurrent := previous }).resident.map
      ManifestTrack.sha256 = [[97]] ∧
    (resolve .sample cfg { db with manifestCurrent := previous }).usedBytes = 20 := by
  rw [resolve_eq_evalRun, resolve_eq_evalRun]
  decide +kernel

end NegativeSize

end Nocturne
