import Mathlib.Algebra.Order.BigOperators.Group.List
import Nocturne.Resolve.AllOrNothing

/-!
# Excluded tracks

`write_manifest_to_db` drops the unsynced and the blacklisted tracks after `resolver_run` has
chosen. Dropping them beforehand gives the same tables where an excluded track neither has a size
nor takes a place in a bucket.
-/

namespace Nocturne

open Lib

/-- The database with the excluded tracks taken out of the candidates. -/
def Db.withoutExcluded (db : Db) : Db :=
  { db with tracks := db.tracks.keep fun sha _ ↦ !db.isExcluded sha }

/-- The database after `resolve`: `write_manifest_to_db` without incident. -/
def Db.afterWrite (db : Db) (m : Resolution) : Db :=
  ((writeManifestToDb m).eval ((Machine.mk .empty db).start ())).2.stop.db

/-- `resolve` writes the tracks that it would write if the excluded ones were no candidates, and
the sum of their sizes. -/
def ExcludedAside (env : ResolverEnv) (cfg : ResolverConfig) (db : Db) : Prop :=
  let after := db.afterWrite (resolve env cfg db)
  (∀ sha, after.manifestCurrent.get? sha =
    (db.afterWrite (resolve env cfg db.withoutExcluded)).manifestCurrent.get? sha) ∧
  after.manifestMeta.get? (ascii "used_bytes") =
    some (decimal (after.manifestCurrent.rows.map fun r ↦ r.2.sizeBytes).sum)

/-- The rows that the queries return on the tables as they are stored. -/
def storedRows (env : ResolverEnv) (cfg : ResolverConfig) (db : Db) : List BucketRow :=
  bucketRows cfg db (storedPick env cfg db)

/-- The excluded tracks take nothing: those that a query returns have no size, and without them
no query returns another track. -/
structure TakeNothing (env : ResolverEnv) (cfg : ResolverConfig) (db : Db) : Prop where
  bytes : ∀ r ∈ storedRows env cfg db, db.isExcluded r.sha256 = true → r.sizeBytes = 0
  places : ∀ r ∈ storedRows env cfg db.withoutExcluded, r ∈ storedRows env cfg db

section Exclude

variable {env : ResolverEnv} {cfg : ResolverConfig} {db : Db} {m : Resolution} {r : BucketRow}

/-! ### The written tables -/

/-- Without incident the manifest is written. -/
theorem afterWrite_eq (db : Db) (m : Resolution) : db.afterWrite m = written m db := by
  obtain ⟨rest, hrun⟩ := run_writeManifestToDb m Tree.empty db () []
  have heval := (Proc.run_nil (writeManifestToDb m) ((Machine.mk .empty db).start ())).symm.trans hrun
  injection heval with _ hstate
  unfold Db.afterWrite
  rw [hstate, writeOutcome_nil]
  rfl

theorem fits_resolve (env : ResolverEnv) (cfg : ResolverConfig) (db : Db) :
    (resolve env cfg db).Fits db := fits_resolveWith (mayPick_storedPick env cfg db)

theorem get?_withoutExcluded (db : Db) (sha : Sha) : db.withoutExcluded.tracks.get? sha =
    (db.tracks.get? sha).filter fun _ ↦ !db.isExcluded sha := UniqueTable.get?_keep _

/-- A track of a database without excluded tracks is one of the database, and not excluded. -/
theorem known_of_withoutExcluded {sha : Sha} (h : (db.withoutExcluded.tracks.get? sha).isSome) :
    (db.tracks.get? sha).isSome ∧ db.isExcluded sha = false := by
  rw [get?_withoutExcluded, Option.isSome_iff_exists] at h
  obtain ⟨row, hrow⟩ := h
  obtain ⟨hget, hin⟩ := Option.filter_eq_some_iff.mp hrow
  exact ⟨by rw [hget]; rfl, by simpa using hin⟩

theorem fits_withoutExcluded (env : ResolverEnv) (cfg : ResolverConfig) (db : Db) :
    (resolve env cfg db.withoutExcluded).Fits db where
  once := nodup_resident _ _ _ _
  known t ht := (known_of_withoutExcluded ((fits_resolve env cfg db.withoutExcluded).known t ht)).1

/-! ### The candidates -/

theorem pick_withoutExcluded (db : Db) (key : Sha → TrackRow → Option SqlValue) :
    db.withoutExcluded.pick key = (db.pick key).filter fun p ↦ !db.isExcluded p.sha256 := by
  have hrows : db.withoutExcluded.tracks.table.rows =
      db.tracks.table.rows.filter fun r ↦ !db.isExcluded r.1 := Table.rows_keep ..
  unfold Db.pick
  rw [hrows]
  generalize db.tracks.table.rows = rows
  induction rows with
  | nil => rfl
  | cons r rows ih =>
    cases hin : db.isExcluded r.1 <;> cases hk : key r.1 r.2 <;>
      simp [hin, hk, ih]

/-- Without the excluded tracks the other rows stay. -/
theorem mem_storedRows_withoutExcluded (hr : r ∈ storedRows env cfg db)
    (hin : db.isExcluded r.sha256 = false) : r ∈ storedRows env cfg db.withoutExcluded := by
  obtain ⟨bc, hbc, p, hp, rfl⟩ := mem_bucketRows.mp hr
  refine mem_bucketRows.mpr ⟨bc, hbc, p, ?_, rfl⟩
  unfold storedPick at hp ⊢
  cases hq : bucketQuery env cfg db bc with
  | none =>
    rw [hq] at hp
    cases hp
  | some q =>
    rw [hq] at hp
    obtain ⟨s, hs, rfl⟩ := bucketQuery_eq_some.mp hq
    have hq' : bucketQuery env cfg db.withoutExcluded bc =
        some ⟨(db.pick s.key).filter fun p ↦ !db.isExcluded p.sha256, s.le, bc.count.toNat⟩ :=
      bucketQuery_eq_some.mpr ⟨s, hs, by rw [pick_withoutExcluded]⟩
    rw [hq']
    apply Query.mem_answer_filter (bucketQuery_order hq) hp
    rw [hin]
    rfl

/-- Where the excluded tracks take no places, their rows are all that is missing without them. -/
theorem TakeNothing.mem_iff (h : TakeNothing env cfg db) (r : BucketRow) :
    r ∈ storedRows env cfg db.withoutExcluded ↔
      r ∈ storedRows env cfg db ∧ (!db.isExcluded r.sha256) = true := by
  rw [Bool.not_eq_true']
  constructor
  · intro hr
    obtain ⟨row, hrow, -⟩ := size_of_bucketRows (mayPick_storedPick env cfg db.withoutExcluded) hr
    exact ⟨h.places r hr, (known_of_withoutExcluded (by rw [hrow]; rfl)).2⟩
  · rintro ⟨hr, hin⟩
    exact mem_storedRows_withoutExcluded hr hin

/-! ### Nothing taken -/

/-- The admission passes by what takes nothing. -/
theorem TakeNothing.admission (h : TakeNothing env cfg db) (hyst : ℚ) (prev : List Sha) (cap : Int) :
    let all := Nocturne.admission hyst prev cap
      ((candidates (storedRows env cfg db)).mergeSort cmpCandPriority)
    let rest := Nocturne.admission hyst prev cap
      ((candidates (storedRows env cfg db.withoutExcluded)).mergeSort cmpCandPriority)
    rest.used = all.used ∧ rest.admitted.map Cand.normal =
      (all.admitted.filter fun c ↦ !db.isExcluded c.sha256).map Cand.normal := by
  intro all rest
  have hsorted := @sorted_normal (storedRows env cfg db) (storedRows env cfg db.withoutExcluded)
    (fun sha ↦ !db.isExcluded sha) (oneSize_bucketRows (mayPick_storedPick env cfg db)) h.mem_iff
  have hfilter := @Greedy.run_filter Cand Int _ _ Cand.sizeBytes (effectiveSize hyst prev)
    (fun c ↦ decide (10 ≤ c.priority)) cap Greedy.start
    ((candidates (storedRows env cfg db)).mergeSort cmpCandPriority)
    (fun c ↦ !db.isExcluded c.sha256) (by
      intro c hc hin
      obtain ⟨r, hr, hsha, hsize⟩ := (candFrom_candidates _ c (mem_sorted.mp hc)).size
      rw [← hsize]
      apply h.bytes r hr
      rw [hsha]
      simpa using hin)
  have hrest := admission_normal hyst prev cap
    ((candidates (storedRows env cfg db.withoutExcluded)).mergeSort cmpCandPriority)
  have hleft := admission_normal hyst prev cap
    (((candidates (storedRows env cfg db)).mergeSort cmpCandPriority).filter
      fun c ↦ !db.isExcluded c.sha256)
  have hall : Nocturne.admission hyst prev cap
      (((candidates (storedRows env cfg db)).mergeSort cmpCandPriority).filter
        fun c ↦ !db.isExcluded c.sha256) =
          ⟨all.used, all.admitted.filter fun c ↦ !db.isExcluded c.sha256⟩ := hfilter
  have hsame := hrest.symm.trans ((congrArg (Nocturne.admission hyst prev cap) hsorted).trans hleft)
  rw [hall] at hsame
  injection hsame with hused hadmitted
  exact ⟨hused, hadmitted⟩

/-- Where the excluded tracks take nothing, the resolution without them has the other tracks. -/
theorem TakeNothing.resident (h : TakeNothing env cfg db) (t : ManifestTrack) :
    t ∈ (resolve env cfg db.withoutExcluded).resident ↔
      t ∈ (resolve env cfg db).resident ∧ db.isExcluded t.sha256 = false := by
  obtain ⟨-, hadmitted⟩ := h.admission cfg.hysteresisRatio db.prevSet cfg.capEffective
  have htrack : ∀ cs : List Cand, cs.map Cand.track = (cs.map Cand.normal).map Cand.sortedTrack := by
    intro cs
    rw [List.map_map]
    rfl
  have hmem : ∀ rows, t ∈ (resolverRun cfg.hysteresisRatio db.prevSet cfg.capEffective rows).resident ↔
      t ∈ ((Nocturne.admission cfg.hysteresisRatio db.prevSet cfg.capEffective
        ((candidates rows).mergeSort cmpCandPriority)).admitted.map Cand.normal).map
          Cand.sortedTrack := by
    intro rows
    rw [← htrack, mem_resident, List.mem_map]
  show t ∈ (resolverRun cfg.hysteresisRatio db.prevSet cfg.capEffective
    (storedRows env cfg db.withoutExcluded)).resident ↔ t ∈ (resolverRun cfg.hysteresisRatio
      db.prevSet cfg.capEffective (storedRows env cfg db)).resident ∧ _
  rw [hmem, hmem, hadmitted, ← htrack, ← htrack, List.mem_map, List.mem_map]
  constructor
  · rintro ⟨c, hc, rfl⟩
    obtain ⟨hc, hin⟩ := List.mem_filter.mp hc
    have hin' : db.isExcluded c.sha256 = false := by simpa using hin
    exact ⟨⟨c, hc, rfl⟩, hin'⟩
  · rintro ⟨⟨c, hc, rfl⟩, hin⟩
    refine ⟨c, List.mem_filter.mpr ⟨hc, ?_⟩, rfl⟩
    show (!db.isExcluded c.track.sha256) = true
    rw [hin]
    rfl

/-! ### Sums -/

/-- The rows that are written for a resolution, in some order. -/
theorem rows_written (hfits : m.Fits db) : (written m db).manifestCurrent.rows.Perm
    ((m.resident.filter fun t ↦ !db.isExcluded t.sha256).map fun t ↦
      (t.sha256, ⟨bucketsCsv t.buckets, t.sizeBytes⟩)) := by
  have hwritten := (manifested_written hfits).tracks
  rw [List.perm_ext_iff_of_nodup]
  · intro ⟨sha, row⟩
    rw [Table.mem_rows, hwritten, List.mem_map]
    constructor
    · rintro ⟨hin, t, ht, rfl, rfl⟩
      exact ⟨t, List.mem_filter.mpr ⟨ht, by rw [hin]; rfl⟩, rfl⟩
    · rintro ⟨t, ht, he⟩
      cases he
      obtain ⟨ht, hin⟩ := List.mem_filter.mp ht
      exact ⟨by simpa using hin, t, ht, rfl, rfl⟩
  · exact List.Nodup.of_map _ (Table.nodup_keys _)
  · apply List.Nodup.of_map Prod.fst
    rw [List.map_map]
    exact (List.filter_sublist.map ManifestTrack.sha256).nodup hfits.once

/-- The sizes of the tracks that are written. -/
theorem sum_written (hfits : m.Fits db) :
    ((written m db).manifestCurrent.rows.map fun r ↦ r.2.sizeBytes).sum =
      ((m.resident.filter fun t ↦ !db.isExcluded t.sha256).map ManifestTrack.sizeBytes).sum := by
  have hsum := ((rows_written hfits).map fun r ↦ r.2.sizeBytes).sum_eq
  rw [hsum, List.map_map]
  rfl

theorem sum_filter_add (p : ManifestTrack → Bool) (ts : List ManifestTrack) :
    (ts.map ManifestTrack.sizeBytes).sum = ((ts.filter p).map ManifestTrack.sizeBytes).sum +
      ((ts.filter fun t ↦ !p t).map ManifestTrack.sizeBytes).sum := by
  induction ts with
  | nil => rfl
  | cons t ts ih =>
    cases hp : p t <;> simp [hp, ih] <;> omega

/-- The used bytes are those of the tracks that are written, and those of the excluded ones. -/
theorem usedBytes_eq (env : ResolverEnv) (cfg : ResolverConfig) (db : Db) :
    (resolve env cfg db).usedBytes =
      ((written (resolve env cfg db) db).manifestCurrent.rows.map fun r ↦ r.2.sizeBytes).sum +
        (((resolve env cfg db).resident.filter fun t ↦ db.isExcluded t.sha256).map
          ManifestTrack.sizeBytes).sum := by
  have hused : (resolve env cfg db).usedBytes =
      ((resolve env cfg db).resident.map ManifestTrack.sizeBytes).sum := by
    have hsum := ((resident_perm cfg.hysteresisRatio db.prevSet cfg.capEffective
      (storedRows env cfg db)).map ManifestTrack.sizeBytes).sum_eq
    rw [List.map_map] at hsum
    exact (Greedy.used_run rfl).trans hsum.symm
  rw [hused, sum_written (fits_resolve env cfg db),
    sum_filter_add (fun t ↦ !db.isExcluded t.sha256) (resolve env cfg db).resident]
  simp only [Bool.not_not]

/-- A resident track has the size of a row. -/
theorem row_of_resident {t : ManifestTrack} (ht : t ∈ (resolve env cfg db).resident) :
    ∃ r ∈ storedRows env cfg db, r.sha256 = t.sha256 ∧ r.sizeBytes = t.sizeBytes := by
  obtain ⟨c, hc, rfl, -⟩ := cand_of_resident ht
  exact (candFrom_candidates _ c hc).size

/-- Where the excluded tracks take nothing, `resolve` writes what it would write without them. -/
theorem TakeNothing.excludedAside (h : TakeNothing env cfg db) : ExcludedAside env cfg db := by
  unfold ExcludedAside
  rw [afterWrite_eq, afterWrite_eq]
  have hall := manifested_written (fits_resolve env cfg db)
  have hrest := manifested_written (fits_withoutExcluded env cfg db)
  constructor
  · intro sha
    ext row
    show (written _ db).manifestCurrent.get? sha = some row ↔
      (written _ db).manifestCurrent.get? sha = some row
    rw [hall.tracks, hrest.tracks]
    constructor
    · rintro ⟨hin, t, ht, rfl, hrow⟩
      exact ⟨hin, t, (h.resident t).mpr ⟨ht, hin⟩, rfl, hrow⟩
    · rintro ⟨hin, t, ht, hsha, hrow⟩
      exact ⟨hin, t, ((h.resident t).mp ht).1, hsha, hrow⟩
  · have hzero : (((resolve env cfg db).resident.filter fun t ↦ db.isExcluded t.sha256).map
        ManifestTrack.sizeBytes).sum = 0 := by
      apply List.sum_eq_zero
      intro size hsize
      obtain ⟨t, ht, rfl⟩ := List.mem_map.mp hsize
      obtain ⟨ht, hin⟩ := List.mem_filter.mp ht
      obtain ⟨r, hr, hsha, hsize⟩ := row_of_resident ht
      rw [← hsize]
      exact h.bytes r hr (by rw [hsha]; exact hin)
    have hused := usedBytes_eq env cfg db
    rw [hzero, add_zero] at hused
    have hnumber := hall.numbers (ascii "used_bytes", decimal (resolve env cfg db).usedBytes)
      (List.mem_cons_self ..)
    rw [← hused]
    exact hnumber

/-! ### Something taken -/

/-- The bytes of the joined buckets. -/
theorem length_csvPieces {bs : List Text} (h : bs ≠ []) :
    (csvPieces bs).flatten.length + 1 = (bs.map fun b ↦ b.length + 1).sum := by
  cases bs with
  | nil => exact absurd rfl h
  | cons b bs =>
    have hrest : (bs.map fun b ↦ (44 :: b : Text)).flatten.length =
        (bs.map fun b ↦ b.length + 1).sum := by
      rw [List.length_flatten, List.map_map]
      rfl
    rw [csvPieces, List.flatten_cons, List.length_append, hrest, List.map_cons, List.sum_cons]
    omega

theorem sum_le_of_subset {bs bs' : List Text} (honce : bs.Nodup) (hsub : bs ⊆ bs') :
    (bs.map fun b ↦ b.length + 1).sum ≤ (bs'.map fun b ↦ b.length + 1).sum := by
  obtain ⟨cs, hperm, hcs⟩ := honce.subperm hsub
  rw [← (hperm.map fun b ↦ b.length + 1).sum_eq]
  exact (hcs.map fun b ↦ b.length + 1).sum_le_sum fun _ _ ↦ Nat.zero_le _

/-- A list of buckets with all of another one, and no longer when joined, has no more. -/
theorem subset_of_sum_le {bs bs' : List Text} (honce : bs.Nodup) (hsub : bs ⊆ bs')
    (hsum : (bs'.map fun b ↦ b.length + 1).sum ≤ (bs.map fun b ↦ b.length + 1).sum) :
    bs' ⊆ bs := by
  intro b hb
  by_contra hnot
  have hle := sum_le_of_subset (List.nodup_cons.mpr ⟨hnot, honce⟩)
    (List.cons_subset.mpr ⟨hb, hsub⟩)
  rw [List.map_cons, List.sum_cons] at hle
  omega

/-- Under a large cap every row has its track, with the bucket of the row. -/
theorem exists_resident (env : ResolverEnv) (cfg : ResolverConfig) (db : Db) :
    ∃ bound, ∀ cap, bound ≤ cap → ∀ r ∈ storedRows env cfg db,
      ∃ t ∈ (resolve env (cfg.withCap cap 1) db).resident, t.sha256 = r.sha256 ∧
        t.sizeBytes = r.sizeBytes ∧ r.bucket ∈ t.buckets := by
  obtain ⟨bound, hbound⟩ := exists_cap_resident cfg.hysteresisRatio db.prevSet
    (storedRows env cfg db)
  refine ⟨bound, fun cap hcap r hr ↦ ?_⟩
  obtain ⟨c, hc, hsha⟩ := (candsOf_candidates _).complete r hr
  refine ⟨c.track, ?_, hsha, ?_, ?_⟩
  · show c.track ∈ (resolverRun cfg.hysteresisRatio db.prevSet (cfg.withCap cap 1).capEffective
      (storedRows env cfg db)).resident
    rw [capEffective_withCap]
    exact hbound cap hcap c hc
  · obtain ⟨r', hr', hsha', hsize⟩ := (candFrom_candidates _ c hc).size
    rw [Cand.track, ← hsize]
    exact oneSize_bucketRows (mayPick_storedPick env cfg db) r' hr' r hr (hsha'.trans hsha)
  · rw [Cand.track, List.mem_mergeSort, ((candsOf_candidates _).each c hc).buckets]
    exact ⟨r, hr, hsha.symm, rfl⟩

/-- The buckets of a resident track are those of its rows, each once. -/
theorem buckets_of_resident {t : ManifestTrack} (ht : t ∈ (resolve env cfg db).resident) :
    t.buckets.Nodup ∧ ∀ b, b ∈ t.buckets ↔
      ∃ r ∈ storedRows env cfg db, r.sha256 = t.sha256 ∧ r.bucket = b := by
  obtain ⟨c, -, rfl, hc⟩ := cand_of_resident ht
  constructor
  · exact (List.mergeSort_perm ..).nodup_iff.mpr hc.once
  · intro b
    rw [Cand.track, List.mem_mergeSort]
    exact hc.buckets b

/-- The buckets of a resident track are configured. -/
theorem buckets_subset {t : ManifestTrack} (ht : t ∈ (resolve env cfg db).resident) :
    t.buckets ⊆ cfg.buckets.map BucketConfig.name := by
  intro b hb
  obtain ⟨r, hr, -, rfl⟩ := ((buckets_of_resident ht).2 b).mp hb
  obtain ⟨bc, hbc, p, -, rfl⟩ := mem_bucketRows.mp hr
  exact List.mem_map_of_mem (List.mem_filter.mp hbc).1

/-- Names that fit the buffer together are not cut off. -/
theorem bucketsCsv_of_fits {t : ManifestTrack} (ht : t ∈ (resolve env cfg db).resident)
    (hnames : (cfg.buckets.map fun bc ↦ bc.name.length + 1).sum ≤ 512) :
    bucketsCsv t.buckets = (csvPieces t.buckets).flatten ∧
      (csvPieces t.buckets).flatten.length + 1 = (t.buckets.map fun b ↦ b.length + 1).sum := by
  have hne : t.buckets ≠ [] := by
    intro hnil
    obtain ⟨r, hr, hsha, -⟩ := row_of_resident ht
    have hin := ((buckets_of_resident ht).2 r.bucket).mpr ⟨r, hr, hsha, rfl⟩
    rw [hnil] at hin
    cases hin
  have hlength := length_csvPieces hne
  have hle := sum_le_of_subset (buckets_of_resident ht).1 (buckets_subset ht)
  rw [List.map_map] at hle
  have hmap : (cfg.buckets.map ((fun b : Text ↦ b.length + 1) ∘ BucketConfig.name)).sum ≤ 512 :=
    hnames
  constructor
  · rw [bucketsCsv_eq, List.take_of_length_le (by omega)]
  · exact hlength

/-- Where the used bytes are those of the written tracks, the excluded ones have no size. -/
theorem bytes_of_excludedAside (hsizes : ∀ sha row, db.tracks.get? sha = some row → 0 ≤ row.sizeBytes)
    (haside : ∀ capBytes ratio, ExcludedAside env (cfg.withCap capBytes ratio) db) :
    ∀ r ∈ storedRows env cfg db, db.isExcluded r.sha256 = true → r.sizeBytes = 0 := by
  intro r hr hin
  obtain ⟨cap, hbound⟩ := exists_resident env cfg db
  obtain ⟨t, ht, hsha, hsize, -⟩ := hbound cap (Int.le_refl cap) r hr
  have hused := (haside cap 1).2
  rw [afterWrite_eq] at hused
  have hnumber := (manifested_written (fits_resolve env (cfg.withCap cap 1) db)).numbers
    (ascii "used_bytes", decimal (resolve env (cfg.withCap cap 1) db).usedBytes)
    (List.mem_cons_self ..)
  have hsame := decimal_injective (Option.some.inj (hnumber.symm.trans hused))
  have hzero := usedBytes_eq env (cfg.withCap cap 1) db
  rw [hsame] at hzero
  have hsum : (((resolve env (cfg.withCap cap 1) db).resident.filter fun t ↦
      db.isExcluded t.sha256).map ManifestTrack.sizeBytes).sum = 0 := by omega
  have hpos : ∀ size ∈ ((resolve env (cfg.withCap cap 1) db).resident.filter fun t ↦
      db.isExcluded t.sha256).map ManifestTrack.sizeBytes, 0 ≤ size := by
    intro size hsize
    obtain ⟨t', ht', rfl⟩ := List.mem_map.mp hsize
    obtain ⟨r', hr', -, hsize'⟩ := row_of_resident (List.mem_filter.mp ht').1
    obtain ⟨row, hrow, hrowsize⟩ := size_of_bucketRows (mayPick_storedPick _ _ _) hr'
    rw [← hsize', ← hrowsize]
    exact hsizes _ row hrow
  rw [← hsize]
  apply List.all_zero_of_le_zero_le_of_sum_eq_zero hpos hsum
  apply List.mem_map_of_mem
  rw [List.mem_filter, hsha]
  exact ⟨ht, hin⟩

/-- Where the same tracks are written with the same buckets, no row is new. -/
theorem places_of_excludedAside
    (hnames : (cfg.buckets.map fun bc ↦ bc.name.length + 1).sum ≤ 512)
    (haside : ∀ capBytes ratio, ExcludedAside env (cfg.withCap capBytes ratio) db) :
    ∀ r ∈ storedRows env cfg db.withoutExcluded, r ∈ storedRows env cfg db := by
  intro r hr
  obtain ⟨cap, hbound⟩ := exists_resident env cfg db.withoutExcluded
  obtain ⟨t', ht', hsha', -, hbucket⟩ := hbound cap (Int.le_refl cap) r hr
  obtain ⟨row, hrow, hsize⟩ := size_of_bucketRows (mayPick_storedPick env cfg db.withoutExcluded) hr
  have hin : db.isExcluded r.sha256 = false :=
    (known_of_withoutExcluded (by rw [hrow]; rfl)).2
  -- the track is written, so that it is written without the excluded ones taken out too
  have hwrite := (haside cap 1).1 r.sha256
  rw [afterWrite_eq, afterWrite_eq] at hwrite
  have hrest := ((manifested_written (fits_withoutExcluded env (cfg.withCap cap 1) db)).tracks
    r.sha256 ⟨bucketsCsv t'.buckets, t'.sizeBytes⟩).mpr ⟨hin, t', ht', hsha', rfl⟩
  rw [← hwrite] at hrest
  obtain ⟨-, t, ht, hsha, hcsv⟩ := ((manifested_written
    (fits_resolve env (cfg.withCap cap 1) db)).tracks r.sha256 _).mp hrest
  have hfits := bucketsCsv_of_fits ht hnames
  have hfits' := bucketsCsv_of_fits ht' hnames
  have hjoined : (csvPieces t'.buckets).flatten = (csvPieces t.buckets).flatten := by
    rw [← hfits.1, ← hfits'.1]
    exact congrArg ManifestRow.bucketsCsv hcsv
  have hbuckets := buckets_of_resident ht
  have hbuckets' := buckets_of_resident ht'
  have hsub : t.buckets ⊆ t'.buckets := by
    intro b hb
    obtain ⟨x, hx, hxsha, rfl⟩ := (hbuckets.2 b).mp hb
    refine (hbuckets'.2 x.bucket).mpr ⟨x, ?_, hxsha.trans (hsha.trans hsha'.symm), rfl⟩
    exact mem_storedRows_withoutExcluded hx (by rw [hxsha, hsha]; exact hin)
  have hback : t'.buckets ⊆ t.buckets := by
    apply subset_of_sum_le hbuckets.1 hsub
    rw [← hfits.2, ← hfits'.2, hjoined]
  obtain ⟨x, hx, hxsha, hxbucket⟩ := (hbuckets.2 r.bucket).mp (hback hbucket)
  obtain ⟨row', hrow', hsize'⟩ := size_of_bucketRows (mayPick_storedPick env cfg db) hx
  have hsame : x = r := by
    have hxr : x.sha256 = r.sha256 := hxsha.trans hsha
    have hget : db.tracks.get? r.sha256 = some row := by
      rw [get?_withoutExcluded] at hrow
      exact (Option.filter_eq_some_iff.mp hrow).1
    rw [hxr, hget] at hrow'
    injection hrow' with hrow'
    rw [← hrow'] at hsize'
    cases x
    cases r
    simp only at hxr hxbucket hsize hsize'
    rw [hxr, hxbucket, ← hsize, ← hsize']
  exact hsame ▸ hx

/-- Excluded tracks consume no budget where they take nothing. This is the only case under all
caps, for sizes that are not negative and names that fit the buffer of the writer. -/
theorem excluded_consume_nothing (env : ResolverEnv) (cfg : ResolverConfig) (db : Db) :
    (TakeNothing env cfg db → ∀ capBytes ratio, ExcludedAside env (cfg.withCap capBytes ratio) db) ∧
    ((∀ sha row, db.tracks.get? sha = some row → 0 ≤ row.sizeBytes) →
      (cfg.buckets.map fun bc ↦ bc.name.length + 1).sum ≤ 512 →
        (∀ capBytes ratio, ExcludedAside env (cfg.withCap capBytes ratio) db) →
          TakeNothing env cfg db) := by
  constructor
  · intro h capBytes ratio
    have h' : TakeNothing env (cfg.withCap capBytes ratio) db := ⟨h.bytes, h.places⟩
    exact h'.excludedAside
  · exact fun hsizes hnames haside ↦
      ⟨bytes_of_excludedAside hsizes haside, places_of_excludedAside hnames haside⟩

end Exclude

/-! Two tracks of the recent additions, of which one fits. The first is unsynced. -/

namespace OneUnsynced

def db : Db := (Db.ofTracks [([97], 50), ([98], 50)]).putUnsync [97] (ascii "2026-01-02T00:00:00Z")

def cfg : ResolverConfig where
  capBytes := 80
  capEffectiveRatio := 1
  hysteresisRatio := 0
  coldStartPlayThreshold := 10
  randomSeed := 0
  buckets := [⟨ascii "recent_adds", 10, ascii "recent_adds_by_mtime", 0⟩]
  distinct := by decide

/-- The track that is not there is charged, and the other one passed over. -/
theorem charged : ¬ ExcludedAside .sample cfg db := by
  intro haside
  have hwrite := haside.1 [98]
  rw [afterWrite_eq, afterWrite_eq] at hwrite
  have hrest : (⟨[98], 50, [ascii "recent_adds"]⟩ : ManifestTrack) ∈
      (resolve .sample cfg db.withoutExcluded).resident := by
    rw [resolve_eq_evalRun]
    decide +kernel
  have hin : db.isExcluded [98] = false := by decide +kernel
  have hall : [98] ∉ (resolve .sample cfg db).resident.map ManifestTrack.sha256 := by
    rw [resolve_eq_evalRun]
    decide +kernel
  have hwritten := ((manifested_written (fits_withoutExcluded .sample cfg db)).tracks [98] _).mpr
    ⟨hin, _, hrest, rfl, rfl⟩
  rw [← hwrite] at hwritten
  obtain ⟨-, t, ht, hsha, -⟩ := ((manifested_written (fits_resolve .sample cfg db)).tracks
    [98] _).mp hwritten
  apply hall
  rw [← hsha]
  exact List.mem_map_of_mem ht

end OneUnsynced

end Nocturne
