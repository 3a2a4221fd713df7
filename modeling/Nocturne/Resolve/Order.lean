import Nocturne.Resolve.Hysteresis

/-!
# The order of the rows

What the resolver makes of the rows of its buckets depends on the rows alone, not on their order,
and so do the rows of a source with a total order. The pins and the weekly picks are cut off in an
order that nothing fixes.
-/

namespace Nocturne

open Lib

/-! ### Candidates up to the order of their buckets -/

/-- A candidate with its buckets sorted. -/
def Cand.normal (c : Cand) : Cand := { c with buckets := c.buckets.mergeSort fun a b ↦ decide (a ≤ b) }

/-- The size and the priority of a candidate come from the rows. -/
structure CandFrom (rows : List BucketRow) (c : Cand) : Prop where
  size : ∃ r ∈ rows, r.sha256 = c.sha256 ∧ r.sizeBytes = c.sizeBytes
  priority : c.priority = (c.buckets.map bucketPriority).foldr max 0

section Candidates

variable {rows rows' : List BucketRow} {row : BucketRow} {c c' : Cand}

private theorem max_left_comm' (x y z : Nat) : max x (max y z) = max y (max x z) := by omega

/-- Priorities add up in any order. -/
theorem priority_perm {bs bs' : List Text} (h : bs.Perm bs') :
    (bs.map bucketPriority).foldr max 0 = (bs'.map bucketPriority).foldr max 0 := by
  apply (h.map _).foldr_eq'
  intro x _ y _ z
  exact max_left_comm' ..

theorem bucketPriority_le_foldr {b : Text} {bs : List Text} (h : b ∈ bs) :
    bucketPriority b ≤ (bs.map bucketPriority).foldr max 0 := by
  induction bs with
  | nil => cases h
  | cons b' bs ih =>
    rw [List.map_cons, List.foldr_cons]
    rw [List.mem_cons] at h
    rcases h with rfl | h
    · exact le_max_left ..
    · exact le_trans (ih h) (le_max_right ..)

theorem priority_addBucket (c : Cand) (bucket : Text)
    (h : c.priority = (c.buckets.map bucketPriority).foldr max 0) :
    (c.addBucket bucket).priority =
      ((c.addBucket bucket).buckets.map bucketPriority).foldr max 0 := by
  unfold Cand.addBucket
  dsimp only
  split
  · next hin =>
    rw [h]
    have hle := bucketPriority_le_foldr hin
    omega
  · have hperm : (c.buckets ++ [bucket]).Perm (bucket :: c.buckets) :=
      List.perm_append_singleton ..
    rw [priority_perm hperm, List.map_cons, List.foldr_cons, h]
    omega

theorem CandFrom.add (h : CandFrom rows c) (row : BucketRow) : CandFrom (rows ++ [row]) c where
  size := by
    obtain ⟨r, hr, he⟩ := h.size
    exact ⟨r, List.mem_append_left _ hr, he⟩
  priority := h.priority

/-- Every candidate comes from the rows. -/
theorem candFrom_candidates (rows : List BucketRow) : ∀ c ∈ candidates rows, CandFrom rows c := by
  induction rows using List.reverseRecOn with
  | nil => exact fun c hc ↦ by cases hc
  | append_singleton rows row ih =>
    rw [candidates, List.foldl_append]
    show ∀ c ∈ candAdd (candidates rows) row, _
    rcases candAdd_cases (candidates rows) row with ⟨a, c, b, hcs, hc, hadd⟩ | ⟨hne, hadd⟩
    · rw [hadd]
      rw [hcs] at ih
      intro c' hc'
      rw [List.mem_append, List.mem_cons] at hc'
      rcases hc' with hc' | rfl | hc'
      · exact (ih c' (List.mem_append_left _ hc')).add row
      · have hold := (ih c (List.mem_append_right _ (List.mem_cons_self ..))).add row
        exact ⟨hold.size, priority_addBucket c _ hold.priority⟩
      · exact (ih c' (List.mem_append_right _ (List.mem_cons_of_mem _ hc'))).add row
    · rw [hadd]
      intro c' hc'
      rw [List.mem_append, List.mem_singleton] at hc'
      rcases hc' with hc' | rfl
      · exact (ih c' hc').add row
      · constructor
        · exact ⟨row, List.mem_append_right _ (List.mem_singleton.mpr rfl), rfl, rfl⟩
        · exact priority_addBucket _ _ rfl

/-- The size of a hash is the same in all rows. -/
def OneSize (rows : List BucketRow) : Prop :=
  ∀ r ∈ rows, ∀ r' ∈ rows, r.sha256 = r'.sha256 → r.sizeBytes = r'.sizeBytes

/-- The candidates of one hash agree where the rows of the hash are the same. -/
theorem normal_eq (hsize : OneSize rows) (hc : c ∈ candidates rows) (hc' : c' ∈ candidates rows')
    (hsha : c.sha256 = c'.sha256)
    (hsame : ∀ r : BucketRow, r.sha256 = c.sha256 → (r ∈ rows' ↔ r ∈ rows)) :
    c'.normal = c.normal := by
  have hperm : c'.buckets.Perm c.buckets := by
    rw [List.perm_ext_iff_of_nodup ((candsOf_candidates rows').each c' hc').once
      ((candsOf_candidates rows).each c hc).once]
    intro b
    rw [((candsOf_candidates rows').each c' hc').buckets, ((candsOf_candidates rows).each c hc).buckets]
    constructor
    · rintro ⟨r, hr, he, hb⟩
      exact ⟨r, (hsame r (he.trans hsha.symm)).mp hr, he.trans hsha.symm, hb⟩
    · rintro ⟨r, hr, he, hb⟩
      exact ⟨r, (hsame r he).mpr hr, he.trans hsha, hb⟩
  have hfrom := candFrom_candidates rows c hc
  have hfrom' := candFrom_candidates rows' c' hc'
  have hsizes : c'.sizeBytes = c.sizeBytes := by
    obtain ⟨r, hr, he, hs⟩ := hfrom.size
    obtain ⟨r', hr', he', hs'⟩ := hfrom'.size
    rw [← hs, ← hs']
    have hmem := (hsame r' (he'.trans hsha.symm)).mp hr'
    exact hsize r' hmem r hr (he'.trans (hsha.symm.trans he.symm))
  have hpriority : c'.priority = c.priority := by
    rw [hfrom.priority, hfrom'.priority]
    exact priority_perm hperm
  have hsort : c'.buckets.mergeSort (fun a b ↦ decide (a ≤ b)) =
      c.buckets.mergeSort fun a b ↦ decide (a ≤ b) := by
    apply @List.Perm.eq_of_pairwise _ (fun a b ↦ decide (a ≤ b) = true)
    · intro a b _ _ hab hba
      exact le_antisymm (of_decide_eq_true hab) (of_decide_eq_true hba)
    · apply List.pairwise_mergeSort
      · simpa only [decide_eq_true_iff] using fun x y z ↦ @le_trans Text _ x y z
      · simpa only [Bool.or_eq_true, decide_eq_true_iff] using le_total
    · apply List.pairwise_mergeSort
      · simpa only [decide_eq_true_iff] using fun x y z ↦ @le_trans Text _ x y z
      · simpa only [Bool.or_eq_true, decide_eq_true_iff] using le_total
    · exact ((List.mergeSort_perm ..).trans hperm).trans (List.mergeSort_perm ..).symm
  unfold Cand.normal
  rw [hsha, hsizes, hpriority, hsort]

/-- The rows of some hashes have the candidates of these hashes. -/
theorem normal_perm {p : Sha → Bool} (hsize : OneSize rows)
    (hrows : ∀ r, r ∈ rows' ↔ r ∈ rows ∧ p r.sha256 = true) :
    ((candidates rows').map Cand.normal).Perm
      (((candidates rows).filter fun c ↦ p c.sha256).map Cand.normal) := by
  have hnodup : ∀ cs : List Cand, (cs.map Cand.sha256).Nodup → (cs.map Cand.normal).Nodup := by
    intro cs hcs
    apply List.Nodup.of_map Cand.sha256
    rw [List.map_map]
    exact hcs
  have hsame : ∀ r : BucketRow, p r.sha256 = true → (r ∈ rows' ↔ r ∈ rows) := by
    intro r hp
    rw [hrows]
    exact and_iff_left hp
  rw [List.perm_ext_iff_of_nodup (hnodup _ (candsOf_candidates rows').distinct)
    (hnodup _ ((List.filter_sublist.map Cand.sha256).nodup (candsOf_candidates rows).distinct))]
  intro n
  rw [List.mem_map, List.mem_map]
  constructor
  · rintro ⟨c', hc', rfl⟩
    obtain ⟨r', hr', he', -⟩ := (candFrom_candidates rows' c' hc').size
    obtain ⟨hr, hp⟩ := (hrows r').mp hr'
    obtain ⟨c, hc, he⟩ := (candsOf_candidates rows).complete r' hr
    refine ⟨c, List.mem_filter.mpr ⟨hc, by rw [he]; exact hp⟩, ?_⟩
    symm
    apply normal_eq hsize hc hc' (he.trans he')
    intro r hr
    apply hsame
    rw [hr, he]
    exact hp
  · rintro ⟨c, hc, rfl⟩
    obtain ⟨hc, hp⟩ := List.mem_filter.mp hc
    obtain ⟨r, hr, he, -⟩ := (candFrom_candidates rows c hc).size
    have hr' : r ∈ rows' := (hrows r).mpr ⟨hr, by rw [he]; exact hp⟩
    obtain ⟨c', hc', he'⟩ := (candsOf_candidates rows').complete r hr'
    refine ⟨c', hc', normal_eq hsize hc hc' (he.symm.trans he'.symm) fun r hr ↦ hsame r ?_⟩
    rw [hr]
    exact hp

/-- The candidates of some hashes in the order of the admission. -/
theorem sorted_normal {p : Sha → Bool} (hsize : OneSize rows)
    (hrows : ∀ r, r ∈ rows' ↔ r ∈ rows ∧ p r.sha256 = true) :
    ((candidates rows').mergeSort cmpCandPriority).map Cand.normal =
      (((candidates rows).mergeSort cmpCandPriority).filter fun c ↦ p c.sha256).map
        Cand.normal := by
  have hsorted : ∀ rows, (((candidates rows).mergeSort cmpCandPriority).map Cand.normal).Pairwise
      fun x y ↦ cmpCandPriority x y = true := by
    intro rows
    rw [List.pairwise_map]
    exact List.pairwise_mergeSort cmpCandPriority_trans cmpCandPriority_total _
  have hperm : (((candidates rows').mergeSort cmpCandPriority).map Cand.normal).Perm
      ((((candidates rows).mergeSort cmpCandPriority).filter fun c ↦ p c.sha256).map
        Cand.normal) := by
    apply ((List.mergeSort_perm ..).map _).trans
    apply (normal_perm hsize hrows).trans
    exact (((List.mergeSort_perm ..).symm.filter _).map _)
  apply @List.Perm.eq_of_pairwise _ (fun x y ↦ cmpCandPriority x y = true) _ _ _ (hsorted rows') _
    hperm
  · intro x y hx hy hxy hyx
    have hnodup : ((((candidates rows').mergeSort cmpCandPriority).map Cand.normal).map
        Cand.sha256).Nodup := by
      rw [List.map_map]
      exact nodup_sorted rows'
    apply List.inj_on_of_nodup_map hnodup hx (hperm.mem_iff.mpr hy)
    unfold cmpCandPriority at hxy hyx
    by_cases hp : x.priority = y.priority
    · rw [if_pos hp, decide_eq_true_iff] at hxy
      rw [if_pos hp.symm, decide_eq_true_iff] at hyx
      exact le_antisymm hxy hyx
    · rw [if_neg hp, decide_eq_true_iff] at hxy
      rw [if_neg (Ne.symm hp), decide_eq_true_iff] at hyx
      omega
  · exact (hsorted rows).sublist (List.filter_sublist.map _)

/-- The track of a candidate whose buckets are sorted. -/
def Cand.sortedTrack (c : Cand) : ManifestTrack := ⟨c.sha256, c.sizeBytes, c.buckets⟩

/-- The admission does not look at the buckets. -/
theorem admission_normal (h : ℚ) (prev : List Sha) (cap : Int) (cs : List Cand) :
    admission h prev cap (cs.map Cand.normal) =
      ⟨(admission h prev cap cs).used, (admission h prev cap cs).admitted.map Cand.normal⟩ :=
  @Greedy.run_map Cand Int _ _ Cand.sizeBytes (effectiveSize h prev)
    (fun c ↦ decide (10 ≤ c.priority)) cap Cand Cand.normal Greedy.start cs

/-- A resolution, from the sorted candidates on. -/
theorem resolverRun_eq (h : ℚ) (prev : List Sha) (cap : Int) (rows : List BucketRow) :
    resolverRun h prev cap rows =
      let admitted := admission h prev cap
        (((candidates rows).mergeSort cmpCandPriority).map Cand.normal)
      { resident := (admitted.admitted.map Cand.sortedTrack).mergeSort fun a b ↦
          decide (a.sha256 ≤ b.sha256)
        usedBytes := admitted.used } := by
  rw [admission_normal]
  dsimp only
  rw [List.map_map]
  rfl

/-- A resolution depends on which rows there are. -/
theorem resolverRun_congr {h : ℚ} {prev : List Sha} {cap : Int} (hsize : OneSize rows)
    (hrows : ∀ r, r ∈ rows' ↔ r ∈ rows) :
    resolverRun h prev cap rows' = resolverRun h prev cap rows := by
  have hsame := @sorted_normal rows rows' (fun _ ↦ true) hsize fun r ↦ by rw [hrows r]; simp
  rw [List.filter_true] at hsame
  rw [resolverRun_eq, resolverRun_eq, hsame]

/-- A resolution depends on which tracks were resident. -/
theorem resolverRun_prev {h : ℚ} {prev prev' : List Sha} {cap : Int}
    (hprev : ∀ sha, sha ∈ prev' ↔ sha ∈ prev) :
    resolverRun h prev' cap rows = resolverRun h prev cap rows := by
  have heffective : effectiveSize h prev' = effectiveSize h prev := by
    funext c
    unfold effectiveSize
    simp only [hprev]
  unfold resolverRun admission
  rw [heffective]

end Candidates

/-! ### Stored rows -/

/-- The tables of the resolver with their rows stored in another order. -/
structure SameContent (db db' : Db) : Prop where
  tracks : db'.tracks.table.rows.Perm db.tracks.table.rows
  plays : db'.plays.Perm db.plays
  likes : db'.likes.rows.Perm db.likes.rows
  pins : db'.pins.rows.Perm db.pins.rows
  manifestCurrent : db'.manifestCurrent.rows.Perm db.manifestCurrent.rows
  weeklyDiscoveryPicks : db'.weeklyDiscoveryPicks.rows.Perm db.weeklyDiscoveryPicks.rows

/-- The configuration with its buckets in another order. -/
structure SameConfig (cfg cfg' : ResolverConfig) : Prop where
  buckets : cfg'.buckets.Perm cfg.buckets
  capBytes : cfg'.capBytes = cfg.capBytes
  capEffectiveRatio : cfg'.capEffectiveRatio = cfg.capEffectiveRatio
  hysteresisRatio : cfg'.hysteresisRatio = cfg.hysteresisRatio
  coldStartPlayThreshold : cfg'.coldStartPlayThreshold = cfg.coldStartPlayThreshold
  randomSeed : cfg'.randomSeed = cfg.randomSeed

/-- The manifest does not depend on the order of the rows in the tables, of the rows of the queries
where it is open, nor of the configured buckets. -/
def OrderFree (env : ResolverEnv) (cfg : ResolverConfig) (db : Db) : Prop :=
  ∀ cfg' db' pick pick', SameConfig cfg cfg' → SameContent db db' → MayPick env cfg db pick →
    MayPick env cfg' db' pick' → resolveWith env cfg' db' pick' = resolveWith env cfg db pick

/-- No `LIMIT` without an `ORDER BY` cuts rows off: the pinned tracks, and the picks of the last
week, are no more than their bucket takes. -/
def NoneCutOff (env : ResolverEnv) (cfg : ResolverConfig) (db : Db) : Prop :=
  ∀ bc ∈ activeBuckets cfg db, ∀ q, bucketQuery env cfg db bc = some q → q.Unordered →
    q.rows.length ≤ q.limit

/-- The configuration with another cap. -/
def ResolverConfig.withCap (cfg : ResolverConfig) (capBytes : Int) (ratio : ℚ) : ResolverConfig :=
  { cfg with
    capBytes := capBytes
    capEffectiveRatio := ratio }

section Stored

variable {env : ResolverEnv} {cfg cfg' : ResolverConfig} {db db' : Db} {bc : BucketConfig}
  {q : Query Picked} {pick pick' : BucketConfig → List Picked}

theorem max?_eq_of_perm {xs ys : List Text} (h : ys.Perm xs) : ys.max? = xs.max? := by
  ext a
  rw [List.max?_eq_some_iff, List.max?_eq_some_iff, h.mem_iff]
  simp only [h.mem_iff]

theorem SameContent.phonePlays (h : SameContent db db') (cutoff : Int) (sha : Sha) :
    (db'.phonePlays env cutoff sha).Perm (db.phonePlays env cutoff sha) := h.plays.filter _

/-- The sources do not depend on the order of the rows. -/
theorem SameContent.bucketSource (h : SameContent db db') (hseed : cfg'.randomSeed = cfg.randomSeed)
    (bc : BucketConfig) : bucketSource env cfg' db' bc = bucketSource env cfg db bc := by
  have htop : topPlayed db' env (bc.cutoff env) = topPlayed db env (bc.cutoff env) := by
    funext sha row
    rw [topPlayed, topPlayed, (h.phonePlays (bc.cutoff env) sha).length_eq]
  have hrecent : recentPlays db' env (bc.cutoff env) = recentPlays db env (bc.cutoff env) := by
    funext sha row
    rw [recentPlays, recentPlays, max?_eq_of_perm ((h.phonePlays (bc.cutoff env) sha).map _)]
  have hloved : loved db' = loved db := by
    funext sha row
    rw [loved, loved, Table.get?_eq_of_perm h.likes]
  have hpinned : pinnedTracks db' = pinnedTracks db := by
    funext sha row
    rw [pinnedTracks, pinnedTracks, Table.get?_eq_of_perm h.pins]
  have hweek : db'.lastWeek = db.lastWeek := max?_eq_of_perm (h.weeklyDiscoveryPicks.map _)
  have hweekly : weeklyPicks db' = weeklyPicks db := by
    funext sha row
    unfold weeklyPicks
    rw [hweek]
    simp only [Table.get?_eq_of_perm h.weeklyDiscoveryPicks]
  have hseed' : exploreSeed env cfg' = exploreSeed env cfg := by
    rw [exploreSeed, exploreSeed, hseed]
  have hexplore : exploration db' (exploreSeed env cfg') = exploration db (exploreSeed env cfg) := by
    funext sha row
    rw [exploration, exploration, h.plays.any_eq, hseed']
  unfold Nocturne.bucketSource
  rw [htop, hrecent, hloved, hpinned, hweekly, hexplore]

/-- The query of a bucket, up to the order of the rows. -/
theorem SameContent.bucketQuery (h : SameContent db db') (hseed : cfg'.randomSeed = cfg.randomSeed)
    (hq : bucketQuery env cfg db bc = some q) :
    ∃ q', bucketQuery env cfg' db' bc = some q' ∧ q'.rows.Perm q.rows ∧ q'.le = q.le ∧
      q'.limit = q.limit := by
  obtain ⟨s, hs, rfl⟩ := bucketQuery_eq_some.mp hq
  rw [← h.bucketSource hseed] at hs
  exact ⟨_, bucketQuery_eq_some.mpr ⟨s, hs, rfl⟩, h.tracks.filterMap _, rfl, rfl⟩

theorem SameContent.isCold (h : SameContent db db') (hcfg : SameConfig cfg cfg') :
    db'.isCold cfg' = db.isCold cfg := by
  unfold Db.isCold
  rw [(h.plays.filter _).length_eq, hcfg.coldStartPlayThreshold]

theorem SameContent.activeBuckets (h : SameContent db db') (hcfg : SameConfig cfg cfg') :
    (activeBuckets cfg' db').Perm (activeBuckets cfg db) := by
  unfold Nocturne.activeBuckets
  rw [h.isCold hcfg]
  exact hcfg.buckets.filter _

/-- Where nothing is cut off without an order, the answers have the same rows. -/
theorem NoneCutOff.mem_pick (hnone : NoneCutOff env cfg db) (h : SameContent db db')
    (hcfg : SameConfig cfg cfg') (hpick : MayPick env cfg db pick)
    (hpick' : MayPick env cfg' db' pick') (hbc : bc ∈ activeBuckets cfg db) (p : Picked) :
    p ∈ pick' bc ↔ p ∈ pick bc := by
  have hans := hpick bc hbc
  have hans' := hpick' bc ((h.activeBuckets hcfg).mem_iff.mpr hbc)
  cases hq : Nocturne.bucketQuery env cfg db bc with
  | none =>
    have hq' : Nocturne.bucketQuery env cfg' db' bc = none := by
      rw [Nocturne.bucketQuery, Option.map_eq_none_iff] at hq ⊢
      rw [h.bucketSource hcfg.randomSeed, hq]
    rw [hq] at hans
    rw [hq'] at hans'
    rw [show pick bc = [] from hans, show pick' bc = [] from hans']
  | some q =>
    obtain ⟨q', hq', hperm, hle, hlimit⟩ := h.bucketQuery hcfg.randomSeed hq
    rw [hq] at hans
    rw [hq'] at hans'
    dsimp only at hans hans'
    rcases bucketQuery_order hq with ho | ho
    · rw [ho.unique hperm hle hlimit hans hans']
    · have hlen := hnone bc hbc q hq ho
      have hlen' : q'.rows.length ≤ q'.limit := by
        rw [hperm.length_eq, hlimit]
        exact hlen
      rw [(hans.perm hlen).mem_iff, (hans'.perm hlen').mem_iff, hperm.mem_iff]

/-- The rows have the sizes of their tracks. -/
theorem oneSize_bucketRows (hpick : MayPick env cfg db pick) : OneSize (bucketRows cfg db pick) := by
  intro r hr r' hr' he
  obtain ⟨row, hrow, hs⟩ := size_of_bucketRows hpick hr
  obtain ⟨row', hrow', hs'⟩ := size_of_bucketRows hpick hr'
  rw [he, hrow'] at hrow
  cases hrow
  rw [← hs, ← hs']

/-- Where nothing is cut off without an order, the manifest depends on the data alone. -/
theorem NoneCutOff.orderFree (hnone : NoneCutOff env cfg db) : OrderFree env cfg db := by
  intro cfg' db' pick pick' hcfg h hpick hpick'
  have hrows : ∀ r, r ∈ bucketRows cfg' db' pick' ↔ r ∈ bucketRows cfg db pick := by
    intro r
    rw [mem_bucketRows, mem_bucketRows]
    constructor
    · rintro ⟨bc, hbc, p, hp, he⟩
      have hbc' := (h.activeBuckets hcfg).mem_iff.mp hbc
      exact ⟨bc, hbc', p, (hnone.mem_pick h hcfg hpick hpick' hbc' p).mp hp, he⟩
    · rintro ⟨bc, hbc, p, hp, he⟩
      exact ⟨bc, (h.activeBuckets hcfg).mem_iff.mpr hbc, p,
        (hnone.mem_pick h hcfg hpick hpick' hbc p).mpr hp, he⟩
  have hprev : ∀ sha, sha ∈ db'.prevSet ↔ sha ∈ db.prevSet :=
    fun sha ↦ (h.manifestCurrent.map Prod.fst).mem_iff
  have hcap : cfg'.capEffective = cfg.capEffective := by
    rw [ResolverConfig.capEffective, ResolverConfig.capEffective, hcfg.capBytes,
      hcfg.capEffectiveRatio]
  have hrun : resolverRun cfg'.hysteresisRatio db'.prevSet cfg'.capEffective
      (bucketRows cfg' db' pick') =
        resolverRun cfg.hysteresisRatio db.prevSet cfg.capEffective (bucketRows cfg db pick) := by
    rw [hcfg.hysteresisRatio, hcap, resolverRun_prev hprev]
    exact resolverRun_congr (oneSize_bucketRows hpick) hrows
  unfold resolveWith
  rw [hrun, hcap, hcfg.capBytes, h.isCold hcfg]

/-! Where a row is cut off without an order, one that is there in another answer is missing. -/

theorem truncate_intCast (n : Int) : truncate (n : ℚ) = n := by
  rw [truncate, Rat.num_intCast, Rat.den_intCast]
  exact Int.tdiv_one n

theorem capEffective_withCap (cfg : ResolverConfig) (cap : Int) :
    (cfg.withCap cap 1).capEffective = cap := by
  rw [ResolverConfig.capEffective, ResolverConfig.withCap, mul_one]
  exact truncate_intCast cap

/-- Under a large cap every candidate is resident. -/
theorem exists_cap_resident (h : ℚ) (prev : List Sha) (rows : List BucketRow) :
    ∃ bound, ∀ cap, bound ≤ cap → ∀ c ∈ candidates rows,
      c.track ∈ (resolverRun h prev cap rows).resident := by
  obtain ⟨bound, hbound⟩ := Greedy.exists_cap Cand.sizeBytes (effectiveSize h prev)
    (fun c ↦ decide (10 ≤ c.priority)) Greedy.start ((candidates rows).mergeSort cmpCandPriority)
  refine ⟨bound, fun cap hcap c hc ↦ mem_resident.mpr ⟨c, ?_, rfl⟩⟩
  rw [admission, hbound cap hcap]
  exact List.mem_append_right _ (mem_sorted.mpr hc)

/-- Answer one bucket otherwise. -/
def answerWith (pick : BucketConfig → List Picked) (bc : BucketConfig) (out : List Picked)
    (bc' : BucketConfig) : List Picked := if bc' = bc then out else pick bc'

theorem MayPick.answerWith (hpick : MayPick env cfg db pick)
    (hq : Nocturne.bucketQuery env cfg db bc = some q) {out : List Picked} (hout : q.Answers out) :
    MayPick env cfg db (answerWith pick bc out) := by
  intro bc' hbc'
  unfold Nocturne.answerWith
  by_cases he : bc' = bc
  · rw [if_pos he, he, hq]
    exact hout
  · rw [if_neg he]
    exact hpick bc' hbc'

/-- A track that one answer has and another has not is resident with the bucket, or without. -/
theorem manifest_differs (hbc : bc ∈ activeBuckets cfg db) (hq : bucketQuery env cfg db bc = some q)
    {p : Picked} (hp : p ∈ q.rows) {out out' : List Picked} (hmem : p ∈ out)
    (hsub : out' ⊆ q.rows) (hout' : p ∉ out') :
    ∃ cap, resolveWith env (cfg.withCap cap 1) db (answerWith pick bc out') ≠
      resolveWith env (cfg.withCap cap 1) db (answerWith pick bc out) := by
  obtain ⟨bound, hbound⟩ := exists_cap_resident cfg.hysteresisRatio db.prevSet
    (bucketRows cfg db (answerWith pick bc out))
  refine ⟨bound, fun he ↦ ?_⟩
  have hrow : ⟨p.sha256, p.sizeBytes, bc.name⟩ ∈ bucketRows cfg db (answerWith pick bc out) := by
    refine mem_bucketRows.mpr ⟨bc, hbc, p, ?_, rfl⟩
    rw [answerWith, if_pos rfl]
    exact hmem
  obtain ⟨c, hc, hsha⟩ := (candsOf_candidates _).complete _ hrow
  have hbucket : bc.name ∈ c.track.buckets := by
    rw [Cand.track, List.mem_mergeSort, ((candsOf_candidates _).each c hc).buckets]
    exact ⟨_, hrow, hsha.symm, rfl⟩
  -- the track is resident in the other resolution too, but with other rows
  have hresident : c.track ∈ (resolverRun cfg.hysteresisRatio db.prevSet
      (cfg.withCap bound 1).capEffective (bucketRows cfg db (answerWith pick bc out'))).resident := by
    have hsame : (resolveWith env (cfg.withCap bound 1) db (answerWith pick bc out')).resident =
        (resolveWith env (cfg.withCap bound 1) db (answerWith pick bc out)).resident := by rw [he]
    show c.track ∈ (resolveWith env (cfg.withCap bound 1) db (answerWith pick bc out')).resident
    rw [hsame]
    show c.track ∈ (resolverRun cfg.hysteresisRatio db.prevSet (cfg.withCap bound 1).capEffective
      (bucketRows cfg db (answerWith pick bc out))).resident
    rw [capEffective_withCap]
    exact hbound bound (Int.le_refl _) c hc
  obtain ⟨c', -, htrack, hc'⟩ := cand_of_resident hresident
  rw [← htrack, Cand.track, List.mem_mergeSort, hc'.buckets] at hbucket
  obtain ⟨r, hr, hrsha, hrbucket⟩ := hbucket
  obtain ⟨bc', hbc', p', hp', rfl⟩ := mem_bucketRows.mp hr
  have hsame : bc' = bc := by
    have hin := (List.mem_filter.mp hbc).1
    exact List.inj_on_of_nodup_map cfg.distinct (List.mem_filter.mp hbc').1 hin hrbucket
  rw [hsame, answerWith, if_pos rfl] at hp'
  have hsha' : c'.sha256 = c.sha256 := congrArg ManifestTrack.sha256 htrack
  have hpp : p' = p := by
    obtain ⟨s, -, rfl⟩ := bucketQuery_eq_some.mp hq
    exact List.inj_on_of_nodup_map nodup_pick (hsub hp') hp (hrsha.trans (hsha'.trans hsha))
  exact hout' (hpp ▸ hp')

theorem SameContent.refl (db : Db) : SameContent db db where
  tracks := List.Perm.refl _
  plays := List.Perm.refl _
  likes := List.Perm.refl _
  pins := List.Perm.refl _
  manifestCurrent := List.Perm.refl _
  weeklyDiscoveryPicks := List.Perm.refl _

theorem SameConfig.refl (cfg : ResolverConfig) : SameConfig cfg cfg where
  buckets := List.Perm.refl _
  capBytes := rfl
  capEffectiveRatio := rfl
  hysteresisRatio := rfl
  coldStartPlayThreshold := rfl
  randomSeed := rfl

end Stored

/-- The manifest depends on the data alone, whatever the cap, exactly where no `LIMIT` without an
`ORDER BY` cuts rows off. -/
theorem manifest_order_free (env : ResolverEnv) (cfg : ResolverConfig) (db : Db) :
    (∀ capBytes ratio, OrderFree env (cfg.withCap capBytes ratio) db) ↔ NoneCutOff env cfg db := by
  constructor
  · intro hfree bc hbc q hq hopen
    by_contra hcut
    have hpositive : 0 < bc.count := by
      have hactive := (List.mem_filter.mp hbc).2
      rw [Bool.and_eq_true, decide_eq_true_iff] at hactive
      exact hactive.1
    obtain ⟨s, hs, rfl⟩ := bucketQuery_eq_some.mp hq
    have hnodup : (db.pick s.key).Nodup := List.Nodup.of_map _ nodup_pick
    have hlimit : 0 < bc.count.toNat := by omega
    obtain ⟨p, hp⟩ : ∃ p, p ∈ db.pick s.key := by
      apply List.exists_mem_of_length_pos
      dsimp only at hcut
      omega
    obtain ⟨out, hout, hmem⟩ := hopen.exists_mem hp hlimit
    obtain ⟨out', hout', hnot⟩ := hopen.exists_not_mem hnodup hp (not_le.mp hcut)
    have hstored := mayPick_storedPick env cfg db
    obtain ⟨cap, hdiffers⟩ := @manifest_differs env cfg db bc _ (storedPick env cfg db) hbc hq p hp
      out out' hmem hout'.subset hnot
    apply hdiffers
    exact hfree cap 1 _ db _ _ (SameConfig.refl _) (SameContent.refl db)
      (hstored.answerWith hq hout) (hstored.answerWith hq hout')
  · intro hnone capBytes ratio
    have hnone' : NoneCutOff env (cfg.withCap capBytes ratio) db := hnone
    exact hnone'.orderFree

/-! Two picks of the week, inserted in either order, and a bucket that takes one pick. -/

namespace TwoPicks

def sha : Sha := List.replicate 64 97

def sha' : Sha := List.replicate 64 98

/-- The database of some picks, inserted in their order behind their tracks. -/
def picked (picks : List (Sha × Int)) : Db :=
  { Db.ofTracks picks with
    weeklyDiscoveryPicks := picks.foldl (fun t p ↦
      t.put (p.1, ascii "2026-01-05") ⟨ascii "never_played", ascii "2026-01-05T00:00:00Z"⟩) .empty }

def db : Db := picked [(sha, 50), (sha', 70)]

def db' : Db := picked [(sha', 70), (sha, 50)]

def cfg : ResolverConfig where
  capBytes := 1000
  capEffectiveRatio := 7 / 10
  hysteresisRatio := 1 / 10
  coldStartPlayThreshold := 0
  randomSeed := 0
  buckets := [⟨ascii "weekly_discovery", 1, ascii "weekly_discovery_picks", 0⟩]
  distinct := by decide

/-- The pick that is found first is resident, the other is not. -/
theorem depends_on_storage : ¬ OrderFree .sample cfg db := by
  intro hfree
  have htracks : db'.tracks.table.rows.Perm db.tracks.table.rows := by decide +kernel
  have hpicks : db'.weeklyDiscoveryPicks.rows.Perm db.weeklyDiscoveryPicks.rows := by
    decide +kernel
  have hcontent : SameContent db db' := ⟨htracks, List.Perm.refl _, List.Perm.refl _,
    List.Perm.refl _, List.Perm.refl _, hpicks⟩
  have hsame : (resolve .sample cfg db').usedBytes = (resolve .sample cfg db).usedBytes := by
    have he := hfree cfg db' _ _ (SameConfig.refl _) hcontent (mayPick_storedPick .sample cfg db)
      (mayPick_storedPick .sample cfg db')
    exact congrArg (fun m : Resolution ↦ m.usedBytes) he
  rw [resolve_eq_evalRun, resolve_eq_evalRun] at hsame
  revert hsame
  decide +kernel

end TwoPicks

end Nocturne
