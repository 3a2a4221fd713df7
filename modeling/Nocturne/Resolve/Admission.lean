import Mathlib.Data.List.Induction
import Mathlib.Data.List.Lex
import Mathlib.Data.List.Sort
import Mathlib.Data.Rat.Floor
import Nocturne.Base
import Nocturne.Lib.Greedy

/-!
# The admission of the resolver

`resolver_run` collects the tracks that its buckets select, sorts them by priority and admits
them while a discounted or surcharged size fits under the cap. Pinned tracks are admitted in any
case. The sizes are whole numbers without a bound, and the product with the hysteresis is taken
exactly and truncated.
-/

namespace Nocturne

open Lib

/-! ### Candidates -/

/-- `bucket_priority`, `resolver.c:54–65`. -/
def bucketPriority (name : Text) : Nat :=
  if name = ascii "manual_pins" then 10
  else if name = ascii "loved" then 8
  else if name = ascii "top_played" then 7
  else if name = ascii "recent_plays" then 6
  else if name = ascii "recent_adds" then 5
  else if name = ascii "exploration" then 2
  else 1

/-- `struct cand`, `resolver.c:69–76`. -/
structure Cand where
  sha256 : Sha
  sizeBytes : Int
  priority : Nat
  buckets : List Text
  deriving DecidableEq, Repr

/-- A row that the query of a bucket returned: an argument of `cand_add`. -/
structure BucketRow where
  sha256 : Sha
  sizeBytes : Int
  bucket : Text
  deriving DecidableEq, Repr

/-- What `cand_add` does to the candidate that it found or made. -/
def Cand.addBucket (c : Cand) (bucket : Text) : Cand where
  sha256 := c.sha256
  sizeBytes := c.sizeBytes
  priority := max c.priority (bucketPriority bucket)
  buckets := if bucket ∈ c.buckets then c.buckets else c.buckets ++ [bucket]

/-- `cand_add`, `resolver.c:105–133`. -/
def candAdd : List Cand → BucketRow → List Cand
  | [], row => [(Cand.mk row.sha256 row.sizeBytes 0 []).addBucket row.bucket]
  | c :: cs, row => if c.sha256 = row.sha256 then c.addBucket row.bucket :: cs else c :: candAdd cs row

/-- The candidates of some rows. -/
def candidates (rows : List BucketRow) : List Cand := rows.foldl candAdd []

/-! ### Admission -/

/-- Conversion to an integer type: toward zero. -/
def truncate (q : ℚ) : Int := q.num.tdiv q.den

/-- The size that the check uses, `resolver.c:514–521`. -/
def effectiveSize (h : ℚ) (prev : List Sha) (c : Cand) : Int :=
  if 0 < h then truncate (c.sizeBytes * if c.sha256 ∈ prev then 1 - h else 1 + h)
  else c.sizeBytes

/-- `cmp_cand_priority`, `resolver.c:343–349`: the priorities descend, the hashes ascend. -/
def cmpCandPriority (x y : Cand) : Bool :=
  if x.priority = y.priority then decide (x.sha256 ≤ y.sha256) else decide (y.priority < x.priority)

/-- `struct manifest_track`. -/
structure ManifestTrack where
  sha256 : Sha
  sizeBytes : Int
  buckets : List Text
  deriving DecidableEq, Repr

/-- The admitted tracks, and their size. -/
structure Manifest where
  resident : List ManifestTrack
  usedBytes : Int
  deriving DecidableEq, Repr

/-- The loop of `resolver_run` over the sorted candidates, `resolver.c:513–526`. -/
def admission (h : ℚ) (prev : List Sha) (cap : Int) (cs : List Cand) : Greedy.State Cand Int :=
  Greedy.run Cand.sizeBytes (effectiveSize h prev) (fun c ↦ decide (10 ≤ c.priority)) cap
    Greedy.start cs

/-- The track of a candidate, with its buckets sorted, `resolver.c:529–540`. -/
def Cand.track (c : Cand) : ManifestTrack where
  sha256 := c.sha256
  sizeBytes := c.sizeBytes
  buckets := c.buckets.mergeSort fun a b ↦ decide (a ≤ b)

/-- `resolver_run`, `resolver.c:500–549`, from the rows of its buckets on. -/
def resolverRun (h : ℚ) (prev : List Sha) (cap : Int) (rows : List BucketRow) : Manifest :=
  let admitted := admission h prev cap ((candidates rows).mergeSort cmpCandPriority)
  { resident := (admitted.admitted.map Cand.track).mergeSort fun a b ↦ decide (a.sha256 ≤ b.sha256)
    usedBytes := admitted.used }

/-- The largest difference between the size and the discounted size of a previously resident
track, zero if there is none. -/
def largestDiscount (h : ℚ) (prev : List Sha) (tracks : List ManifestTrack) : Int :=
  ((tracks.filter fun t ↦ t.sha256 ∈ prev).map fun t ↦
    t.sizeBytes - truncate (t.sizeBytes * (1 - h))).foldr max 0

/-! ### The candidates of some rows -/

/-- What a candidate says about the rows: its buckets are those that selected its hash. -/
structure CandOf (rows : List BucketRow) (c : Cand) : Prop where
  buckets : ∀ b, b ∈ c.buckets ↔ ∃ r ∈ rows, r.sha256 = c.sha256 ∧ r.bucket = b
  once : c.buckets.Nodup
  size : ∃ r ∈ rows, r.sizeBytes = c.sizeBytes
  priority : c.priority ≤ 10

/-- There is one candidate for each hash of the rows. -/
structure CandsOf (rows : List BucketRow) (cs : List Cand) : Prop where
  distinct : (cs.map Cand.sha256).Nodup
  complete : ∀ r ∈ rows, ∃ c ∈ cs, c.sha256 = r.sha256
  each : ∀ c ∈ cs, CandOf rows c

section Candidates

variable {rows : List BucketRow} {cs : List Cand} {row : BucketRow}

theorem bucketPriority_le (name : Text) : bucketPriority name ≤ 10 := by
  unfold bucketPriority
  repeat' split
  all_goals omega

/-- `cand_add` extends the candidate of the hash, or appends one. -/
theorem candAdd_cases (cs : List Cand) (row : BucketRow) :
    (∃ a c b, cs = a ++ c :: b ∧ c.sha256 = row.sha256 ∧
      candAdd cs row = a ++ c.addBucket row.bucket :: b) ∨
    (∀ c ∈ cs, c.sha256 ≠ row.sha256) ∧
      candAdd cs row = cs ++ [(Cand.mk row.sha256 row.sizeBytes 0 []).addBucket row.bucket] := by
  induction cs with
  | nil => exact Or.inr ⟨fun _ h ↦ (by cases h), rfl⟩
  | cons c cs ih =>
    rw [candAdd]
    by_cases hc : c.sha256 = row.sha256
    · rw [if_pos hc]
      exact Or.inl ⟨[], c, cs, rfl, hc, rfl⟩
    · rw [if_neg hc]
      rcases ih with ⟨a, c', b, rfl, hc', hadd⟩ | ⟨hne, hadd⟩
      · exact Or.inl ⟨c :: a, c', b, rfl, hc', by rw [hadd]; rfl⟩
      · right
        refine ⟨fun c' hc' ↦ ?_, by rw [hadd]; rfl⟩
        rcases List.mem_cons.mp hc' with rfl | hc'
        · exact hc
        · exact hne c' hc'

theorem mem_addBucket (c : Cand) (bucket b : Text) :
    b ∈ (c.addBucket bucket).buckets ↔ b ∈ c.buckets ∨ b = bucket := by
  unfold Cand.addBucket
  dsimp only
  split
  · next h =>
    constructor
    · exact Or.inl
    · rintro (hb | rfl)
      · exact hb
      · exact h
  · rw [List.mem_append, List.mem_singleton]

theorem nodup_addBucket {c : Cand} (h : c.buckets.Nodup) (bucket : Text) :
    (c.addBucket bucket).buckets.Nodup := by
  unfold Cand.addBucket
  dsimp only
  split
  · exact h
  · next hb =>
    rw [List.nodup_append]
    refine ⟨h, List.nodup_singleton _, fun a ha b hb' he ↦ ?_⟩
    rw [List.mem_singleton.mp hb'] at he
    exact hb (he ▸ ha)

/-- A row of another hash changes nothing. -/
theorem CandOf.keep {c : Cand} (h : CandOf rows c) (hc : c.sha256 ≠ row.sha256) :
    CandOf (rows ++ [row]) c where
  buckets b := by
    rw [h.buckets b]
    constructor
    · rintro ⟨r, hr, he⟩
      exact ⟨r, List.mem_append_left _ hr, he⟩
    · rintro ⟨r, hr, he, hb⟩
      rw [List.mem_append, List.mem_singleton] at hr
      rcases hr with hr | rfl
      · exact ⟨r, hr, he, hb⟩
      · exact absurd he.symm hc
  once := h.once
  size := by
    obtain ⟨r, hr, he⟩ := h.size
    exact ⟨r, List.mem_append_left _ hr, he⟩
  priority := h.priority

/-- A row adds its bucket to the candidate of its hash. -/
theorem CandOf.add {c : Cand}
    (hbuckets : ∀ b, b ∈ c.buckets ↔ ∃ r ∈ rows, r.sha256 = c.sha256 ∧ r.bucket = b)
    (honce : c.buckets.Nodup) (hsize : ∃ r ∈ rows ++ [row], r.sizeBytes = c.sizeBytes)
    (hpriority : c.priority ≤ 10) (hc : c.sha256 = row.sha256) :
    CandOf (rows ++ [row]) (c.addBucket row.bucket) where
  buckets b := by
    rw [mem_addBucket, hbuckets b]
    constructor
    · rintro (⟨r, hr, he⟩ | rfl)
      · exact ⟨r, List.mem_append_left _ hr, he⟩
      · exact ⟨row, List.mem_append_right _ (List.mem_singleton.mpr rfl), hc.symm, rfl⟩
    · rintro ⟨r, hr, he, hb⟩
      rw [List.mem_append, List.mem_singleton] at hr
      rcases hr with hr | rfl
      · exact Or.inl ⟨r, hr, he, hb⟩
      · exact Or.inr hb.symm
  once := nodup_addBucket honce _
  size := hsize
  priority := max_le hpriority (bucketPriority_le _)

theorem candsOf_nil : CandsOf [] [] where
  distinct := List.nodup_nil
  complete _ h := by cases h
  each _ h := by cases h

/-- One more row. -/
theorem CandsOf.add (h : CandsOf rows cs) (row : BucketRow) :
    CandsOf (rows ++ [row]) (candAdd cs row) := by
  rcases candAdd_cases cs row with ⟨a, c, b, rfl, hc, hadd⟩ | ⟨hne, hadd⟩
  · have hshas : ((a ++ c.addBucket row.bucket :: b).map Cand.sha256) =
        (a ++ c :: b).map Cand.sha256 := by
      simp only [List.map_append, List.map_cons]
      rfl
    rw [hadd]
    constructor
    · rw [hshas]
      exact h.distinct
    · intro r hr
      have hmem : r.sha256 ∈ (a ++ c :: b).map Cand.sha256 := by
        rw [List.mem_append, List.mem_singleton] at hr
        rcases hr with hr | rfl
        · obtain ⟨c', hc', he⟩ := h.complete r hr
          exact List.mem_map.mpr ⟨c', hc', he⟩
        · rw [← hc]
          exact List.mem_map_of_mem (List.mem_append_right _ (List.mem_cons_self ..))
      rw [← hshas] at hmem
      exact List.mem_map.mp hmem
    · -- the other candidates have other hashes
      have hdistinct := h.distinct
      rw [List.map_append, List.map_cons, List.nodup_append, List.nodup_cons] at hdistinct
      obtain ⟨-, ⟨hb, -⟩, ha⟩ := hdistinct
      intro c' hc'
      rw [List.mem_append, List.mem_cons] at hc'
      rcases hc' with hc' | rfl | hc'
      · apply (h.each c' (List.mem_append_left _ hc')).keep
        rw [← hc]
        exact ha _ (List.mem_map_of_mem hc') _ (List.mem_cons_self ..)
      · have hold := h.each c (List.mem_append_right _ (List.mem_cons_self ..))
        obtain ⟨r, hr, he⟩ := hold.size
        exact CandOf.add hold.buckets hold.once ⟨r, List.mem_append_left _ hr, he⟩
          hold.priority hc
      · apply (h.each c' (List.mem_append_right _ (List.mem_cons_of_mem _ hc'))).keep
        rw [← hc]
        rintro he
        exact hb (he ▸ List.mem_map_of_mem hc')
  · rw [hadd]
    constructor
    · rw [List.map_append, List.nodup_append]
      refine ⟨h.distinct, List.nodup_singleton _, fun sha hsha sha' hsha' he ↦ ?_⟩
      obtain ⟨c, hc, rfl⟩ := List.mem_map.mp hsha
      rw [List.map_singleton, List.mem_singleton] at hsha'
      exact hne c hc (he.trans hsha')
    · intro r hr
      rw [List.mem_append, List.mem_singleton] at hr
      rcases hr with hr | rfl
      · obtain ⟨c, hc, he⟩ := h.complete r hr
        exact ⟨c, List.mem_append_left _ hc, he⟩
      · exact ⟨_, List.mem_append_right _ (List.mem_singleton.mpr rfl), rfl⟩
    · intro c hc
      rw [List.mem_append, List.mem_singleton] at hc
      rcases hc with hc | rfl
      · exact (h.each c hc).keep (hne c hc)
      · apply CandOf.add
        · intro b
          constructor
          · exact fun hb ↦ (by cases hb)
          · rintro ⟨r, hr, he, -⟩
            obtain ⟨c, hc, hsha⟩ := h.complete r hr
            exact absurd (hsha.trans he) (hne c hc)
        · exact List.nodup_nil
        · exact ⟨row, List.mem_append_right _ (List.mem_singleton.mpr rfl), rfl⟩
        · exact Nat.zero_le _
        · rfl

theorem candsOf_candidates (rows : List BucketRow) : CandsOf rows (candidates rows) := by
  induction rows using List.reverseRecOn with
  | nil => exact candsOf_nil
  | append_singleton rows row ih =>
    rw [candidates, List.foldl_append]
    exact ih.add row

end Candidates

/-! ### The bound -/

section Bound

variable {h : ℚ} {prev : List Sha} {cap : Int} {rows : List BucketRow}

theorem truncate_of_nonneg {q : ℚ} (hq : 0 ≤ q) : truncate q = ⌊q⌋ := by
  rw [truncate, Int.tdiv_eq_ediv_of_nonneg (Rat.num_nonneg.mpr hq), Rat.floor_def']

theorem cmpCandPriority_trans (x y z : Cand) (hxy : cmpCandPriority x y = true)
    (hyz : cmpCandPriority y z = true) : cmpCandPriority x z = true := by
  unfold cmpCandPriority at hxy hyz ⊢
  split at hxy <;> split at hyz <;> simp only [decide_eq_true_iff] at hxy hyz
  · next h h' =>
    rw [if_pos (h.trans h')]
    exact decide_eq_true (le_trans hxy hyz)
  · next h h' =>
    rw [if_neg (by omega)]
    exact decide_eq_true (by omega)
  · next h h' =>
    rw [if_neg (by omega)]
    exact decide_eq_true (by omega)
  · rw [if_neg (by omega)]
    exact decide_eq_true (by omega)

theorem cmpCandPriority_total (x y : Cand) :
    (cmpCandPriority x y || cmpCandPriority y x) = true := by
  unfold cmpCandPriority
  rw [Bool.or_eq_true]
  by_cases hp : x.priority = y.priority
  · rw [if_pos hp, if_pos hp.symm, decide_eq_true_iff, decide_eq_true_iff]
    exact le_total ..
  · rw [if_neg hp, if_neg (Ne.symm hp), decide_eq_true_iff, decide_eq_true_iff]
    omega

/-- Sorted candidates start with the pinned ones. -/
theorem pinned_first {cs : List Cand} (hs : cs.Pairwise fun x y ↦ cmpCandPriority x y = true) :
    cs = cs.filter (fun c ↦ decide (10 ≤ c.priority)) ++
      cs.filter fun c ↦ !decide (10 ≤ c.priority) := by
  induction cs with
  | nil => rfl
  | cons c cs ih =>
    obtain ⟨hc, hcs⟩ := List.pairwise_cons.mp hs
    by_cases hp : 10 ≤ c.priority
    · rw [List.filter_cons_of_pos (by simpa using hp), List.filter_cons_of_neg (by simpa using hp),
        List.cons_append, ← ih hcs]
    · have hnone : cs.filter (fun c ↦ decide (10 ≤ c.priority)) = [] := by
        rw [List.filter_eq_nil_iff]
        intro c' hc'
        have hle := hc c' hc'
        unfold cmpCandPriority at hle
        rw [decide_eq_true_iff]
        split at hle
        · omega
        · rw [decide_eq_true_iff] at hle
          omega
      have hall := ih hcs
      rw [hnone, List.nil_append] at hall
      rw [List.filter_cons_of_neg (by simpa using hp), List.filter_cons_of_pos (by simpa using hp),
        hnone, List.nil_append, ← hall]

theorem zero_le_largestDiscount (h : ℚ) (prev : List Sha) (tracks : List ManifestTrack) :
    0 ≤ largestDiscount h prev tracks := by
  unfold largestDiscount
  generalize ((tracks.filter fun t ↦ decide (t.sha256 ∈ prev)).map fun t ↦
    t.sizeBytes - truncate (t.sizeBytes * (1 - h))) = xs
  induction xs with
  | nil => exact Int.le_refl _
  | cons x xs ih => exact le_trans ih (le_max_right ..)

theorem discount_le {t : ManifestTrack} {tracks : List ManifestTrack} (ht : t ∈ tracks)
    (hp : t.sha256 ∈ prev) :
    t.sizeBytes - truncate (t.sizeBytes * (1 - h)) ≤ largestDiscount h prev tracks := by
  unfold largestDiscount
  have hmem : t.sizeBytes - truncate (t.sizeBytes * (1 - h)) ∈
      (tracks.filter fun t ↦ decide (t.sha256 ∈ prev)).map fun t ↦
        t.sizeBytes - truncate (t.sizeBytes * (1 - h)) :=
    List.mem_map_of_mem (List.mem_filter.mpr ⟨ht, by simpa using hp⟩)
  revert hmem
  generalize ((tracks.filter fun t ↦ decide (t.sha256 ∈ prev)).map fun t ↦
    t.sizeBytes - truncate (t.sizeBytes * (1 - h))) = xs
  intro hmem
  induction xs with
  | nil => cases hmem
  | cons x xs ih =>
    rw [List.mem_cons] at hmem
    rcases hmem with rfl | hmem
    · exact le_max_left ..
    · exact le_trans (ih hmem) (le_max_right ..)

/-- A track that was not resident is charged at least its size. -/
theorem surcharge_ge {size : Int} (hsize : 0 ≤ size) (h0 : 0 ≤ h) :
    size ≤ truncate (size * (1 + h)) := by
  have hq : (0 : ℚ) ≤ size := by exact_mod_cast hsize
  have hmul : (size : ℚ) ≤ size * (1 + h) := by nlinarith
  rw [truncate_of_nonneg (le_trans hq hmul), Int.le_floor]
  exact hmul

/-- What the check hides of the size of a candidate. -/
theorem hidden_le {c : Cand} {tracks : List ManifestTrack} (hc : c.track ∈ tracks)
    (hsize : 0 ≤ c.sizeBytes) (h0 : 0 ≤ h) :
    c.sizeBytes - effectiveSize h prev c ≤ largestDiscount h prev tracks := by
  have hzero := zero_le_largestDiscount h prev tracks
  unfold effectiveSize
  split
  · split
    · next hp => exact discount_le hc hp
    · have hle := surcharge_ge hsize h0
      omega
  · omega

/-! The candidates in the order of the admission, and what is admitted. -/

theorem mem_sorted {c : Cand} :
    c ∈ (candidates rows).mergeSort cmpCandPriority ↔ c ∈ candidates rows := List.mem_mergeSort

theorem admitted_sublist (h : ℚ) (prev : List Sha) (cap : Int) (cs : List Cand) :
    (admission h prev cap cs).admitted.Sublist cs := by
  obtain ⟨ys, hys, hsub⟩ := @Greedy.admitted_run Cand Int _ _ Cand.sizeBytes (effectiveSize h prev)
    (fun c ↦ decide (10 ≤ c.priority)) cap Greedy.start cs
  unfold admission
  rw [hys]
  exact hsub

theorem mem_resident {t : ManifestTrack} : t ∈ (resolverRun h prev cap rows).resident ↔
    ∃ c ∈ (admission h prev cap ((candidates rows).mergeSort cmpCandPriority)).admitted,
      c.track = t := by
  rw [resolverRun, List.mem_mergeSort, List.mem_map]

theorem resident_perm (h : ℚ) (prev : List Sha) (cap : Int) (rows : List BucketRow) :
    (resolverRun h prev cap rows).resident.Perm
      ((admission h prev cap ((candidates rows).mergeSort cmpCandPriority)).admitted.map
        Cand.track) := List.mergeSort_perm ..

/-- The candidate that a resident track was. -/
theorem cand_of_resident {t : ManifestTrack} (ht : t ∈ (resolverRun h prev cap rows).resident) :
    ∃ c ∈ candidates rows, c.track = t ∧ CandOf rows c := by
  obtain ⟨c, hc, he⟩ := mem_resident.mp ht
  have hmem := mem_sorted.mp ((admitted_sublist ..).subset hc)
  exact ⟨c, hmem, he, (candsOf_candidates rows).each c hmem⟩

/-- Each hash is resident once. -/
theorem nodup_resident (h : ℚ) (prev : List Sha) (cap : Int) (rows : List BucketRow) :
    ((resolverRun h prev cap rows).resident.map ManifestTrack.sha256).Nodup := by
  have hperm := (resident_perm h prev cap rows).map ManifestTrack.sha256
  rw [List.map_map] at hperm
  apply hperm.nodup_iff.mpr
  have hsorted : (((candidates rows).mergeSort cmpCandPriority).map Cand.sha256).Nodup :=
    ((List.mergeSort_perm ..).map _).nodup_iff.mpr (candsOf_candidates rows).distinct
  exact ((admitted_sublist ..).map Cand.sha256).nodup hsorted

/-- The candidates of priority 10 are the exempt ones. -/
theorem sum_pinned (rows : List BucketRow) :
    ((((candidates rows).mergeSort cmpCandPriority).filter fun c ↦
      decide (10 ≤ c.priority)).map Cand.sizeBytes).sum =
        (((candidates rows).filter fun c ↦ c.priority = 10).map Cand.sizeBytes).sum := by
  have hsame : (candidates rows).filter (fun c ↦ decide (10 ≤ c.priority)) =
      (candidates rows).filter fun c ↦ decide (c.priority = 10) := by
    apply List.filter_congr
    intro c hc
    have hle := ((candsOf_candidates rows).each c hc).priority
    rw [decide_eq_decide]
    omega
  rw [← hsame]
  exact (((List.mergeSort_perm ..).filter _).map _).sum_eq

/-- What is used, against the cap. -/
theorem used_le_cap (h0 : 0 ≤ h) (hrows : ∀ r ∈ rows, 0 ≤ r.sizeBytes) :
    (resolverRun h prev cap rows).usedBytes ≤ max
      (((candidates rows).filter fun c ↦ c.priority = 10).map Cand.sizeBytes).sum
      (cap + largestDiscount h prev (resolverRun h prev cap rows).resident) := by
  have hresident := @mem_resident h prev cap rows
  revert hresident
  generalize (resolverRun h prev cap rows).resident = tracks
  show _ → (admission h prev cap ((candidates rows).mergeSort cmpCandPriority)).used ≤ _
  intro hresident
  rw [← sum_pinned]
  have hmem : ∀ c ∈ (candidates rows).mergeSort cmpCandPriority, 0 ≤ c.sizeBytes := by
    intro c hc
    obtain ⟨r, hr, he⟩ := ((candsOf_candidates rows).each c (mem_sorted.mp hc)).size
    rw [← he]
    exact hrows r hr
  have hsplit := pinned_first
    (List.pairwise_mergeSort cmpCandPriority_trans cmpCandPriority_total (candidates rows))
  revert hresident hmem hsplit
  generalize (candidates rows).mergeSort cmpCandPriority = cs
  intro hresident hmem hsplit
  have hpinned := @Greedy.used_exempt Cand Int _ _ Cand.sizeBytes (effectiveSize h prev)
    (fun c ↦ decide (10 ≤ c.priority)) cap Greedy.start
    (cs.filter fun c ↦ decide (10 ≤ c.priority)) fun c hc ↦ (List.mem_filter.mp hc).2
  have hrun : admission h prev cap cs = Greedy.run Cand.sizeBytes (effectiveSize h prev)
      (fun c ↦ decide (10 ≤ c.priority)) cap (Greedy.run Cand.sizeBytes (effectiveSize h prev)
        (fun c ↦ decide (10 ≤ c.priority)) cap Greedy.start
          (cs.filter fun c ↦ decide (10 ≤ c.priority)))
      (cs.filter fun c ↦ !decide (10 ≤ c.priority)) := by
    rw [← Greedy.run_append, ← hsplit]
    rfl
  rw [show Greedy.start.used = (0 : Int) from rfl, zero_add] at hpinned
  rw [hrun, ← hpinned]
  apply Greedy.used_le
  · intro c hc
    simpa using (List.mem_filter.mp hc).2
  · intro c hc hin
    rw [← hrun] at hc
    exact hidden_le (hresident.mpr ⟨c, hc, rfl⟩) (hmem c (List.mem_filter.mp hin).1) h0

end Bound

/-- The manifest has every candidate of priority 10 and each hash once, with the buckets that
selected it, and what it uses exceeds the larger of the pinned total and the cap by no more than
the largest discount of a track that was resident. -/
theorem resolver_cap_bound (h : ℚ) (h0 : 0 ≤ h) (prev : List Sha) (cap : Int)
    (rows : List BucketRow) (hrows : ∀ r ∈ rows, 0 ≤ r.sizeBytes) :
    let m := resolverRun h prev cap rows
    (∀ c ∈ candidates rows, c.priority = 10 → c.track ∈ m.resident) ∧
    (m.resident.map ManifestTrack.sha256).Nodup ∧
    (∀ t ∈ m.resident, t.buckets.Nodup ∧
      ∀ b, b ∈ t.buckets ↔ ∃ r ∈ rows, r.sha256 = t.sha256 ∧ r.bucket = b) ∧
    m.usedBytes = (m.resident.map ManifestTrack.sizeBytes).sum ∧
    m.usedBytes ≤ max
      (((candidates rows).filter fun c ↦ c.priority = 10).map Cand.sizeBytes).sum
      (cap + largestDiscount h prev m.resident) := by
  intro m
  refine ⟨?_, nodup_resident h prev cap rows, ?_, ?_, used_le_cap h0 hrows⟩
  · intro c hc hp
    apply mem_resident.mpr
    refine ⟨c, Greedy.exempt_admitted (mem_sorted.mpr hc) ?_, rfl⟩
    rw [decide_eq_true_iff]
    omega
  · intro t ht
    obtain ⟨c, -, rfl, hc⟩ := cand_of_resident ht
    have hperm : c.track.buckets.Perm c.buckets := List.mergeSort_perm ..
    refine ⟨hperm.nodup_iff.mpr hc.once, fun b ↦ ?_⟩
    rw [hperm.mem_iff]
    exact hc.buckets b
  · have hsum := ((resident_perm h prev cap rows).map ManifestTrack.sizeBytes).sum_eq
    rw [List.map_map] at hsum
    exact (Greedy.used_run rfl).trans hsum.symm

/-- A pinned track of 50 and a resident one of 95. -/
def twoRows : List BucketRow := [⟨[97], 95, ascii "loved"⟩, ⟨[98], 50, ascii "manual_pins"⟩]

/-- Under a cap of 140 with a hysteresis of a tenth. -/
theorem two_tracks_bound : (resolverRun (1 / 10) [[97]] 140 twoRows).usedBytes ≤ max 50
    (140 + largestDiscount (1 / 10) [[97]] (resolverRun (1 / 10) [[97]] 140 twoRows).resident) := by
  have hrows : ∀ r ∈ twoRows, 0 ≤ r.sizeBytes := by decide
  have hbound := (resolver_cap_bound (1 / 10) (by norm_num) [[97]] 140 twoRows hrows).2.2.2.2
  have hpinned : (((candidates twoRows).filter fun c ↦ c.priority = 10).map Cand.sizeBytes).sum =
      50 := by decide
  rw [hpinned] at hbound
  exact hbound

end Nocturne
