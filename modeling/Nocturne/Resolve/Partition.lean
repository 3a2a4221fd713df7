import Nocturne.Resolve.Diff

/-!
# What the diff of two manifests is

The previous manifest is what was stored of one, with its bucket lists joined in full. The diff
splits them again, and compares them joined. It is the exact difference of the two manifests unless
the names of the buckets get in the way: the one bucket with the empty name is joined like no bucket
at all, and a comma in a name like two names.
-/

namespace Nocturne

open Lib

/-- The table has a manifest whose bucket lists ascend, are joined in full, and have names without
commas. -/
structure Db.Holds (db : Db) (prev : List ManifestTrack) : Prop where
  rows : ∀ sha row, db.manifestCurrent.get? sha = some row ↔
    ∃ t ∈ prev, t.sha256 = sha ∧ row = ⟨bucketsToCsv t.buckets, t.sizeBytes⟩
  once : (prev.map ManifestTrack.sha256).Nodup
  ascending : ∀ t ∈ prev, t.buckets.Pairwise (· < ·)
  plain : ∀ t ∈ prev, ∀ b ∈ t.buckets, (44 : UInt8) ∉ b

/-- The tracks of one manifest that are not in the other. -/
def minus (a b : List ManifestTrack) : List ManifestTrack :=
  a.filter fun t ↦ !(b.map ManifestTrack.sha256).contains t.sha256

/-- The diff is the exact difference of two manifests. -/
structure ResolveDiff.Exact (d : ResolveDiff) (prev next : List ManifestTrack) : Prop where
  added : (d.added.map fun x ↦ (x.sha256, x.sizeBytes)).Perm
    ((minus next prev).map fun t ↦ (t.sha256, t.sizeBytes))
  removed : (d.removed.map fun x ↦ (x.sha256, x.sizeBytes)).Perm
    ((minus prev next).map fun t ↦ (t.sha256, t.sizeBytes))
  shiftedOnce : (d.shifted.map DiffShifted.sha256).Nodup
  shifted : ∀ sha, sha ∈ d.shifted.map DiffShifted.sha256 ↔ ∃ p ∈ prev, ∃ n ∈ next,
    p.sha256 = sha ∧ n.sha256 = sha ∧ ¬ ∀ b, b ∈ p.buckets ↔ b ∈ n.buckets
  gained : ∀ x ∈ d.shifted, ∀ p ∈ prev, ∀ n ∈ next, p.sha256 = x.sha256 → n.sha256 = x.sha256 →
    ∀ b, b ∈ x.gained ↔ b ∈ n.buckets ∧ b ∉ p.buckets
  lost : ∀ x ∈ d.shifted, ∀ p ∈ prev, ∀ n ∈ next, p.sha256 = x.sha256 → n.sha256 = x.sha256 →
    ∀ b, b ∈ x.lost ↔ b ∈ p.buckets ∧ b ∉ n.buckets
  netBytes : d.netBytes = ((minus next prev).map ManifestTrack.sizeBytes).sum -
    ((minus prev next).map ManifestTrack.sizeBytes).sum

/-- A track that is in both manifests with different buckets was not only in the bucket with the
empty name, and its bucket lists are still different when they are joined. -/
def Distinguished (prev next : List ManifestTrack) : Prop :=
  ∀ p ∈ prev, ∀ n ∈ next, p.sha256 = n.sha256 → p.buckets ≠ n.buckets →
    p.buckets ≠ [[]] ∧ bucketsToCsv p.buckets ≠ bucketsToCsv n.buckets

section Joined

variable {bs bs' : List Text}

theorem bucketsToCsv_eq_intercalate (bs : List Text) : bucketsToCsv bs = [44].intercalate bs := by
  rw [bucketsToCsv]
  induction bs with
  | nil => rfl
  | cons b bs ih =>
    cases bs with
    | nil => simp [csvPieces]
    | cons c cs =>
      rw [List.intercalate_cons_cons, ← ih]
      simp [csvPieces]

/-- Joined names are split again, but for the empty name alone. -/
theorem csvSplit_bucketsToCsv (h : ∀ b ∈ bs, (44 : UInt8) ∉ b) :
    csvSplit (bucketsToCsv bs) = if bs = [[]] then [] else bs := by
  by_cases hnil : bs = []
  · rw [hnil]
    rfl
  · have hsplit : (bucketsToCsv bs).splitOn 44 = bs := by
      rw [bucketsToCsv_eq_intercalate, List.splitOn_intercalate 44 h hnil]
    by_cases hone : bs = [[]]
    · rw [if_pos hone, hone]
      rfl
    · rw [if_neg hone, csvSplit, if_neg, hsplit]
      intro hempty
      rw [hempty] at hsplit
      exact hone hsplit.symm

/-- Ascending lists with the same names are the same. -/
theorem eq_of_same_names (h : bs.Pairwise (· < ·)) (h' : bs'.Pairwise (· < ·))
    (hsame : ∀ b, b ∈ bs ↔ b ∈ bs') : bs = bs' := by
  have hperm : bs.Perm bs' :=
    (List.perm_ext_iff_of_nodup (h.imp fun hlt ↦ hlt.ne) (h'.imp fun hlt ↦ hlt.ne)).mpr hsame
  exact hperm.eq_of_pairwise (fun a b _ _ hab hba ↦ absurd hba hab.not_gt) h h'

theorem mem_setDiff {b : Text} : b ∈ setDiff bs bs' ↔ b ∈ bs ∧ b ∉ bs' := by
  simp [setDiff]

end Joined

section Exact

variable {env : ResolverEnv} {cfg : ResolverConfig} {db : Db} {pick : BucketConfig → List Picked}
  {prev : List ManifestTrack} {m : Resolution} {p n : ManifestTrack}

/-- The buckets of a resident track ascend. -/
theorem ascending_buckets (hn : n ∈ (resolveWith env cfg db pick).resident) :
    n.buckets.Pairwise (· < ·) := by
  obtain ⟨c, -, rfl, hc⟩ := cand_of_resident hn
  apply @ascending Text id
  rw [List.map_id]
  exact hc.once

theorem mem_minus {a b : List ManifestTrack} {t : ManifestTrack} :
    t ∈ minus a b ↔ t ∈ a ∧ ∀ t' ∈ b, t'.sha256 ≠ t.sha256 := by
  rw [minus, List.mem_filter, Bool.not_eq_true', ← Bool.not_eq_true, List.contains_iff_mem,
    List.mem_map]
  simp only [not_exists, not_and]

/-- A track as the table has it. -/
def ManifestTrack.stored (t : ManifestTrack) : PrevTrack :=
  ⟨t.sha256, bucketsToCsv t.buckets, t.sizeBytes⟩

theorem Db.Holds.mem_prevLoad (h : db.Holds prev) {q : PrevTrack} :
    q ∈ db.prevLoad ↔ ∃ t ∈ prev, t.stored = q := by
  rw [Nocturne.mem_prevLoad, h.rows]
  constructor
  · rintro ⟨t, ht, hsha, hrow⟩
    injection hrow with hcsv hsize
    refine ⟨t, ht, ?_⟩
    rw [ManifestTrack.stored, hsha, ← hcsv, ← hsize]
  · rintro ⟨t, ht, rfl⟩
    exact ⟨t, ht, rfl, rfl⟩

theorem Db.Holds.unique (h : db.Holds prev) {p' : ManifestTrack} (hp : p ∈ prev) (hp' : p' ∈ prev)
    (he : p.sha256 = p'.sha256) : p = p' := List.inj_on_of_nodup_map h.once hp hp' he

section Walk

variable (hm : m.resident.Pairwise fun n n' ↦ n.sha256 < n'.sha256)
include hm

theorem nodup_next : (m.resident.map ManifestTrack.sha256).Nodup := by
  rw [List.Nodup, List.pairwise_map]
  exact hm.imp fun hlt ↦ hlt.ne

theorem nodup_shifted : ((printResolveDiff db m).shifted.map DiffShifted.sha256).Nodup := by
  have hsub := (Lockstep.sublist_walk PrevTrack.sha256 ManifestTrack.sha256 sameBuckets db.prevLoad
    m.resident).2.2
  have hmap : (printResolveDiff db m).shifted.map DiffShifted.sha256 =
      ((diffWalk db m).shifted.map Prod.snd).map ManifestTrack.sha256 := by
    show ((diffWalk db m).shifted.map fun y ↦ shiftedDiff y.1 y.2).map DiffShifted.sha256 = _
    rw [List.map_map, List.map_map]
    rfl
  rw [hmap]
  exact (hsub.map _).nodup (nodup_next hm)

variable (h : db.Holds prev)
include h

theorem added_perm : (diffWalk db m).added.Perm (minus m.resident prev) := by
  have hsub := (Lockstep.sublist_walk PrevTrack.sha256 ManifestTrack.sha256 sameBuckets db.prevLoad
    m.resident).2.1
  have hnodup : m.resident.Nodup := List.Nodup.of_map _ (nodup_next hm)
  apply (List.perm_ext_iff_of_nodup (hsub.nodup hnodup) (List.filter_sublist.nodup hnodup)).mpr
  intro t
  show t ∈ (diffWalk db m).added ↔ t ∈ minus m.resident prev
  rw [(of_diffWalk hm db).added, mem_minus]
  constructor
  · rintro ⟨ht, hne⟩
    exact ⟨ht, fun p hp ↦ hne p.stored (h.mem_prevLoad.mpr ⟨p, hp, rfl⟩)⟩
  · rintro ⟨ht, hne⟩
    refine ⟨ht, fun q hq ↦ ?_⟩
    obtain ⟨p, hp, rfl⟩ := h.mem_prevLoad.mp hq
    exact hne p hp

theorem removed_perm :
    (diffWalk db m).removed.Perm ((minus prev m.resident).map ManifestTrack.stored) := by
  have hsub := (Lockstep.sublist_walk PrevTrack.sha256 ManifestTrack.sha256 sameBuckets db.prevLoad
    m.resident).1
  have hload : db.prevLoad.Nodup := (ascending_prevLoad db).imp fun hlt he ↦ hlt.ne (by rw [he])
  have hprev : (prev.map ManifestTrack.stored).Nodup := by
    apply List.Nodup.of_map PrevTrack.sha256
    rw [List.map_map]
    exact h.once
  apply (List.perm_ext_iff_of_nodup (hsub.nodup hload)
    ((List.filter_sublist.map _).nodup hprev)).mpr
  intro q
  show q ∈ (diffWalk db m).removed ↔ q ∈ (minus prev m.resident).map ManifestTrack.stored
  rw [(of_diffWalk hm db).removed, h.mem_prevLoad, List.mem_map]
  constructor
  · rintro ⟨⟨t, ht, rfl⟩, hne⟩
    exact ⟨t, mem_minus.mpr ⟨ht, fun n hn ↦ (hne n hn).symm⟩, rfl⟩
  · rintro ⟨t, ht, rfl⟩
    rw [mem_minus] at ht
    exact ⟨⟨t, ht.1, rfl⟩, fun n hn ↦ (ht.2 n hn).symm⟩

/-- The shifted entries are those of the tracks whose joined bucket lists differ. -/
theorem mem_shifted {x : DiffShifted} : x ∈ (printResolveDiff db m).shifted ↔
    ∃ p ∈ prev, ∃ n ∈ m.resident, p.sha256 = n.sha256 ∧
      bucketsToCsv p.buckets ≠ bucketsToCsv n.buckets ∧ shiftedDiff p.stored n = x := by
  show x ∈ (diffWalk db m).shifted.map (fun y ↦ shiftedDiff y.1 y.2) ↔ _
  rw [List.mem_map]
  constructor
  · rintro ⟨⟨q, n⟩, hqn, rfl⟩
    obtain ⟨hq, hn, hsha, hdiffer⟩ := ((of_diffWalk hm db).shifted q n).mp hqn
    obtain ⟨p, hp, rfl⟩ := h.mem_prevLoad.mp hq
    rw [sameBuckets, beq_eq_false_iff_ne] at hdiffer
    exact ⟨p, hp, n, hn, hsha, hdiffer, rfl⟩
  · rintro ⟨p, hp, n, hn, hsha, hdiffer, rfl⟩
    refine ⟨(p.stored, n), ((of_diffWalk hm db).shifted _ _).mpr ⟨?_, hn, hsha, ?_⟩, rfl⟩
    · exact h.mem_prevLoad.mpr ⟨p, hp, rfl⟩
    · rw [sameBuckets, beq_eq_false_iff_ne]
      exact hdiffer

/-- The tracks and their bytes are always the exact difference. -/
theorem netBytes_eq : (printResolveDiff db m).netBytes =
    ((minus m.resident prev).map ManifestTrack.sizeBytes).sum -
      ((minus prev m.resident).map ManifestTrack.sizeBytes).sum := by
  have hadded := ((added_perm hm h).map ManifestTrack.sizeBytes).sum_eq
  have hremoved := ((removed_perm hm h).map PrevTrack.sizeBytes).sum_eq
  rw [List.map_map] at hremoved
  show ((diffWalk db m).added.map ManifestTrack.sizeBytes).sum -
    ((diffWalk db m).removed.map PrevTrack.sizeBytes).sum = _
  rw [hadded, hremoved]
  rfl

/-- The buckets of the shifted tracks are right where the names do not get in the way. -/
theorem exact_of_distinguished (hnext : ∀ n ∈ m.resident, n.buckets.Pairwise (· < ·))
    (hd : Distinguished prev m.resident) : (printResolveDiff db m).Exact prev m.resident := by
  have found : ∀ x ∈ (printResolveDiff db m).shifted, ∀ p ∈ prev, ∀ n ∈ m.resident,
      p.sha256 = x.sha256 → n.sha256 = x.sha256 →
        x = ⟨n.sha256, setDiff n.buckets p.buckets, setDiff p.buckets n.buckets⟩ := by
    intro x hx p hp n hn hpx hnx
    obtain ⟨p', hp', n', hn', hsha, hdiffer, rfl⟩ := (mem_shifted hm h).mp hx
    have hn' : n' = n := List.inj_on_of_nodup_map (nodup_next hm) hn' hn hnx.symm
    subst hn'
    have hp' : p' = p := h.unique hp' hp (hsha.trans hpx.symm)
    subst hp'
    have hne : p'.buckets ≠ n'.buckets := fun he ↦ hdiffer (by rw [he])
    have hone := (hd p' hp' n' hn' hsha hne).1
    rw [shiftedDiff, ManifestTrack.stored, csvSplit_bucketsToCsv (h.plain p' hp'), if_neg hone]
  constructor
  · have hmap := (added_perm hm h).map fun t ↦ (t.sha256, t.sizeBytes)
    rw [printResolveDiff, List.map_map]
    exact hmap
  · have hmap := (removed_perm hm h).map fun q ↦ (q.sha256, q.sizeBytes)
    rw [List.map_map] at hmap
    rw [printResolveDiff, List.map_map]
    exact hmap
  · exact nodup_shifted hm
  · intro sha
    rw [List.mem_map]
    constructor
    · rintro ⟨x, hx, rfl⟩
      obtain ⟨p, hp, n, hn, hsha, hdiffer, rfl⟩ := (mem_shifted hm h).mp hx
      refine ⟨p, hp, n, hn, hsha, rfl, fun hsame ↦ hdiffer ?_⟩
      rw [eq_of_same_names (h.ascending p hp) (hnext n hn) hsame]
    · rintro ⟨p, hp, n, hn, hpsha, rfl, hdiffer⟩
      have hne : p.buckets ≠ n.buckets := fun he ↦ hdiffer fun b ↦ by rw [he]
      have hcsv := (hd p hp n hn hpsha hne).2
      exact ⟨_, (mem_shifted hm h).mpr ⟨p, hp, n, hn, hpsha, hcsv, rfl⟩, rfl⟩
  · intro x hx p hp n hn hpx hnx b
    rw [found x hx p hp n hn hpx hnx]
    exact mem_setDiff
  · intro x hx p hp n hn hpx hnx b
    rw [found x hx p hp n hn hpx hnx]
    exact mem_setDiff
  · exact netBytes_eq hm h

/-- Where they do, some track is shifted wrongly. -/
theorem distinguished_of_exact (hnext : ∀ n ∈ m.resident, n.buckets.Pairwise (· < ·))
    (hd : (printResolveDiff db m).Exact prev m.resident) : Distinguished prev m.resident := by
  intro p hp n hn hsha hne
  have hsets : ¬ ∀ b, b ∈ p.buckets ↔ b ∈ n.buckets :=
    fun hsame ↦ hne (eq_of_same_names (h.ascending p hp) (hnext n hn) hsame)
  have hin := (hd.shifted n.sha256).mpr ⟨p, hp, n, hn, hsha, rfl, hsets⟩
  obtain ⟨x, hx, hxsha⟩ := List.mem_map.mp hin
  have hgained := hd.gained x hx p hp n hn (hsha.trans hxsha.symm) hxsha.symm
  have hlost := hd.lost x hx p hp n hn (hsha.trans hxsha.symm) hxsha.symm
  obtain ⟨p', hp', n', hn', hsha', hdiffer, rfl⟩ := (mem_shifted hm h).mp hx
  have hn' : n' = n := List.inj_on_of_nodup_map (nodup_next hm) hn' hn hxsha
  subst hn'
  have hp' : p' = p := h.unique hp' hp (hsha'.trans hsha.symm)
  subst hp'
  refine ⟨fun hone ↦ ?_, hdiffer⟩
  -- the empty name is neither gained nor lost
  have hsplit : csvSplit p'.stored.bucketsCsv = [] := by
    rw [ManifestTrack.stored, hone]
    rfl
  have hkept := hgained []
  have hgone := hlost []
  simp only [shiftedDiff, hsplit, mem_setDiff, hone] at hkept hgone
  simp only [List.not_mem_nil, List.mem_singleton, not_true, and_false, not_false_eq_true,
    and_true, true_and, false_and, iff_false, false_iff, not_not] at hkept hgone
  exact hkept hgone

end Walk

/-- The writer stores a manifest like that, without the excluded tracks, where the joined buckets fit
its buffer and no name has a comma. -/
theorem holds_of_manifested {env : ResolverEnv} {cfg : ResolverConfig} {db₀ db' : Db}
    {pick : BucketConfig → List Picked} (h : db₀.Manifested (resolveWith env cfg db pick) db')
    (hfits : ∀ t ∈ (resolveWith env cfg db pick).resident, (bucketsToCsv t.buckets).length ≤ 511)
    (hplain : ∀ t ∈ (resolveWith env cfg db pick).resident, ∀ b ∈ t.buckets, (44 : UInt8) ∉ b) :
    db'.Holds ((resolveWith env cfg db pick).resident.filter fun t ↦ !db₀.isExcluded t.sha256) where
  rows sha row := by
    rw [h.tracks]
    constructor
    · rintro ⟨hin, t, ht, rfl, rfl⟩
      refine ⟨t, List.mem_filter.mpr ⟨ht, by rw [hin]; rfl⟩, rfl, ?_⟩
      rw [bucketsCsv_eq_bucketsToCsv.mpr (hfits t ht)]
    · rintro ⟨t, ht, rfl, rfl⟩
      rw [List.mem_filter, Bool.not_eq_true'] at ht
      refine ⟨ht.2, t, ht.1, rfl, ?_⟩
      rw [bucketsCsv_eq_bucketsToCsv.mpr (hfits t ht.1)]
  once := (List.filter_sublist.map _).nodup (nodup_next (ascending_resident env cfg db pick))
  ascending _ ht := ascending_buckets (List.mem_filter.mp ht).1
  plain _ ht := hplain _ (List.mem_filter.mp ht).1

/-- The diff of a stored manifest and a new one is their exact difference, exactly where every
common track with different buckets has bucket lists that are told apart. -/
theorem diff_exact_iff (env : ResolverEnv) (cfg : ResolverConfig) (db db' : Db)
    (pick : BucketConfig → List Picked) (prev : List ManifestTrack) (h : db'.Holds prev) :
    (printResolveDiff db' (resolveWith env cfg db pick)).Exact prev
        (resolveWith env cfg db pick).resident ↔
      Distinguished prev (resolveWith env cfg db pick).resident :=
  ⟨distinguished_of_exact (ascending_resident env cfg db pick) h fun _ ↦ ascending_buckets,
    exact_of_distinguished (ascending_resident env cfg db pick) h fun _ ↦ ascending_buckets⟩

end Exact

namespace EmptyName

/-- The bucket with the empty name, and another one. -/
def cfg : ResolverConfig :=
  ⟨100, 1, 0, 0, 0, [⟨[], 5, ascii "recent_adds_by_mtime", 0⟩,
    ⟨ascii "recent_adds", 5, ascii "recent_adds_by_mtime", 0⟩], by decide⟩

/-- The track was in one bucket. -/
def prev (bucket : Text) : List ManifestTrack := [⟨[97], 1, [bucket]⟩]

def db (bucket : Text) : Db :=
  { Db.ofTracks [([97], 1)] with manifestCurrent := Table.empty.put [97] ⟨bucket, 1⟩ }

theorem holds {bucket : Text} (h : (44 : UInt8) ∉ bucket) : (db bucket).Holds (prev bucket) where
  rows sha row := by
    show (Table.empty.put [97] ⟨bucket, 1⟩).get? sha = some row ↔ _
    have hcsv : bucketsToCsv [bucket] = bucket := by
      rw [bucketsToCsv_eq_intercalate, List.intercalate_singleton]
    simp only [prev, List.mem_singleton, exists_eq_left, hcsv]
    rw [Table.get?_put]
    by_cases hsha : sha = [97]
    · rw [if_pos hsha, Option.some.injEq]
      exact ⟨fun he ↦ ⟨hsha.symm, he.symm⟩, fun he ↦ he.2.symm⟩
    · rw [if_neg hsha]
      constructor
      · intro he
        cases he
      · exact fun he ↦ absurd he.1.symm hsha
  once := List.nodup_singleton _
  ascending t ht := by
    rw [List.mem_singleton.mp ht]
    exact List.pairwise_singleton ..
  plain t ht b hb := by
    rw [List.mem_singleton.mp ht] at hb
    rw [List.mem_singleton.mp hb]
    exact h

theorem resident_eq (bucket : Text) : (resolve .sample cfg (db bucket)).resident =
    [⟨[97], 1, [[], ascii "recent_adds"]⟩] := by
  have hrows : bucketRows cfg (db bucket) (evalPick .sample cfg (db bucket)) =
      bucketRows cfg (db []) (evalPick .sample cfg (db [])) := rfl
  have hprev : (db bucket).prevSet = (db []).prevSet := rfl
  rw [resolve_eq_evalRun, hrows, hprev]
  decide +kernel

/-- A track that was only in the bucket with the empty name, and is now in another one too, has
gained the empty name. -/
theorem empty_name_gained : (db []).Holds (prev []) ∧
    ¬ (printResolveDiff (db []) (resolve .sample cfg (db []))).Exact (prev [])
      (resolve .sample cfg (db [])).resident := by
  refine ⟨holds (by simp), fun h ↦ ?_⟩
  have hd := distinguished_of_exact (ascending_resident .sample cfg (db []) _) (holds (by simp))
    (fun _ ↦ ascending_buckets) h
  have hin : (⟨[97], 1, [[], ascii "recent_adds"]⟩ : ManifestTrack) ∈
      (resolve .sample cfg (db [])).resident := by
    rw [resident_eq]
    exact List.mem_singleton_self _
  exact (hd _ (List.mem_singleton_self _) _ hin rfl (by decide +kernel)).1 rfl

/-- It has lost a bucket with a name. -/
theorem name_lost :
    (printResolveDiff (db (ascii "loved")) (resolve .sample cfg (db (ascii "loved")))).Exact
      (prev (ascii "loved")) (resolve .sample cfg (db (ascii "loved"))).resident := by
  apply (diff_exact_iff .sample cfg _ _ _ _ (holds (by decide +kernel))).mpr
  intro p hp n hn _ _
  rw [List.mem_singleton.mp hp]
  have hn : n ∈ (resolve .sample cfg (db (ascii "loved"))).resident := hn
  rw [resident_eq, List.mem_singleton] at hn
  rw [hn]
  decide +kernel

end EmptyName

end Nocturne
