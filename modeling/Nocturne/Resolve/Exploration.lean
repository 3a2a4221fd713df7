import Nocturne.Resolve.Buckets

/-!
# The tracks of the exploration

The candidates are ranked by a hash of their own with a seed, and the lowest ranks are chosen.
Another candidate therefore takes the place of at most one track, and the order of the candidates
does not matter.
-/

namespace Nocturne

open Lib

/-- `struct ranked` of a candidate and its size. -/
def ranked (seed : UInt64) (c : Sha × Int) : Picked :=
  ⟨c.1, c.2, .int (exploreRank seed c.1).toNat⟩

/-- The choice of `count` candidates, `resolver.c:476–494`: they are sorted and cut off. -/
def exploreQuery (seed : UInt64) (count : Nat) (candidates : List (Sha × Int)) : Query Picked :=
  ⟨candidates.map (ranked seed), cmpRanked, count⟩

/-- The rows of `SQL_EXPLORATION_CANDIDATES`. -/
def Db.explorationCandidates (db : Db) : List (Sha × Int) :=
  (db.tracks.table.rows.filter fun r ↦
    !db.plays.any fun p ↦ p.sha256 == r.1 && isPhone p.src).map fun r ↦ (r.1, r.2.sizeBytes)

/-- `x` may come in, and then at most one track goes. -/
def OneSwap (x : Sha) (old new : List Sha) : Prop :=
  new = old ∨ ∃ kept gone, old = kept ++ gone ∧ gone.length ≤ 1 ∧ new.Perm (x :: kept)

section Choice

variable {env : ResolverEnv} {cfg : ResolverConfig} {db : Db} {bc : BucketConfig} {seed : UInt64}
  {count : Nat} {C C' : List (Sha × Int)} {x : Sha × Int} {out out' : List Picked}

/-- A bucket with this source chooses from those candidates. -/
theorem bucketQuery_exploration (h : bc.source = ascii "exploration_random") :
    bucketQuery env cfg db bc =
      some (exploreQuery (exploreSeed env cfg) bc.count.toNat db.explorationCandidates) := by
  have hs : bucketSource env cfg db bc =
      some ⟨exploration db (exploreSeed env cfg), cmpRanked⟩ := by
    unfold bucketSource
    rw [h]
    rfl
  have hrows : db.pick (exploration db (exploreSeed env cfg)) =
      db.explorationCandidates.map (ranked (exploreSeed env cfg)) := by
    unfold Db.pick Db.explorationCandidates
    generalize db.tracks.table.rows = rows
    induction rows with
    | nil => rfl
    | cons r rows ih =>
      by_cases hp : (db.plays.any fun p ↦ p.sha256 == r.1 && isPhone p.src) = true
      · simp only [List.filterMap_cons, exploration, hp, if_true, Option.map_none, Bool.not_true,
          List.filter_cons_of_neg, Bool.false_eq_true, not_false_eq_true]
        exact ih
      · simp only [List.filterMap_cons, exploration, hp, Bool.false_eq_true, if_false,
          Option.map_some, Bool.not_false, List.filter_cons_of_pos, List.map_cons, ranked]
        exact congrArg (_ :: ·) ih
  rw [bucketQuery, hs, Option.map_some, hrows]
  rfl

/-- The order of the ranks, on the hashes alone. -/
def rankLe (seed : UInt64) (a b : Sha) : Prop :=
  if (exploreRank seed a).toNat = (exploreRank seed b).toNat then a ≤ b
  else (exploreRank seed a).toNat ≤ (exploreRank seed b).toNat

instance (seed : UInt64) : DecidableRel (rankLe seed) := fun a b ↦ by
  unfold rankLe
  infer_instance

/-- The rows come in the order of their ranks. -/
theorem cmpRanked_ranked {a b : Sha × Int} :
    cmpRanked (ranked seed a) (ranked seed b) = true ↔ rankLe seed a.1 b.1 := by
  unfold cmpRanked keyed ranked rankLe SqlValue.le
  by_cases he : (exploreRank seed a.1).toNat = (exploreRank seed b.1).toNat
  · simp [he]
  · simp [he]

/-- Of two tracks one comes first. -/
theorem rankLe_total (a b : Sha) : rankLe seed a b ∨ rankLe seed b a := by
  unfold rankLe
  by_cases he : (exploreRank seed a).toNat = (exploreRank seed b).toNat
  · rw [if_pos he, if_pos he.symm]
    exact le_total a b
  · rw [if_neg he, if_neg (Ne.symm he)]
    omega

/-- Two tracks of one rank are one. -/
theorem rankLe_antisymm {a b : Sha} (hab : rankLe seed a b) (hba : rankLe seed b a) : a = b := by
  unfold rankLe at hab hba
  by_cases he : (exploreRank seed a).toNat = (exploreRank seed b).toNat
  · rw [if_pos he] at hab
    rw [if_pos he.symm] at hba
    exact le_antisymm hab hba
  · rw [if_neg he] at hab
    rw [if_neg (Ne.symm he)] at hba
    omega

/-- The order of the ranks is transitive. -/
theorem rankLe_trans {a b c : Sha} (hab : rankLe seed a b) (hbc : rankLe seed b c) :
    rankLe seed a c := by
  unfold rankLe at hab hbc ⊢
  by_cases h : (exploreRank seed a).toNat = (exploreRank seed b).toNat
  · rw [if_pos h] at hab
    rw [h]
    by_cases h' : (exploreRank seed b).toNat = (exploreRank seed c).toNat
    · rw [if_pos h'] at hbc ⊢
      exact le_trans hab hbc
    · rw [if_neg h'] at hbc ⊢
      exact hbc
  · rw [if_neg h] at hab
    have hle : (exploreRank seed b).toNat ≤ (exploreRank seed c).toNat := by
      by_cases h' : (exploreRank seed b).toNat = (exploreRank seed c).toNat
      · omega
      · rw [if_neg h'] at hbc
        exact hbc
    rw [if_neg (by omega)]
    omega

instance (seed : UInt64) : Std.Total (rankLe seed) := ⟨rankLe_total⟩

instance (seed : UInt64) : IsTrans Sha (rankLe seed) := ⟨fun _ _ _ ↦ rankLe_trans⟩

/-- The chosen hashes are the first ones, in whatever order the candidates come and however the
sort treats equal ones. -/
theorem sha_of_answers (h : (exploreQuery seed count C).Answers out) {shas : List Sha}
    (hshas : shas.Perm (C.map Prod.fst)) :
    out.map Picked.sha256 = (shas.insertionSort (rankLe seed)).take count := by
  obtain ⟨all, hperm, hsorted, rfl⟩ := h
  have hall : (all.map Picked.sha256).Perm (C.map Prod.fst) := by
    have hmap := hperm.map Picked.sha256
    rw [exploreQuery, List.map_map] at hmap
    exact hmap
  have hascending : (all.map Picked.sha256).Pairwise (rankLe seed) := by
    rw [List.pairwise_map]
    refine hsorted.imp_of_mem fun {p q} hp hq hpq ↦ ?_
    obtain ⟨c, -, rfl⟩ := List.mem_map.mp (hperm.subset hp)
    obtain ⟨d, -, rfl⟩ := List.mem_map.mp (hperm.subset hq)
    exact cmpRanked_ranked.mp hpq
  have hsort : all.map Picked.sha256 = shas.insertionSort (rankLe seed) := by
    apply @List.Perm.eq_of_pairwise _ (rankLe seed)
    · exact fun a b _ _ ↦ rankLe_antisymm
    · exact hascending
    · exact List.pairwise_insertionSort _ _
    · exact (hall.trans hshas.symm).trans (List.perm_insertionSort _ _).symm
  rw [List.map_take, hsort, exploreQuery]

/-- The query has an answer. -/
theorem exploreQuery_answer (seed : UInt64) (count : Nat) (C : List (Sha × Int)) :
    (exploreQuery seed count C).Answers (exploreQuery seed count C).answer := by
  apply Query.answers_answer
  · intro x y z
    exact keyed_trans (fun _ _ _ ↦ SqlValue.trans) fun _ _ ↦ SqlValue.antisymm
  · exact keyed_total SqlValue.total

/-- The order of the candidates does not matter, and another candidate takes the place of at most
one of the chosen tracks. -/
theorem exploration_stable (seed : UInt64) (count : Nat) (C C' : List (Sha × Int)) (x : Sha × Int)
    (out out' : List Picked) (h : (exploreQuery seed count C).Answers out)
    (h' : (exploreQuery seed count C').Answers out') :
    (C'.Perm C → out'.map Picked.sha256 = out.map Picked.sha256) ∧
      (C'.Perm (x :: C) →
        OneSwap x.1 (out.map Picked.sha256) (out'.map Picked.sha256)) := by
  have hout := sha_of_answers h (List.Perm.refl _)
  constructor
  · intro hperm
    rw [hout, sha_of_answers h' (hperm.map Prod.fst).symm]
  · intro hperm
    have hout' := sha_of_answers h' (hperm.map Prod.fst).symm
    rw [List.map_cons, List.insertionSort_cons] at hout'
    rw [hout, hout']
    generalize (C.map Prod.fst).insertionSort (rankLe seed) = shas
    rcases take_orderedInsert (rankLe seed) x.1 shas count with hsame | ⟨hpos, hnew⟩
    · exact Or.inl hsame
    · right
      refine ⟨shas.take (count - 1), (shas.drop (count - 1)).take 1, ?_, ?_, hnew⟩
      · rw [← List.take_add]
        congr 1
        omega
      · exact List.length_take_le _ _

/-- One of two tracks, and then one of three. -/
theorem exploration_of_three :
    OneSwap [99] ((exploreQuery 1 1 [([97], 1), ([98], 1)]).answer.map Picked.sha256)
      ((exploreQuery 1 1 [([98], 1), ([99], 1), ([97], 1)]).answer.map Picked.sha256) :=
  (exploration_stable 1 1 [([97], 1), ([98], 1)] [([98], 1), ([99], 1), ([97], 1)] ([99], 1) _ _
    (exploreQuery_answer ..) (exploreQuery_answer ..)).2 (by decide)

end Choice

end Nocturne
