import Nocturne.Phone.Residency
import Nocturne.Publish.Manifest

/-!
# The phone follows the manifest

One pass of `ManifestReconciler.reconcile` from its first call to its last, on whatever earlier
passes have left, and the way of a resolution from the resolver through the tables and the file to
the tracks that are resident on the phone.
-/

namespace Nocturne

open Lib Lib.Steps

namespace Residency

/-! ### A pass without incident -/

/-- The rows of the ids, as the chunks find them. -/
def lookedUp (tracks : Table Text PhoneTrack) (batches : List (List Text)) :
    List (Text × PhoneTrack) :=
  batches.flatMap fun batch ↦ tracks.rows.filter fun r ↦ batch.contains r.1

/-- The ids that a pass verifies. -/
def verifiedIds (tracks : Table Text PhoneTrack) (ids : List Text) (disk : Table Text Int) :
    List Text :=
  verify (lookedUp tracks (chunked ids)) disk

/-- The calls of `reconcile` with a manifest and a music tree, when none of them fails and no other
coroutine goes on in between. Those that a pass does not come to do nothing. -/
def undisturbed (tracks : Table Text PhoneTrack) (pid : Nat) (ids : List Text)
    (disk : Table Text Int) : List ResidencyStep :=
  .reconcile pid (some ids) true :: (chunked ids).map (fun _ ↦ .byIds pid true) ++
    .probe pid disk :: .compare pid :: .clearAllResident pid true ::
      (chunked (verifiedIds tracks ids disk)).map (fun _ ↦ .setResidentFor pid true) ++
        [.apply pid]

section Pass

variable {s : Residency} {pid : Nat} {ids : List Text} {disk : Table Text Int}

end Pass

end Residency

/-! ### From the resolver to the phone -/

section Follow

variable {env : ResolverEnv} {cfg : ResolverConfig} {db : Db} {pick : BucketConfig → List Picked}

end Follow

namespace ThreeTracks

theorem kept : (resolve .sample cfg db).Kept db := by
  have htracks : ∀ t ∈ (resolve .sample cfg db).published db,
      (0 ∉ t.sha256 ∧ utf8Valid t.sha256 = true) ∧
        (∀ b ∈ t.buckets, (0 ∉ b ∧ utf8Valid b = true) ∧ b ≠ [] ∧ 44 ∉ b) ∧
          (bucketsToCsv t.buckets).length ≤ 511 := by
    unfold Resolution.published
    rw [resolve_eq_evalRun]
    decide +kernel
  constructor
  · unfold Resolution.published
    rw [resolve_eq_evalRun]
    decide +kernel
  · exact ⟨by decide, by decide⟩
  · unfold FitsLong
    rw [resolve_eq_evalRun]
    decide +kernel
  · exact fun t ht ↦ ⟨(htracks t ht).1, (htracks t ht).2.1, (htracks t ht).2.2⟩

end ThreeTracks

end Nocturne
