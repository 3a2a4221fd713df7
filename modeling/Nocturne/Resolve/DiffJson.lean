import Nocturne.Lib.Assoc
import Nocturne.Printed
import Nocturne.Resolve.Partition
import Nocturne.Scan.Escape

/-!
# The diff as a document

`nocturned resolve --dry-run --diff --json` prints the diff in one line of JSON. Who has the
previous manifest and reads the document can tell the next one from it, exactly where the names of
the buckets do not get in the way.
-/

namespace Nocturne

open Lib Lib.JsonTree

/-! ### The printer -/

/-- The id and the buckets of a track. -/
abbrev Entry := Text × List Text

/-- What a reader takes from the document. -/
structure DiffDocument where
  added : List Entry
  removed : List Entry
  shifted : List (Text × List Text × List Text)

/-- The track with the buckets that it gains and without those that it loses. -/
def shift (shifted : List (Text × List Text × List Text)) (t : Entry) : Entry :=
  match shifted.lookup t.1 with
  | some (gained, lost) => (t.1, t.2.filter (fun b ↦ !lost.contains b) ++ gained)
  | none => t

/-- The manifest that the document leads to from another one. -/
def DiffDocument.replay (d : DiffDocument) (prev : List Entry) : List Entry :=
  (prev.filter fun t ↦ !(d.removed.map Prod.fst).contains t.1).map (shift d.shifted) ++ d.added

def ManifestTrack.entry (t : ManifestTrack) : Entry := (t.sha256, t.buckets)

def DiffTrack.entry (t : DiffTrack) : Entry := (t.sha256, t.buckets)

/-- What a reader is to take from the document. -/
def ResolveDiff.document (d : ResolveDiff) : DiffDocument where
  added := d.added.map DiffTrack.entry
  removed := d.removed.map DiffTrack.entry
  shifted := d.shifted.map fun x ↦ (x.sha256, x.gained, x.lost)

section Reads

open JsonText

/-- The members of a track, as a reader sees them. -/
def DiffTrack.members (t : DiffTrack) : Members :=
  [(ascii "id", .string t.sha256),
    (ascii "buckets", .array (t.buckets.map .string)),
    (ascii "size_bytes", .integer t.sizeBytes)]

def DiffShifted.members (x : DiffShifted) : Members :=
  [(ascii "id", .string x.sha256),
    (ascii "added_buckets", .array (x.gained.map .string)),
    (ascii "removed_buckets", .array (x.lost.map .string))]

def ResolveDiff.members (d : ResolveDiff) : Members :=
  [(ascii "added", .array (d.added.map fun t ↦ .object t.members)),
    (ascii "removed", .array (d.removed.map fun t ↦ .object t.members)),
    (ascii "shifted", .array (d.shifted.map fun x ↦ .object x.members)),
    (ascii "net_tracks", .integer d.netTracks),
    (ascii "net_bytes", .integer d.netBytes),
    (ascii "used_before", .integer d.usedBefore),
    (ascii "used_after", .integer d.usedAfter),
    (ascii "cap_effective_bytes", .integer d.capEffectiveBytes)]

variable {members : List (Text × Text)} {values : Members}

end Reads

section Decodes

end Decodes

section Replay

variable {env : ResolverEnv} {cfg : ResolverConfig} {db : Db} {pick : BucketConfig → List Picked}
  {prev : List ManifestTrack} {m : Resolution} {p n : ManifestTrack}

section Walk

variable (hm : m.resident.Pairwise fun n n' ↦ n.sha256 < n'.sha256) (h : db.Holds prev)
include hm h

end Walk

end Replay

namespace EmptyName

end EmptyName

end Nocturne
