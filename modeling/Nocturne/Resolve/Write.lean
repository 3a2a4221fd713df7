import Nocturne.Numbers
import Nocturne.Resolve.Order
import Nocturne.World

/-!
# Writing the manifest

`write_manifest_to_db` replaces `manifest_current` and sets the numbers of `manifest_meta` in one
transaction. It looks at the outcome of `BEGIN` and of `COMMIT` only: a statement between them that
fails leaves its change out of what is committed, and a `COMMIT` that fails leaves the transaction
open.
-/

namespace Nocturne

open Lib

/-! ### Texts -/

/-- What `snprintf` is asked to append for each bucket, `resolve_cmd.c:60–61`. -/
def csvPieces : List Text → List Text
  | [] => []
  | b :: bs => b :: bs.map fun b ↦ 44 :: b

/-- The loop over the pieces, `resolve_cmd.c:59–64`, with what the buffer of 512 bytes holds. -/
def csvLoop : Text → List Text → Text
  | buffer, [] => buffer
  | buffer, piece :: pieces =>
    if 512 ≤ buffer.length + piece.length then (buffer ++ piece).take 511
    else csvLoop (buffer ++ piece) pieces

/-- `buckets_csv`. -/
def bucketsCsv (buckets : List Text) : Text := csvLoop [] (csvPieces buckets)

/-! ### Statements -/

namespace Db

/-- The track is unsynced or blacklisted. -/
def isExcluded (db : Db) (sha : Sha) : Bool :=
  (db.unsyncOverrides.get? sha).isSome || (db.trackBlacklist.get? sha).isSome

/-- `INSERT INTO manifest_current … SELECT … WHERE NOT EXISTS …`, `resolve_cmd.c:48–52`: the key
and the foreign key refuse a track that is there, or that is none. -/
def insertManifest (db : Db) (sha : Sha) (row : ManifestRow) : Option Db :=
  if db.isExcluded sha then some db
  else if (db.tracks.get? sha).isSome ∧ db.manifestCurrent.get? sha = none then
    some { db with manifestCurrent := db.manifestCurrent.put sha row }
  else none

end Db

/-- A statement between `BEGIN` and `COMMIT`. -/
inductive ManifestWrite where
  | clear
  | track (t : ManifestTrack)
  | number (key value : Text)
  deriving DecidableEq, Repr

namespace ManifestWrite

/-- The statement. -/
def stmt : ManifestWrite → Stmt
  | clear => .deleteManifest
  | track t => .insertManifest t.sha256
  | number key _ => .putManifestMeta key

/-- What the statement does. -/
def apply (db : Db) : ManifestWrite → Option Db
  | clear => some db.deleteManifest
  | track t => db.insertManifest t.sha256 ⟨bucketsCsv t.buckets, t.sizeBytes⟩
  | number key value => some (db.putManifestMeta key value)

end ManifestWrite

/-- The numbers of a manifest, `resolve_cmd.c:80–105`. -/
def Resolution.numbers (m : Resolution) : List (Text × Text) :=
  [(ascii "used_bytes", decimal m.usedBytes),
    (ascii "cap_bytes", decimal m.capBytes),
    (ascii "cap_effective_bytes", decimal m.capEffectiveBytes),
    (ascii "cold_start", if m.coldStart then ascii "1" else ascii "0"),
    (ascii "generated_at", m.generatedAt)]

/-- The statements between `BEGIN` and `COMMIT`, in their order. -/
def manifestWrites (m : Resolution) : List ManifestWrite :=
  .clear :: (m.resident.map .track ++ m.numbers.map fun n ↦ .number n.1 n.2)

/-- One of the statements, whose outcome is not looked at. -/
def execWrite {ω : Type} (w : ManifestWrite) : Sys ω Unit := do
  let _ ← exec w.stmt fun db ↦ w.apply db
  return ()

/-- `write_manifest_to_db`, `resolve_cmd.c:33–111`; `false` is −1. -/
def writeManifestToDb {ω : Type} (m : Resolution) : Sys ω Bool := do
  if ← dbBegin then
    Proc.each execWrite (manifestWrites m)
    dbCommit
  else return false

/-! ### The written tables -/

/-- The tables hold the manifest: the tracks that are not excluded, and the numbers. -/
structure Db.Manifested (db : Db) (m : Resolution) (db' : Db) : Prop where
  tracks : ∀ sha row, db'.manifestCurrent.get? sha = some row ↔ db.isExcluded sha = false ∧
    ∃ t ∈ m.resident, t.sha256 = sha ∧ row = ⟨bucketsCsv t.buckets, t.sizeBytes⟩
  numbers : ∀ n ∈ m.numbers, db'.manifestMeta.get? n.1 = some n.2

/-- A manifest of tracks of the database, each once. -/
structure Resolution.Fits (m : Resolution) (db : Db) : Prop where
  once : (m.resident.map ManifestTrack.sha256).Nodup
  known : ∀ t ∈ m.resident, (db.tracks.get? t.sha256).isSome

section Written

variable {ω : Type} {m : Resolution} {db db' : Db} {sha : Sha} {row : ManifestRow}

theorem csvLoop_eq (buffer : Text) (pieces : List Text) (h : buffer.length < 512) :
    csvLoop buffer pieces = (buffer ++ pieces.flatten).take 511 := by
  induction pieces generalizing buffer with
  | nil =>
    rw [csvLoop, List.flatten_nil, List.append_nil, List.take_of_length_le (by omega)]
  | cons piece pieces ih =>
    rw [csvLoop, List.flatten_cons, ← List.append_assoc]
    split
    · next hfull =>
      have hle : 511 ≤ (buffer ++ piece).length := by
        rw [List.length_append]
        omega
      rw [List.take_append_of_le_length hle]
    · next hfits => exact ih _ (by rw [List.length_append]; omega)

/-- The buffer holds the first 511 bytes of the joined buckets. -/
theorem bucketsCsv_eq (buckets : List Text) :
    bucketsCsv buckets = (csvPieces buckets).flatten.take 511 := by
  rw [bucketsCsv, csvLoop_eq _ _ (by decide)]
  rfl

theorem nodup_numbers (m : Resolution) : (m.numbers.map Prod.fst).Nodup := by
  show [ascii "used_bytes", ascii "cap_bytes", ascii "cap_effective_bytes", ascii "cold_start",
    ascii "generated_at"].Nodup
  decide

/-- A track that is neither excluded nor there is inserted. -/
theorem insertManifest_new (hknown : (db.tracks.get? sha).isSome) (hin : db.isExcluded sha = false)
    (hnew : db.manifestCurrent.get? sha = none) : db.insertManifest sha row =
      some { db with manifestCurrent := db.manifestCurrent.put sha row } := by
  rw [Db.insertManifest, if_neg (by rw [hin]; decide), if_pos ⟨hknown, hnew⟩]

/-- What a statement leaves of the database; one that is refused leaves it as it is. -/
def ManifestWrite.onto (db : Db) (w : ManifestWrite) : Db := (w.apply db).getD db

/-- The database after the statements. -/
def written (m : Resolution) (db : Db) : Db := (manifestWrites m).foldl ManifestWrite.onto db

/-- A statement of the manifest leaves the other tables. -/
structure SameElsewhere (db db' : Db) : Prop where
  tracks : db'.tracks = db.tracks
  unsync : db'.unsyncOverrides = db.unsyncOverrides
  black : db'.trackBlacklist = db.trackBlacklist

theorem SameElsewhere.refl (db : Db) : SameElsewhere db db := ⟨rfl, rfl, rfl⟩

theorem SameElsewhere.trans {db'' : Db} (h : SameElsewhere db db') (h' : SameElsewhere db' db'') :
    SameElsewhere db db'' :=
  ⟨h'.tracks.trans h.tracks, h'.unsync.trans h.unsync, h'.black.trans h.black⟩

theorem SameElsewhere.isExcluded (h : SameElsewhere db db') (sha : Sha) :
    db'.isExcluded sha = db.isExcluded sha := by
  rw [Db.isExcluded, Db.isExcluded, h.unsync, h.black]

theorem sameElsewhere_onto (db : Db) (w : ManifestWrite) : SameElsewhere db (w.onto db) := by
  unfold ManifestWrite.onto ManifestWrite.apply
  cases w with
  | clear => exact ⟨rfl, rfl, rfl⟩
  | number key value => exact ⟨rfl, rfl, rfl⟩
  | track t =>
    dsimp only
    unfold Db.insertManifest
    split
    · exact SameElsewhere.refl db
    · split
      · exact ⟨rfl, rfl, rfl⟩
      · exact SameElsewhere.refl db

/-- The tracks that are inserted one after another. -/
theorem tracks_foldl {ts : List ManifestTrack} (hknown : ∀ t ∈ ts, (db.tracks.get? t.sha256).isSome)
    (honce : (ts.map ManifestTrack.sha256).Nodup)
    (hnew : ∀ t ∈ ts, db.manifestCurrent.get? t.sha256 = none) (sha : Sha) (row : ManifestRow) :
    ((ts.map .track).foldl ManifestWrite.onto db).manifestCurrent.get? sha = some row ↔
      db.manifestCurrent.get? sha = some row ∨ db.isExcluded sha = false ∧
        ∃ t ∈ ts, t.sha256 = sha ∧ row = ⟨bucketsCsv t.buckets, t.sizeBytes⟩ := by
  induction ts generalizing db with
  | nil => simp
  | cons t ts ih =>
    rw [List.map_cons, List.nodup_cons] at honce
    rw [List.map_cons, List.foldl_cons]
    have hsame := sameElsewhere_onto db (.track t)
    have hne : ∀ t' ∈ ts, t'.sha256 ≠ t.sha256 := by
      intro t' ht' he
      exact honce.1 (he ▸ List.mem_map_of_mem ht')
    cases hin : db.isExcluded t.sha256 with
    | true =>
      have honto : (ManifestWrite.track t).onto db = db := by
        rw [ManifestWrite.onto, ManifestWrite.apply, Db.insertManifest, if_pos hin]
        rfl
      rw [honto, ih (fun t' ht' ↦ hknown t' (List.mem_cons_of_mem _ ht')) honce.2
        fun t' ht' ↦ hnew t' (List.mem_cons_of_mem _ ht')]
      constructor
      · rintro (h | ⟨hx, t', ht', he⟩)
        · exact Or.inl h
        · exact Or.inr ⟨hx, t', List.mem_cons_of_mem _ ht', he⟩
      · rintro (h | ⟨hx, t', ht', rfl, he⟩)
        · exact Or.inl h
        · rcases List.mem_cons.mp ht' with rfl | ht'
          · rw [hin] at hx
            cases hx
          · exact Or.inr ⟨hx, t', ht', rfl, he⟩
    | false =>
      have honto : (ManifestWrite.track t).onto db = { db with
          manifestCurrent := db.manifestCurrent.put t.sha256 ⟨bucketsCsv t.buckets, t.sizeBytes⟩ } := by
        rw [ManifestWrite.onto, ManifestWrite.apply,
          insertManifest_new (hknown t (List.mem_cons_self ..)) hin (hnew t (List.mem_cons_self ..))]
        rfl
      rw [ih]
      · rw [hsame.isExcluded, honto]
        dsimp only
        rw [Table.get?_put]
        by_cases hs : sha = t.sha256
        · rw [if_pos hs]
          constructor
          · rintro (h | ⟨-, t', ht', he, -⟩)
            · cases h
              exact Or.inr ⟨by rw [hs]; exact hin, t, List.mem_cons_self .., hs.symm, rfl⟩
            · exact absurd (he.trans hs) (hne t' ht')
          · rintro (h | ⟨hx, t', ht', he, hrow⟩)
            · rw [hs, hnew t (List.mem_cons_self ..)] at h
              cases h
            · rcases List.mem_cons.mp ht' with rfl | ht'
              · exact Or.inl (by rw [hrow])
              · exact absurd (he.trans hs) (hne t' ht')
        · rw [if_neg hs]
          constructor
          · rintro (h | ⟨hx, t', ht', he⟩)
            · exact Or.inl h
            · exact Or.inr ⟨hx, t', List.mem_cons_of_mem _ ht', he⟩
          · rintro (h | ⟨hx, t', ht', he, hrow⟩)
            · exact Or.inl h
            · rcases List.mem_cons.mp ht' with rfl | ht'
              · exact absurd he.symm hs
              · exact Or.inr ⟨hx, t', ht', he, hrow⟩
      · intro t' ht'
        rw [hsame.tracks]
        exact hknown t' (List.mem_cons_of_mem _ ht')
      · exact honce.2
      · intro t' ht'
        rw [honto]
        dsimp only
        rw [Table.get?_put_ne _ _ (hne t' ht')]
        exact hnew t' (List.mem_cons_of_mem _ ht')

/-- Numbers leave the tracks. -/
theorem numbers_foldl_tracks (ns : List (Text × Text)) (db : Db) :
    ((ns.map fun n ↦ ManifestWrite.number n.1 n.2).foldl ManifestWrite.onto db).manifestCurrent =
      db.manifestCurrent := by
  induction ns generalizing db with
  | nil => rfl
  | cons n ns ih =>
    rw [List.map_cons, List.foldl_cons, ih]
    rfl

/-- Each number is set. -/
theorem numbers_foldl {ns : List (Text × Text)} (honce : (ns.map Prod.fst).Nodup) (db : Db) :
    ∀ n ∈ ns, ((ns.map fun n ↦ ManifestWrite.number n.1 n.2).foldl
      ManifestWrite.onto db).manifestMeta.get? n.1 = some n.2 := by
  have keep : ∀ (ns : List (Text × Text)) (db : Db) (key : Text), (∀ n ∈ ns, n.1 ≠ key) →
      ((ns.map fun n ↦ ManifestWrite.number n.1 n.2).foldl ManifestWrite.onto db).manifestMeta.get?
        key = db.manifestMeta.get? key := by
    intro ns
    induction ns with
    | nil => exact fun _ _ _ ↦ rfl
    | cons n ns ih =>
      intro db key hne
      rw [List.map_cons, List.foldl_cons, ih _ _ fun n' hn' ↦ hne n' (List.mem_cons_of_mem _ hn')]
      exact Table.get?_put_ne _ _ (Ne.symm (hne n (List.mem_cons_self ..)))
  induction ns generalizing db with
  | nil => exact fun _ h ↦ by cases h
  | cons n ns ih =>
    rw [List.map_cons, List.nodup_cons] at honce
    intro n' hn'
    rw [List.map_cons, List.foldl_cons]
    rcases List.mem_cons.mp hn' with rfl | hn'
    · rw [keep]
      · exact Table.get?_put_self ..
      · intro n'' hn'' he
        exact honce.1 (he ▸ List.mem_map_of_mem hn'')
    · exact ih honce.2 _ n' hn'

/-- The statements write the manifest. -/
theorem manifested_written (hfits : m.Fits db) : db.Manifested m (written m db) := by
  unfold written manifestWrites
  rw [List.foldl_cons, List.foldl_append]
  have hclear : ManifestWrite.clear.onto db = db.deleteManifest := rfl
  have hknown : ∀ t ∈ m.resident, (db.deleteManifest.tracks.get? t.sha256).isSome := hfits.known
  constructor
  · intro sha row
    rw [numbers_foldl_tracks, hclear, tracks_foldl hknown hfits.once]
    · have hempty : db.deleteManifest.manifestCurrent.get? sha = none := Table.get?_empty sha
      rw [hempty]
      show none = some row ∨ db.isExcluded sha = false ∧ _ ↔ _
      simp
    · exact fun t _ ↦ Table.get?_empty t.sha256
  · exact numbers_foldl (nodup_numbers m) _

/-- A resolution has tracks of the database, each once. -/
theorem fits_resolveWith {env : ResolverEnv} {cfg : ResolverConfig} {pick : BucketConfig → List Picked}
    (hpick : MayPick env cfg db pick) : (resolveWith env cfg db pick).Fits db where
  once := nodup_resident _ _ _ _
  known t ht := by
    obtain ⟨c, hc, rfl, -⟩ := cand_of_resident ht
    obtain ⟨r, hr, he, -⟩ := (candFrom_candidates _ c hc).size
    obtain ⟨row, hrow, -⟩ := size_of_bucketRows hpick hr
    show (db.tracks.get? c.sha256).isSome
    rw [← he, hrow]
    rfl

end Written

end Nocturne
