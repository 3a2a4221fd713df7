import Nocturne.Catalog.Columns
import Nocturne.Lib.Tokens
import Nocturne.Resolve.Partition

/-!
# The manifest that is published

`load_manifest_tree` of `publish.c` makes `manifest.json` of the tables that the resolver has
written, and `ManifestJson.kt` decodes it on the phone. The buckets of a track are stored joined by
commas in 511 bytes, and cut again with `strtok`; the numbers are stored as texts.
-/

namespace Nocturne

open Lib Lib.JsonTree

/-! ### The desktop -/

/-- The tokens that `strtok(…, ",")` hands out one after another. -/
def strtok (s : Text) : List Text := Tokens.tokens 44 s

/-- `meta_long`, `publish.c:40–53`. `strtoll` reads zero where there is no number. -/
def metaLong (db : Db) (key : Text) (fallback : Int) : Int :=
  match db.manifestMeta.get? key with
  | some value => (strtol (columnText value)).getD 0
  | none => fallback

/-- The object of a track, `publish.c:69–82`. A token that is not UTF-8 is not appended. -/
def residentObject (sha bucketsCsv : Text) : JsonTree :=
  .object (JsonTree.build
    [(ascii "id", jsonString (columnText sha)),
      (ascii "buckets", some (.array ((strtok (columnText bucketsCsv)).filterMap jsonString)))])

/-- The members of the manifest, `publish.c:91–98`, of the numbers and the rows that it gets. -/
def manifestMembers (now capBytes usedBytes : Int) (rows : List PrevTrack) :
    List (Text × Option JsonTree) :=
  [(ascii "v", some (.integer 1)),
    (ascii "generated_at", jsonString (isoUtcNow now)),
    (ascii "cap_bytes", some (.integer capBytes)),
    (ascii "used_bytes", some (.integer usedBytes)),
    (ascii "resident", some (.array
      (rows.map fun row ↦ residentObject row.sha256 row.bucketsCsv)))]

/-- The manifest, `publish.c:83–98`: there is none without rows. -/
def manifestTree (now capBytes usedBytes : Int) (rows : List PrevTrack) : Option JsonTree :=
  if rows = [] then none
  else some (.object (JsonTree.build (manifestMembers now capBytes usedBytes rows)))

/-- `load_manifest_tree`, `publish.c:57–100`, while its queries go through. Its rows are those of
`prev_load`, in the same order. -/
def loadManifestTree (now : Int) (db : Db) : Option JsonTree :=
  manifestTree now (metaLong db (ascii "cap_bytes") 0) (metaLong db (ascii "used_bytes") 0)
    db.prevLoad

/-! ### The phone -/

/-- `ResidentEntry`, `ManifestJson.kt:19–23`. -/
structure ResidentEntry where
  id : Text
  buckets : List Text
  deriving DecidableEq, Repr

/-- `ManifestJson`, `ManifestJson.kt:10–17`. -/
structure PublishedManifestJson where
  v : Int
  generatedAt : Text
  capBytes : Int
  usedBytes : Int
  resident : List ResidentEntry
  deriving DecidableEq, Repr

/-- `ResidentEntry.serializer()`. -/
def decodeResident : JsonTree → Option ResidentEntry
  | .object o => do
    let id ← required asString o (ascii "id")
    let buckets ← strings o (ascii "buckets")
    return { id, buckets }
  | _ => none

/-- `ManifestJson.serializer()`. -/
def decodeManifest : JsonTree → Option PublishedManifestJson
  | .object o => do
    let v ← required (asInteger 32) o (ascii "v")
    let generatedAt ← required asString o (ascii "generated_at")
    let capBytes ← required (asInteger 64) o (ascii "cap_bytes")
    let usedBytes ← required (asInteger 64) o (ascii "used_bytes")
    let resident ← required (asList decodeResident) o (ascii "resident")
    return { v, generatedAt, capBytes, usedBytes, resident }
  | _ => none

/-! ### What arrives -/

/-- The tracks of a resolution that are published: those that are not excluded. -/
def Resolution.published (m : Resolution) (db : Db) : List ManifestTrack :=
  m.resident.filter fun t ↦ !db.isExcluded t.sha256

/-- What the phone is to read of a resolution. -/
def Resolution.shown (m : Resolution) (db : Db) (now : Int) : PublishedManifestJson where
  v := 1
  generatedAt := isoUtcNow now
  capBytes := m.capBytes
  usedBytes := m.usedBytes
  resident := (m.published db).map fun t ↦ ⟨t.sha256, t.buckets⟩

/-- A number of 64 bits. -/
def FitsLong (n : Int) : Prop := -2 ^ 63 ≤ n ∧ n < 2 ^ 63

/-- A track that arrives as it is: its hash is a C string in UTF-8, so is each of its buckets, which
are not empty and have no comma, and the buffer has room for all of them. -/
structure ManifestTrack.Kept (t : ManifestTrack) : Prop where
  sha : KeptText t.sha256
  bucket : ∀ b ∈ t.buckets, KeptText b ∧ b ≠ [] ∧ 44 ∉ b
  room : (bucketsToCsv t.buckets).length ≤ 511

/-- A resolution that arrives as it is. -/
structure Resolution.Kept (m : Resolution) (db : Db) : Prop where
  some : m.published db ≠ []
  cap : FitsLong m.capBytes
  used : FitsLong m.usedBytes
  tracks : ∀ t ∈ m.published db, t.Kept

section Manifest

variable {m : Resolution} {db db' : Db} {now : Int} {sha csv t : Text}

/-! ### Buckets -/

/-- The buckets that are read back of stored ones. -/
def bucketsBack (csv : Text) : List Text := (strtok (columnText csv)).filter utf8Valid

/-- Stored buckets are read back exactly when each of them is kept and all of them fit. -/
theorem bucketsBack_eq_iff (buckets : List Text) : bucketsBack (bucketsCsv buckets) = buckets ↔
    (∀ b ∈ buckets, KeptText b ∧ b ≠ [] ∧ 44 ∉ b) ∧ (bucketsToCsv buckets).length ≤ 511 := by
  constructor
  · intro h
    constructor
    · intro b hb
      rw [← h] at hb
      obtain ⟨htoken, hvalid⟩ := List.mem_filter.mp hb
      obtain ⟨hne, hcomma⟩ := Tokens.mem_tokens htoken
      refine ⟨⟨fun hzero ↦ ?_, hvalid⟩, hne, hcomma⟩
      have hinfix : b ∈ (columnText (bucketsCsv buckets)).splitOn 44 := List.mem_of_mem_filter htoken
      have hmem : (0 : UInt8) ∈ columnText (bucketsCsv buckets) := by
        rw [← @List.intercalate_splitOn _ (columnText (bucketsCsv buckets)) _ _ 44]
        exact (Tokens.mem_intercalate (by decide)).mpr ⟨b, hinfix, hzero⟩
      exact zero_notMem_columnText _ hmem
    · have hlen : ([44].intercalate (bucketsBack (bucketsCsv buckets))).length ≤
          (columnText (bucketsCsv buckets)).length :=
        Tokens.length_intercalate_le List.filter_sublist
      have hprefix : (columnText (bucketsCsv buckets)).length ≤ (bucketsCsv buckets).length :=
        (List.takeWhile_prefix _).length_le
      rw [h, ← bucketsToCsv_eq_intercalate] at hlen
      have hbuffer : (bucketsCsv buckets).length ≤ 511 := by
        rw [bucketsCsv_eq]
        exact List.length_take_le ..
      omega
  · rintro ⟨hkept, hroom⟩
    have hzero : 0 ∉ bucketsToCsv buckets := by
      rw [bucketsToCsv_eq_intercalate, Tokens.mem_intercalate (by decide)]
      rintro ⟨b, hb, hmem⟩
      exact (hkept b hb).1.1 hmem
    unfold bucketsBack strtok
    rw [bucketsCsv_eq_bucketsToCsv.mpr hroom, columnText_of_notMem hzero, bucketsToCsv_eq_intercalate,
      Tokens.tokens_intercalate fun b hb ↦ (hkept b hb).2]
    exact List.filter_eq_self.mpr fun b hb ↦ (hkept b hb).1.2

/-! ### Objects -/

theorem filterMap_jsonString (ts : List Text) :
    ts.filterMap jsonString = (ts.filter utf8Valid).map .string := by
  induction ts with
  | nil => rfl
  | cons t ts ih =>
    unfold jsonString at ih ⊢
    by_cases h : utf8Valid t = true
    · simp [h, ih]
    · simp [h, ih]

theorem mapM_asString (ts : List Text) : (ts.map JsonTree.string).mapM asString = some ts := by
  apply mapM_eq_some.mpr
  rw [List.forall₂_map_left_iff]
  exact List.forall₂_same.mpr fun _ _ ↦ rfl

/-- The object of a track decodes where its hash is UTF-8. -/
theorem decodeResident_object : decodeResident (residentObject sha csv) =
    if utf8Valid (columnText sha) then some ⟨columnText sha, bucketsBack csv⟩ else none := by
  have hnodup : ([(ascii "id", jsonString (columnText sha)),
      (ascii "buckets", some (JsonTree.array
        ((strtok (columnText csv)).filterMap jsonString)))].map Prod.fst).Nodup := by
    show List.Nodup [ascii "id", ascii "buckets"]
    decide
  have hid := lookup_build hnodup (.head _)
  have hbuckets := lookup_build hnodup (.tail _ (.head _))
  have hlist : asList asString (.array ((strtok (columnText csv)).filterMap jsonString)) =
      some (bucketsBack csv) := by
    rw [filterMap_jsonString]
    exact mapM_asString _
  unfold residentObject decodeResident
  simp only [required, strings, withDefault, hid, hbuckets, hlist]
  unfold jsonString
  split <;> rfl

/-! ### Numbers -/

theorem fitsLong_of_strtol {n : Int} (h : strtol t = some n) : FitsLong n := by
  unfold strtol at h
  dsimp only at h
  split at h
  · cases h
  · rw [← Option.some.inj h]
    exact ⟨le_max_left _ _, max_lt (by decide) (lt_of_le_of_lt (min_le_left _ _) (by decide))⟩

theorem fitsLong_metaLong (db : Db) (key : Text) : FitsLong (metaLong db key 0) := by
  have hzero : FitsLong 0 := ⟨by decide, by decide⟩
  unfold metaLong
  split
  · next value _ =>
    cases hn : strtol (columnText value) with
    | none => exact hzero
    | some n => exact fitsLong_of_strtol hn
  · exact hzero

theorem asInteger_of_fitsLong {n : Int} (h : FitsLong n) : asInteger 64 (.integer n) = some n :=
  if_pos h

/-- The digits of a number, with what they say. -/
theorem decimalBytes (n : Nat) : ∃ b bs, decimalNat n = b :: bs ∧
    (∀ c ∈ b :: bs, isDigit c = true) ∧
      (b :: bs).foldl (fun n d ↦ 10 * n + (d.toNat - 48)) 0 = n := by
  have hne : frontDigits n ≠ [] := by
    intro h
    obtain ⟨b, bs, hb, -⟩ := decimalNat_cons n
    rw [decimalNat_eq, h] at hb
    cases hb
  obtain ⟨b, bs, hbytes, hdigits, hvalue⟩ := digitBytes hne fun _ ↦ lt_of_mem_frontDigits
  have hall := digitsNat_take n (frontDigits n).length
  rw [List.take_length, Nat.sub_self, Nat.pow_zero, Nat.div_one] at hall
  exact ⟨b, bs, (decimalNat_eq n).trans hbytes, hdigits, hvalue.trans hall⟩

/-- `strtoll` reads what `%lld` writes. -/
theorem strtol_decimal (n : Int) : strtol (decimal n) = some (clampLong n) := by
  cases n with
  | ofNat n =>
    obtain ⟨b, bs, hbytes, hdigits, hvalue⟩ := decimalBytes n
    show strtol (decimalNat n) = _
    rw [hbytes, strtol_of_digits hdigits, hvalue]
    rfl
  | negSucc n =>
    obtain ⟨b, bs, hbytes, hdigits, hvalue⟩ := decimalBytes (n + 1)
    show strtol (45 :: decimalNat (n + 1)) = _
    rw [hbytes, strtol_minus_digits hdigits, hvalue]
    rfl

theorem clampLong_eq_iff {n : Int} : clampLong n = n ↔ FitsLong n := by
  unfold clampLong FitsLong
  omega

theorem metaLong_eq {n : Int} {key : Text} (h : db.manifestMeta.get? key = some (decimal n)) :
    metaLong db key 0 = clampLong n := by
  have hzero : 0 ∉ decimal n := by
    cases n with
    | ofNat n => exact fun hmem ↦ absurd (isDigit_decimalNat n 0 hmem) (by decide)
    | negSucc n =>
      intro hmem
      rcases List.mem_cons.mp hmem with heq | hmem
      · exact absurd heq (by decide)
      · exact absurd (isDigit_decimalNat (n + 1) 0 hmem) (by decide)
  unfold metaLong
  rw [h]
  dsimp only
  rw [columnText_of_notMem hzero, strtol_decimal, Option.getD_some]

/-! ### The manifest -/

/-- The manifest decodes as its rows do. -/
theorem decodeManifest_load (hrows : db.prevLoad ≠ []) :
    (loadManifestTree now db).bind decodeManifest =
      ((db.prevLoad.map fun row ↦ residentObject row.sha256 row.bucketsCsv).mapM decodeResident).map
        fun resident ↦ ⟨1, isoUtcNow now, metaLong db (ascii "cap_bytes") 0,
          metaLong db (ascii "used_bytes") 0, resident⟩ := by
  have hnodup : ((manifestMembers now (metaLong db (ascii "cap_bytes") 0)
      (metaLong db (ascii "used_bytes") 0) db.prevLoad).map Prod.fst).Nodup := by
    show List.Nodup [ascii "v", ascii "generated_at", ascii "cap_bytes", ascii "used_bytes",
      ascii "resident"]
    decide
  have hv := lookup_build hnodup (.head _)
  have hstamp : jsonString (isoUtcNow now) = some (.string (isoUtcNow now)) :=
    if_pos (utf8Valid_isoUtcNow now)
  have hgen := (lookup_build hnodup (.tail _ (.head _))).trans hstamp
  have hcap := lookup_build hnodup (.tail _ (.tail _ (.head _)))
  have hused := lookup_build hnodup (.tail _ (.tail _ (.tail _ (.head _))))
  have hresident := lookup_build hnodup (.tail _ (.tail _ (.tail _ (.tail _ (.head _)))))
  have hone : asInteger 32 (.integer 1) = some 1 := rfl
  unfold loadManifestTree manifestTree decodeManifest
  rw [if_neg hrows]
  simp only [required, hv, hgen, hcap, hused, hresident, Option.bind_some, hone, asString, asList,
    asInteger_of_fitsLong (fitsLong_metaLong db _), Option.bind_eq_bind, Option.pure_def]
  cases (db.prevLoad.map fun row ↦ residentObject row.sha256 row.bucketsCsv).mapM decodeResident <;>
    rfl

/-- The rows that are written are the tracks that are published. -/
theorem prevLoad_written (hm : m.resident.Pairwise fun n n' ↦ n.sha256 < n'.sha256)
    (h : db.Manifested m db') : db'.prevLoad = (m.published db).map fun t ↦
      ⟨t.sha256, bucketsCsv t.buckets, t.sizeBytes⟩ := by
  have hirrefl : Std.Irrefl fun p q : PrevTrack ↦ p.sha256 < q.sha256 := ⟨fun _ ↦ lt_irrefl _⟩
  have hantisymm : Std.Antisymm fun p q : PrevTrack ↦ p.sha256 < q.sha256 :=
    ⟨fun _ _ hpq hqp ↦ absurd hqp (lt_asymm hpq)⟩
  apply List.Pairwise.eq_of_mem_iff (ascending_prevLoad db')
  · exact List.pairwise_map.mpr (hm.sublist List.filter_sublist)
  · intro p
    rw [mem_prevLoad, h.tracks, List.mem_map]
    constructor
    · rintro ⟨hin, t, ht, hsha, hrow⟩
      obtain ⟨sha256, csv, size⟩ := p
      cases hrow
      cases hsha
      exact ⟨t, List.mem_filter.mpr ⟨ht, by simp [hin]⟩, rfl⟩
    · rintro ⟨t, ht, rfl⟩
      obtain ⟨ht, hin⟩ := List.mem_filter.mp ht
      exact ⟨by simpa using hin, t, ht, rfl, rfl⟩

/-- The tracks decode where each hash is UTF-8, with the buckets that are read back. -/
theorem mapM_decodeResident {ts : List ManifestTrack} {entries : List ResidentEntry} :
    (ts.map fun t ↦ residentObject t.sha256 (bucketsCsv t.buckets)).mapM decodeResident =
        some entries ↔
      (∀ t ∈ ts, utf8Valid (columnText t.sha256) = true) ∧
        entries = ts.map fun t ↦ ⟨columnText t.sha256, bucketsBack (bucketsCsv t.buckets)⟩ := by
  rw [mapM_eq_some, List.forall₂_map_left_iff]
  simp only [decodeResident_object, Option.ite_none_right_eq_some, Option.some.injEq]
  induction ts generalizing entries with
  | nil =>
    cases entries with
    | nil => simp
    | cons entry entries => simp
  | cons t ts ih =>
    cases entries with
    | nil => simp
    | cons entry entries =>
      rw [List.forall₂_cons, ih, List.forall_mem_cons, List.map_cons, List.cons.injEq]
      constructor
      · rintro ⟨⟨hvalid, rfl⟩, hrest, rfl⟩
        exact ⟨⟨hvalid, hrest⟩, rfl, rfl⟩
      · rintro ⟨⟨hvalid, hrest⟩, rfl, rfl⟩
        exact ⟨⟨hvalid, rfl⟩, hrest, rfl⟩

/-- What the phone reads of a written resolution is the resolution exactly when that is kept. -/
theorem manifest_arrives_iff (hm : m.resident.Pairwise fun n n' ↦ n.sha256 < n'.sha256)
    (h : db.Manifested m db') (now : Int) :
    (loadManifestTree now db').bind decodeManifest = some (m.shown db now) ↔ m.Kept db := by
  have hrows := prevLoad_written hm h
  have hcap := metaLong_eq (h.numbers (ascii "cap_bytes", decimal m.capBytes) (.tail _ (.head _)))
  have hused := metaLong_eq (h.numbers (ascii "used_bytes", decimal m.usedBytes) (.head _))
  by_cases hempty : m.published db = []
  · constructor
    · intro hsome
      unfold loadManifestTree manifestTree at hsome
      rw [hrows, hempty, List.map_nil, if_pos rfl] at hsome
      cases hsome
    · exact fun hkept ↦ absurd hempty hkept.some
  · have hne : db'.prevLoad ≠ [] := by
      rw [hrows]
      exact fun hnil ↦ hempty (List.map_eq_nil_iff.mp hnil)
    rw [decodeManifest_load hne, hcap, hused, hrows, List.map_map, Option.map_eq_some_iff]
    constructor
    · rintro ⟨entries, hentries, hshown⟩
      obtain ⟨hvalid, rfl⟩ := mapM_decodeResident.mp hentries
      unfold Resolution.shown at hshown
      rw [PublishedManifestJson.mk.injEq] at hshown
      obtain ⟨-, -, hcap', hused', hresident⟩ := hshown
      refine ⟨hempty, clampLong_eq_iff.mp hcap', clampLong_eq_iff.mp hused', fun t ht ↦ ?_⟩
      have hentry := List.map_inj_left.mp hresident t ht
      rw [ResidentEntry.mk.injEq] at hentry
      obtain ⟨hbuckets, hroom⟩ := (bucketsBack_eq_iff t.buckets).mp hentry.2
      refine ⟨⟨columnText_eq_iff.mp hentry.1, ?_⟩, hbuckets, hroom⟩
      rw [← hentry.1]
      exact hvalid t ht
    · intro hkept
      refine ⟨_, mapM_decodeResident.mpr ⟨fun t ht ↦ ?_, rfl⟩, ?_⟩
      · have hsha := (hkept.tracks t ht).sha
        rw [columnText_of_notMem hsha.1]
        exact hsha.2
      · unfold Resolution.shown
        rw [clampLong_eq_iff.mpr hkept.cap, clampLong_eq_iff.mpr hkept.used,
          List.map_congr_left fun t ht ↦ ?_]
        have ht := hkept.tracks t ht
        rw [columnText_of_notMem ht.sha.1, (bucketsBack_eq_iff _).mpr ⟨ht.bucket, ht.room⟩]

end Manifest

end Nocturne
