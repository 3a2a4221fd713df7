import Nocturne.Db
import Nocturne.Lib.Query
import Nocturne.Resolve.Admission

/-!
# The buckets of the resolver

A configured bucket asks the database for tracks, in the order of its source and up to its count.
Two of the sources, the pins and the weekly picks, leave the order open. `resolver_run` hands the
answers to the admission.
-/

namespace Nocturne

open Lib

/-! ### Configuration -/

/-- `struct bucket_config`; the weight is not read. -/
structure BucketConfig where
  name : Text
  count : Int
  source : Text
  windowDays : Int
  deriving DecidableEq, Repr

/-- The fields of `struct nocturne_config` that the resolver reads. No two buckets have one name:
`find_or_add_bucket`, `config.c:185–202`, looks it up first. -/
structure ResolverConfig where
  capBytes : Int
  capEffectiveRatio : ℚ
  hysteresisRatio : ℚ
  coldStartPlayThreshold : Int
  randomSeed : UInt64
  buckets : List BucketConfig
  distinct : (buckets.map BucketConfig.name).Nodup

/-- What the resolver takes from elsewhere: the clock, its ISO year and week as a number,
`strftime('%s', ·)` of SQLite and the vendored SHA-256 in hex. -/
structure ResolverEnv where
  now : Int
  isoWeek : UInt64
  strftime : Text → Option Text
  sha256Hex : Text → Text

/-! ### Selected tracks -/

/-- A value as SQLite compares it: integers come before texts. -/
inductive SqlValue where
  | int (i : Int)
  | text (t : Text)
  deriving DecidableEq, Repr

/-- The order of SQLite's values. -/
def SqlValue.le : SqlValue → SqlValue → Bool
  | .int i, .int j => decide (i ≤ j)
  | .int _, .text _ => true
  | .text _, .int _ => false
  | .text s, .text t => decide (s ≤ t)

/-- A track that a query selects, with the value it is ordered by. -/
structure Picked where
  sha256 : Sha
  sizeBytes : Int
  key : SqlValue
  deriving DecidableEq, Repr

/-- Ordered by the key, and by the hash where it is the same. -/
def keyed (le : SqlValue → SqlValue → Bool) (x y : Picked) : Bool :=
  if x.key = y.key then decide (x.sha256 ≤ y.sha256) else le x.key y.key

/-- `ORDER BY … DESC, sha256 ASC`. -/
def descending : Picked → Picked → Bool := keyed fun k k' ↦ k'.le k

/-- `cmp_ranked`, `resolver.c:271–277`. -/
def cmpRanked : Picked → Picked → Bool := keyed SqlValue.le

/-- No `ORDER BY`. -/
def anyOrder (_ _ : Picked) : Bool := true

/-- The tracks that have a key, in the order in which they are stored. -/
def Db.pick (db : Db) (key : Sha → TrackRow → Option SqlValue) : List Picked :=
  db.tracks.table.rows.filterMap fun r ↦ (key r.1 r.2).map fun k ↦ ⟨r.1, r.2.sizeBytes, k⟩

/-! ### The sources -/

/-- `src LIKE 'phone-%'`: `LIKE` does not tell the case of ASCII letters. -/
def isPhone (src : Text) : Bool := (src.take 6).map lower == ascii "phone-"

/-- `strftime('%s', played_at) >= ?1`: a text is compared with an integer. -/
def playedSince (env : ResolverEnv) (cutoff : Int) (playedAt : Text) : Bool :=
  match env.strftime playedAt with
  | some s => (SqlValue.int cutoff).le (.text s)
  | none => false

/-- The plays of a track that the play buckets look at, `resolver.c:193–196`. -/
def Db.phonePlays (db : Db) (env : ResolverEnv) (cutoff : Int) (sha : Sha) : List PlayRow :=
  db.plays.filter fun r ↦ r.sha256 == sha && isPhone r.src && !r.isSkip &&
    (cutoff == 0 || playedSince env cutoff r.playedAt)

/-- The key of `SQL_RECENT_ADDS`. -/
def recentAdds (_ : Sha) (row : TrackRow) : Option SqlValue := some (.text row.dateAdded)

/-- The key of `SQL_TOP_PLAYED`. -/
def topPlayed (db : Db) (env : ResolverEnv) (cutoff : Int) (sha : Sha) (_ : TrackRow) :
    Option SqlValue :=
  match (db.phonePlays env cutoff sha).length with
  | 0 => none
  | n + 1 => some (.int (n + 1))

/-- The key of `SQL_RECENT_PLAYS`. -/
def recentPlays (db : Db) (env : ResolverEnv) (cutoff : Int) (sha : Sha) (_ : TrackRow) :
    Option SqlValue :=
  ((db.phonePlays env cutoff sha).map PlayRow.playedAt).max?.map .text

/-- The key of `SQL_LOVED`. -/
def loved (db : Db) (sha : Sha) (_ : TrackRow) : Option SqlValue :=
  match db.likes.get? (.track, sha) with
  | some like => if like.liked then some (.int like.ts) else none
  | none => none

/-- What `SQL_PINS_TRACKS` selects. -/
def pinnedTracks (db : Db) (sha : Sha) (_ : TrackRow) : Option SqlValue :=
  match db.pins.get? (.track, sha) with
  | some pin => if pin.pinned then some (.int 0) else none
  | none => none

/-- `SELECT MAX(week_start) FROM weekly_discovery_picks`. -/
def Db.lastWeek (db : Db) : Option Text := (db.weeklyDiscoveryPicks.rows.map fun r ↦ r.1.2).max?

/-- What `SQL_WEEKLY_DISCOVERY_PICKS` selects. -/
def weeklyPicks (db : Db) (sha : Sha) (_ : TrackRow) : Option SqlValue :=
  match db.lastWeek with
  | some week => if (db.weeklyDiscoveryPicks.get? (sha, week)).isSome then some (.int 0) else none
  | none => none

/-- `explore_rank`, `resolver.c:252–263`. -/
def exploreRank (seed : UInt64) (sha : Text) : UInt64 :=
  let h := sha.foldl (fun h b ↦ (h ^^^ b.toUInt64) * 0x100000001b3) (0xcbf29ce484222325 : UInt64)
  let z := h ^^^ seed
  let z := (z ^^^ (z >>> 30)) * 0xbf58476d1ce4e5b9
  let z := (z ^^^ (z >>> 27)) * 0x94d049bb133111eb
  z ^^^ (z >>> 31)

/-- The seed of the exploration, `resolver.c:474–475`. -/
def exploreSeed (env : ResolverEnv) (cfg : ResolverConfig) : UInt64 :=
  if cfg.randomSeed ≠ 0 then cfg.randomSeed else env.isoWeek ||| 0xDEADBEEF

/-- The ranks of the tracks of `SQL_EXPLORATION_CANDIDATES`. -/
def exploration (db : Db) (seed : UInt64) (sha : Sha) (_ : TrackRow) : Option SqlValue :=
  if db.plays.any fun r ↦ r.sha256 == sha && isPhone r.src then none
  else some (.int (exploreRank seed sha).toNat)

/-- The cutoff of a window, `resolver.c:155`. -/
def BucketConfig.cutoff (bc : BucketConfig) (env : ResolverEnv) : Int :=
  if 0 < bc.windowDays then env.now - bc.windowDays * 86400 else 0

/-- What a source selects, and how it orders it. -/
structure Source where
  key : Sha → TrackRow → Option SqlValue
  le : Picked → Picked → Bool

/-- The source of a bucket, `resolver.c:442–495`; none where it has another name. -/
def bucketSource (env : ResolverEnv) (cfg : ResolverConfig) (db : Db) (bc : BucketConfig) :
    Option Source :=
  if bc.source = ascii "recent_adds_by_mtime" then some ⟨recentAdds, descending⟩
  else if bc.source = ascii "top_played_phone" then
    some ⟨topPlayed db env (bc.cutoff env), descending⟩
  else if bc.source = ascii "recent_plays_phone" then
    some ⟨recentPlays db env (bc.cutoff env), descending⟩
  else if bc.source = ascii "loved" then some ⟨loved db, descending⟩
  else if bc.source = ascii "manual_pins" then some ⟨pinnedTracks db, anyOrder⟩
  else if bc.source = ascii "weekly_discovery_picks" then some ⟨weeklyPicks db, anyOrder⟩
  else if bc.source = ascii "exploration_random" then
    some ⟨exploration db (exploreSeed env cfg), cmpRanked⟩
  else none

/-- The query of a bucket. -/
def bucketQuery (env : ResolverEnv) (cfg : ResolverConfig) (db : Db) (bc : BucketConfig) :
    Option (Query Picked) :=
  (bucketSource env cfg db bc).map fun s ↦ ⟨db.pick s.key, s.le, bc.count.toNat⟩

/-! ### The run -/

/-- Too few phone plays, `has_min_phone_plays`, `resolver.c:361–371`. -/
def Db.isCold (db : Db) (cfg : ResolverConfig) : Bool :=
  decide (((db.plays.filter fun r ↦ isPhone r.src).length : Int) < cfg.coldStartPlayThreshold)

/-- The buckets that run, `resolver.c:433–440`. -/
def activeBuckets (cfg : ResolverConfig) (db : Db) : List BucketConfig :=
  cfg.buckets.filter fun bc ↦ decide (0 < bc.count) && (!db.isCold cfg ||
    [ascii "recent_adds", ascii "exploration", ascii "manual_pins"].contains bc.name)

/-- The rows that reach `cand_add`, where `pick` answers the queries. -/
def bucketRows (cfg : ResolverConfig) (db : Db) (pick : BucketConfig → List Picked) :
    List BucketRow :=
  (activeBuckets cfg db).flatMap fun bc ↦
    (pick bc).map fun p ↦ ⟨p.sha256, p.sizeBytes, bc.name⟩

/-- The queries may be answered so. -/
def MayPick (env : ResolverEnv) (cfg : ResolverConfig) (db : Db)
    (pick : BucketConfig → List Picked) : Prop :=
  ∀ bc ∈ activeBuckets cfg db,
    match bucketQuery env cfg db bc with
    | some q => q.Answers (pick bc)
    | none => pick bc = []

/-- The answers that keep the stored order where the query leaves it open. -/
def storedPick (env : ResolverEnv) (cfg : ResolverConfig) (db : Db) (bc : BucketConfig) :
    List Picked :=
  match bucketQuery env cfg db bc with
  | some q => q.answer
  | none => []

/-- The previous manifest, `prev_set_load`, `resolver.c:300–323`. -/
def Db.prevSet (db : Db) : List Sha := db.manifestCurrent.rows.map Prod.fst

/-- `deterministic_generated_at`, `resolver.c:374–389`. -/
def deterministicGeneratedAt (env : ResolverEnv) (resident : List ManifestTrack) : Text :=
  ascii "deterministic-" ++ (env.sha256Hex (resident.flatMap fun t ↦ t.sha256 ++ [10])).take 12

/-- `cap_bytes * cap_effective_ratio`. -/
def ResolverConfig.capEffective (cfg : ResolverConfig) : Int :=
  truncate (cfg.capBytes * cfg.capEffectiveRatio)

/-- `struct manifest` without its constant version. -/
structure Resolution extends Manifest where
  generatedAt : Text
  capBytes : Int
  capEffectiveBytes : Int
  coldStart : Bool
  deriving DecidableEq, Repr

/-- `resolver_run`, `resolver.c:391–553`, where `pick` answers the queries. -/
def resolveWith (env : ResolverEnv) (cfg : ResolverConfig) (db : Db)
    (pick : BucketConfig → List Picked) : Resolution :=
  let m := resolverRun cfg.hysteresisRatio db.prevSet cfg.capEffective (bucketRows cfg db pick)
  { m with
    generatedAt := deterministicGeneratedAt env m.resident
    capBytes := cfg.capBytes
    capEffectiveBytes := cfg.capEffective
    coldStart := db.isCold cfg }

/-- `resolver_run` on the tables as they are stored. -/
def resolve (env : ResolverEnv) (cfg : ResolverConfig) (db : Db) : Resolution :=
  resolveWith env cfg db (storedPick env cfg db)

/-! ### The orders -/

section Orders

theorem SqlValue.total (x y : SqlValue) : (x.le y || y.le x) = true := by
  rw [Bool.or_eq_true]
  cases x <;> cases y <;> simp only [SqlValue.le, decide_eq_true_iff, or_true, true_or]
  · omega
  · exact le_total ..

theorem SqlValue.trans {x y z : SqlValue} (hxy : x.le y = true) (hyz : y.le z = true) :
    x.le z = true := by
  cases x <;> cases y <;> cases z <;>
    simp only [SqlValue.le, decide_eq_true_iff, Bool.false_eq_true] at hxy hyz ⊢
  · omega
  · exact le_trans hxy hyz

theorem SqlValue.antisymm {x y : SqlValue} (hxy : x.le y = true) (hyx : y.le x = true) :
    x = y := by
  cases x <;> cases y <;>
    simp only [SqlValue.le, decide_eq_true_iff, Bool.false_eq_true] at hxy hyx
  · rw [le_antisymm hxy hyx]
  · rw [le_antisymm hxy hyx]

variable {le : SqlValue → SqlValue → Bool} {x y z : Picked}

theorem keyed_total (htotal : ∀ k k', (le k k' || le k' k) = true) (x y : Picked) :
    (keyed le x y || keyed le y x) = true := by
  unfold keyed
  by_cases hk : x.key = y.key
  · rw [if_pos hk, if_pos hk.symm, Bool.or_eq_true, decide_eq_true_iff, decide_eq_true_iff]
    exact le_total ..
  · rw [if_neg hk, if_neg (Ne.symm hk)]
    exact htotal ..

theorem keyed_antisymm (hantisymm : ∀ k k', le k k' = true → le k' k = true → k = k')
    (hxy : keyed le x y = true) (hyx : keyed le y x = true) : x.sha256 = y.sha256 := by
  unfold keyed at hxy hyx
  by_cases hk : x.key = y.key
  · rw [if_pos hk, decide_eq_true_iff] at hxy
    rw [if_pos hk.symm, decide_eq_true_iff] at hyx
    exact le_antisymm hxy hyx
  · rw [if_neg hk] at hxy
    rw [if_neg (Ne.symm hk)] at hyx
    exact absurd (hantisymm _ _ hxy hyx) hk

theorem keyed_trans (htrans : ∀ k k' k'', le k k' = true → le k' k'' = true → le k k'' = true)
    (hantisymm : ∀ k k', le k k' = true → le k' k = true → k = k')
    (hxy : keyed le x y = true) (hyz : keyed le y z = true) : keyed le x z = true := by
  unfold keyed at hxy hyz ⊢
  by_cases h : x.key = y.key <;> by_cases h' : y.key = z.key
  · rw [if_pos h, decide_eq_true_iff] at hxy
    rw [if_pos h', decide_eq_true_iff] at hyz
    rw [if_pos (h.trans h'), decide_eq_true_iff]
    exact le_trans hxy hyz
  · rw [if_neg h'] at hyz
    rw [h, if_neg h']
    exact hyz
  · rw [if_neg h] at hxy
    rw [← h', if_neg h]
    exact hxy
  · rw [if_neg h] at hxy
    rw [if_neg h'] at hyz
    have hne : x.key ≠ z.key := by
      intro he
      rw [← he] at hyz
      exact h (hantisymm _ _ hxy hyz)
    rw [if_neg hne]
    exact htrans _ _ _ hxy hyz

end Orders

/-! ### What the queries select -/

section Select

variable {env : ResolverEnv} {cfg : ResolverConfig} {db : Db} {bc : BucketConfig} {q : Query Picked}
  {key : Sha → TrackRow → Option SqlValue} {p : Picked}

theorem mem_pick : p ∈ db.pick key ↔ ∃ row, db.tracks.get? p.sha256 = some row ∧
    key p.sha256 row = some p.key ∧ row.sizeBytes = p.sizeBytes := by
  unfold Db.pick
  rw [List.mem_filterMap]
  constructor
  · rintro ⟨⟨sha, row⟩, hr, he⟩
    obtain ⟨k, hk, rfl⟩ := Option.map_eq_some_iff.mp he
    exact ⟨row, Table.mem_rows.mp hr, hk, rfl⟩
  · rintro ⟨row, hrow, hk, hsize⟩
    refine ⟨(p.sha256, row), Table.mem_rows.mpr hrow, ?_⟩
    rw [hk, hsize]
    rfl

/-- A query selects a track once. -/
theorem nodup_pick : ((db.pick key).map Picked.sha256).Nodup := by
  have hsub : ((db.pick key).map Picked.sha256).Sublist (db.tracks.table.rows.map Prod.fst) := by
    unfold Db.pick
    generalize db.tracks.table.rows = rows
    induction rows with
    | nil => exact List.Sublist.refl _
    | cons r rows ih =>
      cases hk : key r.1 r.2 with
      | none =>
        simp only [List.filterMap_cons, hk, Option.map_none, List.map_cons]
        exact ih.cons _
      | some k =>
        simp only [List.filterMap_cons, hk, Option.map_some, List.map_cons]
        exact ih.cons_cons _
  exact hsub.nodup db.tracks.table.nodup_keys

/-- A source has a total order, or none. -/
theorem bucketSource_le {s : Source} (h : bucketSource env cfg db bc = some s) :
    s.le = descending ∨ s.le = cmpRanked ∨ s.le = anyOrder := by
  unfold bucketSource at h
  repeat' split at h
  all_goals cases h
  all_goals simp

theorem bucketQuery_eq_some : bucketQuery env cfg db bc = some q ↔
    ∃ s, bucketSource env cfg db bc = some s ∧ ⟨db.pick s.key, s.le, bc.count.toNat⟩ = q :=
  Option.map_eq_some_iff

/-- A query has a total order, or none. -/
theorem bucketQuery_order (h : bucketQuery env cfg db bc = some q) : q.Ordered ∨ q.Unordered := by
  obtain ⟨s, hs, rfl⟩ := bucketQuery_eq_some.mp h
  have same : ∀ x ∈ db.pick s.key, ∀ y ∈ db.pick s.key, x.sha256 = y.sha256 → x = y := by
    intro x hx y hy he
    exact List.inj_on_of_nodup_map nodup_pick hx hy he
  rcases bucketSource_le hs with hle | hle | hle
  · left
    constructor
    · dsimp only
      rw [hle]
      intro x y z
      exact keyed_trans (fun _ _ _ h h' ↦ SqlValue.trans h' h) fun _ _ h h' ↦ SqlValue.antisymm h' h
    · dsimp only
      rw [hle]
      exact keyed_total fun k k' ↦ SqlValue.total k' k
    · dsimp only
      rw [hle]
      intro x hx y hy hxy hyx
      apply same x hx y hy
      exact keyed_antisymm (fun _ _ h h' ↦ SqlValue.antisymm h' h) hxy hyx
  · left
    constructor
    · dsimp only
      rw [hle]
      intro x y z
      exact keyed_trans (fun _ _ _ ↦ SqlValue.trans) fun _ _ ↦ SqlValue.antisymm
    · dsimp only
      rw [hle]
      exact keyed_total SqlValue.total
    · dsimp only
      rw [hle]
      intro x hx y hy hxy hyx
      exact same x hx y hy (keyed_antisymm (fun _ _ ↦ SqlValue.antisymm) hxy hyx)
  · right
    intro x y
    show s.le x y = true
    rw [hle]
    rfl

/-- An order of a bucket is total and transitive. -/
theorem bucketQuery_preorder (h : bucketQuery env cfg db bc = some q) :
    (∀ x y z, q.le x y = true → q.le y z = true → q.le x z = true) ∧
      ∀ x y, (q.le x y || q.le y x) = true := by
  rcases bucketQuery_order h with ho | ho
  · exact ⟨ho.trans, ho.total⟩
  · constructor
    · exact fun x _ z _ _ ↦ ho x z
    · intro x y
      rw [ho x y, Bool.true_or]

/-- The stored order is one that the queries may answer in. -/
theorem mayPick_storedPick (env : ResolverEnv) (cfg : ResolverConfig) (db : Db) :
    MayPick env cfg db (storedPick env cfg db) := by
  intro bc _
  unfold storedPick
  cases hq : bucketQuery env cfg db bc with
  | none => rfl
  | some q =>
    obtain ⟨htrans, htotal⟩ := bucketQuery_preorder hq
    exact Query.answers_answer htrans htotal

variable {pick : BucketConfig → List Picked}

/-- What a query answers comes from the table of the tracks. -/
theorem mem_tracks_of_mayPick (h : MayPick env cfg db pick) (hbc : bc ∈ activeBuckets cfg db)
    (hp : p ∈ pick bc) :
    ∃ row, db.tracks.get? p.sha256 = some row ∧ row.sizeBytes = p.sizeBytes := by
  have hpick := h bc hbc
  cases hq : bucketQuery env cfg db bc with
  | none =>
    rw [hq] at hpick
    rw [show pick bc = [] from hpick] at hp
    cases hp
  | some q =>
    rw [hq] at hpick
    obtain ⟨s, -, rfl⟩ := bucketQuery_eq_some.mp hq
    obtain ⟨row, hrow, -, hsize⟩ := mem_pick.mp (Query.Answers.subset hpick hp)
    exact ⟨row, hrow, hsize⟩

theorem mem_bucketRows {r : BucketRow} : r ∈ bucketRows cfg db pick ↔
    ∃ bc ∈ activeBuckets cfg db, ∃ p ∈ pick bc, ⟨p.sha256, p.sizeBytes, bc.name⟩ = r := by
  unfold bucketRows
  rw [List.mem_flatMap]
  constructor
  · rintro ⟨bc, hbc, hr⟩
    exact ⟨bc, hbc, List.mem_map.mp hr⟩
  · rintro ⟨bc, hbc, hr⟩
    exact ⟨bc, hbc, List.mem_map.mpr hr⟩

/-- The rows of the buckets have the sizes of the tracks. -/
theorem size_of_bucketRows (h : MayPick env cfg db pick) {r : BucketRow}
    (hr : r ∈ bucketRows cfg db pick) :
    ∃ row, db.tracks.get? r.sha256 = some row ∧ row.sizeBytes = r.sizeBytes := by
  obtain ⟨bc, hbc, p, hp, rfl⟩ := mem_bucketRows.mp hr
  exact mem_tracks_of_mayPick h hbc hp

end Select

/-! ### Small libraries -/

/-- A track as a scan would store it, with nothing known about it but its size. -/
def plainRow (sha : Sha) (sizeBytes : Int) : TrackRow where
  path := [sha]
  mtimeNs := 0
  sizeBytes := sizeBytes
  format := none
  title := none
  artist := none
  album := none
  albumArtist := none
  trackNumber := none
  discNumber := none
  year := none
  genre := none
  durationMs := none
  tagsStatus := ascii "ok"
  tagWarning := none
  dateAdded := ascii "2026-01-01T00:00:00Z"
  lastSeenAt := ascii "2026-01-01T00:00:00Z"

/-- A database of some tracks with their sizes, and nothing else. -/
def Db.ofTracks (tracks : List (Sha × Int)) : Db :=
  tracks.foldl (fun db t ↦ (db.insertTrack t.1 (plainRow t.1 t.2)).getD db) Db.empty

/-- The tracks are there. -/
theorem Db.ofTracks_known (tracks : List (Sha × Int)) :
    ∀ t ∈ tracks, ((Db.ofTracks tracks).tracks.get? t.1).isSome := by
  -- each row has the path of its hash, so that only a row of its own hash refuses a track
  have all : ∀ (tracks : List (Sha × Int)) (db : Db),
      (∀ s r, db.tracks.get? s = some r → r.path = [s]) →
        let db' := tracks.foldl (fun db t ↦ (db.insertTrack t.1 (plainRow t.1 t.2)).getD db) db
        (∀ s, (db.tracks.get? s).isSome → (db'.tracks.get? s).isSome) ∧
          ∀ t ∈ tracks, (db'.tracks.get? t.1).isSome := by
    intro tracks
    induction tracks with
    | nil => exact fun db _ ↦ ⟨fun _ h ↦ h, fun _ h ↦ (by cases h)⟩
    | cons t tracks ih =>
      intro db hpath
      rw [List.foldl_cons]
      cases hins : db.insertTrack t.1 (plainRow t.1 t.2) with
      | some db₁ =>
        have hget := Db.get?_insertTrack hins
        have hpath₁ : ∀ s r, db₁.tracks.get? s = some r → r.path = [s] := by
          intro s r hr
          rw [hget] at hr
          by_cases hs : s = t.1
          · rw [if_pos hs] at hr
            cases hr
            rw [hs]
            rfl
          · rw [if_neg hs] at hr
            exact hpath s r hr
        obtain ⟨hkeep, hnew⟩ := ih db₁ hpath₁
        constructor
        · intro s hs
          apply hkeep
          rw [hget]
          split
          · rfl
          · exact hs
        · intro t' ht'
          rcases List.mem_cons.mp ht' with rfl | ht'
          · apply hkeep
            rw [hget, if_pos rfl]
            rfl
          · exact hnew t' ht'
      | none =>
        have hthere : (db.tracks.get? t.1).isSome := by
          by_contra hnone
          have hsome : (db.insertTrack t.1 (plainRow t.1 t.2)).isSome := by
            apply Db.insertTrack_isSome.mpr
            refine ⟨by simpa using hnone, UniqueTable.find?_eq_none.mpr fun s r hr hp ↦ ?_⟩
            rw [hpath s r hr] at hp
            injection hp with hs
            rw [hs] at hr
            apply hnone
            rw [hr]
            rfl
          rw [hins] at hsome
          cases hsome
        obtain ⟨hkeep, hnew⟩ := ih db hpath
        constructor
        · exact hkeep
        · intro t' ht'
          rcases List.mem_cons.mp ht' with rfl | ht'
          · exact hkeep _ hthere
          · exact hnew t' ht'
  exact (all tracks Db.empty fun s r hr ↦ by cases hr).2

/-- The other tables are empty. -/
theorem Db.ofTracks_eq (tracks : List (Sha × Int)) :
    ∃ t, Db.ofTracks tracks = { Db.empty with tracks := t } := by
  have all : ∀ (tracks : List (Sha × Int)) t₀,
      ∃ t, tracks.foldl (fun db t ↦ (db.insertTrack t.1 (plainRow t.1 t.2)).getD db)
        { Db.empty with tracks := t₀ } = { Db.empty with tracks := t } := by
    intro tracks
    induction tracks with
    | nil => exact fun t₀ ↦ ⟨t₀, rfl⟩
    | cons t tracks ih =>
      intro t₀
      rw [List.foldl_cons]
      cases hins : Db.insertTrack { Db.empty with tracks := t₀ } t.1 (plainRow t.1 t.2) with
      | none => exact ih t₀
      | some db =>
        obtain ⟨t', -, rfl⟩ := Db.insertTrack_eq_some hins
        exact ih t'
  exact all tracks UniqueTable.empty

/-- The surroundings of a run: the first week of 2026, and texts that are no times. -/
def ResolverEnv.sample : ResolverEnv := ⟨1767571200, 202601, fun _ ↦ none, fun _ ↦ []⟩

/-! ### Evaluation -/

section Evaluation

/-- `resolver_run` with insertion sorts, which the kernel evaluates. -/
def evalRun (h : ℚ) (prev : List Sha) (cap : Int) (rows : List BucketRow) : Manifest :=
  let admitted := admission h prev cap
    ((candidates rows).insertionSort fun x y ↦ cmpCandPriority x y = true)
  let track (c : Cand) : ManifestTrack :=
    ⟨c.sha256, c.sizeBytes, c.buckets.insertionSort fun a b ↦ decide (a ≤ b) = true⟩
  { resident := (admitted.admitted.map track).insertionSort fun a b ↦
      decide (a.sha256 ≤ b.sha256) = true
    usedBytes := admitted.used }

/-- The answers in the stored order, with insertion sorts. -/
def evalPick (env : ResolverEnv) (cfg : ResolverConfig) (db : Db) (bc : BucketConfig) :
    List Picked :=
  match bucketQuery env cfg db bc with
  | some q => (q.rows.insertionSort fun x y ↦ q.le x y = true).take q.limit
  | none => []

theorem resolverRun_eq_evalRun (h : ℚ) (prev : List Sha) (cap : Int) (rows : List BucketRow) :
    resolverRun h prev cap rows = evalRun h prev cap rows := by
  have text : ∀ xs : List Text, xs.mergeSort (fun a b ↦ decide (a ≤ b)) =
      xs.insertionSort fun a b ↦ decide (a ≤ b) = true := by
    apply mergeSort_eq_insertionSort
    · simpa only [decide_eq_true_iff] using fun x y z ↦ @le_trans Text _ x y z
    · simpa only [Bool.or_eq_true, decide_eq_true_iff] using le_total
  have tracks : ∀ xs : List ManifestTrack, xs.mergeSort (fun a b ↦ decide (a.sha256 ≤ b.sha256)) =
      xs.insertionSort fun a b ↦ decide (a.sha256 ≤ b.sha256) = true := by
    apply mergeSort_eq_insertionSort
    · simpa only [decide_eq_true_iff] using fun (x y z : ManifestTrack) ↦
        @le_trans Text _ x.sha256 y.sha256 z.sha256
    · simpa only [Bool.or_eq_true, decide_eq_true_iff] using fun (x y : ManifestTrack) ↦
        le_total x.sha256 y.sha256
  have track : Cand.track = fun c ↦ ManifestTrack.mk c.sha256 c.sizeBytes
      (c.buckets.insertionSort fun a b ↦ decide (a ≤ b) = true) := by
    funext c
    rw [Cand.track, text]
  unfold resolverRun evalRun
  dsimp only
  rw [mergeSort_eq_insertionSort cmpCandPriority_trans cmpCandPriority_total, tracks, track]

theorem storedPick_eq_evalPick (env : ResolverEnv) (cfg : ResolverConfig) (db : Db) :
    storedPick env cfg db = evalPick env cfg db := by
  funext bc
  unfold storedPick evalPick
  cases hq : bucketQuery env cfg db bc with
  | none => rfl
  | some q =>
    obtain ⟨htrans, htotal⟩ := bucketQuery_preorder hq
    dsimp only
    rw [Query.answer, mergeSort_eq_insertionSort htrans htotal]

/-- A resolution of the tables as they are stored, with insertion sorts. -/
theorem resolve_eq_evalRun (env : ResolverEnv) (cfg : ResolverConfig) (db : Db) :
    (resolve env cfg db).toManifest = evalRun cfg.hysteresisRatio db.prevSet cfg.capEffective
      (bucketRows cfg db (evalPick env cfg db)) := by
  rw [← resolverRun_eq_evalRun, ← storedPick_eq_evalPick]
  rfl

end Evaluation

end Nocturne
