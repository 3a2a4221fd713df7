import Mathlib.Data.List.DropRight
import Mathlib.Data.List.Infix
import Mathlib.Data.Rat.Defs
import Nocturne.Calendar
import Nocturne.Catalog.Emit
import Nocturne.Config.Load
import Nocturne.Lib.Quota
import Nocturne.Lib.Records
import Nocturne.Lib.Shuffle
import Nocturne.Resolve.Buckets

/-!
# The picks of a week

`discover.c`: four pools of candidates are read and shuffled. From the first three up to a share of
the count is taken, and the fourth fills what is left.
-/

namespace Nocturne.Discover

open Lib

/-! ### Randomness -/

/-- `xorshift64`, `discover.c:35–41`. -/
def xorshift64 (state : UInt64) : UInt64 :=
  let x := state
  let x := x ^^^ (x <<< 13)
  let x := x ^^^ (x >>> 7)
  let x := x ^^^ (x <<< 17)
  if x ≠ 0 then x else 0xDEADBEEF

/-- A number, and the state behind it. -/
def drawNumber (state : UInt64) : Nat × UInt64 := ((xorshift64 state).toNat, xorshift64 state)

/-- The seed of the week that a day is in. -/
def weekSeed (days : Int) : UInt64 :=
  let s := UInt64.ofInt (atoll (yearWeek days))
  if s ≠ 0 then s else 0xC0FFEE

/-- `weekly_seed`, `discover.c:66–75`. -/
def weeklySeed (utcOffset : Int → Int) (now : Int) : UInt64 := weekSeed (localDays utcOffset now)

/-! ### Candidates -/

/-- `struct cand`. -/
structure Cand where
  sha : Text
  album : Text
  sizeBytes : Int
  reason : Text
  deriving DecidableEq, Repr

/-- A hash as `struct cand` has room for it. -/
def cutSha (sha : Sha) : Text := (columnText sha).take 64

/-- An album as `struct cand` has room for it; empty where there is none. -/
def cutAlbum (album : Option Text) : Text := (columnText (album.getD [])).take 255

/-- A row that a pool's query selects, with the value it is ordered by. -/
structure PoolRow where
  sha256 : Sha
  album : Option Text
  sizeBytes : Int
  key : SqlValue
  deriving DecidableEq, Repr

/-- `cb_push`, `discover.c:92–114`, of a row. -/
def PoolRow.cand (r : PoolRow) (reason : Text) : Cand :=
  ⟨cutSha r.sha256, cutAlbum r.album, r.sizeBytes, reason⟩

/-- A blank or a tab. -/
def isBlank (b : UInt8) : Bool := b == 32 || b == 9

/-- `strcasestr`, in the C locale. -/
def strcasestr (text needle : Text) : Bool := decide (needle.map lower <:+: text.map lower)

/-- `album_excluded`, `discover.c:299–323`: the patterns stand between semicolons. -/
def albumExcluded (album patterns : Option Text) : Bool :=
  match album, patterns with
  | some album, some patterns =>
    let pieces := (Records.split 59 patterns).1 ++ [(Records.split 59 patterns).2]
    columnText album != [] && pieces.any fun p ↦
      let needle := ((p.dropWhile isBlank).rdropWhile isBlank).take 255
      needle != [] && strcasestr (columnText album) needle
  | _, _ => false

/-! ### Pools -/

/-- What the queries take from elsewhere: `julianday` of SQLite, and what it is of the present. -/
structure Days where
  julianday : Text → Option ℚ
  julianNow : ℚ

/-- A track has a play on a phone. -/
def playedOnPhone (db : Db) (sha : Sha) : Bool :=
  db.plays.any fun r ↦ r.sha256 == sha && isPhone r.src

/-- `SQL_NEVER_PLAYED`, `discover.c:233–238`. -/
def neverPlayed (db : Db) (sha : Sha) (_ : TrackRow) : Option SqlValue :=
  if playedOnPhone db sha then none else some (.text sha)

/-- `SQL_AGED_OUT`, `discover.c:240–249`. -/
def agedOut (db : Db) (days : Days) (sha : Sha) (_ : TrackRow) : Option SqlValue :=
  match ((db.plays.filter fun r ↦ r.sha256 == sha && isPhone r.src).map PlayRow.playedAt).max? with
  | some last =>
    match days.julianday last with
    | some d => if 120 < days.julianNow - d then some (.text last) else none
    | none => none
  | none => none

/-- The album artists of the pinned tracks. -/
def pinnedArtists (db : Db) : List Text :=
  db.tracks.table.rows.filterMap fun r ↦
    match db.pins.get? (.track, r.1) with
    | some pin => if pin.pinned then r.2.albumArtist else none
    | none => none

/-- `SQL_ADJACENT_TO_LOVED`, `discover.c:253–262`. -/
def adjacentToLoved (db : Db) (sha : Sha) (row : TrackRow) : Option SqlValue :=
  match row.albumArtist with
  | some artist =>
    if (pinnedArtists db).contains artist && !playedOnPhone db sha then some (.text sha) else none
  | none => none

/-- `SQL_RANDOM_FILL`, `discover.c:264–267`. -/
def randomFill (sha : Sha) (_ : TrackRow) : Option SqlValue := some (.text sha)

/-- The query of a pool. -/
def poolQuery (db : Db) (key : Sha → TrackRow → Option SqlValue) : Query PoolRow :=
  let rows := db.tracks.table.rows.filterMap fun r ↦
    (key r.1 r.2).map fun k ↦ ⟨r.1, r.2.album, r.2.sizeBytes, k⟩
  ⟨rows, fun x y ↦ x.key.le y.key, rows.length⟩

/-- `load_pool`, `discover.c:325–340`, with the rows that its query answers. -/
def loadPool (rows : List PoolRow) (reason : Text) (exclude : Option Text) : List Cand :=
  (rows.filter fun r ↦ !albumExcluded r.album exclude).map fun r ↦ r.cand reason

/-- The four pools of a run. -/
structure Pools where
  never : List Cand
  aged : List Cand
  adj : List Cand
  fill : List Cand
  deriving DecidableEq, Repr

/-- A pool may be loaded so. -/
def MayLoad (db : Db) (exclude : Option Text) (key : Sha → TrackRow → Option SqlValue) (reason : Text)
    (pool : List Cand) : Prop :=
  ∃ rows, (poolQuery db key).Answers rows ∧ pool = loadPool rows reason exclude

/-- The pools may be loaded so. -/
structure Pools.Loaded (db : Db) (days : Days) (exclude : Option Text) (pools : Pools) : Prop where
  never : MayLoad db exclude (neverPlayed db) (ascii "never_played") pools.never
  aged : MayLoad db exclude (agedOut db days) (ascii "aged_out") pools.aged
  adj : MayLoad db exclude (adjacentToLoved db) (ascii "adjacent_to_loved") pools.adj
  fill : MayLoad db exclude randomFill (ascii "random") pools.fill

/-! ### The batch -/

/-- `PER_ALBUM_CAP`. -/
def perAlbumCap : Nat := 2

/-- The album that a candidate counts for. -/
def Cand.group (c : Cand) : Option Text := if c.album = [] then none else some c.album

/-- `ac_get`, `discover.c:187–194`. -/
def acGet (albums : List (Text × Nat)) (album : Text) : Nat :=
  if album = [] then 0 else (albums.lookup album).getD 0

/-- `ac_inc`, `discover.c:196–222`. -/
def acInc (albums : List (Text × Nat)) (album : Text) : List (Text × Nat) :=
  if album = [] then albums else touch 0 album (· + 1) albums

theorem acGet_acInc {album album' : Text} (h : album ≠ []) (albums : List (Text × Nat)) :
    acGet (acInc albums album') album =
      acGet albums album + if album' = album then 1 else 0 := by
  unfold acGet acInc
  rw [if_neg h, if_neg h]
  by_cases hnil : album' = []
  · rw [if_pos hnil, if_neg (hnil ▸ Ne.symm h), Nat.add_zero]
  · rw [if_neg hnil, lookup_touch]
    by_cases he : album' = album
    · rw [if_pos he.symm, if_pos he, he]
      rfl
    · rw [if_neg (Ne.symm he), if_neg he, Nat.add_zero]

/-- The picks, the set of their hashes and the counter of their albums, which agree. -/
structure Batch where
  picks : List Cand
  picked : List Text
  albums : List (Text × Nat)
  picked_eq : picked = picks.map Cand.sha
  albums_eq : ∀ album, album ≠ [] → acGet albums album = Quota.inGroup Cand.group album picks

/-- Nothing is picked. -/
def Batch.none : Batch where
  picks := []
  picked := []
  albums := []
  picked_eq := rfl
  albums_eq album h := by
    rw [acGet, if_neg h]
    rfl

theorem group_eq_some {c : Cand} {album : Text} (h : album ≠ []) :
    c.group = some album ↔ c.album = album := by
  unfold Cand.group
  split
  · next hnil => simp [hnil, Ne.symm h]
  · simp

/-- A candidate is picked, `discover.c:286–290`. -/
def Batch.add (b : Batch) (c : Cand) : Batch where
  picks := b.picks ++ [c]
  picked := b.picked ++ [c.sha]
  albums := acInc b.albums c.album
  picked_eq := by rw [b.picked_eq, List.map_append, List.map_singleton]
  albums_eq album h := by
    rw [acGet_acInc h, b.albums_eq album h]
    unfold Quota.inGroup
    rw [List.countP_append, List.countP_singleton]
    simp only [decide_eq_true_eq, group_eq_some h]

/-- A candidate is passed over: its hash is picked, or its album is full. -/
def Batch.passes (b : Batch) (c : Cand) : Bool :=
  b.picked.contains c.sha || decide (perAlbumCap ≤ acGet b.albums c.album)

/-- `take_from_pool`, `discover.c:275–294`, while `left` more are to be taken: the batch, and how many
are taken. -/
def takeFromPool : (left : Nat) → List Cand → Batch → Batch × Nat
  | 0, _, b => (b, 0)
  | _, [], b => (b, 0)
  | left + 1, c :: pool, b =>
    if b.passes c then takeFromPool (left + 1) pool b
    else
      let (b, taken) := takeFromPool left pool (b.add c)
      (b, taken + 1)

/-- What `struct discover_stats` counts. -/
structure Counts where
  pickedNeverPlayed : Nat
  pickedAgedOut : Nat
  pickedAdjacentToLoved : Nat
  pickedRandom : Nat
  totalPicked : Nat
  candidatesSeen : Nat
  deriving DecidableEq, Repr

/-- A share of the count in percent, rounded up. -/
def quota (count percent : Int) : Nat := ((count * percent + 99) / 100).toNat

/-- The picks of `discover_run`, `discover.c:357–388`. -/
def choosePicks (count : Int) (pools : Pools) (seed : UInt64) : Batch × Counts :=
  let (never, seed) := shuffle drawNumber pools.never seed
  let (aged, seed) := shuffle drawNumber pools.aged seed
  let (adj, seed) := shuffle drawNumber pools.adj seed
  let (fill, _) := shuffle drawNumber pools.fill seed
  let (b, pickedNever) := takeFromPool (quota count 50) never Batch.none
  let (b, pickedAged) := takeFromPool (quota count 25) aged b
  let (b, pickedAdj) := takeFromPool (quota count 15) adj b
  let remaining := count - b.picks.length
  let (b, pickedRandom) := if 0 < remaining then takeFromPool remaining.toNat fill b else (b, 0)
  (b, ⟨pickedNever, pickedAged, pickedAdj, pickedRandom, b.picks.length,
    pools.never.length + pools.aged.length + pools.adj.length + pools.fill.length⟩)

section Batch

variable {b : Batch} {c : Cand} {left : Nat} {pool : List Cand}

theorem passes_iff (b : Batch) (c : Cand) :
    b.passes c = false ↔ Quota.Eligible Cand.sha Cand.group perAlbumCap b.picks c := by
  unfold Batch.passes Quota.Eligible
  rw [Bool.or_eq_false_iff, b.picked_eq, decide_eq_false_iff_not, Nat.not_le]
  refine and_congr (by simp) ?_
  by_cases hnil : c.album = []
  · simp [Cand.group, acGet, hnil, perAlbumCap]
  · rw [b.albums_eq _ hnil]
    simp [Cand.group, hnil]

/-- The loop takes from its pool what the quota and the two rules leave. -/
theorem takes_takeFromPool (left : Nat) (pool : List Cand) (b : Batch) :
    Quota.Takes Cand.sha Cand.group perAlbumCap left pool b.picks
      (takeFromPool left pool b).1.picks := by
  fun_induction takeFromPool left pool b with
  | case1 pool b => exact Quota.Takes.done b.picks pool
  | case2 left b => exact Quota.Takes.empty left b.picks
  | case3 left c pool b hpass ih =>
    exact Quota.Takes.pass (fun he ↦ by simp [(passes_iff b c).mpr he] at hpass) ih
  | case4 left c pool b hpass b' taken heq ih =>
    rw [heq] at ih
    exact Quota.Takes.take ((passes_iff b c).mp (by simpa using hpass)) ih

/-- The number that is returned is that of the candidates that are taken. -/
theorem taken_takeFromPool (left : Nat) (pool : List Cand) (b : Batch) :
    (takeFromPool left pool b).1.picks.length = b.picks.length + (takeFromPool left pool b).2 := by
  fun_induction takeFromPool left pool b with
  | case1 pool b => rfl
  | case2 left b => rfl
  | case3 left c pool b hpass ih => exact ih
  | case4 left c pool b hpass b' taken heq ih =>
    rw [heq, Batch.add, List.length_append, List.length_singleton] at ih
    dsimp only at ih ⊢
    omega

end Batch

/-! ### Bounds -/

/-- What a batch for `count` picks is to be. -/
structure Bounds (count : Int) (picks : List Cand) : Prop where
  atMost : (picks.length : Int) ≤ count
  nodup : (picks.map Cand.sha).Nodup
  perAlbum : ∀ album, album ≠ [] → (picks.filter fun c ↦ c.album = album).length ≤ 2

/-- What the three shares come to. -/
def quotas (count : Int) : Nat := quota count 50 + quota count 25 + quota count 15

section Choose

variable {count : Int} {pools : Pools} {seed : UInt64} {c : Cand}

/-- The picks are taken from the four shuffled pools one after another. -/
theorem choosePicks_spec (count : Int) (pools : Pools) (seed : UInt64) :
    ∃ never aged adj fill picks₁ picks₂ picks₃,
      never.Perm pools.never ∧ aged.Perm pools.aged ∧ adj.Perm pools.adj ∧ fill.Perm pools.fill ∧
      Quota.Takes Cand.sha Cand.group perAlbumCap (quota count 50) never [] picks₁ ∧
      Quota.Takes Cand.sha Cand.group perAlbumCap (quota count 25) aged picks₁ picks₂ ∧
      Quota.Takes Cand.sha Cand.group perAlbumCap (quota count 15) adj picks₂ picks₃ ∧
      Quota.Takes Cand.sha Cand.group perAlbumCap (count - picks₃.length).toNat fill picks₃
        (choosePicks count pools seed).1.picks := by
  let never := shuffle drawNumber pools.never seed
  let aged := shuffle drawNumber pools.aged never.2
  let adj := shuffle drawNumber pools.adj aged.2
  let fill := shuffle drawNumber pools.fill adj.2
  let b₁ := (takeFromPool (quota count 50) never.1 Batch.none).1
  let b₂ := (takeFromPool (quota count 25) aged.1 b₁).1
  let b₃ := (takeFromPool (quota count 15) adj.1 b₂).1
  refine ⟨never.1, aged.1, adj.1, fill.1, b₁.picks, b₂.picks, b₃.picks, shuffle_perm ..,
    shuffle_perm .., shuffle_perm .., shuffle_perm .., takes_takeFromPool _ _ Batch.none,
    takes_takeFromPool .., takes_takeFromPool .., ?_⟩
  unfold choosePicks
  show Quota.Takes _ _ _ _ fill.1 b₃.picks (if 0 < count - (b₃.picks.length : Int) then
    takeFromPool (count - b₃.picks.length).toNat fill.1 b₃ else (b₃, 0)).1.picks
  split
  · exact takes_takeFromPool ..
  · next hle =>
    rw [Int.toNat_of_nonpos (by omega)]
    exact Quota.Takes.done _ _

/-- The statistics add up to the number of picks. -/
theorem counts_choosePicks (count : Int) (pools : Pools) (seed : UInt64) :
    let (b, counts) := choosePicks count pools seed
    counts.pickedNeverPlayed + counts.pickedAgedOut + counts.pickedAdjacentToLoved +
      counts.pickedRandom = counts.totalPicked ∧ counts.totalPicked = b.picks.length := by
  let never := shuffle drawNumber pools.never seed
  let aged := shuffle drawNumber pools.aged never.2
  let adj := shuffle drawNumber pools.adj aged.2
  let fill := shuffle drawNumber pools.fill adj.2
  have h₁ := taken_takeFromPool (quota count 50) never.1 Batch.none
  generalize hb₁ : takeFromPool (quota count 50) never.1 Batch.none = b₁ at h₁
  have h₂ := taken_takeFromPool (quota count 25) aged.1 b₁.1
  generalize hb₂ : takeFromPool (quota count 25) aged.1 b₁.1 = b₂ at h₂
  have h₃ := taken_takeFromPool (quota count 15) adj.1 b₂.1
  generalize hb₃ : takeFromPool (quota count 15) adj.1 b₂.1 = b₃ at h₃
  have h₄ := taken_takeFromPool (count - b₃.1.picks.length).toNat fill.1 b₃.1
  have hnone : Batch.none.picks.length = 0 := rfl
  unfold choosePicks
  dsimp only [never, aged, adj, fill] at *
  rw [hb₁, hb₂, hb₃]
  refine ⟨?_, rfl⟩
  split
  · omega
  · dsimp only
    omega

/-- Whatever the pools are, no hash is picked twice, and of no album more than two. -/
theorem fair_choosePicks (count : Int) (pools : Pools) (seed : UInt64) :
    Quota.Fair Cand.sha Cand.group perAlbumCap (choosePicks count pools seed).1.picks := by
  obtain ⟨_, _, _, _, _, _, _, -, -, -, -, h₁, h₂, h₃, h₄⟩ := choosePicks_spec count pools seed
  exact h₄.fair (h₃.fair (h₂.fair (h₁.fair Quota.fair_nil)))

/-- There are no more picks than the count, or the three shares, come to. -/
theorem length_choosePicks (count : Int) (pools : Pools) (seed : UInt64) :
    ((choosePicks count pools seed).1.picks.length : Int) ≤ max count (quotas count) := by
  obtain ⟨_, _, _, _, _, _, _, -, -, -, -, h₁, h₂, h₃, h₄⟩ := choosePicks_spec count pools seed
  have h₁ := h₁.length_le
  have h₂ := h₂.length_le
  have h₃ := h₃.length_le
  have h₄ := h₄.length_le
  rw [List.length_nil] at h₁
  unfold quotas
  omega

/-- A pick is from one of the pools. -/
theorem mem_choosePicks (h : c ∈ (choosePicks count pools seed).1.picks) :
    c ∈ pools.never ∨ c ∈ pools.aged ∨ c ∈ pools.adj ∨ c ∈ pools.fill := by
  obtain ⟨_, _, _, _, _, _, _, hn, ha, hj, hf, h₁, h₂, h₃, h₄⟩ :=
    choosePicks_spec count pools seed
  rcases h₄.mem h with h | h
  · rcases h₃.mem h with h | h
    · rcases h₂.mem h with h | h
      · rcases h₁.mem h with h | h
        · cases h
        · exact Or.inl (hn.mem_iff.mp h)
      · exact Or.inr (Or.inl (ha.mem_iff.mp h))
    · exact Or.inr (Or.inr (Or.inl (hj.mem_iff.mp h)))
  · exact Or.inr (Or.inr (Or.inr (hf.mem_iff.mp h)))

/-- The counts whose shares come to more. -/
def overfull : List Int := [1, 2, 3, 5, 7, 9]

theorem quotas_le (h : 0 < count) (hc : count ∉ overfull) : (quotas count : Int) ≤ count := by
  simp only [overfull, List.mem_cons, List.not_mem_nil, or_false, not_or] at hc
  unfold quotas quota
  by_cases hlarge : 30 ≤ count
  · -- the shares come to nine tenths, and to less than three more by rounding
    omega
  · interval_cases count <;> simp_all

theorem bounds_choosePicks (h : 0 < count) (hc : count ∉ overfull) (pools : Pools)
    (seed : UInt64) : Bounds count (choosePicks count pools seed).1.picks where
  atMost := by
    have hlen := length_choosePicks count pools seed
    rwa [max_eq_left (quotas_le h hc)] at hlen
  nodup := (fair_choosePicks count pools seed).nodup
  perAlbum album hne := by
    have hgroup := (fair_choosePicks count pools seed).groups album
    unfold Quota.inGroup at hgroup
    rw [List.countP_eq_length_filter] at hgroup
    simp only [group_eq_some hne] at hgroup
    exact hgroup

end Choose

/-! ### Counts of a configuration -/

/-- The count of a run, `discover_cmd.c:64`. -/
def discoverCount {D : Type} (o : Options D) : Int :=
  if 0 < o.discoverCount then o.discoverCount else 20

theorem discoverCount_pos {D : Type} (o : Options D) : 0 < discoverCount o := by
  unfold discoverCount
  split
  · assumption
  · decide

namespace SmallLibrary

/-- A track without an album. -/
def track (name : String) (artist : Option Text) (tracks : UniqueTable Sha TrackRow Path TrackRow.path) :
    UniqueTable Sha TrackRow Path TrackRow.path :=
  (tracks.insert? (ascii name) { plainRow (ascii name) 1 with albumArtist := artist }).getD tracks

def playedAt : Text := ascii "2020-01-01T00:00:00.000Z"

def play (name : String) : PlayRow := ⟨ascii name, playedAt, 0, false, ascii "phone-a", 0, [], []⟩

/-- Seven tracks of an artist that have not been played, one of them pinned, and three that were played
in 2020. -/
def db : Db where
  tracks := ["a", "b", "c", "d", "e", "f", "g"].foldr (track · (some (ascii "x")))
    (["p", "q", "r"].foldr (track · none) .empty)
  plays := ["p", "q", "r"].map play
  likes := .empty
  pins := Table.empty.put (.track, ascii "a") ⟨true, 0, []⟩
  manifestCurrent := .empty
  manifestMeta := .empty
  residencyState := .empty
  ingestOffsets := .empty
  weeklyDiscoveryPicks := .empty
  unsyncOverrides := .empty
  trackBlacklist := .empty
  scanMeta := .empty

def days : Days := ⟨fun t ↦ if t = playedAt then some 2458849.5 else none, 2461045.5⟩

/-- The pools in the order in which the rows are stored. -/
def storedPools (db : Db) (days : Days) : Pools where
  never := loadPool (poolQuery db (neverPlayed db)).rows (ascii "never_played") none
  aged := loadPool (poolQuery db (agedOut db days)).rows (ascii "aged_out") none
  adj := loadPool (poolQuery db (adjacentToLoved db)).rows (ascii "adjacent_to_loved") none
  fill := loadPool (poolQuery db randomFill).rows (ascii "random") none

/-- The rows that the key of a pool selects are stored in its order. -/
def InOrder (db : Db) (key : Sha → TrackRow → Option SqlValue) : Prop :=
  (poolQuery db key).rows.Pairwise fun x y ↦ x.key.le y.key = true

theorem loaded_storedPools {db : Db} {days : Days} (hnever : InOrder db (neverPlayed db))
    (haged : InOrder db (agedOut db days)) (hadj : InOrder db (adjacentToLoved db))
    (hfill : InOrder db randomFill) : (storedPools db days).Loaded db days none := by
  have hanswers : ∀ key, InOrder db key → (poolQuery db key).Answers (poolQuery db key).rows :=
    fun key h ↦ ⟨_, List.Perm.refl _, h, List.take_length.symm⟩
  exact ⟨⟨_, hanswers _ hnever, rfl⟩, ⟨_, hanswers _ haged, rfl⟩, ⟨_, hanswers _ hadj, rfl⟩,
    ⟨_, hanswers _ hfill, rfl⟩⟩

def pools : Pools := storedPools db days

theorem loaded : pools.Loaded db days none := by
  apply loaded_storedPools
  all_goals
    unfold InOrder
    decide +kernel

/-- In the second week of 2026, each of these counts gets more picks. -/
theorem overfull_picks : ∀ count ∈ overfull,
    ¬ ((choosePicks count pools (weeklySeed (fun _ ↦ 0) 1767571200)).1.picks.length : Int) ≤ count := by
  decide +kernel

end SmallLibrary

/-- For every configuration that can be loaded: the bounds hold of every run exactly where the count
is none of six small ones, whose shares come to more by rounding. -/
theorem batch_bounds_iff {D : Type} (o : Options D) :
    (∀ (db : Db) (days : Days) (exclude : Option Text) (pools : Pools) (utcOffset : Int → Int)
        (now : Int), pools.Loaded db days exclude →
      Bounds (discoverCount o) (choosePicks (discoverCount o) pools (weeklySeed utcOffset now)).1.picks) ↔
    discoverCount o ∉ overfull := by
  constructor
  · intro h hcount
    exact SmallLibrary.overfull_picks _ hcount
      (h _ _ none _ (fun _ ↦ 0) 1767571200 SmallLibrary.loaded).atMost
  · intro hcount db days exclude pools utcOffset now _
    exact bounds_choosePicks (discoverCount_pos o) hcount pools _

/-- A run for one pick makes three. -/
theorem three_picks_for_one : ∃ (db : Db) (days : Days) (pools : Pools), pools.Loaded db days none ∧
    ¬ Bounds 1 (choosePicks 1 pools (weeklySeed (fun _ ↦ 0) 1767571200)).1.picks :=
  ⟨SmallLibrary.db, SmallLibrary.days, SmallLibrary.pools, SmallLibrary.loaded,
    fun h ↦ SmallLibrary.overfull_picks 1 (List.mem_cons_self ..) h.atMost⟩

end Nocturne.Discover
