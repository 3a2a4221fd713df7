import Nocturne.Discover.Picks
import Nocturne.Lib.Steps

/-!
# The rows of a week

A run of the discovery writes its picks under the Monday of its week, and leaves rows that are there
alone. Two runs of a week write the same rows where their queries select the same; where a play, a
pin, a scan or the passing of time changes that in between, the second run adds rows of its own, for
which there may be no room. The Monday is reached by subtracting days of 86400 seconds, which need
not lead to its date.
-/

namespace Nocturne.Discover

open Lib

/-! ### The run -/

/-- What the clock says when the Monday, the stamp and the seed of a run are computed. -/
structure Clock where
  monday : Int
  stamp : Int
  seed : Int
  deriving DecidableEq, Repr

/-- The days back to Monday, from a day of the week that counts from Sunday. -/
def daysBack (wday : Int) : Int := if wday = 0 then 6 else wday - 1

/-- `monday_local`, `discover.c:44–55`, as a day. -/
def mondayLocal (utcOffset : Int → Int) (now : Int) : Int :=
  localDays utcOffset (now - daysBack ((localDays utcOffset now + 4) % 7) * 86400)

/-- The first day of the week that `discover_run` writes under. -/
def weekStart (utcOffset : Int → Int) (clock : Clock) : Text :=
  isoDate (mondayLocal utcOffset clock.monday)

/-- `INSERT OR IGNORE`, `discover.c:394–406`: a row that is there stays, and a pick whose track is not
there is refused by the foreign key. -/
def insertPick (week pickedAt : Text) (db : Db) (c : Cand) : Db :=
  if (db.weeklyDiscoveryPicks.get? (c.sha, week)).isSome || (db.tracks.get? c.sha).isNone then db
  else
    { db with
      weeklyDiscoveryPicks := db.weeklyDiscoveryPicks.put (c.sha, week) ⟨c.reason, pickedAt⟩ }

/-- `struct discover_stats`. -/
structure Stats extends Counts where
  weekStart : Text
  deriving DecidableEq, Repr

/-- `discover_run`, `discover.c:342–417`, with the pools that its queries load, where the database
takes its statements: the statistics, none for `-1`, and the database. -/
def discoverRun (utcOffset : Int → Int) (clock : Clock) (count : Int) (pools : Pools) (db : Db) :
    Option Stats × Db :=
  if count ≤ 0 then (none, db)
  else
    let week := weekStart utcOffset clock
    let (b, counts) := choosePicks count pools (weeklySeed utcOffset clock.seed)
    (some { counts with weekStart := week },
      b.picks.foldl (insertPick week (isoUtcNow clock.stamp)) db)

section Insert

variable {week pickedAt : Text} {db : Db} {picks : List Cand} {c : Cand} {k : Sha × Text}
  {v : WeeklyPick}

/-- The database with other rows of picks. -/
def withPicks (db : Db) (t : Table (Sha × Text) WeeklyPick) : Db :=
  { db with weeklyDiscoveryPicks := t }

/-- The picks change no other table. -/
theorem insertPicks_eq (week pickedAt : Text) (db : Db) (picks : List Cand) :
    ∃ t, picks.foldl (insertPick week pickedAt) db = withPicks db t := by
  induction picks generalizing db with
  | nil => exact ⟨db.weeklyDiscoveryPicks, rfl⟩
  | cons c picks ih =>
    obtain ⟨t, ht⟩ := ih (insertPick week pickedAt db c)
    rw [List.foldl_cons, ht]
    unfold insertPick
    split
    · exact ⟨t, rfl⟩
    · exact ⟨t, rfl⟩

/-- A row that is there stays as it is. -/
theorem insertPicks_keeps (h : db.weeklyDiscoveryPicks.get? k = some v) :
    (picks.foldl (insertPick week pickedAt) db).weeklyDiscoveryPicks.get? k = some v := by
  induction picks generalizing db with
  | nil => exact h
  | cons c picks ih =>
    rw [List.foldl_cons]
    apply ih
    unfold insertPick
    split
    · exact h
    · next hnew =>
      have hk : k ≠ (c.sha, week) := by
        rintro rfl
        simp [h] at hnew
      rw [Table.get?_put_ne _ _ hk]
      exact h

/-- A new row is that of a pick whose track is there. -/
theorem insertPicks_new
    (h : (picks.foldl (insertPick week pickedAt) db).weeklyDiscoveryPicks.get? k = some v) :
    db.weeklyDiscoveryPicks.get? k = some v ∨
      k.2 = week ∧ ∃ c ∈ picks, c.sha = k.1 ∧ (db.tracks.get? k.1).isSome := by
  induction picks generalizing db with
  | nil => exact Or.inl h
  | cons c picks ih =>
    rw [List.foldl_cons] at h
    have htracks : (insertPick week pickedAt db c).tracks = db.tracks := by
      unfold insertPick
      split <;> rfl
    rcases ih h with h | ⟨hweek, c', hc', hsha, hthere⟩
    · unfold insertPick at h
      split at h
      · exact Or.inl h
      · next hnew =>
        dsimp only at h
        rw [Table.get?_put] at h
        split at h
        · next hk =>
          right
          refine ⟨by rw [hk], c, List.mem_cons_self, by rw [hk], ?_⟩
          rw [hk]
          simp only [Bool.or_eq_true, not_or] at hnew
          simpa [Option.isSome_iff_ne_none] using hnew.2
        · exact Or.inl h
    · rw [htracks] at hthere
      exact Or.inr ⟨hweek, c', List.mem_cons_of_mem _ hc', hsha, hthere⟩

end Insert

/-! ### Rows -/

/-- The tracks with a row of a week. -/
def weekRows (db : Db) (week : Text) : List Sha :=
  (db.weeklyDiscoveryPicks.rows.filter fun r ↦ decide (r.1.2 = week)).map fun r ↦ r.1.1

/-- The album of a track. -/
def albumOf (db : Db) (sha : Sha) : Option Text := (db.tracks.get? sha).bind TrackRow.album

/-- Tracks are no more than the count, and of no album more than two. -/
structure Fits (count : Int) (db : Db) (shas : List Sha) : Prop where
  atMost : (shas.length : Int) ≤ count
  perAlbum : ∀ album, columnText album ≠ [] →
    (shas.filter fun sha ↦ albumOf db sha = some album).length ≤ 2

/-- The rows of a week keep the bounds. -/
def Bounded (count : Int) (week : Text) (db : Db) : Prop := Fits count db (weekRows db week)

/-- Each row of a week is that of one of these tracks, with the album that it has there. -/
def Within (planned : List (Sha × Option Text)) (week : Text) (db : Db) : Prop :=
  ∀ sha v, db.weeklyDiscoveryPicks.get? (sha, week) = some v → (sha, albumOf db sha) ∈ planned

/-- Tracks with their albums keep the bounds. -/
structure Plan (count : Int) (planned : List (Sha × Option Text)) : Prop where
  atMost : (planned.length : Int) ≤ count
  perAlbum : ∀ album, columnText album ≠ [] →
    (planned.filter fun e ↦ e.2 = some album).length ≤ 2

/-- Tracks with the albums that they have. -/
def withAlbums (db : Db) (shas : List Sha) : List (Sha × Option Text) :=
  shas.map fun sha ↦ (sha, albumOf db sha)

/-- Hashes have no more than 64 bytes; those of a scan have 64 hexadecimal digits. -/
def HashesFit (db : Db) : Prop := ∀ sha, (db.tracks.get? sha).isSome → cutSha sha = sha

section Rows

variable {db : Db} {week : Text} {count : Int} {sha : Sha} {shas : List Sha}
  {planned : List (Sha × Option Text)}

theorem mem_weekRows : sha ∈ weekRows db week ↔
    (db.weeklyDiscoveryPicks.get? (sha, week)).isSome := by
  unfold weekRows
  rw [List.mem_map, Option.isSome_iff_exists]
  constructor
  · rintro ⟨⟨⟨sha', week'⟩, v⟩, hr, rfl⟩
    obtain ⟨hmem, hweek⟩ := List.mem_filter.mp hr
    obtain rfl := of_decide_eq_true hweek
    exact ⟨v, Table.mem_rows.mp hmem⟩
  · rintro ⟨v, hv⟩
    exact ⟨((sha, week), v), List.mem_filter.mpr ⟨Table.mem_rows.mpr hv, by simp⟩, rfl⟩

theorem nodup_weekRows (db : Db) (week : Text) : (weekRows db week).Nodup := by
  have hkeys := db.weeklyDiscoveryPicks.nodup_keys
  unfold weekRows
  apply List.Nodup.map_on
  · rintro ⟨⟨sha, w⟩, v⟩ hr ⟨⟨sha', w'⟩, v'⟩ hr' he
    obtain ⟨hmem, hweek⟩ := List.mem_filter.mp hr
    obtain ⟨hmem', hweek'⟩ := List.mem_filter.mp hr'
    have hkey : (sha, w) = (sha', w') := Prod.ext he <|
      (of_decide_eq_true hweek).trans (of_decide_eq_true hweek').symm
    rw [Table.mem_rows] at hmem hmem'
    rw [hkey, hmem'] at hmem
    rw [hkey, Option.some.inj hmem]
  · exact (List.Nodup.of_map _ hkeys).filter _

/-- Tracks with their albums keep the bounds that the tracks keep. -/
theorem Fits.plan (h : Fits count db shas) : Plan count (withAlbums db shas) where
  atMost := by
    rw [withAlbums, List.length_map]
    exact h.atMost
  perAlbum album hne := by
    rw [withAlbums, List.filter_map, List.length_map]
    exact h.perAlbum album hne

/-- The rows of a week are within what they are part of. -/
theorem within_withAlbums (h : weekRows db week ⊆ shas) : Within (withAlbums db shas) week db := by
  intro sha v hv
  exact List.mem_map_of_mem (h (mem_weekRows.mpr (by rw [hv]; rfl)))

/-- Rows within what keeps the bounds keep them. -/
theorem Within.bounded (h : Within planned week db) (hp : Plan count planned) :
    Bounded count week db := by
  have hrow : ∀ sha ∈ weekRows db week, (sha, albumOf db sha) ∈ planned := by
    intro sha hsha
    obtain ⟨v, hv⟩ := Option.isSome_iff_exists.mp (mem_weekRows.mp hsha)
    exact h sha v hv
  have hnodup : ∀ {shas : List Sha}, shas.Nodup → (withAlbums db shas).Nodup :=
    fun hs ↦ hs.map fun _ _ he ↦ (Prod.mk.inj he).1
  constructor
  · have hsub : withAlbums db (weekRows db week) ⊆ planned := by
      intro e he
      obtain ⟨sha, hsha, rfl⟩ := List.mem_map.mp he
      exact hrow sha hsha
    have hle := ((hnodup (nodup_weekRows db week)).subperm hsub).length_le
    rw [withAlbums, List.length_map] at hle
    have hmost := hp.atMost
    omega
  · intro album hne
    have hsub : withAlbums db ((weekRows db week).filter fun sha ↦ albumOf db sha = some album) ⊆
        planned.filter fun e ↦ e.2 = some album := by
      intro e he
      obtain ⟨sha, hsha, rfl⟩ := List.mem_map.mp he
      obtain ⟨hmem, halbum⟩ := List.mem_filter.mp hsha
      exact List.mem_filter.mpr ⟨hrow sha hmem, halbum⟩
    have hle := ((hnodup ((nodup_weekRows db week).filter _)).subperm hsub).length_le
    rw [withAlbums, List.length_map] at hle
    exact hle.trans (hp.perAlbum album hne)

end Rows

/-! ### What the queries select -/

/-- What the query of a pool selects of a track that is not excluded: its album, its size, and the
value that the pool is ordered by. -/
def selected (db : Db) (exclude : Option Text) (key : Sha → TrackRow → Option SqlValue) (sha : Sha) :
    Option (Option Text × Int × SqlValue) :=
  (db.tracks.get? sha).bind fun row ↦
    if albumExcluded row.album exclude then none
    else (key sha row).map fun k ↦ (row.album, row.sizeBytes, k)

/-- No two tracks are ordered by the same value, which leaves no choice to SQLite. -/
def Untied (f : Sha → Option (Option Text × Int × SqlValue)) : Prop :=
  ∀ sha sha' x x', f sha = some x → f sha' = some x' → x.2.2 = x'.2.2 → sha = sha'

/-- The tracks that a call can pick. -/
def eligible (db : Db) (exclude : Option Text) : List Sha :=
  (db.tracks.table.rows.filter fun r ↦ !albumExcluded r.2.album exclude).map Prod.fst

/-- The tracks that can have a row of the week after a call. -/
def withinReach (db : Db) (week : Text) (exclude : Option Text) : List Sha :=
  weekRows db week ++ (eligible db exclude).filter fun sha ↦
    (db.weeklyDiscoveryPicks.get? (sha, week)).isNone

section Selected

variable {week : Text} {db db' : Db} {exclude exclude' : Option Text}
  {key key' : Sha → TrackRow → Option SqlValue} {reason : Text} {sha : Sha} {album : Option Text}
  {size : Int} {k : SqlValue} {rows all : List PoolRow} {r : PoolRow} {pool pool' : List Cand}
  {c : Cand} {pools : Pools} {days : Days} {seed : UInt64} {count : Int}

theorem selected_eq_some : selected db exclude key sha = some (album, size, k) ↔
    ∃ row, db.tracks.get? sha = some row ∧ albumExcluded row.album exclude = false ∧
      key sha row = some k ∧ row.album = album ∧ row.sizeBytes = size := by
  unfold selected
  rw [Option.bind_eq_some_iff]
  apply exists_congr
  intro row
  apply and_congr_right
  intro _
  cases albumExcluded row.album exclude with
  | true => simp
  | false =>
    simp only [Bool.false_eq_true, if_false, Option.map_eq_some_iff, Prod.mk.injEq, true_and]
    constructor
    · rintro ⟨k, hk, rfl, rfl, rfl⟩
      exact ⟨hk, rfl, rfl⟩
    · rintro ⟨hk, rfl, rfl⟩
      exact ⟨k, hk, rfl, rfl, rfl⟩

/-- The album of a track that is selected. -/
theorem albumOf_of_selected (h : selected db exclude key sha = some (album, size, k)) :
    albumOf db sha = album := by
  obtain ⟨row, hrow, -, -, rfl, -⟩ := selected_eq_some.mp h
  rw [albumOf, hrow]
  rfl

/-- What any pool selects the fill selects as well. -/
theorem selected_randomFill (h : selected db exclude key sha = some (album, size, k)) :
    selected db exclude randomFill sha = some (album, size, .text sha) := by
  obtain ⟨row, hrow, hkept, -, halbum, hsize⟩ := selected_eq_some.mp h
  exact selected_eq_some.mpr ⟨row, hrow, hkept, rfl, halbum, hsize⟩

theorem mem_eligible (h : selected db exclude key sha = some (album, size, k)) :
    sha ∈ eligible db exclude := by
  obtain ⟨row, hrow, hkept, -⟩ := selected_eq_some.mp h
  exact List.mem_map.mpr ⟨(sha, row), List.mem_filter.mpr ⟨Table.mem_rows.mpr hrow, by simp [hkept]⟩,
    rfl⟩

theorem mem_withinReach (h : selected db exclude key sha = some (album, size, k)) :
    sha ∈ withinReach db week exclude := by
  unfold withinReach
  rw [List.mem_append, mem_weekRows, List.mem_filter, and_iff_right (mem_eligible h),
    Option.isNone_iff_eq_none, ← Option.not_isSome_iff_eq_none]
  exact Classical.em _

/-- A pool that is ordered by the hash has no ties. -/
theorem untied_of_key (h : ∀ sha row k, key sha row = some k → k = .text sha) :
    Untied (selected db exclude key) := by
  rintro sha sha' ⟨a, n, k⟩ ⟨a', n', k'⟩ hx hx' heq
  obtain ⟨row, -, -, hk, -⟩ := selected_eq_some.mp hx
  obtain ⟨row', -, -, hk', -⟩ := selected_eq_some.mp hx'
  cases h _ _ _ hk
  cases h _ _ _ hk'
  exact SqlValue.text.inj heq

/-- The rows that are not excluded are what is selected. -/
theorem mem_kept (h : all.Perm (poolQuery db key).rows) :
    r ∈ all.filter (fun r ↦ !albumExcluded r.album exclude) ↔
      selected db exclude key r.sha256 = some (r.album, r.sizeBytes, r.key) := by
  rw [List.mem_filter, h.mem_iff, selected_eq_some]
  show r ∈ List.filterMap _ _ ∧ _ ↔ _
  rw [List.mem_filterMap]
  constructor
  · rintro ⟨⟨⟨sha, row⟩, hrow, hkey⟩, hkept⟩
    obtain ⟨k, hk, rfl⟩ := Option.map_eq_some_iff.mp hkey
    exact ⟨row, Table.mem_rows.mp hrow, by simpa using hkept, hk, rfl, rfl⟩
  · rintro ⟨row, hrow, hkept, hk, halbum, hsize⟩
    refine ⟨⟨(r.sha256, row), Table.mem_rows.mpr hrow, ?_⟩, ?_⟩
    · rw [hk, Option.map_some, halbum, hsize]
    · rw [← halbum, hkept]
      rfl

theorem nodup_kept (h : all.Perm (poolQuery db key).rows) :
    (all.filter fun r ↦ !albumExcluded r.album exclude).Nodup := by
  apply List.Nodup.filter
  rw [h.nodup_iff]
  have hkeys := List.pairwise_map.mp db.tracks.table.nodup_keys
  refine List.pairwise_filterMap.mpr (hkeys.imp ?_)
  rintro ⟨sha, row⟩ ⟨sha', row'⟩ hne r hr r' hr' rfl
  obtain ⟨k, -, rfl⟩ := Option.map_eq_some_iff.mp hr
  obtain ⟨k', -, heq⟩ := Option.map_eq_some_iff.mp hr'
  exact hne (congrArg PoolRow.sha256 heq).symm

/-- A pool has no more than its query selects, in the order of the query. -/
theorem MayLoad.kept (h : MayLoad db exclude key reason pool) :
    ∃ all : List PoolRow, all.Perm (poolQuery db key).rows ∧
      (all.filter fun r ↦ !albumExcluded r.album exclude).Pairwise
        (fun x y ↦ x.key.le y.key = true) ∧
      pool = (all.filter fun r ↦ !albumExcluded r.album exclude).map fun r ↦ r.cand reason := by
  obtain ⟨rows, ⟨all, hperm, hsorted, rfl⟩, rfl⟩ := h
  have hall : all.take (poolQuery db key).limit = all :=
    List.take_of_length_le (by rw [hperm.length_eq]; exact Nat.le_refl _)
  exact ⟨all, hperm, List.Pairwise.filter _ hsorted, by rw [hall]; rfl⟩

/-- Pools whose queries select the same, without ties, are the same. -/
theorem MayLoad.unique (h : MayLoad db exclude key reason pool)
    (h' : MayLoad db' exclude' key' reason pool')
    (hsame : selected db exclude key = selected db' exclude' key')
    (huntied : Untied (selected db exclude key)) : pool = pool' := by
  obtain ⟨all, hperm, hsorted, rfl⟩ := h.kept
  obtain ⟨all', hperm', hsorted', rfl⟩ := h'.kept
  congr 1
  have hrows : (all.filter fun r ↦ !albumExcluded r.album exclude).Perm
      (all'.filter fun r ↦ !albumExcluded r.album exclude') := by
    rw [List.perm_ext_iff_of_nodup (nodup_kept hperm) (nodup_kept hperm')]
    intro r
    rw [mem_kept hperm, mem_kept hperm', hsame]
  refine hrows.eq_of_pairwise ?_ hsorted hsorted'
  intro r r' hr hr' hle hle'
  rw [mem_kept hperm] at hr
  rw [mem_kept hperm', ← hsame] at hr'
  -- the same value belongs to one track, of which one row is selected
  have hkey := SqlValue.antisymm hle hle'
  have hsha : r.sha256 = r'.sha256 := huntied _ _ _ _ hr hr' hkey
  rw [← hsha, hr] at hr'
  obtain ⟨halbum, hsize, -⟩ : r.album = r'.album ∧ r.sizeBytes = r'.sizeBytes ∧ r.key = r'.key := by
    simpa using hr'
  cases r
  cases r'
  cases hsha
  cases halbum
  cases hsize
  cases hkey
  rfl

/-- A loaded candidate has the hash and the album of a track that is selected. -/
theorem mem_mayLoad (h : MayLoad db exclude key reason pool) (hc : c ∈ pool) :
    ∃ sha album size, selected db exclude randomFill sha = some (album, size, .text sha) ∧
      c.sha = cutSha sha ∧ c.album = cutAlbum album := by
  obtain ⟨all, hperm, -, rfl⟩ := h.kept
  obtain ⟨r, hr, rfl⟩ := List.mem_map.mp hc
  exact ⟨r.sha256, r.album, r.sizeBytes, selected_randomFill ((mem_kept hperm).mp hr), rfl, rfl⟩

/-- A pick has the hash and the album of a track that is selected. -/
theorem mem_picks (h : pools.Loaded db days exclude) (hfit : HashesFit db)
    (hc : c ∈ (choosePicks count pools seed).1.picks) :
    ∃ size, selected db exclude randomFill c.sha = some (albumOf db c.sha, size, .text c.sha) ∧
      c.album = cutAlbum (albumOf db c.sha) := by
  have htrack : ∃ sha album size, selected db exclude randomFill sha =
      some (album, size, .text sha) ∧ c.sha = cutSha sha ∧ c.album = cutAlbum album := by
    rcases mem_choosePicks hc with hc | hc | hc | hc
    · exact mem_mayLoad h.never hc
    · exact mem_mayLoad h.aged hc
    · exact mem_mayLoad h.adj hc
    · exact mem_mayLoad h.fill hc
  obtain ⟨sha, album, size, hsel, hsha, halbum⟩ := htrack
  obtain ⟨row, hrow, -⟩ := selected_eq_some.mp hsel
  rw [hfit sha (by rw [hrow]; rfl)] at hsha
  obtain rfl := albumOf_of_selected hsel
  rw [hsha]
  exact ⟨size, hsel, halbum⟩

/-- The picks of one call keep the bounds. -/
theorem fits_picks (h : pools.Loaded db days exclude) (hfit : HashesFit db) (hpos : 0 < count)
    (hcount : count ∉ overfull) :
    Fits count db ((choosePicks count pools seed).1.picks.map Cand.sha) where
  atMost := by
    rw [List.length_map]
    exact (bounds_choosePicks hpos hcount pools seed).atMost
  perAlbum album hne := by
    have hcut : cutAlbum (some album) ≠ [] := by
      unfold cutAlbum
      simpa using hne
    rw [List.filter_map, List.length_map, ← List.countP_eq_length_filter]
    refine (List.countP_mono_left fun c hc halbum ↦ ?_).trans
      (List.countP_eq_length_filter.trans_le
        ((bounds_choosePicks hpos hcount pools seed).perAlbum _ hcut))
    obtain ⟨-, -, hca⟩ := mem_picks h hfit hc
    rw [hca, of_decide_eq_true halbum]
    exact decide_eq_true rfl

end Selected

/-! ### The Monday -/

/-- A change of the time zone's offset since Monday does not lead to another date: it is not longer
than the time since midnight, or until midnight where the clock was behind. -/
def StaysOnDate (utcOffset : Int → Int) (now : Int) : Prop :=
  let monday := now - daysBack ((localDays utcOffset now + 4) % 7) * 86400
  let seconds := (now + utcOffset now) % 86400 + (utcOffset monday - utcOffset now)
  0 ≤ seconds ∧ seconds < 86400

theorem daysBack_eq (days : Int) : daysBack ((days + 4) % 7) = days - mondayOf days := by
  unfold daysBack mondayOf
  split <;> omega

/-- The subtraction leads to the Monday of the week exactly where it stays on its date. -/
theorem mondayLocal_eq_iff (utcOffset : Int → Int) (now : Int) :
    mondayLocal utcOffset now = mondayOf (localDays utcOffset now) ↔ StaysOnDate utcOffset now := by
  unfold mondayLocal StaysOnDate
  dsimp only
  rw [daysBack_eq]
  generalize hback : localDays utcOffset now - mondayOf (localDays utcOffset now) = back
  have hmonday : mondayOf (localDays utcOffset now) = localDays utcOffset now - back := by omega
  rw [hmonday]
  unfold localDays
  generalize utcOffset (now - back * 86400) = before
  generalize utcOffset now = offset
  omega

/-- Central European time in 2026, from the last Sunday of March to that of October an hour ahead. -/
def centralEurope (time : Int) : Int :=
  if 1774746000 ≤ time ∧ time < 1792890000 then 7200 else 3600

/-- At half past eleven on the Sunday that the clock is put back, the subtraction leads to Tuesday. -/
example : mondayLocal centralEurope 1792967400 = 20746 ∧
    mondayOf (localDays centralEurope 1792967400) = 20745 := by
  decide

/-- All days of a week have the seed of its Monday. -/
theorem weekSeed_of_mondayOf {days monday : Int} (h : mondayOf days = monday) :
    weekSeed days = weekSeed monday := by
  have hself : mondayOf days = mondayOf (mondayOf days) := by
    unfold mondayOf
    omega
  unfold weekSeed
  rw [yearWeek_congr hself, h]

/-! ### Runs within a week -/

/-- A call of `discover_run`: what it reads of the clock, of `julianday` and of the configuration, and
the pools that it loads. -/
structure Call where
  clock : Clock
  days : Days
  exclude : Option Text
  pools : Pools

/-- The queries of a call on `db` select what those of the call `c'` on `db'` did, and no two tracks
that have aged out were last played at the same time. -/
structure SelectsSame (db : Db) (c : Call) (db' : Db) (c' : Call) : Prop where
  never : selected db c.exclude (neverPlayed db) = selected db' c'.exclude (neverPlayed db')
  aged : selected db c.exclude (agedOut db c.days) = selected db' c'.exclude (agedOut db' c'.days)
  adj : selected db c.exclude (adjacentToLoved db) = selected db' c'.exclude (adjacentToLoved db')
  fill : selected db c.exclude randomFill = selected db' c'.exclude randomFill
  untied : Untied (selected db c.exclude (agedOut db c.days))

/-- The database, and the last call with the database that it came on. -/
structure WeekState where
  db : Db
  last : Option (Db × Call)

/-- A call, or a change of the database by another command. -/
inductive WeekStep where
  | call (c : Call)
  | change (db : Db)

/-- The state after a step. -/
def WeekStep.next (utcOffset : Int → Int) (count : Int) (s : WeekState) : WeekStep → WeekState
  | .call c => ⟨(discoverRun utcOffset c.clock count c.pools s.db).2, some (s.db, c)⟩
  | .change db => ⟨db, s.last⟩

/-- A call within the week that begins on `monday`, with pools that its queries may load; or a change
that takes rows of picks away at most. -/
def WeekStep.Valid (utcOffset : Int → Int) (monday : Int) (s : WeekState) : WeekStep → Prop
  | .call c =>
    c.pools.Loaded s.db c.days c.exclude ∧
      mondayOf (localDays utcOffset c.clock.monday) = monday ∧
      mondayOf (localDays utcOffset c.clock.seed) = monday
  | .change db' =>
    HashesFit db' ∧ ∀ k v, db'.weeklyDiscoveryPicks.get? k = some v →
      s.db.weeklyDiscoveryPicks.get? k = some v

/-- A call that gets to its Monday, and finds no rows of the week while the shares of the count do not
come to more, or selects what the last call did, or has room for any track that it can pick; or a
change that leaves the albums of the tracks with a row of the week. -/
def WeekStep.Steady (utcOffset : Int → Int) (count monday : Int) (s : WeekState) : WeekStep → Prop
  | .call c =>
    StaysOnDate utcOffset c.clock.monday ∧
      (count ∉ overfull ∧ weekRows s.db (isoDate monday) = [] ∨
        (∃ last ∈ s.last, SelectsSame s.db c last.1 last.2) ∨
        Fits count s.db (withinReach s.db (isoDate monday) c.exclude))
  | .change db' => ∀ sha v, db'.weeklyDiscoveryPicks.get? (sha, isoDate monday) = some v →
      albumOf db' sha = albumOf s.db sha

/-- A call writes under the week's Monday, and leaves the rows that are there as they are. -/
def WeekStep.Stable (utcOffset : Int → Int) (count monday : Int) (s : WeekState) : WeekStep → Prop
  | .call c =>
    weekStart utcOffset c.clock = isoDate monday ∧ ∀ k v,
      s.db.weeklyDiscoveryPicks.get? k = some v →
        (discoverRun utcOffset c.clock count c.pools s.db).2.weeklyDiscoveryPicks.get? k = some v
  | .change _ => True

section Runs

variable {utcOffset : Int → Int} {count monday : Int} {pools : Pools} {db db' : Db} {a : WeekStep}
  {clock : Clock} {c c' : Call} {s : WeekState} {planned : List (Sha × Option Text)}

/-- A call keeps the rows that are there. -/
theorem discoverRun_keeps {k : Sha × Text} {v : WeeklyPick}
    (h : db.weeklyDiscoveryPicks.get? k = some v) :
    (discoverRun utcOffset clock count pools db).2.weeklyDiscoveryPicks.get? k = some v := by
  unfold discoverRun
  split
  · exact h
  · exact insertPicks_keeps h

/-- A call changes no table but that of the picks. -/
theorem discoverRun_eq (utcOffset : Int → Int) (clock : Clock) (count : Int) (pools : Pools)
    (db : Db) : ∃ t, (discoverRun utcOffset clock count pools db).2 = withPicks db t := by
  unfold discoverRun
  split
  · exact ⟨db.weeklyDiscoveryPicks, rfl⟩
  · exact insertPicks_eq ..

/-- Calls that select the same load the same pools. -/
theorem SelectsSame.pools_eq (h : SelectsSame db c db' c')
    (hc : c.pools.Loaded db c.days c.exclude) (hc' : c'.pools.Loaded db' c'.days c'.exclude) :
    c.pools = c'.pools := by
  have hnever : Untied (selected db c.exclude (neverPlayed db)) := by
    apply untied_of_key
    intro sha row k hk
    unfold neverPlayed at hk
    split at hk
    · cases hk
    · exact (Option.some.inj hk).symm
  have hadj : Untied (selected db c.exclude (adjacentToLoved db)) := by
    apply untied_of_key
    intro sha row k hk
    unfold adjacentToLoved at hk
    split at hk
    · split at hk
      · exact (Option.some.inj hk).symm
      · cases hk
    · cases hk
  have hfill : Untied (selected db c.exclude randomFill) :=
    untied_of_key fun _ _ _ hk ↦ (Option.some.inj hk).symm
  have h₁ := hc.never.unique hc'.never h.never hnever
  have h₂ := hc.aged.unique hc'.aged h.aged h.untied
  have h₃ := hc.adj.unique hc'.adj h.adj hadj
  have h₄ := hc.fill.unique hc'.fill h.fill hfill
  cases hp : c.pools
  cases hp' : c'.pools
  rw [hp, hp'] at h₁ h₂ h₃ h₄
  cases h₁
  cases h₂
  cases h₃
  cases h₄
  rfl

/-- The picks of a call of a week. -/
def weekPicks (count : Int) (pools : Pools) (monday : Int) : List Sha :=
  (choosePicks count pools (weekSeed monday)).1.picks.map Cand.sha

/-- Hashes fit, and the rows of the week are part of a plan that keeps the bounds and has the picks of
the last call, with the albums that the call found. -/
structure Planned (count monday : Int) (s : WeekState) : Prop where
  fit : HashesFit s.db
  last : ∀ db c, s.last = some (db, c) → c.pools.Loaded db c.days c.exclude ∧ HashesFit db
  plan : ∃ planned, Plan count planned ∧ Within planned (isoDate monday) s.db ∧
    ∀ db c, s.last = some (db, c) → withAlbums db (weekPicks count c.pools monday) ⊆ planned

/-- The rows after a call are within any plan that has those before it and its picks. -/
theorem within_discoverRun (h : Within planned (isoDate monday) db)
    (hpicks : withAlbums db (weekPicks count pools monday) ⊆ planned)
    (hseed : mondayOf (localDays utcOffset clock.seed) = monday) :
    Within planned (isoDate monday) (discoverRun utcOffset clock count pools db).2 := by
  intro sha v hv
  have halbum : albumOf (discoverRun utcOffset clock count pools db).2 sha = albumOf db sha := by
    obtain ⟨t, ht⟩ := discoverRun_eq utcOffset clock count pools db
    rw [ht]
    rfl
  rw [halbum]
  unfold discoverRun at hv
  split at hv
  · exact h sha v hv
  · rcases insertPicks_new hv with hold | ⟨-, p, hp, rfl, -⟩
    · exact h _ v hold
    · -- the pick is of the seed of the week
      rw [weeklySeed, weekSeed_of_mondayOf hseed] at hp
      exact hpicks (List.mem_map_of_mem (List.mem_map_of_mem hp))

/-- The picks of a call are part of what is planned for it: for the first rows the picks themselves,
then what the last call had, or, where there is room, all that it can pick. -/
theorem Planned.call (h : Planned count monday s) (hpos : 0 < count)
    (hvalid : (WeekStep.call c).Valid utcOffset monday s)
    (hsteady : (WeekStep.call c).Steady utcOffset count monday s) :
    ∃ planned, Plan count planned ∧ Within planned (isoDate monday) s.db ∧
      withAlbums s.db (weekPicks count c.pools monday) ⊆ planned := by
  obtain ⟨hloaded, -, -⟩ := hvalid
  obtain ⟨-, ⟨hcount, hnone⟩ | ⟨⟨db, c'⟩, hlast, hsame⟩ | hroom⟩ := hsteady
  · refine ⟨_, (fits_picks hloaded h.fit hpos hcount).plan, within_withAlbums ?_,
      List.Subset.refl _⟩
    rw [hnone]
    exact List.nil_subset _
  · obtain ⟨planned, hplan, hwithin, hpicks⟩ := h.plan
    refine ⟨planned, hplan, hwithin, fun e he ↦ hpicks db c' hlast ?_⟩
    have hpools := hsame.pools_eq hloaded (h.last db c' hlast).1
    rw [← hpools]
    obtain ⟨sha, hsha, rfl⟩ := List.mem_map.mp he
    obtain ⟨p, hp, rfl⟩ := List.mem_map.mp hsha
    -- the track has the album that it had at the last call
    obtain ⟨size, hsel, -⟩ := mem_picks hloaded h.fit hp
    have hsel' := congrFun hsame.fill p.sha
    rw [hsel] at hsel'
    rw [← albumOf_of_selected hsel'.symm]
    exact List.mem_map_of_mem hsha
  · refine ⟨_, hroom.plan, within_withAlbums (List.subset_append_left ..), fun e he ↦ ?_⟩
    obtain ⟨sha, hsha, rfl⟩ := List.mem_map.mp he
    obtain ⟨p, hp, rfl⟩ := List.mem_map.mp hsha
    obtain ⟨size, hsel, -⟩ := mem_picks hloaded h.fit hp
    exact List.mem_map_of_mem (mem_withinReach hsel)

/-- A steady step keeps to a plan. -/
theorem Planned.step (h : Planned count monday s) (hpos : 0 < count)
    (hvalid : a.Valid utcOffset monday s) (hsteady : a.Steady utcOffset count monday s) :
    Planned count monday (a.next utcOffset count s) := by
  cases a with
  | change db' =>
    obtain ⟨planned, hplan, hwithin, hpicks⟩ := h.plan
    refine ⟨hvalid.1, h.last, planned, hplan, fun sha v hv ↦ ?_, hpicks⟩
    show (sha, albumOf db' sha) ∈ planned
    rw [hsteady sha v hv]
    exact hwithin sha v (hvalid.2 _ _ hv)
  | call c =>
    obtain ⟨planned, hplan, hwithin, hpicks⟩ := h.call hpos hvalid hsteady
    refine ⟨?_, ?_, planned, hplan, within_discoverRun hwithin hpicks hvalid.2.2, ?_⟩
    · show HashesFit (discoverRun utcOffset c.clock count c.pools s.db).2
      obtain ⟨t, ht⟩ := discoverRun_eq utcOffset c.clock count c.pools s.db
      rw [ht]
      exact h.fit
    · rintro db c' ⟨⟩
      exact ⟨hvalid.1, h.fit⟩
    · rintro db c' ⟨⟩
      exact hpicks

/-- What a steady step does. -/
theorem stable_of_steady (hvalid : a.Valid utcOffset monday s)
    (hsteady : a.Steady utcOffset count monday s) : a.Stable utcOffset count monday s := by
  cases a with
  | change db' => trivial
  | call c =>
    refine ⟨?_, fun k v hv ↦ discoverRun_keeps hv⟩
    unfold weekStart
    rw [(mondayLocal_eq_iff _ _).mpr hsteady.1, hvalid.2.1]

/-- In every run of calls and changes within a week: if each call gets to its Monday, and comes on no
rows of the week, or selects what the last call did, or has room for all that it can pick, then all
calls write under the Monday of the week and leave the rows that are there, and in every state the
rows of the week keep the bounds. -/
theorem week_stable {D : Type} (o : Options D) (hfit : HashesFit db)
    (hbounded : Bounded (discoverCount o) (isoDate monday) db) {run : List WeekStep}
    (hrun : Steps.Meets (WeekStep.next utcOffset (discoverCount o))
      (fun s a ↦ a.Valid utcOffset monday s ∧ a.Steady utcOffset (discoverCount o) monday s)
      ⟨db, none⟩ run) :
    Steps.Meets (WeekStep.next utcOffset (discoverCount o))
        (fun s a ↦ a.Stable utcOffset (discoverCount o) monday s) ⟨db, none⟩ run ∧
      Steps.Always (WeekStep.next utcOffset (discoverCount o))
        (fun s ↦ Bounded (discoverCount o) (isoDate monday) s.db) ⟨db, none⟩ run := by
  have hpos := discoverCount_pos o
  have hinit : Planned (discoverCount o) monday ⟨db, none⟩ := by
    refine ⟨hfit, fun db c h ↦ ?_, _, Fits.plan hbounded,
      within_withAlbums (List.Subset.refl _), fun db c h ↦ ?_⟩
    · cases h
    · cases h
  have hstep : ∀ (s : WeekState) (a : WeekStep), Planned (discoverCount o) monday s →
      a.Valid utcOffset monday s ∧ a.Steady utcOffset (discoverCount o) monday s →
        Planned (discoverCount o) monday (a.next utcOffset (discoverCount o) s) :=
    fun s a h ha ↦ h.step hpos ha.1 ha.2
  constructor
  · exact Steps.meets_of_inv hstep (fun s a _ ha ↦ stable_of_steady ha.1 ha.2) hinit hrun
  · refine Steps.always_of_inv (fun s h ↦ ?_) hstep hinit hrun
    obtain ⟨planned, hplan, hwithin, -⟩ := h.plan
    exact hwithin.bounded hplan

end Runs

namespace TwoCalls

open SmallLibrary

/-- Rational numbers, of which no text is read. -/
def doubles : Doubles ℚ := ⟨id, fun s ↦ ⟨0, s, false⟩, id⟩

/-- A configuration with the count 4. -/
def options : Options ℚ :=
  { (configDefault doubles).toOptions with discoverCount := 4, discoverCount_mem := by decide }

/-- Coordinated universal time. -/
def utc (_ : Int) : Int := 0

/-- A call with an empty list of exclusions. -/
def callAt (now : Int) (days : Days) (pools : Pools) : Call :=
  ⟨⟨now, now, now⟩, days, none, pools⟩

/-- Monday, 5 January 2026. -/
def monday : Int := 20458

def first : Call := callAt 1767571200 days pools

def afterFirst : Db := ((WeekStep.call first).next utc 4 ⟨db, none⟩).db

/-- One of the picks is played on Monday. -/
def playedNow : Text := ascii "2026-01-05T12:00:00.000Z"

def afterPlay : Db :=
  { afterFirst with plays := afterFirst.plays ++ [{ play "g" with playedAt := playedNow }] }

def tuesday : Days where
  julianday t :=
    if t = playedAt then some 2458849.5 else if t = playedNow then some 2461046 else none
  julianNow := 2461046.5

/-- The pools on Tuesday: the track is no longer in those of the tracks without a play. -/
def poolsAfter : Pools := storedPools afterPlay tuesday

def second : Call := callAt 1767657600 tuesday poolsAfter

theorem hashesFit_of_tracks {db' : Db} (h : db'.tracks = db.tracks) : HashesFit db' := by
  have hrows : ∀ r ∈ db.tracks.table.rows, cutSha r.1 = r.1 := by decide +kernel
  intro sha hsha
  rw [h] at hsha
  obtain ⟨row, hrow⟩ := Option.isSome_iff_exists.mp hsha
  exact hrows (sha, row) (Table.mem_rows.mpr hrow)

/-- The library before any of it is played. -/
def unplayed : Db := { db with plays := [] }

def unplayedPools : Pools := storedPools unplayed days

def again : List WeekStep :=
  [.call (callAt 1767571200 days unplayedPools), .call (callAt 1767657600 days unplayedPools)]

theorem loaded_unplayed : unplayedPools.Loaded unplayed days none := by
  apply loaded_storedPools
  all_goals
    unfold InOrder
    decide +kernel

/-- Two calls between which nothing happens. -/
theorem same_again_stable :
    Steps.Meets (WeekStep.next utc 4) (fun s a ↦ a.Stable utc 4 monday s) ⟨unplayed, none⟩ again ∧
      Steps.Always (WeekStep.next utc 4) (fun s ↦ Bounded 4 (isoDate monday) s.db)
        ⟨unplayed, none⟩ again := by
  obtain ⟨t, ht⟩ := discoverRun_eq utc ⟨1767571200, 1767571200, 1767571200⟩ 4 unplayedPools unplayed
  have hnext : (WeekStep.call (callAt 1767571200 days unplayedPools)).next utc 4 ⟨unplayed, none⟩ =
      ⟨withPicks unplayed t, some (unplayed, callAt 1767571200 days unplayedPools)⟩ := by
    rw [← ht]
    rfl
  have hloaded : unplayedPools.Loaded (withPicks unplayed t) days none :=
    ⟨loaded_unplayed.never, loaded_unplayed.aged, loaded_unplayed.adj, loaded_unplayed.fill⟩
  have hdate : ∀ now, mondayLocal utc now = mondayOf (localDays utc now) → StaysOnDate utc now :=
    fun now h ↦ (mondayLocal_eq_iff utc now).mp h
  -- nothing has been played that could have aged out
  have hsame : SelectsSame (withPicks unplayed t) (callAt 1767657600 days unplayedPools) unplayed
      (callAt 1767571200 days unplayedPools) := by
    refine ⟨rfl, rfl, rfl, rfl, fun sha sha' x x' hx _ _ ↦ ?_⟩
    obtain ⟨row, -, -, hkey, -⟩ := selected_eq_some.mp hx
    cases hkey
  have hbounded : Bounded 4 (isoDate monday) unplayed := by
    constructor
    · decide
    · intro album _
      exact Nat.zero_le 2
  have hrun : Steps.Meets (WeekStep.next utc 4)
      (fun s a ↦ a.Valid utc monday s ∧ a.Steady utc 4 monday s) ⟨unplayed, none⟩ again := by
    refine ⟨⟨⟨loaded_unplayed, by decide, by decide⟩, hdate _ (by decide), Or.inl ⟨by decide, rfl⟩⟩,
      ?_⟩
    rw [hnext]
    exact ⟨⟨⟨hloaded, by decide, by decide⟩, hdate _ (by decide),
      Or.inr (Or.inl ⟨_, rfl, hsame⟩)⟩, trivial⟩
  exact week_stable options (@hashesFit_of_tracks unplayed rfl) hbounded hrun

/-- A play between two calls of a week, and seven rows for a count of four. -/
theorem rows_accumulate :
    Steps.Meets (WeekStep.next utc 4) (fun s a ↦ a.Valid utc monday s) ⟨db, none⟩
        [.call first, .change afterPlay, .call second] ∧
      ¬ Steps.Always (WeekStep.next utc 4) (fun s ↦ Bounded 4 (isoDate monday) s.db) ⟨db, none⟩
        [.call first, .change afterPlay, .call second] := by
  have hfit : HashesFit afterPlay := by
    apply hashesFit_of_tracks
    obtain ⟨t, ht⟩ := discoverRun_eq utc first.clock 4 first.pools db
    show (discoverRun utc first.clock 4 first.pools db).2.tracks = db.tracks
    rw [ht]
    rfl
  have hloaded : poolsAfter.Loaded afterPlay tuesday none := by
    apply loaded_storedPools
    all_goals
      unfold InOrder
      decide +kernel
  refine ⟨⟨⟨loaded, by decide, by decide⟩, ⟨hfit, fun k v hv ↦ hv⟩,
    ⟨hloaded, by decide, by decide⟩, trivial⟩, ?_⟩
  intro hall
  have hlast := hall.last.atMost
  revert hlast
  decide +kernel

end TwoCalls

end Nocturne.Discover
