import Nocturne.Phone.Import
import Nocturne.Phone.Sorter

/-!
# Aggregating the stats

`StatsAggregator` reads the lines of the stats file once and keeps nine accumulators. A line that
is no event is skipped, and so is an event outside of the window or more than a day ahead of the
clock. The sums are those of `Int` and `Long`.
-/

namespace Nocturne

open Lib Lib.Groups

/-- `StatsEvent`, `JsonlEvents.kt:23–30`. -/
structure StatsEvent where
  v : Int
  ts : Int
  kind : Text
  track : Text
  playedMs : Int
  durationMs : Int
  deriving DecidableEq, Repr

/-- `TopPlayedRow`. -/
structure TopPlayedRow where
  trackId : Text
  playCount : Int
  lastPlayedMs : Int
  deriving DecidableEq, Repr

/-- A row of the heatmap for each of seven days, with a cell for each hour. -/
abbrev Heatmap := Fin 7 → Fin 24 → Int

/-- `StatsView`, without the fractions that it draws. -/
structure StatsView where
  playCount : Int
  skipCount : Int
  totalListenedMs : Int
  uniqueTrackCount : Int
  topPlayed : List TopPlayedRow
  perTrackPlays : Table Text Int
  perTrackListenedMs : Table Text Int
  heatmap : Heatmap
  windowStartMs : Int
  perTrackLastTs : Table Text Int

namespace StatsAggregator

open Import TrackSorter

/-- A value in the arithmetic of `Int`. -/
def wrapInt (n : Int) : Int := n.bmod (2 ^ 32)

/-- `WEEK_MS`. -/
def weekMs : Int := 7 * 24 * 60 * 60 * 1000

/-- `YEAR_MS`. -/
def yearMs : Int := 365 * 24 * 60 * 60 * 1000

/-- `FUTURE_TOLERANCE_MS`. -/
def futureToleranceMs : Int := 86400000

/-- The epoch day of an instant in a zone, `offset` seconds ahead of UTC. -/
def localEpochDay (offset ms : Int) : Int := (ms / 1000 + offset) / 86400

/-- `LocalDateTime.getHour`. -/
def localHour (offset ms : Int) : Int := (ms / 1000 + offset) % 86400 / 3600

/-- `coerceIn(0, bound)`. -/
def coerceIn (bound : Nat) (n : Int) : Fin (bound + 1) := ⟨min n.toNat bound, by omega⟩

/-- The accumulators, `StatsAggregator.kt:101–108`. -/
structure Totals where
  perTrack : Table Text Int
  perTrackMs : Table Text Int
  perTrackLastTs : Table Text Int
  unique : Finset Text
  playCount : Int
  skipCount : Int
  totalListenedMs : Int
  heatmap : Heatmap

/-- The accumulators before the first line. -/
def Totals.zero : Totals := ⟨.empty, .empty, .empty, ∅, 0, 0, 0, fun _ _ ↦ 0⟩

/-- `daysFromNow`, `StatsAggregator.kt:137–140`. -/
def daysFromNow (offset nowMs : Int) (ev : StatsEvent) : Int :=
  wrapInt (localEpochDay offset nowMs - localEpochDay offset ev.ts)

/-- The cell of a play, `StatsAggregator.kt:141–145`. -/
def enterHeatmap (offset nowMs : Int) (heatmap : Heatmap) (ev : StatsEvent) : Heatmap :=
  let daysFromNow := daysFromNow offset nowMs ev
  if 0 ≤ daysFromNow ∧ daysFromNow ≤ 6 then
    let dayIdx := coerceIn 6 (6 - daysFromNow)
    let hourIdx := coerceIn 23 (localHour offset ev.ts)
    fun d h ↦
      if d = dayIdx ∧ h = hourIdx then wrapLong (heatmap d h + ev.playedMs) else heatmap d h
  else heatmap

/-- The last time of a track, `StatsAggregator.kt:132–133`. -/
def enterLastTs (perTrackLastTs : Table Text Int) (ev : StatsEvent) : Table Text Int :=
  let prevTs := (perTrackLastTs.get? ev.track).getD longMin
  if prevTs < ev.ts then perTrackLastTs.put ev.track ev.ts else perTrackLastTs

/-- An event, `StatsAggregator.kt:124–153`. -/
def Totals.add (offset nowMs : Int) (s : Totals) (ev : StatsEvent) : Totals :=
  if ev.kind = ascii "play" then
    { s with
      playCount := wrapInt (s.playCount + 1)
      totalListenedMs := wrapLong (s.totalListenedMs + ev.playedMs)
      unique := insert ev.track s.unique
      perTrack := enter s.perTrack ev.track 0 fun cnt ↦ wrapInt (cnt + 1)
      perTrackMs := enter s.perTrackMs ev.track 0 fun ms ↦ wrapLong (ms + ev.playedMs)
      perTrackLastTs := enterLastTs s.perTrackLastTs ev
      heatmap := enterHeatmap offset nowMs s.heatmap ev }
  else if ev.kind = ascii "skip" then { s with skipCount := wrapInt (s.skipCount + 1) }
  else s

section Parameters

-- `decode` is `json.decodeFromString`, where it does not throw; `order` is the order in which the
-- hash map of the counts is walked.
variable (trim : Text → Text) (decode : Text → Option StatsEvent)
  (order : List (Text × Int) → List (Text × Int)) (offset : Int)

/-- The event of a line, `StatsAggregator.kt:113–122`. -/
def parse (line : Text) : Option StatsEvent :=
  let raw := trim line
  if raw.isEmpty then none else decode raw

/-- One line, `StatsAggregator.kt:113–153`. -/
def Totals.line (nowMs windowStartMs futureCutoff : Int) (s : Totals) (line : Text) : Totals :=
  match parse trim decode line with
  | none => s
  | some ev =>
    if ev.ts < windowStartMs ∨ futureCutoff < ev.ts then s else s.add offset nowMs ev

/-- The comparator of the rows, `StatsAggregator.kt:160–161`. -/
def rowOrder : TopPlayedRow → TopPlayedRow → Ordering :=
  compareLex (descending (compareOn TopPlayedRow.playCount))
    (descending (compareOn TopPlayedRow.lastPlayedMs))

/-- `topPlayed`, `StatsAggregator.kt:157–163`. -/
def topPlayed (s : Totals) : List TopPlayedRow :=
  (sortedWith rowOrder ((order s.perTrack.rows).map fun r ↦
    ⟨r.1, r.2, (s.perTrackLastTs.get? r.1).getD 0⟩)).take 10

/-- `StatsAggregator.aggregate`. -/
def aggregate (lines : List Text) (nowMs windowMs : Int) (allTime : Bool) : StatsView :=
  let windowStartMs := if allTime then longMin else wrapLong (nowMs - windowMs)
  let windowStartDateAnchor := if allTime then wrapLong (nowMs - weekMs) else windowStartMs
  let futureCutoff := wrapLong (nowMs + futureToleranceMs)
  let s := lines.foldl (Totals.line trim decode offset nowMs windowStartMs futureCutoff) .zero
  { playCount := s.playCount
    skipCount := s.skipCount
    totalListenedMs := s.totalListenedMs
    uniqueTrackCount := wrapInt s.unique.card
    topPlayed := topPlayed order s
    perTrackPlays := s.perTrack
    perTrackListenedMs := s.perTrackMs
    heatmap := s.heatmap
    windowStartMs := if allTime then windowStartDateAnchor else windowStartMs
    perTrackLastTs := s.perTrackLastTs }

/-! ### The reference -/

/-- The well-formed events of the lines whose time is in the window. -/
def counted (lines : List Text) (nowMs windowMs : Int) : List StatsEvent :=
  (lines.filterMap (parse trim decode)).filter fun ev ↦
    nowMs - windowMs ≤ ev.ts ∧ ev.ts ≤ nowMs + futureToleranceMs

end Parameters

/-- The events of a kind. -/
def ofKind (kind : Text) (evs : List StatsEvent) : List StatsEvent :=
  evs.filter fun ev ↦ ev.kind = kind

/-- The plays. -/
def plays (evs : List StatsEvent) : List StatsEvent := ofKind (ascii "play") evs

/-- The plays of a track. -/
def playsOf (id : Text) (evs : List StatsEvent) : List StatsEvent :=
  (plays evs).filter fun ev ↦ ev.track = id

/-- The plays of an hour of a day of the heatmap, of which the last one is today. -/
def playsAt (offset nowMs : Int) (d : Fin 7) (h : Fin 24) (evs : List StatsEvent) :
    List StatsEvent :=
  (plays evs).filter fun ev ↦
    localEpochDay offset ev.ts = localEpochDay offset nowMs - (6 - d) ∧ localHour offset ev.ts = h

/-- The milliseconds that events were played. -/
def listened (evs : List StatsEvent) : Int := (evs.map StatsEvent.playedMs).sum

/-- A view shows the reference sums over events, where `int` and `long` say how a sum is kept. -/
structure Shows (int long : Int → Int) (offset nowMs : Int) (evs : List StatsEvent)
    (v : StatsView) : Prop where
  playCount : v.playCount = int (plays evs).length
  skipCount : v.skipCount = int (ofKind (ascii "skip") evs).length
  totalListenedMs : v.totalListenedMs = long (listened (plays evs))
  uniqueTrackCount : v.uniqueTrackCount = int ((plays evs).map StatsEvent.track).toFinset.card
  perTrackPlays : ∀ id, v.perTrackPlays.get? id =
    if playsOf id evs = [] then none else some (int (playsOf id evs).length)
  perTrackListenedMs : ∀ id, v.perTrackListenedMs.get? id =
    if playsOf id evs = [] then none else some (long (listened (playsOf id evs)))
  perTrackLastTs : ∀ id,
    v.perTrackLastTs.get? id = ((playsOf id evs).map StatsEvent.ts).max?
  heatmap : ∀ d h, v.heatmap d h = long (listened (playsAt offset nowMs d h evs))

/-- More plays, or as many and a later last one. -/
def Better (a b : TopPlayedRow) : Prop :=
  b.playCount < a.playCount ∨ b.playCount = a.playCount ∧ b.lastPlayedMs < a.lastPlayedMs

/-- A row says what the maps of a view say about its track. -/
def RowOf (v : StatsView) (row : TopPlayedRow) : Prop :=
  v.perTrackPlays.get? row.trackId = some row.playCount ∧
    v.perTrackLastTs.get? row.trackId = some row.lastPlayedMs

/-- The ten most played tracks of a view. -/
structure TopTen (v : StatsView) : Prop where
  atMost : v.topPlayed.length ≤ 10
  rows : ∀ row ∈ v.topPlayed, RowOf v row
  distinct : (v.topPlayed.map TopPlayedRow.trackId).Nodup
  sorted : v.topPlayed.Pairwise fun a b ↦ ¬ Better b a
  /-- A track is left out only where ten are shown, and it is better than none of them. -/
  omitted : ∀ row, RowOf v row → row ∉ v.topPlayed →
    v.topPlayed.length = 10 ∧ ∀ listed ∈ v.topPlayed, ¬ Better row listed

/-- Two views with the same sums. -/
structure SameSums (v w : StatsView) : Prop where
  playCount : w.playCount = v.playCount
  skipCount : w.skipCount = v.skipCount
  totalListenedMs : w.totalListenedMs = v.totalListenedMs
  uniqueTrackCount : w.uniqueTrackCount = v.uniqueTrackCount
  perTrackPlays : ∀ id, w.perTrackPlays.get? id = v.perTrackPlays.get? id
  perTrackListenedMs : ∀ id, w.perTrackListenedMs.get? id = v.perTrackListenedMs.get? id
  perTrackLastTs : ∀ id, w.perTrackLastTs.get? id = v.perTrackLastTs.get? id
  heatmap : w.heatmap = v.heatmap

/-- The law of the aggregation over a window. -/
structure Aggregates (int long : Int → Int) (trim : Text → Text)
    (decode : Text → Option StatsEvent) (order : List (Text × Int) → List (Text × Int))
    (offset : Int) (lines : List Text) (nowMs windowMs : Int) : Prop where
  sums : Shows int long offset nowMs (counted trim decode lines nowMs windowMs)
    (aggregate trim decode order offset lines nowMs windowMs false)
  top : TopTen (aggregate trim decode order offset lines nowMs windowMs false)
  /-- Neither the order of the lines nor lines that are no event matter to the sums, nor does the
  order of the hash map. -/
  stable : ∀ malformed lines' order', (∀ line ∈ malformed, parse trim decode line = none) →
    lines'.Perm (lines ++ malformed) →
    SameSums (aggregate trim decode order offset lines nowMs windowMs false)
      (aggregate trim decode order' offset lines' nowMs windowMs false)

/-! ### The accumulators -/

/-- Wrapping on the way does not matter. -/
theorem wrapInt_add (m n : Int) : wrapInt (wrapInt m + n) = wrapInt (m + n) := by
  unfold wrapInt
  rw [Int.bmod_add_bmod]

/-- What a play changes. -/
def Totals.addPlay (offset nowMs : Int) (s : Totals) (ev : StatsEvent) : Totals :=
  { s with
    playCount := wrapInt (s.playCount + 1)
    totalListenedMs := wrapLong (s.totalListenedMs + ev.playedMs)
    unique := insert ev.track s.unique
    perTrack := enter s.perTrack ev.track 0 fun cnt ↦ wrapInt (cnt + 1)
    perTrackMs := enter s.perTrackMs ev.track 0 fun ms ↦ wrapLong (ms + ev.playedMs)
    perTrackLastTs := enterLastTs s.perTrackLastTs ev
    heatmap := enterHeatmap offset nowMs s.heatmap ev }

/-- What skips change. -/
def Totals.skipped (s : Totals) (skipCount : Int) : Totals := { s with skipCount }

/-- The accumulators after plays. -/
def played (offset nowMs : Int) (ps : List StatsEvent) : Totals :=
  ps.foldl (Totals.addPlay offset nowMs) .zero

section Accumulators

variable {offset nowMs : Int} {evs ps : List StatsEvent}

/-- The totals grow play by play. -/
theorem played_concat (ev : StatsEvent) :
    played offset nowMs (ps ++ [ev]) = (played offset nowMs ps).addPlay offset nowMs ev := by
  unfold played
  rw [List.foldl_concat]

/-- The events of a kind, one event further. -/
theorem ofKind_concat (kind : Text) (ev : StatsEvent) : ofKind kind (evs ++ [ev]) =
    if ev.kind = kind then ofKind kind evs ++ [ev] else ofKind kind evs := by
  unfold ofKind
  rw [List.filter_append]
  split
  · next h => simp [h]
  · next h => simp [h]

/-- Skipped lines and plays are counted apart. -/
theorem addPlay_skipped (s : Totals) (n : Int) (ev : StatsEvent) :
    (s.skipped n).addPlay offset nowMs ev = (s.addPlay offset nowMs ev).skipped n := by
  simp only [Totals.addPlay, Totals.skipped]

/-- A play is added as a play. -/
theorem add_play {ev : StatsEvent} (s : Totals) (h : ev.kind = ascii "play") :
    s.add offset nowMs ev = s.addPlay offset nowMs ev := if_pos h

/-- An event that is no play is counted at most. -/
theorem add_not_play {ev : StatsEvent} (s : Totals) (n : Int) (h : ev.kind ≠ ascii "play") :
    (s.skipped n).add offset nowMs ev =
      s.skipped (if ev.kind = ascii "skip" then wrapInt (n + 1) else n) := by
  unfold Totals.add
  rw [if_neg h]
  split
  · rfl
  · rfl

/-- A length that wraps, one element further. -/
theorem wrapInt_length_concat {α : Type} (l : List α) (x : α) :
    wrapInt (l ++ [x]).length = wrapInt (wrapInt l.length + 1) := by
  rw [wrapInt_add, List.length_append]
  rfl

/-- The skips are counted beside what the plays change. -/
theorem foldl_add : evs.foldl (Totals.add offset nowMs) .zero =
    (played offset nowMs (plays evs)).skipped
      (wrapInt (ofKind (ascii "skip") evs).length) := by
  induction evs using List.reverseRecOn with
  | nil => rfl
  | append_singleton evs ev ih =>
    have hplays : plays (evs ++ [ev]) = if ev.kind = ascii "play" then plays evs ++ [ev]
        else plays evs := ofKind_concat _ _
    rw [List.foldl_concat, ih, hplays, ofKind_concat]
    by_cases hplay : ev.kind = ascii "play"
    · have hskip : ev.kind ≠ ascii "skip" := by
        rw [hplay]
        decide +kernel
      rw [add_play _ hplay, addPlay_skipped, if_pos hplay, if_neg hskip, played_concat]
    · rw [add_not_play _ _ hplay, if_neg hplay]
      split
      · rw [wrapInt_length_concat]
      · rfl

/-- The time that was listened to, one event further. -/
theorem listened_concat (ev : StatsEvent) :
    listened (evs ++ [ev]) = listened evs + ev.playedMs := by
  unfold listened
  rw [List.map_append, List.sum_append]
  simp

/-- The number of plays, as an `Int` of 32 bits. -/
theorem playCount_played : (played offset nowMs ps).playCount = wrapInt ps.length := by
  induction ps using List.reverseRecOn with
  | nil => rfl
  | append_singleton ps ev ih =>
    rw [played_concat, Totals.addPlay, wrapInt_length_concat]
    dsimp only
    rw [ih]

/-- The time that was listened to, as a `Long`. -/
theorem totalListenedMs_played :
    (played offset nowMs ps).totalListenedMs = wrapLong (listened ps) := by
  induction ps using List.reverseRecOn with
  | nil => rfl
  | append_singleton ps ev ih =>
    rw [played_concat, Totals.addPlay, listened_concat]
    dsimp only
    rw [ih, wrapLong_add]

/-- The tracks that were played. -/
theorem unique_played :
    (played offset nowMs ps).unique = (ps.map StatsEvent.track).toFinset := by
  induction ps using List.reverseRecOn with
  | nil => rfl
  | append_singleton ps ev ih =>
    rw [played_concat, Totals.addPlay]
    ext id
    simp [ih]

/-! ### The maps -/

/-- The key under which a play enters the maps. -/
def trackKey (ev : StatsEvent) : Option Text := some ev.track

/-- The plays of a track are its group. -/
theorem group_trackKey (id : Text) : group trackKey id (plays evs) = playsOf id evs := by
  unfold group playsOf trackKey
  simp only [Option.some.injEq]

/-- The counts are collected by track. -/
theorem perTrack_played : (played offset nowMs ps).perTrack =
    collect trackKey (fun _ ↦ 0) (fun cnt _ ↦ wrapInt (cnt + 1)) ps := by
  induction ps using List.reverseRecOn with
  | nil => rfl
  | append_singleton ps ev ih => rw [played_concat, collect_concat, ← ih, Totals.addPlay]; rfl

/-- The milliseconds are collected by track. -/
theorem perTrackMs_played : (played offset nowMs ps).perTrackMs =
    collect trackKey (fun _ ↦ 0) (fun ms ev ↦ wrapLong (ms + ev.playedMs)) ps := by
  induction ps using List.reverseRecOn with
  | nil => rfl
  | append_singleton ps ev ih => rw [played_concat, collect_concat, ← ih, Totals.addPlay]; rfl

/-- An accumulator that holds a value of its group. -/
theorem get?_collect_trackKey {new : StatsEvent → Int} {add : Int → StatsEvent → Int}
    {value : List StatsEvent → Int} (id : Text) (hfirst : ∀ ev, value [ev] = add (new ev) ev)
    (hmore : ∀ evs ev, value (evs ++ [ev]) = add (value evs) ev) :
    (collect trackKey new add (plays evs)).get? id =
      if playsOf id evs = [] then none else some (value (playsOf id evs)) := by
  rw [← group_trackKey]
  cases hv : (collect trackKey new add (plays evs)).get? id with
  | none => rw [if_pos (get?_collect_eq_none.mp hv)]
  | some v =>
    have hne : group trackKey id (plays evs) ≠ [] := by
      intro hnil
      rw [get?_collect_eq_none.mpr hnil] at hv
      cases hv
    have hvalue : value (group trackKey id (plays evs)) = v := by
      apply @collect_rule _ _ _ _ _ _ _ _ _ (fun evs v ↦ value evs = v) _ _ _ hv
      · exact fun ev _ ↦ hfirst ev
      · exact fun evs v ev _ h ↦ h ▸ hmore evs ev
    rw [if_neg hne, hvalue]

/-- The number of plays of each track. -/
theorem get?_perTrack_played (id : Text) : (played offset nowMs (plays evs)).perTrack.get? id =
    if playsOf id evs = [] then none else some (wrapInt (playsOf id evs).length) := by
  rw [perTrack_played]
  apply @get?_collect_trackKey _ _ _ fun evs ↦ wrapInt evs.length
  · exact fun _ ↦ rfl
  · exact wrapInt_length_concat

/-- The time that each track was listened to. -/
theorem get?_perTrackMs_played (id : Text) : (played offset nowMs (plays evs)).perTrackMs.get? id =
    if playsOf id evs = [] then none else some (wrapLong (listened (playsOf id evs))) := by
  rw [perTrackMs_played]
  apply @get?_collect_trackKey _ _ _ fun evs ↦ wrapLong (listened evs)
  · intro ev
    simp [listened]
  · intro evs ev
    rw [wrapLong_add, listened_concat]

/-- The last time of a track is the greatest. -/
theorem get?_enterLastTs (t : Table Text Int) (ev : StatsEvent) (id : Text)
    (hts : longMin < ev.ts) : (enterLastTs t ev).get? id =
      if ev.track = id then some (((t.get? id).map fun ts ↦ max ts ev.ts).getD ev.ts)
      else t.get? id := by
  unfold enterLastTs
  by_cases hid : ev.track = id
  · subst hid
    rw [if_pos rfl]
    cases hprev : t.get? ev.track with
    | none =>
      dsimp only [Option.getD_none, Option.map_none]
      rw [if_pos hts, Table.get?_put_self]
    | some prevTs =>
      dsimp only [Option.getD_some, Option.map_some]
      split
      · next hlt => rw [Table.get?_put_self, Int.max_eq_right (by omega)]
      · next hlt => rw [hprev, Int.max_eq_left (by omega)]
  · rw [if_neg hid]
    dsimp only
    split
    · exact Table.get?_put_ne _ _ (Ne.symm hid)
    · rfl

/-- The greatest number, one number further. -/
theorem max?_concat {ns : List Int} {m : Int} (hm : ns.max? = some m) (n : Int) :
    (ns ++ [n]).max? = some (max m n) := by
  cases ns with
  | nil => cases hm
  | cons n' ns =>
    rw [List.max?_cons'] at hm
    rw [List.cons_append, List.max?_cons', List.foldl_concat, Option.some.inj hm]

/-- The last time that each track was played. -/
theorem get?_perTrackLastTs_played (hts : ∀ ev ∈ ps, longMin < ev.ts) (id : Text) :
    (played offset nowMs ps).perTrackLastTs.get? id =
      ((ps.filter fun ev ↦ ev.track = id).map StatsEvent.ts).max? := by
  induction ps using List.reverseRecOn with
  | nil => rfl
  | append_singleton ps ev ih =>
    have ih := ih fun ev' h ↦ hts ev' (List.mem_append_left _ h)
    have hev := hts ev (List.mem_append_right _ List.mem_cons_self)
    rw [played_concat, Totals.addPlay, List.filter_append]
    dsimp only
    rw [get?_enterLastTs _ _ _ hev, ih]
    by_cases hid : ev.track = id
    · rw [if_pos hid, List.filter_cons_of_pos (by simpa using hid), List.filter_nil,
        List.map_append, List.map_singleton]
      cases hmax : ((ps.filter fun ev ↦ ev.track = id).map StatsEvent.ts).max? with
      | none => simp [List.max?_eq_none_iff.mp hmax]
      | some m => exact (max?_concat hmax ev.ts).symm
    · rw [if_neg hid, List.filter_cons_of_neg (by simpa using hid), List.filter_nil,
        List.append_nil]

/-! ### The heatmap -/

/-- An event of the last year and the next day. -/
def Near (nowMs : Int) (ev : StatsEvent) : Prop :=
  nowMs - yearMs ≤ ev.ts ∧ ev.ts ≤ nowMs + futureToleranceMs

/-- The days of such an event do not wrap. -/
theorem daysFromNow_of_near {ev : StatsEvent} (h : Near nowMs ev) :
    daysFromNow offset nowMs ev = localEpochDay offset nowMs - localEpochDay offset ev.ts := by
  unfold Near yearMs futureToleranceMs at h
  unfold daysFromNow wrapInt localEpochDay
  apply Int.bmod_eq_of_le <;> omega

/-- Hours are from 0 to 23. -/
theorem localHour_bounds (offset ms : Int) :
    0 ≤ localHour offset ms ∧ localHour offset ms ≤ 23 := by
  unfold localHour
  omega

/-- A number within the bounds is not moved by `coerceIn`. -/
theorem coerceIn_eq_iff {bound : Nat} {n : Int} (hlow : 0 ≤ n) (hhigh : n ≤ bound)
    (i : Fin (bound + 1)) : i = coerceIn bound n ↔ n = i := by
  unfold coerceIn
  rw [Fin.ext_iff]
  dsimp only
  omega

/-- A play changes the cell of its hour. -/
theorem enterHeatmap_apply {ev : StatsEvent} (hnear : Near nowMs ev) (heatmap : Heatmap)
    (d : Fin 7) (h : Fin 24) : enterHeatmap offset nowMs heatmap ev d h =
      if localEpochDay offset ev.ts = localEpochDay offset nowMs - (6 - d) ∧
        localHour offset ev.ts = h
      then wrapLong (heatmap d h + ev.playedMs) else heatmap d h := by
  unfold enterHeatmap
  rw [daysFromNow_of_near hnear]
  dsimp only
  have hhour := localHour_bounds offset ev.ts
  have hd := d.isLt
  split
  · next hdays =>
    apply if_congr _ rfl rfl
    rw [coerceIn_eq_iff (by omega) (by omega), coerceIn_eq_iff hhour.1 (by omega)]
    omega
  · next hdays =>
    rw [if_neg]
    omega

/-- A field of the heatmap has the time that was listened to on its day in its hour. -/
theorem heatmap_played (hnear : ∀ ev ∈ ps, Near nowMs ev) (d : Fin 7) (h : Fin 24) :
    (played offset nowMs ps).heatmap d h = wrapLong (listened (ps.filter fun ev ↦
      localEpochDay offset ev.ts = localEpochDay offset nowMs - (6 - d) ∧
        localHour offset ev.ts = h)) := by
  induction ps using List.reverseRecOn with
  | nil => rfl
  | append_singleton ps ev ih =>
    have ih := ih fun ev' h ↦ hnear ev' (List.mem_append_left _ h)
    have hev := hnear ev (List.mem_append_right _ List.mem_cons_self)
    rw [played_concat, Totals.addPlay, List.filter_append]
    dsimp only
    rw [enterHeatmap_apply hev, ih]
    split
    · next hat =>
      rw [List.filter_cons_of_pos (by simpa using hat), List.filter_nil, wrapLong_add,
        listened_concat]
    · next hat =>
      rw [List.filter_cons_of_neg (by simpa using hat), List.filter_nil, List.append_nil]

end Accumulators

/-! ### The ten rows -/

instance : Std.TransCmp rowOrder := by
  unfold rowOrder
  infer_instance

/-- What comes first is not worse. -/
theorem not_better_of_isLE {a b : TopPlayedRow} (h : (rowOrder a b).isLE = true) :
    ¬ Better b a := by
  have hcmp : rowOrder a b =
      (compare b.playCount a.playCount).then (compare b.lastPlayedMs a.lastPlayedMs) := rfl
  rw [hcmp, Ordering.isLE_then_iff_and, Int.isLE_compare, Int.isLE_compare, Int.compare_eq_lt] at h
  unfold Better
  omega

section Rows

variable {order : List (Text × Int) → List (Text × Int)} {s : Totals}

/-- The rows before they are sorted. -/
def unsorted (order : List (Text × Int) → List (Text × Int)) (s : Totals) : List TopPlayedRow :=
  (order s.perTrack.rows).map fun r ↦ ⟨r.1, r.2, (s.perTrackLastTs.get? r.1).getD 0⟩

theorem topPlayed_eq : topPlayed order s = (sortedWith rowOrder (unsorted order s)).take 10 := rfl

/-- The skips are not in the rows. -/
theorem topPlayed_skipped (n : Int) :
    topPlayed order (s.skipped n) = topPlayed order s := rfl

/-- A row for each track that was played, with its count and its last time. -/
theorem mem_unsorted (horder : ∀ rows, (order rows).Perm rows) {row : TopPlayedRow} :
    row ∈ unsorted order s ↔ s.perTrack.get? row.trackId = some row.playCount ∧
      (s.perTrackLastTs.get? row.trackId).getD 0 = row.lastPlayedMs := by
  unfold unsorted
  rw [List.mem_map]
  constructor
  · rintro ⟨r, hr, rfl⟩
    exact ⟨Table.mem_rows.mp ((horder _).mem_iff.mp hr), rfl⟩
  · rintro ⟨hcount, hlast⟩
    refine ⟨(row.trackId, row.playCount), (horder _).mem_iff.mpr (Table.mem_rows.mpr hcount), ?_⟩
    rw [hlast]

/-- Each track has one row. -/
theorem nodup_sorted (horder : ∀ rows, (order rows).Perm rows) :
    ((sortedWith rowOrder (unsorted order s)).map TopPlayedRow.trackId).Nodup := by
  rw [((sortedWith_perm rowOrder (unsorted order s)).map _).nodup_iff]
  unfold unsorted
  rw [List.map_map]
  exact ((horder _).map Prod.fst).nodup_iff.mpr s.perTrack.nodup_keys

/-- The rows are the ten best ones, where each track has a last time. -/
theorem topTen_of_totals (horder : ∀ rows, (order rows).Perm rows)
    (hlast : ∀ id count, s.perTrack.get? id = some count → s.perTrackLastTs.get? id ≠ none)
    {v : StatsView} (htop : v.topPlayed = topPlayed order s) (hplays : v.perTrackPlays = s.perTrack)
    (hts : v.perTrackLastTs = s.perTrackLastTs) : TopTen v := by
  have hmem : ∀ row, row ∈ sortedWith rowOrder (unsorted order s) ↔ RowOf v row := by
    intro row
    rw [mem_sortedWith, mem_unsorted horder, RowOf, hplays, hts]
    apply and_congr_right
    intro hcount
    cases hl : s.perTrackLastTs.get? row.trackId with
    | none => exact absurd hl (hlast _ _ hcount)
    | some ts => simp
  have hsplit := List.take_append_drop 10 (sortedWith rowOrder (unsorted order s))
  have hpairwise := @pairwise_sortedWith _ rowOrder _ (unsorted order s)
  rw [← hsplit, List.pairwise_append] at hpairwise
  rw [topPlayed_eq] at htop
  constructor
  · rw [htop]
    exact List.length_take_le _ _
  · intro row hrow
    rw [htop] at hrow
    exact (hmem row).mp (List.mem_of_mem_take hrow)
  · rw [htop, List.map_take]
    exact (nodup_sorted horder).sublist (List.take_sublist _ _)
  · rw [htop]
    exact hpairwise.1.imp not_better_of_isLE
  · intro row hrow hout
    rw [htop] at hout ⊢
    have hdrop : row ∈ (sortedWith rowOrder (unsorted order s)).drop 10 := by
      rw [← hmem, ← hsplit, List.mem_append] at hrow
      exact hrow.resolve_left hout
    constructor
    · have hpos := List.length_pos_of_mem hdrop
      rw [List.length_drop] at hpos
      rw [List.length_take]
      omega
    · exact fun listed hlisted ↦ not_better_of_isLE (hpairwise.2.2 listed hlisted row hdrop)

end Rows

/-! ### The law -/

section Law

variable {trim : Text → Text} {decode : Text → Option StatsEvent}
  {order : List (Text × Int) → List (Text × Int)} {offset nowMs windowMs : Int} {lines : List Text}

/-- The window and the tolerance stay in the range of `Long`. -/
structure InRange (nowMs windowMs : Int) : Prop where
  window : windowMs ≤ yearMs
  start : longMin < nowMs - windowMs
  start_le : nowMs - windowMs < 2 ^ 63
  now : longMin ≤ nowMs
  cutoff : nowMs + futureToleranceMs < 2 ^ 63

/-- A number that fits is not wrapped. -/
theorem wrapLong_of_bounds {n : Int} (hlow : longMin ≤ n) (hhigh : n < 2 ^ 63) :
    wrapLong n = n := by
  unfold longMin at hlow
  unfold wrapLong
  apply Int.bmod_eq_of_le <;> omega

/-- Going through the lines is going through the events that count. -/
theorem foldl_line (s : Totals) : lines.foldl (Totals.line trim decode offset nowMs
    (nowMs - windowMs) (nowMs + futureToleranceMs)) s =
      (counted trim decode lines nowMs windowMs).foldl (Totals.add offset nowMs) s := by
  induction lines generalizing s with
  | nil => rfl
  | cons line lines ih =>
    rw [List.foldl_cons, ih, Totals.line]
    unfold counted
    rw [List.filterMap_cons]
    cases parse trim decode line with
    | none => rfl
    | some ev =>
      dsimp only
      by_cases hts : ev.ts < nowMs - windowMs ∨ nowMs + futureToleranceMs < ev.ts
      · rw [if_pos hts, List.filter_cons_of_neg (by rw [decide_eq_true_iff]; omega)]
      · rw [if_neg hts, List.filter_cons_of_pos (by rw [decide_eq_true_iff]; omega)]
        rfl

/-- The view is read from what the plays and the skips leave. -/
theorem aggregate_eq (h : InRange nowMs windowMs) {s : Totals} {skipCount : Int}
    (hs : s = played offset nowMs (plays (counted trim decode lines nowMs windowMs)))
    (hskip : skipCount =
      wrapInt (ofKind (ascii "skip") (counted trim decode lines nowMs windowMs)).length) :
    aggregate trim decode order offset lines nowMs windowMs false =
      ⟨s.playCount, skipCount, s.totalListenedMs, wrapInt s.unique.card, topPlayed order s,
        s.perTrack, s.perTrackMs, s.heatmap, nowMs - windowMs, s.perTrackLastTs⟩ := by
  have hcutoff : wrapLong (nowMs + futureToleranceMs) = nowMs + futureToleranceMs := by
    have hnow := h.now
    apply wrapLong_of_bounds _ h.cutoff
    unfold futureToleranceMs
    omega
  have hstart := wrapLong_of_bounds (Int.le_of_lt h.start) h.start_le
  have hfold : lines.foldl (Totals.line trim decode offset nowMs (nowMs - windowMs)
      (nowMs + futureToleranceMs)) .zero = s.skipped skipCount := by
    rw [foldl_line, foldl_add, hs, hskip]
  unfold aggregate
  simp only [Bool.false_eq_true, if_false, hstart, hcutoff, hfold, topPlayed_skipped]
  rfl

/-- What is counted lies in the window. -/
theorem mem_counted {ev : StatsEvent} (h : ev ∈ counted trim decode lines nowMs windowMs) :
    nowMs - windowMs ≤ ev.ts ∧ ev.ts ≤ nowMs + futureToleranceMs := by
  unfold counted at h
  simpa using (List.mem_filter.mp h).2

/-- The aggregate shows what was counted. -/
theorem shows_aggregate (h : InRange nowMs windowMs) :
    Shows wrapInt wrapLong offset nowMs (counted trim decode lines nowMs windowMs)
      (aggregate trim decode order offset lines nowMs windowMs false) := by
  have hmem : ∀ ev ∈ plays (counted trim decode lines nowMs windowMs),
      nowMs - windowMs ≤ ev.ts ∧ ev.ts ≤ nowMs + futureToleranceMs := fun ev hev ↦
    mem_counted (List.mem_of_mem_filter hev)
  have hwindow := h.window
  rw [aggregate_eq h rfl rfl]
  constructor
  · exact playCount_played
  · dsimp only
  · exact totalListenedMs_played
  · rw [← unique_played]
  · exact get?_perTrack_played
  · exact get?_perTrackMs_played
  · apply get?_perTrackLastTs_played
    exact fun ev hev ↦ Int.lt_of_lt_of_le h.start (hmem ev hev).1
  · apply heatmap_played
    intro ev hev
    have hev := hmem ev hev
    unfold Near
    omega

/-- The list has the ten tracks that were played most. -/
theorem topTen_aggregate (horder : ∀ rows, (order rows).Perm rows) (h : InRange nowMs windowMs) :
    TopTen (aggregate trim decode order offset lines nowMs windowMs false) := by
  have hshows := @shows_aggregate trim decode order offset _ _ lines h
  rw [aggregate_eq h rfl rfl] at hshows ⊢
  apply topTen_of_totals horder _ rfl rfl rfl
  intro id count hcount hnone
  rw [hshows.perTrackLastTs id, List.max?_eq_none_iff, List.map_eq_nil_iff] at hnone
  rw [get?_perTrack_played, if_pos hnone] at hcount
  cases hcount

end Law

section Order

variable {int long : Int → Int} {offset nowMs : Int} {evs evs' : List StatsEvent}
  {v w : StatsView}

theorem Perm.plays (h : evs'.Perm evs) : (plays evs').Perm (plays evs) := h.filter _

theorem Perm.playsOf (h : evs'.Perm evs) (id : Text) : (playsOf id evs').Perm (playsOf id evs) :=
  (Perm.plays h).filter _

theorem Perm.listened (h : evs'.Perm evs) : listened evs' = listened evs := (h.map _).sum_eq

theorem Perm.max? {ns ns' : List Int} (h : ns'.Perm ns) : ns'.max? = ns.max? := by
  ext n
  rw [List.max?_eq_some_iff, List.max?_eq_some_iff, h.mem_iff]
  simp only [h.mem_iff]

/-- Sums over the same events in two orders are the same sums. -/
theorem sameSums_of_perm (h : evs'.Perm evs) (hv : Shows int long offset nowMs evs v)
    (hw : Shows int long offset nowMs evs' w) : SameSums v w := by
  have hnil : ∀ id, playsOf id evs' = [] ↔ playsOf id evs = [] := fun id ↦
    ⟨fun hn ↦ (hn ▸ Perm.playsOf h id).nil_eq.symm, fun hn ↦ (hn ▸ Perm.playsOf h id).eq_nil⟩
  constructor
  · rw [hv.playCount, hw.playCount, (Perm.plays h).length_eq]
  · rw [hv.skipCount, hw.skipCount, ofKind, (h.filter _).length_eq, ofKind]
  · rw [hv.totalListenedMs, hw.totalListenedMs, Perm.listened (Perm.plays h)]
  · rw [hv.uniqueTrackCount, hw.uniqueTrackCount,
      List.toFinset_eq_of_perm _ _ ((Perm.plays h).map StatsEvent.track)]
  · intro id
    rw [hv.perTrackPlays, hw.perTrackPlays, (Perm.playsOf h id).length_eq]
    exact if_congr (hnil id) rfl rfl
  · intro id
    rw [hv.perTrackListenedMs, hw.perTrackListenedMs, Perm.listened (Perm.playsOf h id)]
    exact if_congr (hnil id) rfl rfl
  · intro id
    rw [hv.perTrackLastTs, hw.perTrackLastTs, Perm.max? ((Perm.playsOf h id).map _)]
  · funext d hour
    have hat : (playsAt offset nowMs d hour evs').Perm (playsAt offset nowMs d hour evs) :=
      (Perm.plays h).filter _
    rw [hv.heatmap, hw.heatmap, Perm.listened hat]

end Order

/-- Lines that are no event add nothing. -/
theorem counted_perm {trim : Text → Text} {decode : Text → Option StatsEvent}
    {lines lines' malformed : List Text} (nowMs windowMs : Int)
    (hmalformed : ∀ line ∈ malformed, parse trim decode line = none)
    (h : lines'.Perm (lines ++ malformed)) : (counted trim decode lines' nowMs windowMs).Perm
      (counted trim decode lines nowMs windowMs) := by
  have hevents := h.filterMap (parse trim decode)
  rw [List.filterMap_append, List.filterMap_eq_nil_iff.mpr hmalformed, List.append_nil] at hevents
  exact hevents.filter _

/-- The aggregation keeps its law in the arithmetic of the machine, where neither end of the window
leaves the range of `Long`. -/
theorem aggregate_lawful (trim : Text → Text) (decode : Text → Option StatsEvent)
    (order : List (Text × Int) → List (Text × Int)) (horder : ∀ rows, (order rows).Perm rows)
    (offset : Int) (lines : List Text) (nowMs windowMs : Int) (h : InRange nowMs windowMs) :
    Aggregates wrapInt wrapLong trim decode order offset lines nowMs windowMs where
  sums := shows_aggregate h
  top := topTen_aggregate horder h
  stable _ _ _ hmalformed hperm :=
    sameSums_of_perm (counted_perm nowMs windowMs hmalformed hperm) (shows_aggregate h)
      (shows_aggregate h)

/-! ### At the ends of the range -/

/-- A play of a track, as the writer writes it. -/
def playLine (ts track playedMs : Text) : Text :=
  ascii "\x7b\"v\":1,\"ts\":" ++ ts ++ ascii ",\"kind\":\"play\",\"track\":\"" ++ track ++
    ascii "\",\"played_ms\":" ++ playedMs ++ ascii ",\"duration_ms\":" ++ playedMs ++ ascii "\x7d"

/-- The play of the line. -/
def play (ts : Int) (track : Text) (playedMs : Int) : StatsEvent :=
  ⟨1, ts, ascii "play", track, playedMs, playedMs⟩

/-- The decoder on three lines. -/
def sampleDecode (raw : Text) : Option StatsEvent :=
  if raw = playLine (ascii "1700000000000") (ascii "a") (ascii "240000") then
    some (play 1700000000000 (ascii "a") 240000)
  else if raw = playLine (ascii "1700000000000") (ascii "a") (ascii "9223372036854775807") then
    some (play 1700000000000 (ascii "a") (2 ^ 63 - 1))
  else if raw = playLine (ascii "9223372036854775807") (ascii "a") (ascii "240000") then
    some (play (2 ^ 63 - 1) (ascii "a") 240000)
  else none

/-- One play among other lines. -/
theorem play_aggregated : Aggregates wrapInt wrapLong id sampleDecode id 3600
    [ascii "no event", playLine (ascii "1700000000000") (ascii "a") (ascii "240000")] 1700000000000
    weekMs :=
  aggregate_lawful id sampleDecode id (fun _ ↦ .rfl) 3600 _ 1700000000000 weekMs
    (by constructor <;> decide)

/-- Where a day after the clock is beyond the range nothing is counted, and two plays may add up to
a negative time. -/
theorem sums_wrapped :
    ¬ Aggregates id id id sampleDecode id 0
        [playLine (ascii "9223372036854775807") (ascii "a") (ascii "240000")] (2 ^ 63 - 1) weekMs ∧
      ¬ Aggregates id id id sampleDecode id 0
        [playLine (ascii "1700000000000") (ascii "a") (ascii "9223372036854775807"),
          playLine (ascii "1700000000000") (ascii "a") (ascii "9223372036854775807")]
        1700000000000 weekMs := by
  constructor
  · intro h
    have hcount := h.sums.playCount
    revert hcount
    decide +kernel
  · intro h
    have hsum := h.sums.totalListenedMs
    revert hsum
    decide +kernel

end StatsAggregator

end Nocturne
