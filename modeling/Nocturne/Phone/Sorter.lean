import Nocturne.Catalog.Import
import Nocturne.Lib.StableSort
import Nocturne.Phone.MusicTree
import Nocturne.Phone.Strings

/-!
# The order of the tracks tab

`TrackSorter` compares tracks by the keys of a mode and, behind them, by their titles in lower case.
The sort is stable, so tracks with the same keys and the same title stay as they were listed.
-/

namespace Nocturne

open Lib

/-- `TrackSortMode`. -/
inductive TrackSortMode where
  | alphabetical
  | mostListened
  | recentlyListened
  | recentlyDownloaded
  deriving DecidableEq, Repr

/-- The maps that `sort` is given, by the ids of tracks. -/
structure TrackStats where
  plays : Table Text Int
  lastTs : Table Text Int
  pinnedAt : Table Text Int

namespace TrackSorter

/-- `Long.MIN_VALUE`. -/
def longMin : Int := -2 ^ 63

variable (u : Unicode) (toEpochMilli : Text → Option Int) (stats : TrackStats)

/-- `it.title.lowercase()`. -/
def lowerTitle (t : TrackEntity) : Str := u.lowercase (u.chars t.title)

/-- `perTrackPlays[it.id] ?: 0`. -/
def playsOf (t : TrackEntity) : Int := (stats.plays.get? t.id).getD 0

/-- `perTrackLastTs[it.id] ?: Long.MIN_VALUE`. -/
def lastTsOf (t : TrackEntity) : Int := (stats.lastTs.get? t.id).getD longMin

/-- `keyOf`, `TrackSorter.kt:68–74`; `toEpochMilli` is `Instant.parse(_).toEpochMilli()`, where it
does not throw. -/
def keyOf (t : TrackEntity) : Int :=
  max ((toEpochMilli t.dateAdded).getD longMin) ((stats.pinnedAt.get? t.id).getD longMin)

/-- `byTitle`, `TrackSorter.kt:38`. -/
def byTitle (a b : TrackEntity) : Ordering := Str.compareTo (lowerTitle u a) (lowerTitle u b)

/-- The comparator of a mode, `TrackSorter.kt:39–77`. -/
def comparator : TrackSortMode → TrackEntity → TrackEntity → Ordering
  | .alphabetical => byTitle u
  | .mostListened =>
    compareLex (descending (compareOn (playsOf stats)))
      (compareLex (descending (compareOn (lastTsOf stats))) (byTitle u))
  | .recentlyListened => compareLex (descending (compareOn (lastTsOf stats))) (byTitle u)
  | .recentlyDownloaded =>
    compareLex (descending (compareOn (keyOf toEpochMilli stats))) (byTitle u)

/-- `TrackSorter.sort`, `TrackSorter.kt:30–80`. -/
def sort (tracks : List TrackEntity) (mode : TrackSortMode) : List TrackEntity :=
  if tracks.isEmpty then tracks
  else
    match mode with
    | .recentlyDownloaded =>
      let resident := tracks.filter TrackEntity.isResident
      if resident.isEmpty then resident
      else sortedWith (comparator u toEpochMilli stats .recentlyDownloaded) resident
    | mode => sortedWith (comparator u toEpochMilli stats mode) tracks

/-- The tracks that a mode shows. -/
def shown (tracks : List TrackEntity) : TrackSortMode → List TrackEntity
  | .recentlyDownloaded => tracks.filter TrackEntity.isResident
  | _ => tracks

/-- Two tracks have the same keys in a mode and titles that are the same in lower case. -/
def Tied (mode : TrackSortMode) (a b : TrackEntity) : Prop :=
  lowerTitle u a = lowerTitle u b ∧
    match mode with
    | .alphabetical => True
    | .mostListened => playsOf stats a = playsOf stats b ∧ lastTsOf stats a = lastTsOf stats b
    | .recentlyListened => lastTsOf stats a = lastTsOf stats b
    | .recentlyDownloaded => keyOf toEpochMilli stats a = keyOf toEpochMilli stats b

instance (mode : TrackSortMode) (a b : TrackEntity) :
    Decidable (Tied u toEpochMilli stats mode a b) :=
  match mode with
  | .alphabetical => inferInstanceAs (Decidable (_ ∧ True))
  | .mostListened => inferInstanceAs (Decidable (_ ∧ _ = _ ∧ _ = _))
  | .recentlyListened => inferInstanceAs (Decidable (_ ∧ _ = _))
  | .recentlyDownloaded => inferInstanceAs (Decidable (_ ∧ _ = _))

section Comparator

variable {u toEpochMilli stats} {tracks : List TrackEntity} {mode : TrackSortMode}

instance : Std.TransCmp (byTitle u) where
  eq_swap := @fun a b ↦ @Std.OrientedCmp.eq_swap _ Str.compareTo _ (lowerTitle u a) (lowerTitle u b)
  isLE_trans := fun hab hbc ↦ @Std.TransCmp.isLE_trans _ Str.compareTo _ _ _ _ hab hbc

instance : Std.TransCmp (comparator u toEpochMilli stats mode) := by
  cases mode
  all_goals
    dsimp only [comparator]
    infer_instance

/-- Tracks compare equal where they are tied. -/
theorem comparator_eq {a b : TrackEntity} :
    comparator u toEpochMilli stats mode a b = .eq ↔ Tied u toEpochMilli stats mode a b := by
  have htitle : byTitle u a b = .eq ↔ lowerTitle u a = lowerTitle u b := Str.compareTo_eq
  cases mode
  all_goals
    simp only [comparator, compareLex_eq_eq, descending, compareOn, Std.compare_eq_iff_eq, htitle,
      Tied]
    grind

/-- The guards against empty lists change nothing. -/
theorem sort_eq : sort u toEpochMilli stats tracks mode =
    sortedWith (comparator u toEpochMilli stats mode) (shown tracks mode) := by
  by_cases hempty : tracks = []
  · subst hempty
    cases mode <;> exact sortedWith_nil.symm
  · have hguard : tracks.isEmpty = false := by rwa [← Bool.not_eq_true, List.isEmpty_iff]
    cases mode with
    | recentlyDownloaded =>
      simp only [sort, hguard, shown, Bool.false_eq_true, if_false]
      split
      · next h =>
        rw [List.isEmpty_iff] at h
        rw [h, sortedWith_nil]
      · rfl
    | _ => simp only [sort, hguard, shown, Bool.false_eq_true, if_false]

theorem shown_perm {tracks' : List TrackEntity} (h : tracks'.Perm tracks) :
    (shown tracks' mode).Perm (shown tracks mode) := by
  cases mode with
  | recentlyDownloaded => exact h.filter _
  | _ => exact h

/-- Any order of the tracks that are shown comes from an order of all tracks. -/
theorem exists_shown {ys : List TrackEntity} (h : ys.Perm (shown tracks mode)) :
    ∃ tracks' : List TrackEntity, tracks'.Perm tracks ∧ shown tracks' mode = ys := by
  cases mode with
  | recentlyDownloaded =>
    refine ⟨ys ++ tracks.filter fun t ↦ !t.isResident, ?_, ?_⟩
    · exact (h.append_right _).trans (List.filter_append_perm _ _)
    · have hys : ∀ t ∈ ys, t.isResident = true := fun t ht ↦
        (List.mem_filter.mp (h.mem_iff.mp ht)).2
      rw [shown, List.filter_append, List.filter_eq_self.mpr hys, List.filter_filter]
      simp
  | _ => exact ⟨ys, h, rfl⟩

end Comparator

/-- The order of the list does not matter exactly where no two tracks that are shown are tied. -/
theorem sort_order_free_iff (tracks : List TrackEntity) (mode : TrackSortMode)
    (hids : (tracks.map TrackEntity.id).Nodup) :
    (∀ tracks' : List TrackEntity, tracks'.Perm tracks →
      sort u toEpochMilli stats tracks' mode = sort u toEpochMilli stats tracks mode) ↔
      ∀ a ∈ shown tracks mode, ∀ b ∈ shown tracks mode,
        Tied u toEpochMilli stats mode a b → a = b := by
  have hnodup : (shown tracks mode).Nodup := by
    cases mode with
    | recentlyDownloaded => exact hids.of_map.filter _
    | _ => exact hids.of_map
  simp only [sort_eq, ← comparator_eq]
  rw [← sortedWith_order_free_iff hnodup]
  constructor
  · intro h ys hys
    obtain ⟨tracks', hperm, rfl⟩ := exists_shown hys
    exact h tracks' hperm
  · exact fun h tracks' hperm ↦ h _ (shown_perm hperm)

/-- A resident track with this id and title. -/
def titled (id title : Text) : TrackEntity :=
  { MusicTree.rowAt (ascii "A/x") with id := id, title := title }

/-- No plays, no pins. -/
def noStats : TrackStats := ⟨.empty, .empty, .empty⟩

/-- Two tracks that differ in their titles come in one order. -/
theorem sort_of_two :
    sort asciiUnicode (fun _ ↦ none) noStats
        [titled (ascii "b") (ascii "Outro"), titled (ascii "a") (ascii "Intro")]
        .recentlyDownloaded =
      sort asciiUnicode (fun _ ↦ none) noStats
        [titled (ascii "a") (ascii "Intro"), titled (ascii "b") (ascii "Outro")]
        .recentlyDownloaded :=
  (sort_order_free_iff asciiUnicode (fun _ ↦ none) noStats _ .recentlyDownloaded
    (by decide)).mpr (by decide) _ (.swap ..)

/-- Two tracks called the same stay as they were listed. -/
theorem intros_as_listed : ∃ tracks' : List TrackEntity,
    tracks'.Perm [titled (ascii "a") (ascii "Intro"), titled (ascii "b") (ascii "intro")] ∧
      sort asciiUnicode (fun _ ↦ none) noStats tracks' .alphabetical ≠
        sort asciiUnicode (fun _ ↦ none) noStats
          [titled (ascii "a") (ascii "Intro"), titled (ascii "b") (ascii "intro")]
          .alphabetical := by
  refine ⟨[titled (ascii "b") (ascii "intro"), titled (ascii "a") (ascii "Intro")], .swap .., ?_⟩
  rw [sort_eq, sort_eq, sortedWith_of_pairwise (by decide), sortedWith_of_pairwise (by decide)]
  decide

end TrackSorter

end Nocturne
