import Nocturne.Phone.Residency

/-!
# Resuming a saved queue

The queue outlives the process: `PlaybackResumption` looks each of its tracks up again, leaves out
the slots whose track is gone or no longer resident, and hands Media3 the rest with the place to
start at.
-/

namespace Nocturne

open Lib

/-- `SavedQueue`, `QueueRepository.kt:46–63`. -/
structure SavedQueue where
  mediaIds : List Text
  currentIndex : Int
  currentPositionMs : Int
  shuffleMode : Bool
  repeatMode : Int
  shuffleOrder : List Int
  deriving DecidableEq, Repr

/-- `MediaSession.MediaItemsWithStartPosition`, with the ids of the items. -/
structure StartPosition where
  mediaItems : List Text
  startIndex : Nat
  startPositionMs : Int
  deriving DecidableEq, Repr

/-- `Restored`, `PlaybackResumption.kt:36–42`. -/
structure Restored where
  items : StartPosition
  mediaIds : List Text
  shuffleMode : Bool
  repeatMode : Int
  shuffleOrder : Option (List Nat)
  deriving DecidableEq, Repr

namespace Resume

variable (tracks : Table Text PhoneTrack)

/-- The track of a slot is in the catalog and resident. -/
def isPlayable (mediaId : Text) : Bool :=
  match tracks.get? mediaId with
  | none => false
  | some entity => entity.isResident

/-- The slots that are kept, with their original indices, `PlaybackResumption.kt:67–76`. -/
def resolvedFrom : Nat → List Text → List (Nat × Text)
  | _, [] => []
  | originalIdx, mediaId :: mediaIds =>
    if isPlayable tracks mediaId then (originalIdx, mediaId) :: resolvedFrom (originalIdx + 1) mediaIds
    else resolvedFrom (originalIdx + 1) mediaIds

/-- The loop of `remapShuffleOrder` that looks for a permutation,
`PlaybackResumption.kt:124–128`. -/
def isOrder (savedSize : Int) : List Int → List Int → Bool
  | _, [] => true
  | seen, i :: order =>
    if i < 0 ∨ savedSize ≤ i ∨ i ∈ seen then false
    else isOrder savedSize (i :: seen) order

/-- `newIndexOf`, `PlaybackResumption.kt:129–130`. -/
def newIndexOf (keptOriginalIndices : List Nat) : Nat → Option Nat :=
  keptOriginalIndices.zipIdx.foldl (fun indexOf r ↦ Function.update indexOf r.1 (some r.2))
    fun _ ↦ none

/-- `remapShuffleOrder`, `PlaybackResumption.kt:118–132`. -/
def remapShuffleOrder (savedOrder : List Int) (savedSize : Int) (keptOriginalIndices : List Nat) :
    Option (List Nat) :=
  if savedOrder.length ≠ savedSize ∨ savedSize = 0 then none
  else if isOrder savedSize [] savedOrder then
    some (savedOrder.filterMap fun i ↦ newIndexOf keptOriginalIndices i.toNat)
  else none

/-- `restore`, `PlaybackResumption.kt:61–105`. -/
def restore (saved : SavedQueue) : Restored :=
  let resolved := resolvedFrom tracks 0 saved.mediaIds
  if resolved.isEmpty then ⟨⟨[], 0, 0⟩, [], saved.shuffleMode, saved.repeatMode, none⟩
  else
    -- `indexOfFirst` is -1 where there is none, and then clamped.
    let startIndex := (resolved.findIdx? fun r ↦ decide (saved.currentIndex ≤ (r.1 : Int))).getD 0
    ⟨⟨resolved.map Prod.snd, startIndex, saved.currentPositionMs⟩, resolved.map Prod.snd,
      saved.shuffleMode, saved.repeatMode,
      remapShuffleOrder saved.shuffleOrder saved.mediaIds.length (resolved.map Prod.fst)⟩

/-! ### Where playback restarts -/

/-- A slot of the saved queue whose track can still be played. -/
def Survives (saved : SavedQueue) (slot : Nat) : Prop :=
  ∃ mediaId, saved.mediaIds[slot]? = some mediaId ∧ isPlayable tracks mediaId = true

/-- Where a slot stands among those that survive. -/
def newIndex (saved : SavedQueue) (slot : Nat) : Nat :=
  (saved.mediaIds.take slot).countP (isPlayable tracks)

/-- Playback restarts with the items that survive, at a slot and a position. -/
def RestartsAt (saved : SavedQueue) (slot : Nat) (position : Int) : Prop :=
  Survives tracks saved slot ∧
    (restore tracks saved).items =
      ⟨saved.mediaIds.filter (isPlayable tracks), newIndex tracks saved slot, position⟩

/-- The saved current slot survives. -/
def CurrentSurvives (saved : SavedQueue) : Prop :=
  ∃ slot : Nat, saved.currentIndex = slot ∧ Survives tracks saved slot

/-- Playback restarts at the saved slot and position, or, where that slot is gone, at the beginning
of another one, if there is any. -/
def ResumesRight (saved : SavedQueue) : Prop :=
  (∀ slot : Nat, saved.currentIndex = slot → Survives tracks saved slot →
    RestartsAt tracks saved slot saved.currentPositionMs) ∧
  (¬ CurrentSurvives tracks saved → (∃ slot, Survives tracks saved slot) →
    ∃ slot, RestartsAt tracks saved slot 0)

section Slots

variable {tracks} {saved : SavedQueue} {mediaIds : List Text} {mediaId : Text} {n slot : Nat}

theorem map_snd_resolvedFrom : (resolvedFrom tracks n mediaIds).map Prod.snd =
    mediaIds.filter (isPlayable tracks) := by
  induction mediaIds generalizing n with
  | nil => rfl
  | cons x mediaIds ih =>
    rw [resolvedFrom]
    by_cases hx : isPlayable tracks x = true
    · rw [if_pos hx, List.filter_cons_of_pos hx, List.map_cons, ih]
    · rw [if_neg hx, List.filter_cons_of_neg hx, ih]

/-- The first slot kept at or behind one that is kept is that one. -/
theorem findIdx?_resolvedFrom (h : mediaIds[slot]? = some mediaId)
    (hplay : isPlayable tracks mediaId = true) :
    (resolvedFrom tracks n mediaIds).findIdx? (fun r ↦ decide (((n + slot : Nat) : Int) ≤ r.1)) =
      some ((mediaIds.take slot).countP (isPlayable tracks)) := by
  induction mediaIds generalizing n slot with
  | nil => simp at h
  | cons x mediaIds ih =>
    rw [resolvedFrom]
    cases slot with
    | zero =>
      simp only [List.getElem?_cons_zero, Option.some.injEq] at h
      rw [h, if_pos hplay, List.findIdx?_cons]
      simp
    | succ slot =>
      rw [List.getElem?_cons_succ] at h
      have hrest := ih (n := n + 1) h
      rw [show n + 1 + slot = n + (slot + 1) by omega] at hrest
      rw [List.take_succ_cons]
      by_cases hx : isPlayable tracks x = true
      · rw [if_pos hx, List.countP_cons_of_pos hx, List.findIdx?_cons, hrest]
        have hbefore : decide (((n + (slot + 1) : Nat) : Int) ≤ n) = false := by
          apply decide_eq_false
          omega
        rw [hbefore]
        rfl
      · rw [if_neg hx, List.countP_cons_of_neg hx]
        exact hrest

/-- Each item that is kept comes from a slot. -/
theorem exists_slot {i : Nat} (h : i < (mediaIds.filter (isPlayable tracks)).length) :
    ∃ slot mediaId, mediaIds[slot]? = some mediaId ∧ isPlayable tracks mediaId = true ∧
      (mediaIds.take slot).countP (isPlayable tracks) = i := by
  induction mediaIds generalizing i with
  | nil => simp at h
  | cons x mediaIds ih =>
    by_cases hx : isPlayable tracks x = true
    · rw [List.filter_cons_of_pos hx, List.length_cons] at h
      cases i with
      | zero => exact ⟨0, x, rfl, hx, rfl⟩
      | succ i =>
        obtain ⟨slot, mediaId, hslot, hplay, hcount⟩ := ih (Nat.lt_of_succ_lt_succ h)
        refine ⟨slot + 1, mediaId, hslot, hplay, ?_⟩
        rw [List.take_succ_cons, List.countP_cons_of_pos hx, hcount]
    · rw [List.filter_cons_of_neg hx] at h
      obtain ⟨slot, mediaId, hslot, hplay, hcount⟩ := ih h
      refine ⟨slot + 1, mediaId, hslot, hplay, ?_⟩
      rw [List.take_succ_cons, List.countP_cons_of_neg hx, hcount]

/-- What is handed to Media3 where some slot survives. -/
theorem items_restore (h : Survives tracks saved slot) :
    (restore tracks saved).items = ⟨saved.mediaIds.filter (isPlayable tracks),
      ((resolvedFrom tracks 0 saved.mediaIds).findIdx?
        fun r ↦ decide (saved.currentIndex ≤ (r.1 : Int))).getD 0, saved.currentPositionMs⟩ := by
  have hkept : (resolvedFrom tracks 0 saved.mediaIds).isEmpty = false := by
    obtain ⟨mediaId, hslot, hplay⟩ := h
    rw [← Bool.not_eq_true, List.isEmpty_iff]
    intro hnil
    have hfirst := findIdx?_resolvedFrom (n := 0) hslot hplay
    rw [hnil] at hfirst
    cases hfirst
  unfold restore
  simp only [hkept, Bool.false_eq_true, if_false]
  rw [map_snd_resolvedFrom]

/-- Playback always restarts at a slot that survives, at the saved position. -/
theorem restarts_somewhere (h : Survives tracks saved slot) :
    ∃ slot, RestartsAt tracks saved slot saved.currentPositionMs := by
  have hitems := items_restore h
  have hbound : ((resolvedFrom tracks 0 saved.mediaIds).findIdx?
      fun r ↦ decide (saved.currentIndex ≤ (r.1 : Int))).getD 0 <
        (saved.mediaIds.filter (isPlayable tracks)).length := by
    rw [← map_snd_resolvedFrom (n := 0), List.length_map]
    cases hfirst : (resolvedFrom tracks 0 saved.mediaIds).findIdx?
        fun r ↦ decide (saved.currentIndex ≤ (r.1 : Int)) with
    | some i =>
      obtain ⟨hi, -⟩ := List.findIdx?_eq_some_iff_getElem.mp hfirst
      exact hi
    | none =>
      obtain ⟨mediaId, hslot, hplay⟩ := h
      have hmem : mediaId ∈ (resolvedFrom tracks 0 saved.mediaIds).map Prod.snd := by
        rw [map_snd_resolvedFrom]
        exact List.mem_filter.mpr ⟨List.mem_of_getElem? hslot, hplay⟩
      have hpos := List.length_pos_of_mem hmem
      rw [List.length_map] at hpos
      exact hpos
  obtain ⟨slot', mediaId, hslot, hplay, hcount⟩ := exists_slot hbound
  refine ⟨slot', ⟨mediaId, hslot, hplay⟩, ?_⟩
  rw [hitems, newIndex, hcount]

end Slots

/-- Playback resumes at the right place exactly where the saved slot survives, the saved position is
the beginning, or no slot survives. -/
theorem resumes_right_iff (saved : SavedQueue) :
    ResumesRight tracks saved ↔
      CurrentSurvives tracks saved ∨ saved.currentPositionMs = 0 ∨
        ∀ slot, ¬ Survives tracks saved slot := by
  constructor
  · intro h
    by_cases hcur : CurrentSurvives tracks saved
    · exact Or.inl hcur
    right
    by_cases hsome : ∃ slot, Survives tracks saved slot
    · left
      obtain ⟨slot, hslot, hitems⟩ := h.2 hcur hsome
      rw [items_restore hslot] at hitems
      exact congrArg StartPosition.startPositionMs hitems
    · exact Or.inr fun slot hslot ↦ hsome ⟨slot, hslot⟩
  · intro h
    constructor
    · intro slot hcur hslot
      refine ⟨hslot, ?_⟩
      rw [items_restore hslot, hcur]
      obtain ⟨mediaId, hid, hplay⟩ := hslot
      have hfirst := findIdx?_resolvedFrom (n := 0) hid hplay
      rw [Nat.zero_add] at hfirst
      rw [hfirst]
      rfl
    · intro hcur ⟨slot, hslot⟩
      rcases h with hsurv | hzero | hnone
      · exact absurd hsurv hcur
      · rw [← hzero]
        exact restarts_somewhere hslot
      · exact absurd hslot (hnone slot)

/-- Two tracks, the first of them no longer resident. -/
def demoted : Table Text PhoneTrack :=
  (Table.empty.put (ascii "a") ⟨ascii "archive/a.flac", 1, false⟩).put (ascii "b")
    ⟨ascii "resident/b.flac", 1, true⟩

/-- A queue parked a minute into its first track. -/
def parked : SavedQueue := ⟨[ascii "a", ascii "b"], 0, 60000, false, 0, []⟩

/-- The second track is resumed a minute in. -/
theorem position_of_another_track : ¬ ResumesRight demoted parked := by
  intro h
  have hb : Survives demoted parked 1 := ⟨ascii "b", rfl, by decide⟩
  have ha : ¬ CurrentSurvives demoted parked := by
    rintro ⟨slot, hcur, mediaId, hslot, hplay⟩
    have hzero : slot = 0 := by
      have hcur : (0 : Int) = slot := hcur
      omega
    subst hzero
    cases hslot
    revert hplay
    decide
  obtain ⟨slot, hslot, hitems⟩ := h.2 ha ⟨1, hb⟩
  rw [items_restore hb] at hitems
  have hpos : (60000 : Int) = 0 := congrArg StartPosition.startPositionMs hitems
  omega

end Resume

end Nocturne
