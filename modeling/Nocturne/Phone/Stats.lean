import Nocturne.Base
import Nocturne.Lib.Steps

/-!
# Plays and skips

`StatsListener` hears from the player when its state changes, when an item follows another one and
when the position jumps. It fills its duration on a change to `STATE_READY`, and unsets it when an
item begins: an item that the player goes on to without a change of its state is never counted.
-/

namespace Nocturne

open Lib

/-! ### The listener -/

/-- `C.TIME_UNSET`. -/
def timeUnset : Int := -2 ^ 63 + 1

/-- `Player.State`. -/
inductive PlaybackState where
  | idle
  | buffering
  | ready
  | ended
  deriving DecidableEq, Repr

/-- `Player.DiscontinuityReason`. -/
inductive DiscontinuityReason where
  | autoTransition
  | seek
  | seekAdjustment
  | skip
  | remove
  | internal
  | silenceSkip
  deriving DecidableEq, Repr

/-- `PlayClassifier.isPlay`, `PlayClassifier.kt:21–26`. -/
def isPlay (playedMs durationMs : Int) : Bool :=
  if durationMs ≤ 0 then false
  else decide (min (durationMs / 2) 240000 ≤ max playedMs 0)

/-- `StatsListener.Emission`. -/
structure Emission where
  trackId : Text
  playedMs : Int
  durationMs : Int
  kind : Text
  deriving DecidableEq, Repr

/-- `StatsListener`. -/
structure StatsListener where
  preTransitionDurationMs : Int
  preTransitionTrackId : Option Text
  deriving DecidableEq, Repr

/-- `decideEmission`, `StatsListener.kt:106–133`. -/
def decideEmission (reason : DiscontinuityReason) (oldMediaItemIndex newMediaItemIndex : Nat)
    (oldPositionMs cachedDurationMs : Int) (cachedTrackId : Option Text) : Option Emission :=
  let crossesItem := oldMediaItemIndex != newMediaItemIndex
  let emitting :=
    match reason with
    | .autoTransition => true
    | .seek => crossesItem
    | _ => false
  if !emitting then none
  else if cachedDurationMs = timeUnset ∨ cachedDurationMs ≤ 0 then none
  else
    cachedTrackId.map fun trackId ↦
      let clampedPlayed := min (max oldPositionMs 0) cachedDurationMs
      { trackId := trackId
        playedMs := clampedPlayed
        durationMs := cachedDurationMs
        kind := if isPlay clampedPlayed cachedDurationMs then ascii "play" else ascii "skip" }

namespace StatsListener

/-- A listener that has heard nothing. -/
def new : StatsListener := ⟨timeUnset, none⟩

/-- `onPlaybackStateChanged`, with the `contentDuration` and the `currentMediaItem` of the player. -/
def onPlaybackStateChanged (l : StatsListener) (playbackState : PlaybackState)
    (contentDuration : Int) (currentMediaItem : Option Text) : StatsListener :=
  if playbackState = .ready then
    ⟨contentDuration,
      match l.preTransitionTrackId with
      | some id => some id
      | none => currentMediaItem⟩
  else l

/-- `onMediaItemTransition`. -/
def onMediaItemTransition (_ : StatsListener) (mediaItem : Option Text) : StatsListener :=
  ⟨timeUnset, mediaItem⟩

/-- `onPositionDiscontinuity`. -/
def onPositionDiscontinuity (l : StatsListener) (oldIndex newIndex : Nat) (oldPositionMs : Int)
    (reason : DiscontinuityReason) : Option Emission :=
  decideEmission reason oldIndex newIndex oldPositionMs l.preTransitionDurationMs
    l.preTransitionTrackId

end StatsListener

/-! ### The player -/

/-- An item of the playlist: its index, its `mediaId`, and its duration as far as it is resolved. -/
structure PlaylistItem where
  index : Nat
  mediaId : Text
  durationMs : Int
  deriving DecidableEq, Repr

/-- The player: its state, its current item, and the duration that it had when it last came to
`STATE_READY` in the course of this item. -/
structure Playback where
  state : PlaybackState
  current : Option PlaylistItem
  readyDuration : Option Int
  deriving DecidableEq, Repr

/-- What happens to the player. -/
inductive PlayerEvent where
  /-- The state changes. -/
  | playbackState (state : PlaybackState)
  /-- The duration of the current item is resolved, or estimated anew. -/
  | duration (durationMs : Int)
  /-- The item has played to its end and another one follows, or the item again. -/
  | autoTransition (next : PlaylistItem) (oldPositionMs : Int)
  /-- A seek to another item, or within the item if it has the same index. -/
  | seek (item : PlaylistItem) (oldPositionMs : Int)
  /-- The playlist is replaced. -/
  | playlist (item : Option PlaylistItem)
  /-- Another jump of the position. -/
  | jump (reason : DiscontinuityReason) (newIndex : Nat) (oldPositionMs : Int)
  deriving DecidableEq, Repr

/-- The player and its listener. -/
structure Listening where
  player : Playback
  listener : StatsListener
  deriving DecidableEq, Repr

namespace Listening

/-- A listener that is added to a player. -/
def start (state : PlaybackState) (current : Option PlaylistItem) : Listening :=
  ⟨⟨state, current, none⟩, .new⟩

/-- Another item becomes the current one. -/
def transition (s : Listening) (item : Option PlaylistItem) : Listening where
  player := ⟨s.player.state, item, none⟩
  listener := s.listener.onMediaItemTransition (item.map PlaylistItem.mediaId)

/-- One event with its callbacks: `onPositionDiscontinuity` comes before `onMediaItemTransition`,
and neither changes the state of the player. An event that cannot happen does nothing. -/
def step (s : Listening) : PlayerEvent → Listening
  | .playbackState state =>
    if state = s.player.state then s
    else
      match s.player.current with
      | some item =>
        { player := ⟨state, item, if state = .ready then some item.durationMs
            else s.player.readyDuration⟩
          listener := s.listener.onPlaybackStateChanged state item.durationMs (some item.mediaId) }
      | none =>
        { player := ⟨state, none, if state = .ready then none else s.player.readyDuration⟩
          listener := s.listener.onPlaybackStateChanged state timeUnset none }
  | .duration durationMs =>
    { s with player.current := s.player.current.map fun item ↦
        { item with durationMs := durationMs } }
  | .autoTransition next _ =>
    match s.player.current with
    | some _ => s.transition (some next)
    | none => s
  | .seek item _ =>
    match s.player.current with
    | some old => if old.index = item.index then s else s.transition (some item)
    | none => s
  | .playlist item => s.transition item
  | .jump _ _ _ => s

/-- What the listener records at an event. -/
def emits (s : Listening) : PlayerEvent → Option Emission
  | .autoTransition next oldPositionMs =>
    s.player.current.bind fun old ↦
      s.listener.onPositionDiscontinuity old.index next.index oldPositionMs .autoTransition
  | .seek item oldPositionMs =>
    s.player.current.bind fun old ↦
      s.listener.onPositionDiscontinuity old.index item.index oldPositionMs .seek
  | .jump reason newIndex oldPositionMs =>
    if reason = .autoTransition ∨ reason = .seek then none
    else
      s.player.current.bind fun old ↦
        s.listener.onPositionDiscontinuity old.index newIndex oldPositionMs reason
  | _ => none

/-- The item that an event leaves by an automatic transition or by a seek, if its duration is
known. -/
def finished (s : Listening) (event : PlayerEvent) : Option PlaylistItem :=
  s.player.current.filter fun old ↦ decide (0 < old.durationMs) &&
    match event with
    | .autoTransition _ _ => true
    | .seek item _ => old.index != item.index
    | _ => false

/-- An event that leaves an item of known duration has one emission, with the id and the duration
of the item, and a seek within an item has none. -/
def Counted (s : Listening) (event : PlayerEvent) : Prop :=
  (∀ item ∈ s.finished event, (s.emits event).map (fun m ↦ (m.trackId, m.durationMs)) =
    some (item.mediaId, item.durationMs)) ∧
  ∀ old ∈ s.player.current, ∀ item oldPositionMs, event = .seek item oldPositionMs →
    old.index = item.index → s.emits event = none

/-- An item of known duration is left only after the player came to `STATE_READY` with it, and
with this duration. -/
def MadeReady (s : Listening) (event : PlayerEvent) : Prop :=
  ∀ item ∈ s.finished event, s.player.readyDuration = some item.durationMs

/-- What the listener keeps is what the player was when it came to `STATE_READY`. -/
structure Agrees (s : Listening) : Prop where
  duration : s.listener.preTransitionDurationMs = s.player.readyDuration.getD timeUnset
  id : s.listener.preTransitionTrackId = none ∨
    s.listener.preTransitionTrackId = s.player.current.map PlaylistItem.mediaId
  ready : s.player.readyDuration ≠ none →
    s.listener.preTransitionTrackId = s.player.current.map PlaylistItem.mediaId

section Counting

variable {s : Listening}

theorem agrees_start (state : PlaybackState) (current : Option PlaylistItem) :
    (start state current).Agrees where
  duration := rfl
  id := Or.inl rfl
  ready h := absurd rfl h

theorem agrees_transition (s : Listening) (item : Option PlaylistItem) :
    (s.transition item).Agrees where
  duration := rfl
  id := Or.inr rfl
  ready _ := rfl

/-- The listener hears of a change of the state. -/
theorem Agrees.playbackState (h : s.Agrees) (state : PlaybackState) :
    (s.step (.playbackState state)).Agrees := by
  dsimp only [Listening.step, StatsListener.onPlaybackStateChanged]
  by_cases hstate : state = s.player.state
  · rw [if_pos hstate]
    exact h
  · rw [if_neg hstate]
    have hid := h.id
    have hready := h.ready
    split
    · next item hcurrent =>
      rw [hcurrent] at hid hready
      by_cases hr : state = .ready
      · rw [if_pos hr, if_pos hr]
        -- the id is filled in if there is none
        have hfilled : (match s.listener.preTransitionTrackId with
            | some id => some id
            | none => some item.mediaId) = some item.mediaId := by
          rcases hid with hid | hid
          · rw [hid]
          · rw [hid]
            rfl
        exact ⟨rfl, Or.inr hfilled, fun _ ↦ hfilled⟩
      · rw [if_neg hr, if_neg hr]
        exact ⟨h.duration, hid, hready⟩
    · next hcurrent =>
      rw [hcurrent, Option.map_none] at hready
      rw [hcurrent, Option.map_none, or_self] at hid
      by_cases hr : state = .ready
      · rw [if_pos hr, if_pos hr, hid]
        exact ⟨rfl, Or.inl rfl, fun _ ↦ rfl⟩
      · rw [if_neg hr, if_neg hr]
        exact ⟨h.duration, Or.inl hid, hready⟩

theorem Agrees.step (h : s.Agrees) (event : PlayerEvent) : (s.step event).Agrees := by
  cases event with
  | playbackState state => exact h.playbackState state
  | duration durationMs =>
    have hid : (s.player.current.map fun item ↦ { item with durationMs := durationMs }).map
        PlaylistItem.mediaId = s.player.current.map PlaylistItem.mediaId := by
      rw [Option.map_map]
      rfl
    constructor
    · exact h.duration
    · exact hid ▸ h.id
    · exact hid ▸ h.ready
  | autoTransition next oldPositionMs =>
    dsimp only [Listening.step]
    split
    · exact agrees_transition s _
    · exact h
  | seek item oldPositionMs =>
    dsimp only [Listening.step]
    split
    · split
      · exact h
      · exact agrees_transition s _
    · exact h
  | playlist item => exact agrees_transition s item
  | jump reason newIndex oldPositionMs => exact h

/-- The id and the duration of an emission are those that are kept. -/
theorem decideEmission_item (reason : DiscontinuityReason) (oldIndex newIndex : Nat)
    (oldPositionMs cachedDurationMs : Int) (cachedTrackId : Option Text)
    (hemitting : reason = .autoTransition ∨ reason = .seek ∧ oldIndex ≠ newIndex) :
    (decideEmission reason oldIndex newIndex oldPositionMs cachedDurationMs cachedTrackId).map
      (fun m ↦ (m.trackId, m.durationMs)) =
        if 0 < cachedDurationMs then cachedTrackId.map fun id ↦ (id, cachedDurationMs)
        else none := by
  have hopen : ∀ emitting : Bool, emitting = true →
      ((if !emitting then none
        else if cachedDurationMs = timeUnset ∨ cachedDurationMs ≤ 0 then none
        else cachedTrackId.map fun trackId ↦
          let clampedPlayed := min (max oldPositionMs 0) cachedDurationMs
          Emission.mk trackId clampedPlayed cachedDurationMs
            (if isPlay clampedPlayed cachedDurationMs then ascii "play" else ascii "skip")).map
        fun m ↦ (m.trackId, m.durationMs)) =
        if 0 < cachedDurationMs then cachedTrackId.map fun id ↦ (id, cachedDurationMs)
        else none := by
    intro emitting he
    rw [he]
    by_cases hpos : 0 < cachedDurationMs
    · have hknown : ¬ (cachedDurationMs = timeUnset ∨ cachedDurationMs ≤ 0) := by
        unfold timeUnset
        omega
      rw [if_pos hpos, if_neg (by decide), if_neg hknown, Option.map_map]
      rfl
    · rw [if_neg hpos, if_neg (by decide), if_pos (Or.inr (by omega))]
      rfl
  rcases hemitting with rfl | ⟨rfl, hne⟩
  · exact hopen true rfl
  · exact hopen (oldIndex != newIndex) (by simpa using hne)

/-- An item that is left is counted exactly where the player came to `STATE_READY` with it. -/
theorem emission_iff (h : s.Agrees) {item : PlaylistItem} (hcurrent : s.player.current = some item)
    (hknown : 0 < item.durationMs) (reason : DiscontinuityReason) (newIndex : Nat)
    (oldPositionMs : Int)
    (hemitting : reason = .autoTransition ∨ reason = .seek ∧ item.index ≠ newIndex) :
    ((s.listener.onPositionDiscontinuity item.index newIndex oldPositionMs reason).map
      fun m ↦ (m.trackId, m.durationMs)) = some (item.mediaId, item.durationMs) ↔
        s.player.readyDuration = some item.durationMs := by
  rw [StatsListener.onPositionDiscontinuity, decideEmission_item _ _ _ _ _ _ hemitting, h.duration]
  cases hready : s.player.readyDuration with
  | none =>
    rw [Option.getD_none, if_neg (by decide)]
    simp
  | some d =>
    have hid := h.ready (by rw [hready]; exact Option.some_ne_none d)
    rw [hcurrent, Option.map_some] at hid
    rw [Option.getD_some, hid]
    constructor
    · intro hsome
      split at hsome
      · injection hsome with hsome
        injection hsome with _ hd
        rw [hd]
      · cases hsome
    · intro hd
      injection hd with hd
      rw [hd, if_pos hknown]
      rfl

/-- A seek within an item has no emission. -/
theorem emits_scrub {old item : PlaylistItem} (hcurrent : s.player.current = some old)
    (hindex : old.index = item.index) (oldPositionMs : Int) :
    s.emits (.seek item oldPositionMs) = none := by
  rw [emits, hcurrent, Option.bind_some, StatsListener.onPositionDiscontinuity, decideEmission,
    hindex]
  simp

theorem counted_iff_madeReady (h : s.Agrees) (event : PlayerEvent) :
    s.Counted event ↔ s.MadeReady event := by
  have hscrub : ∀ old ∈ s.player.current, ∀ item oldPositionMs, event = .seek item oldPositionMs →
      old.index = item.index → s.emits event = none := by
    rintro old hold item oldPositionMs rfl hindex
    exact emits_scrub hold hindex oldPositionMs
  have hitem : ∀ item ∈ s.finished event,
      ((s.emits event).map (fun m ↦ (m.trackId, m.durationMs)) =
        some (item.mediaId, item.durationMs) ↔ s.player.readyDuration = some item.durationMs) := by
    intro item hitem
    obtain ⟨hcurrent, hleft⟩ := Option.filter_eq_some_iff.mp hitem
    rw [Bool.and_eq_true, decide_eq_true_iff] at hleft
    obtain ⟨hknown, hleft⟩ := hleft
    cases event with
    | autoTransition next oldPositionMs =>
      rw [emits, hcurrent, Option.bind_some]
      exact emission_iff h hcurrent hknown _ _ _ (Or.inl rfl)
    | seek next oldPositionMs =>
      rw [emits, hcurrent, Option.bind_some]
      exact emission_iff h hcurrent hknown _ _ _ (Or.inr ⟨rfl, by simpa using hleft⟩)
    | playbackState state => cases hleft
    | duration durationMs => cases hleft
    | playlist next => cases hleft
    | jump reason newIndex oldPositionMs => cases hleft
  constructor
  · exact fun hcounted item hi ↦ (hitem item hi).mp (hcounted.1 item hi)
  · exact fun hready ↦ ⟨fun item hi ↦ (hitem item hi).mpr (hready item hi), hscrub⟩

/-- In a run every finished playback is counted once, with its own id and duration, exactly if every
item of known duration is left only after the player came to `STATE_READY` with it. -/
theorem counted_once (state : PlaybackState) (current : Option PlaylistItem)
    (run : List PlayerEvent) :
    Steps.Meets step Counted (start state current) run ↔
      Steps.Meets step MadeReady (start state current) run :=
  Steps.meets_congr (fun _ event h ↦ Agrees.step h event)
    (fun _ event h ↦ counted_iff_madeReady h event) (agrees_start state current)

/-- Two items without a gap: the player stays at `STATE_READY` when the second one begins, and the
second one is not counted. -/
theorem gapless_not_counted : ¬ Steps.Meets step Counted (start .idle none)
    [.playlist (some ⟨0, [97], 200000⟩), .playbackState .buffering, .playbackState .ready,
      .autoTransition ⟨1, [98], 180000⟩ 200000, .autoTransition ⟨2, [99], 240000⟩ 180000] := by
  intro hrun
  have hlast := hrun.2.2.2.2.1.1 ⟨1, [98], 180000⟩ rfl
  revert hlast
  decide

end Counting

end Listening

end Nocturne
