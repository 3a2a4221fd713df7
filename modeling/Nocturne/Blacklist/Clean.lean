import Nocturne.Ingest.Likes
import Nocturne.Ingest.Pins

/-!
# The blacklist and the other tables

What `track_blacklist` promises about `tracks`, `pins`, `likes` and `unsync_overrides`, and which
events keep the promise. A deletion relies on the trigger, which fires for a row of `tracks` only;
`handle_pin` looks into the blacklist, `handle_like` and `unsync_track` do not.
-/

namespace Nocturne

open Lib

namespace Db

/-- Nothing of a blacklisted track is left. -/
structure Forgets (db : Db) (sha : Sha) : Prop where
  track : db.tracks.get? sha = none
  pin : ∀ row, db.pins.get? (.track, sha) = some row → row.pinned = false
  like : db.likes.get? (.track, sha) = none
  unsync : db.unsyncOverrides.get? sha = none

/-- The blacklist invariant. -/
def Clean (db : Db) : Prop := ∀ sha, db.isBlacklisted sha = true → db.Forgets sha

theorem clean_empty : Clean .empty := by
  intro sha h
  cases h

/-- The invariant looks at five tables. -/
theorem Clean.congr {db db' : Db} (h : db.Clean) (hblack : db'.trackBlacklist = db.trackBlacklist)
    (htracks : ∀ sha, db.tracks.get? sha = none → db'.tracks.get? sha = none)
    (hpins : db'.pins = db.pins) (hlikes : db'.likes = db.likes)
    (hunsync : db'.unsyncOverrides = db.unsyncOverrides) : db'.Clean := by
  intro sha hsha
  unfold isBlacklisted at hsha
  rw [hblack] at hsha
  have hf := h sha hsha
  constructor
  · exact htracks sha hf.track
  · rw [hpins]
    exact hf.pin
  · rw [hlikes]
    exact hf.like
  · rw [hunsync]
    exact hf.unsync

/-- The offsets do not matter. -/
theorem clean_withOffsets {db db' : Db} : (db.withOffsets db').Clean ↔ db.Clean := by
  constructor
  · exact fun h ↦ h.congr rfl (fun _ hs ↦ hs) rfl rfl rfl
  · exact fun h ↦ h.congr rfl (fun _ hs ↦ hs) rfl rfl rfl

/-- Deleting rows of `tracks` leaves less of everything. -/
theorem Forgets.deleteTracks {db : Db} {sha : Sha} (hf : db.Forgets sha)
    (p : Sha → TrackRow → Bool) : (db.deleteTracks p).Forgets sha := by
  constructor
  · rw [get?_deleteTracks, hf.track]
    rfl
  · intro row hrow
    unfold Db.deleteTracks at hrow
    rw [Table.get?_keep, Option.filter_eq_some_iff] at hrow
    exact hf.pin row hrow.1
  · unfold Db.deleteTracks
    rw [Table.get?_keep, hf.like]
    rfl
  · unfold Db.deleteTracks
    rw [Table.get?_keep, hf.unsync]
    rfl

theorem Clean.deleteTracks {db : Db} (h : db.Clean) (p : Sha → TrackRow → Bool) :
    (db.deleteTracks p).Clean := fun sha hsha ↦ (h sha hsha).deleteTracks p

/-- Lifting an override leaves less of it. -/
theorem Forgets.dropUnsync {db : Db} {sha sha' : Sha} (hf : db.Forgets sha) :
    (db.dropUnsync sha').Forgets sha := by
  have hunsync := unsync_dropUnsync db sha' sha
  unfold Db.dropUnsync at hunsync ⊢
  split
  · refine ⟨hf.track, hf.pin, hf.like, ?_⟩
    simp_all only
    split
    · rfl
    · exact hf.unsync
  · exact hf

theorem get?_clearPin_ne {db : Db} {sha sha' : Sha} {iso : Text} (h : sha ≠ sha') :
    (db.clearPin sha' iso).pins.get? (.track, sha) = db.pins.get? (.track, sha) := by
  unfold Db.clearPin
  split
  · exact Table.get?_put_ne _ _ fun he ↦ h (Prod.mk.inj he).2
  · rfl

/-- A row is put under a hash that is not blacklisted. -/
theorem Clean.putTrack {db : Db} (h : db.Clean) {sha : Sha} {row : TrackRow}
    (hsha : db.isBlacklisted sha = false) {db' : Db}
    (hblack : db'.trackBlacklist = db.trackBlacklist)
    (htracks : ∀ s, db'.tracks.get? s = if s = sha then some row else db.tracks.get? s)
    (hpins : db'.pins = db.pins) (hlikes : db'.likes = db.likes)
    (hunsync : db'.unsyncOverrides = db.unsyncOverrides) : db'.Clean := by
  intro s hs
  have hs' : db.isBlacklisted s = true := by
    unfold isBlacklisted at hs ⊢
    rw [← hblack]
    exact hs
  have hf := h s hs'
  have hne : s ≠ sha := by
    intro he
    rw [he, hsha] at hs'
    cases hs'
  constructor
  · rw [htracks, if_neg hne]
    exact hf.track
  · rw [hpins]
    exact hf.pin
  · rw [hlikes]
    exact hf.like
  · rw [hunsync]
    exact hf.unsync

/-- What hangs on a track, without its row. -/
structure Loose (db : Db) (sha : Sha) : Prop where
  pin : ∀ row, db.pins.get? (.track, sha) = some row → row.pinned = false
  like : db.likes.get? (.track, sha) = none
  unsync : db.unsyncOverrides.get? sha = none

/-- The trigger fires for a track with a row. -/
theorem forgets_deleteTrack (db : Db) {sha : Sha} {row : TrackRow}
    (hrow : db.tracks.get? sha = some row) : (db.deleteTrack sha).Forgets sha := by
  have hgone : db.trackSatisfies (fun s _ ↦ s == sha) sha = true := by
    unfold trackSatisfies
    rw [hrow]
    simp
  constructor
  · rw [get?_deleteTrack, if_pos rfl]
  · intro pin hpin
    unfold deleteTrack deleteTracks at hpin
    rw [Table.get?_keep, Option.filter_eq_some_iff] at hpin
    simp [hgone] at hpin
  · unfold deleteTrack deleteTracks
    rw [Table.get?_keep, Option.filter_eq_none_iff]
    simp [hgone]
  · unfold deleteTrack deleteTracks
    rw [Table.get?_keep, Option.filter_eq_none_iff]
    simp [hgone]

/-- It does not fire for a track without one. -/
theorem forgets_deleteTrack_of_none (db : Db) {sha : Sha} (hrow : db.tracks.get? sha = none) :
    (db.deleteTrack sha).Forgets sha ↔ db.Loose sha := by
  have hkept : db.trackSatisfies (fun s _ ↦ s == sha) sha = false := by
    unfold trackSatisfies
    rw [hrow]
  have hsame := companions_deleteTracks hkept
  simp only [companions, Companions.mk.injEq] at hsame
  obtain ⟨hpin, hlike, -, hunsync⟩ := hsame
  constructor
  · intro hf
    constructor
    · rw [← hpin]
      exact hf.pin
    · rw [← hlike]
      exact hf.like
    · rw [← hunsync]
      exact hf.unsync
  · intro hl
    constructor
    · rw [get?_deleteTrack, if_pos rfl]
    · unfold deleteTrack
      rw [hpin]
      exact hl.pin
    · unfold deleteTrack
      rw [hlike]
      exact hl.like
    · unfold deleteTrack
      rw [hunsync]
      exact hl.unsync

end Db

/-! ### Events -/

/-- The events that keep the invariant: no like of a blacklisted track and no override of one
that is not older than its pin, and no deletion that the trigger misses. -/
def Event.Spares (db : Db) : Event → Prop
  | .like .track id _ _ => db.isBlacklisted id = false
  | .unsync .track id ts => db.isBlacklisted id = true → ts < (db.pinTs id).getD 0
  | .delete .track id _ => db.tracks.get? id = none → db.Loose id
  | _ => True

variable {relpath : Path} {now : Int} {db db' : Db} {id : Text} {sha : Sha}

/-- A step about one track keeps the invariant when it keeps it for this track. -/
theorem Db.Clean.of_track (h : db.Clean)
    (hblack : ∀ s, s ≠ id → db'.isBlacklisted s = db.isBlacklisted s)
    (hother : ∀ s, s ≠ id → db.Forgets s → db'.Forgets s) :
    db'.Clean ↔ (db'.isBlacklisted id = true → db'.Forgets id) := by
  constructor
  · exact fun hclean ↦ hclean id
  · intro hid s hs
    by_cases he : s = id
    · rw [he] at hs ⊢
      exact hid hs
    · rw [hblack s he] at hs
      exact hother s he (h s hs)

/-- A like of a blacklisted track is written. -/
theorem clean_like {liked : Bool} {ts : Int} (h : db.Clean) :
    (db.apply relpath now (.like .track id liked ts)).Clean ↔ db.isBlacklisted id = false := by
  have hlikes := get?_upsertLike db .track id ⟨liked, ts⟩
  have hsame : ∀ s, (db.apply relpath now (.like .track id liked ts)).isBlacklisted s =
      db.isBlacklisted s := by
    intro s
    apply Db.isBlacklisted_apply
    intro ts he
    cases he
  have htables : (db.upsertLike .track id ⟨liked, ts⟩).tracks = db.tracks ∧
      (db.upsertLike .track id ⟨liked, ts⟩).pins = db.pins ∧
      (db.upsertLike .track id ⟨liked, ts⟩).unsyncOverrides = db.unsyncOverrides := by
    unfold Db.upsertLike
    split
    · split <;> exact ⟨rfl, rfl, rfl⟩
    · exact ⟨rfl, rfl, rfl⟩
  obtain ⟨htracks, hpins, hunsync⟩ := htables
  rw [h.of_track (fun s _ ↦ hsame s)]
  · rw [hsame]
    constructor
    · intro hid
      by_contra hb
      have hb : db.isBlacklisted id = true := by simpa using hb
      have hlike := (hid hb).like
      show False
      rw [show db.apply relpath now (.like .track id liked ts) =
        db.upsertLike .track id ⟨liked, ts⟩ from rfl, hlikes, if_pos rfl, (h id hb).like] at hlike
      cases hlike
    · intro hb hb'
      rw [hb] at hb'
      cases hb'
  · intro s hs hf
    show Db.Forgets (db.upsertLike .track id ⟨liked, ts⟩) s
    constructor
    · rw [htracks]
      exact hf.track
    · rw [hpins]
      exact hf.pin
    · rw [hlikes, if_neg (by simpa using hs)]
      exact hf.like
    · rw [hunsync]
      exact hf.unsync

/-- A like of an album is no like of a track. -/
theorem clean_albumLike {liked : Bool} {ts : Int} (h : db.Clean) :
    (db.apply relpath now (.like .album id liked ts)).Clean := by
  intro s hs
  have hsame : (db.apply relpath now (.like .album id liked ts)).isBlacklisted s =
      db.isBlacklisted s := by
    apply Db.isBlacklisted_apply
    intro ts he
    cases he
  rw [hsame] at hs
  have hf := h s hs
  have hlikes := get?_upsertLike db .album id ⟨liked, ts⟩ (.track, s)
  rw [if_neg (by simp)] at hlikes
  show Db.Forgets (db.upsertLike .album id ⟨liked, ts⟩) s
  constructor
  · unfold Db.upsertLike
    split
    · split <;> exact hf.track
    · exact hf.track
  · unfold Db.upsertLike
    split
    · split <;> exact hf.pin
    · exact hf.pin
  · rw [hlikes]
    exact hf.like
  · unfold Db.upsertLike
    split
    · split <;> exact hf.unsync
    · exact hf.unsync

/-- A play is no row of the tables that the invariant looks at. -/
theorem clean_play {row : PlayRow} (h : db.Clean) : (db.play row).Clean := by
  unfold Db.play Db.insertPlay
  split
  · exact h.congr rfl (fun _ hs ↦ hs) rfl rfl rfl
  · exact h

/-- `handle_pin` does not pin what is blacklisted. -/
theorem clean_pin {unit : ItemUnit} {pinned : Bool} {ts : Int} (h : db.Clean) :
    (db.apply relpath now (.pin unit id pinned ts)).Clean := by
  by_cases hrefused : unit = .track ∧ db.isBlacklisted id = true
  · show Db.Clean (if unit = .track ∧ db.isBlacklisted id = true then db else _)
    rw [if_pos hrefused]
    exact h
  · show Db.Clean (if unit = .track ∧ db.isBlacklisted id = true then db else _)
    rw [if_neg hrefused]
    intro s hs
    unfold Db.isBlacklisted at hs
    rw [Db.trackBlacklist_pin] at hs
    have hf := h s hs
    have hkey : ((.track, s) : ItemUnit × Text) ≠ (unit, id) := by
      intro he
      injection he with hunit hid
      apply hrefused
      rw [← hunit, ← hid]
      exact ⟨rfl, hs⟩
    have hrow := Db.get?_upsertPin db unit id ⟨pinned, ts, isoMillis ts⟩ _ hkey
    have hoverride := Db.unsyncOverrides_upsertPin db unit id ⟨pinned, ts, isoMillis ts⟩
    have htables : (db.upsertPin unit id ⟨pinned, ts, isoMillis ts⟩).tracks = db.tracks ∧
        (db.upsertPin unit id ⟨pinned, ts, isoMillis ts⟩).likes = db.likes := by
      unfold Db.upsertPin
      split
      · split <;> exact ⟨rfl, rfl⟩
      · exact ⟨rfl, rfl⟩
    obtain ⟨htracks, hlikes⟩ := htables
    have hup : (db.upsertPin unit id ⟨pinned, ts, isoMillis ts⟩).Forgets s := by
      constructor
      · rw [htracks]
        exact hf.track
      · rw [hrow]
        exact hf.pin
      · rw [hlikes]
        exact hf.like
      · rw [hoverride]
        exact hf.unsync
    unfold Db.pin
    dsimp only
    split
    · exact hup.dropUnsync
    · exact hup

/-- `unsync_track` writes an override of what is blacklisted. -/
theorem clean_unsync {ts : Int} (h : db.Clean) :
    (db.apply relpath now (.unsync .track id ts)).Clean ↔
      (db.isBlacklisted id = true → ts < (db.pinTs id).getD 0) := by
  show Db.Clean (if ts < (db.pinTs id).getD 0 then db else _) ↔ _
  by_cases hold : ts < (db.pinTs id).getD 0
  · rw [if_pos hold]
    exact ⟨fun _ _ ↦ hold, fun _ ↦ h⟩
  · rw [if_neg hold]
    have hput : ∀ s, (db.unsync id (isoNow now)).unsyncOverrides.get? s =
        if s = id then some _ else (db.clearPin id (isoNow now)).unsyncOverrides.get? s :=
      fun s ↦ Table.get?_put _ _ _ _
    have htables : (db.clearPin id (isoNow now)).tracks = db.tracks ∧
        (db.clearPin id (isoNow now)).likes = db.likes ∧
        (db.clearPin id (isoNow now)).unsyncOverrides = db.unsyncOverrides ∧
        (db.clearPin id (isoNow now)).trackBlacklist = db.trackBlacklist := by
      unfold Db.clearPin
      split <;> exact ⟨rfl, rfl, rfl, rfl⟩
    obtain ⟨htracks, hlikes, hunsync, hblack⟩ := htables
    have hsame : ∀ s, (db.unsync id (isoNow now)).isBlacklisted s = db.isBlacklisted s := by
      intro s
      show ((db.clearPin id (isoNow now)).trackBlacklist.get? s).isSome = _
      rw [hblack]
      rfl
    rw [h.of_track (fun s _ ↦ hsame s)]
    · rw [hsame]
      constructor
      · intro hid hb
        have hnone := (hid hb).unsync
        rw [hput, if_pos rfl] at hnone
        cases hnone
      · exact fun hlate hb ↦ absurd (hlate hb) hold
    · intro s hs hf
      have hpin : (db.clearPin id (isoNow now)).pins.get? (.track, s) = _ := Db.get?_clearPin_ne hs
      constructor
      · show (db.clearPin id (isoNow now)).tracks.get? s = none
        rw [htracks]
        exact hf.track
      · intro row hrow
        apply hf.pin
        rw [← hpin]
        exact hrow
      · show (db.clearPin id (isoNow now)).likes.get? (.track, s) = none
        rw [hlikes]
        exact hf.like
      · rw [hput, if_neg hs, hunsync]
        exact hf.unsync

/-- A deletion clears what hangs on the track only where the track has a row. -/
theorem clean_delete {ts : Int} (h : db.Clean) :
    (db.apply relpath now (.delete .track id ts)).Clean ↔
      (db.tracks.get? id = none → db.Loose id) := by
  have hblack : ∀ s, s ≠ id →
      (db.apply relpath now (.delete .track id ts)).isBlacklisted s = db.isBlacklisted s := by
    intro s hs
    apply Db.isBlacklisted_apply
    intro ts' he
    cases he
    exact hs rfl
  have hid : (db.apply relpath now (.delete .track id ts)).isBlacklisted id = true := by
    show ((db.trackBlacklist.put id _).get? id).isSome = true
    rw [Table.get?_put_self]
    rfl
  rw [h.of_track hblack]
  · rw [hid]
    show (true = true → ((db.putBlacklist id didntLike (isoNow now)).deleteTrack id).Forgets id) ↔ _
    constructor
    · intro hf hnone
      have hl := (Db.forgets_deleteTrack_of_none (db.putBlacklist _ _ _) hnone).mp (hf rfl)
      exact ⟨hl.pin, hl.like, hl.unsync⟩
    · intro hloose _
      cases hrow : db.tracks.get? id with
      | none =>
        have hl := hloose hrow
        exact (Db.forgets_deleteTrack_of_none (db.putBlacklist _ _ _) hrow).mpr
          ⟨hl.pin, hl.like, hl.unsync⟩
      | some row => exact Db.forgets_deleteTrack (db.putBlacklist _ _ _) hrow
  · intro s _ hf
    have hput : (db.putBlacklist id didntLike (isoNow now)).Forgets s :=
      ⟨hf.track, hf.pin, hf.like, hf.unsync⟩
    exact hput.deleteTracks _

/-- The events that keep the invariant are those that spare it. -/
theorem clean_apply_iff {ev : Event} (h : db.Clean) :
    (db.apply relpath now ev).Clean ↔ ev.Spares db := by
  cases ev with
  | play ts kind track playedMs => exact iff_of_true (clean_play h) trivial
  | like unit id liked ts =>
    cases unit with
    | track => exact clean_like h
    | album => exact iff_of_true (clean_albumLike h) trivial
  | pin unit id pinned ts => exact iff_of_true (clean_pin h) trivial
  | unsync unit id ts =>
    cases unit with
    | track => exact clean_unsync h
    | album => exact iff_of_true h trivial
  | delete unit id ts =>
    cases unit with
    | track => exact clean_delete h
    | album => exact iff_of_true h trivial

end Nocturne
