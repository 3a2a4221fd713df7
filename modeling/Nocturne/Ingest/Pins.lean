import Nocturne.Ingest.Delivery
import Nocturne.Ingest.Stance

/-!
# Pins

The events about a track move it between its stances, whatever else is ingested between them.
`pins_converge_iff` carries `orderless_iff` over to histories of the daemon.
-/

namespace Nocturne

open Lib Lib.Records

/-- The event that a move of a track is. -/
def Move.event (sha : Sha) : Move → Event
  | ⟨.pin pinned, ts⟩ => .pin .track sha pinned ts
  | ⟨.unsync, ts⟩ => .unsync .track sha ts

/-- The move of a track that an event is. -/
def Event.move? (sha : Sha) : Event → Option Move
  | .pin .track id pinned ts => if id = sha then some ⟨.pin pinned, ts⟩ else none
  | .unsync .track id ts => if id = sha then some ⟨.unsync, ts⟩ else none
  | _ => none

/-- The event of a move is read back as the move. -/
theorem move?_event (sha : Sha) (m : Move) : (m.event sha).move? sha = some m := by
  obtain ⟨wish, ts⟩ := m
  cases wish <;> exact if_pos rfl

/-- The event of a move deletes no track. -/
theorem event_ne_delete (m : Move) (sha : Sha) (ts : Int) :
    m.event sha ≠ .delete .track sha ts := by
  obtain ⟨wish, ts'⟩ := m
  intro h
  cases wish <;> cases h

/-- An event is a move of a track only if it is the event of this move. -/
theorem event_of_move? {sha : Sha} {ev : Event} {m : Move} (h : ev.move? sha = some m) :
    ev = m.event sha := by
  unfold Event.move? at h
  split at h
  · split at h
    · next he =>
      cases h
      rw [he]
      rfl
    · cases h
  · split at h
    · next he =>
      cases h
      rw [he]
      rfl
    · cases h
  · cases h

namespace Db

/-- The stance of a track. -/
def stance (db : Db) (sha : Sha) : Stance where
  row := (db.pins.get? (.track, sha)).map fun r ↦ (r.pinned, r.ts)
  override := (db.unsyncOverrides.get? sha).isSome

section Stance

variable {db : Db} {sha : Sha} {relpath : Path} {now : Int}

/-- The stance of a track is in its companion rows. -/
theorem stance_companions {db' : Db} (h : db.companions sha = db'.companions sha) :
    db.stance sha = db'.stance sha := by
  simp only [companions, Companions.mk.injEq] at h
  rw [stance, stance, h.1, h.2.2.2]

/-- A stance is stale where the pin is newer. -/
theorem stale_stance {ts : Int} :
    (db.stance sha).stale ts = true ↔ ∃ r, db.pins.get? (.track, sha) = some r ∧ ts < r.ts := by
  rw [stale_iff]
  unfold stance
  cases db.pins.get? (.track, sha) with
  | none => simp
  | some r => simp

/-- Another pin stays as it is. -/
theorem get?_upsertPin (db : Db) (unit : ItemUnit) (id : Text) (row : PinRow)
    (key : ItemUnit × Text) (h : key ≠ (unit, id)) :
    (db.upsertPin unit id row).pins.get? key = db.pins.get? key := by
  unfold upsertPin
  split
  · split
    · exact Table.get?_put_ne _ _ h
    · rfl
  · exact Table.get?_put_ne _ _ h

/-- The upsert of a pin leaves the overrides alone. -/
theorem unsyncOverrides_upsertPin (db : Db) (unit : ItemUnit) (id : Text) (row : PinRow) :
    (db.upsertPin unit id row).unsyncOverrides = db.unsyncOverrides := by
  unfold upsertPin
  split
  · split <;> rfl
  · rfl

/-- The drop of an override leaves the pins alone. -/
theorem pins_dropUnsync (db : Db) (sha : Sha) : (db.dropUnsync sha).pins = db.pins := by
  unfold dropUnsync
  split <;> rfl

/-- The drop of an override takes that of the track away. -/
theorem unsync_dropUnsync (db : Db) (sha sha' : Sha) :
    (db.dropUnsync sha).unsyncOverrides.get? sha' =
      if sha' = sha then none else db.unsyncOverrides.get? sha' := by
  unfold dropUnsync
  split
  · exact Table.get?_drop ..
  · next h =>
    split
    · next he => rw [he, h]
    · rfl

/-- The row that a pin event leaves. -/
theorem row_upsertPin (db : Db) (sha : Sha) (pinned : Bool) (ts : Int) (iso : Text) :
    ((db.upsertPin .track sha ⟨pinned, ts, iso⟩).pins.get? (.track, sha)).map
        (fun r ↦ (r.pinned, r.ts)) =
      if (db.stance sha).stale ts = true then (db.stance sha).row else some (pinned, ts) := by
  unfold upsertPin
  cases hr : db.pins.get? (.track, sha) with
  | none =>
    rw [if_neg]
    · simp
    · rw [stale_stance, hr]
      simp
  | some old =>
    dsimp only
    by_cases hle : old.ts ≤ ts
    · rw [if_pos hle, if_neg]
      · simp
      · rw [stale_stance, hr]
        simp only [Option.some.injEq, exists_eq_left', Int.not_lt]
        exact hle
    · rw [if_neg hle, if_pos]
      · rfl
      · rw [stale_stance, hr]
        simp only [Option.some.injEq, exists_eq_left']
        omega

/-- A pin moves the stance of its track. -/
theorem stance_pin (db : Db) (sha : Sha) (pinned : Bool) (ts : Int) :
    (db.pin .track sha pinned ts).stance sha = (db.stance sha).move ⟨.pin pinned, ts⟩ := by
  have hrow := row_upsertPin db sha pinned ts (isoMillis ts)
  have ho := unsyncOverrides_upsertPin db .track sha ⟨pinned, ts, isoMillis ts⟩
  unfold pin
  dsimp only
  cases pinned with
  | true =>
    rw [if_pos ⟨rfl, rfl⟩]
    rw [move_pin, ← hrow, Bool.not_true, Bool.and_false, stance, pins_dropUnsync,
      unsync_dropUnsync, if_pos rfl]
    rfl
  | false =>
    rw [if_neg fun h ↦ (by cases h.1)]
    rw [move_pin, ← hrow, Bool.not_false, Bool.and_true, stance, ho]
    rfl

/-- An unsync moves the stance of its track. -/
theorem stance_unsync {ts : Int} (h : 0 ≤ ts) :
    (db.apply relpath now (.unsync .track sha ts)).stance sha =
      (db.stance sha).move ⟨.unsync, ts⟩ := by
  have hguard : ts < (db.pinTs sha).getD 0 ↔ (db.stance sha).stale ts = true := by
    rw [stale_stance, pinTs]
    cases db.pins.get? (.track, sha) with
    | none => simpa using h
    | some r => simp
  dsimp only [apply, Stance.move]
  by_cases hs : (db.stance sha).stale ts = true
  · rw [if_pos hs, if_pos (hguard.mpr hs)]
  · rw [if_neg hs, if_neg fun hlt ↦ hs (hguard.mp hlt)]
    simp only [unsync, putUnsync, clearPin, stance]
    cases hr : db.pins.get? (.track, sha) <;> simp [hr]

/-- Other tracks keep their stance. -/
theorem stance_pin_ne {id : Text} {unit : ItemUnit} {pinned : Bool} {ts : Int}
    (h : unit = .track → id ≠ sha) : (db.pin unit id pinned ts).stance sha = db.stance sha := by
  have hkey : ((.track, sha) : ItemUnit × Text) ≠ (unit, id) := by
    intro he
    injection he with hu hid
    exact h hu.symm hid.symm
  have hp := get?_upsertPin db unit id ⟨pinned, ts, isoMillis ts⟩ _ hkey
  have ho := unsyncOverrides_upsertPin db unit id ⟨pinned, ts, isoMillis ts⟩
  unfold pin
  dsimp only
  split
  · next hc =>
    rw [stance, pins_dropUnsync, hp, unsync_dropUnsync, if_neg (Ne.symm (h hc.2)), ho]
    rfl
  · rw [stance, hp, ho]
    rfl

/-- An event that is neither a move nor a deletion of the track. -/
theorem stance_other {ev : Event} (hmove : ev.move? sha = none)
    (hdel : ∀ ts, ev ≠ .delete .track sha ts) :
    (db.apply relpath now ev).stance sha = db.stance sha := by
  cases ev with
  | play ts kind track playedMs =>
    dsimp only [apply, play, insertPlay]
    split <;> rfl
  | like unit id liked ts =>
    dsimp only [apply, upsertLike]
    split
    · split <;> rfl
    · rfl
  | pin unit id pinned ts =>
    dsimp only [apply]
    split
    · rfl
    · apply stance_pin_ne
      rintro rfl rfl
      rw [Event.move?, if_pos rfl] at hmove
      cases hmove
  | unsync unit id ts =>
    cases unit with
    | album => rfl
    | track =>
      have hne : id ≠ sha := by
        intro he
        rw [Event.move?, if_pos he] at hmove
        cases hmove
      have hkey : ((.track, sha) : ItemUnit × Text) ≠ (.track, id) := by
        simpa using Ne.symm hne
      dsimp only [apply, unsync, putUnsync, clearPin]
      split
      · rfl
      · simp only [stance]
        cases hr : db.pins.get? (.track, id) <;>
          simp only [Table.get?_put_ne _ _ (Ne.symm hne), Table.get?_put_ne _ _ hkey]
  | delete unit id ts =>
    cases unit with
    | album => rfl
    | track =>
      have hne : sha ≠ id := by
        rintro rfl
        exact hdel ts rfl
      apply stance_companions
      exact companions_deleteTracks (trackSatisfies_deleteTrack hne)

/-- A pin leaves the blacklist alone. -/
theorem trackBlacklist_pin (db : Db) (unit : ItemUnit) (id : Text) (pinned : Bool) (ts : Int) :
    (db.pin unit id pinned ts).trackBlacklist = db.trackBlacklist := by
  have hu : ∀ row, (db.upsertPin unit id row).trackBlacklist = db.trackBlacklist := by
    intro row
    unfold upsertPin
    split
    · split <;> rfl
    · rfl
  unfold pin
  dsimp only
  split
  · unfold dropUnsync
    split <;> exact hu _
  · exact hu _

/-- The blacklist changes by deletions alone. -/
theorem trackBlacklist_apply {ev : Event} (hdel : ∀ id ts, ev ≠ .delete .track id ts) :
    (db.apply relpath now ev).trackBlacklist = db.trackBlacklist := by
  cases ev with
  | play ts kind track playedMs =>
    dsimp only [apply, play, insertPlay]
    split <;> rfl
  | like unit id liked ts =>
    dsimp only [apply, upsertLike]
    split
    · split <;> rfl
    · rfl
  | pin unit id pinned ts =>
    dsimp only [apply]
    split
    · rfl
    · exact trackBlacklist_pin ..
  | unsync unit id ts =>
    cases unit with
    | album => rfl
    | track =>
      dsimp only [apply, unsync, putUnsync, clearPin]
      split
      · rfl
      · split <;> rfl
  | delete unit id ts =>
    cases unit with
    | album => rfl
    | track => exact absurd rfl (hdel id ts)

/-- Only a deletion puts a track on the blacklist. -/
theorem isBlacklisted_apply {ev : Event} (hdel : ∀ ts, ev ≠ .delete .track sha ts) :
    (db.apply relpath now ev).isBlacklisted sha = db.isBlacklisted sha := by
  by_cases hother : ∃ id ts, ev = .delete .track id ts
  · obtain ⟨id, ts, rfl⟩ := hother
    have hne : sha ≠ id := by
      rintro rfl
      exact hdel ts rfl
    exact congrArg Option.isSome (Table.get?_put_ne _ _ hne)
  · rw [isBlacklisted, trackBlacklist_apply fun id ts he ↦ hother ⟨id, ts, he⟩]
    rfl

/-- A stale pin event that lifts no override does nothing. -/
theorem pin_stale {pinned : Bool} {ts : Int} (hs : (db.stance sha).stale ts = true)
    (ho : pinned = true → (db.stance sha).override = false) :
    db.pin .track sha pinned ts = db := by
  obtain ⟨r, hr, hlt⟩ := stale_stance.mp hs
  have hup : db.upsertPin .track sha ⟨pinned, ts, isoMillis ts⟩ = db := by
    simp only [upsertPin, hr]
    exact if_neg (Int.not_le.mpr hlt)
  unfold pin
  dsimp only
  rw [hup]
  split
  · next hc =>
    have hnone : db.unsyncOverrides.get? sha = none := by
      simpa [stance] using ho hc.1
    simp only [dropUnsync, hnone]
  · rfl

end Stance

end Db

/-! ### What a history ingested about a track -/

/-- The moves of a track that a line is. -/
def LogEntry.move? (jsonLoadb : Text → Option Json) (sha : Sha) (e : LogEntry) : Option Move :=
  (lineEvent jsonLoadb e.kind e.now e.line).bind (Event.move? sha)

/-- The moves of a track that a history ingested, in their order. -/
def movesOf (jsonLoadb : Text → Option Json) (sha : Sha) (log : List LogEntry) : List Move :=
  log.filterMap (LogEntry.move? jsonLoadb sha)

section Replay

variable {jsonLoadb : Text → Option Json} {sha : Sha} {log : List LogEntry} {db : Db}

/-- No line deletes the track. -/
def NotDeleted (jsonLoadb : Text → Option Json) (sha : Sha) (log : List LogEntry) : Prop :=
  ∀ e ∈ log, ∀ ts, lineEvent jsonLoadb e.kind e.now e.line ≠ some (.delete .track sha ts)

/-- A line that is handled moves the stance as its event does, and deletes nothing. -/
theorem stance_applyLine {e : LogEntry} (hb : db.isBlacklisted sha = false) :
    (∀ ts, lineEvent jsonLoadb e.kind e.now e.line ≠ some (.delete .track sha ts)) →
    (db.applyLine jsonLoadb e.kind e.relpath e.now e.line).stance sha =
      (db.stance sha).run (e.move? jsonLoadb sha).toList ∧
    (db.applyLine jsonLoadb e.kind e.relpath e.now e.line).isBlacklisted sha = false := by
  intro hdel
  unfold Db.applyLine LogEntry.move?
  cases hline : lineEvent jsonLoadb e.kind e.now e.line with
  | none => exact ⟨rfl, hb⟩
  | some ev =>
    have hdel : ∀ ts, ev ≠ .delete .track sha ts := by
      rintro ts rfl
      exact hdel ts hline
    refine ⟨?_, (Db.isBlacklisted_apply hdel).trans hb⟩
    rw [Option.bind_some]
    cases hm : ev.move? sha with
    | none => exact Db.stance_other hm hdel
    | some m =>
      have hts := ts_of_lineEvent hline
      rw [event_of_move? hm] at hts ⊢
      obtain ⟨wish, ts⟩ := m
      cases wish with
      | pin pinned =>
        show (if _ then db else db.pin .track sha pinned ts).stance sha = _
        rw [if_neg fun h ↦ (by rw [hb] at h; cases h.2)]
        exact Db.stance_pin db sha pinned ts
      | unsync =>
        apply Db.stance_unsync
        have hplausible := of_decide_eq_true hts
        have hmin : ingestTsMinMs ≤ ts := hplausible.1
        unfold ingestTsMinMs at hmin
        omega

/-- A replay moves a track as the lines about it say. -/
theorem stance_replay (hb : db.isBlacklisted sha = false) (hs : NotDeleted jsonLoadb sha log) :
    (replay jsonLoadb log db).stance sha = (db.stance sha).run (movesOf jsonLoadb sha log) ∧
      (replay jsonLoadb log db).isBlacklisted sha = false := by
  induction log generalizing db with
  | nil => exact ⟨rfl, hb⟩
  | cons e log ih =>
    obtain ⟨hstance, hb'⟩ := stance_applyLine hb (hs e (List.mem_cons_self ..))
    obtain ⟨hrest, hb''⟩ := ih hb' fun e' he' ↦ hs e' (List.mem_cons_of_mem _ he')
    refine ⟨hrest.trans ?_, hb''⟩
    rw [hstance, movesOf, movesOf, List.filterMap_cons]
    cases e.move? jsonLoadb sha <;> rfl

end Replay

/-! ### Histories -/

/-- A line that is one event about a track at any time from `t₀` on. -/
structure MoveLine (jsonLoadb : Text → Option Json) (sha : Sha) (t₀ : Int) where
  text : Text
  move : Move
  one : newline ∉ text
  short : text.length ≤ jsonlMaxLine
  parses : ∀ now, t₀ ≤ now →
    lineEvent jsonLoadb (move.event sha).kind now text = some (move.event sha)

/-- What a history ingested about a track: the events `ms`, in some order and from whatever
logs, among other lines, none of which deletes the track. -/
structure CarriesMoves (jsonLoadb : Text → Option Json) (sha : Sha) (ms : List Move)
    (log : List LogEntry) : Prop where
  moves : (movesOf jsonLoadb sha log).Perm ms
  spared : NotDeleted jsonLoadb sha log

/-- A track that no event was about. -/
structure Db.Untouched (db : Db) (sha : Sha) : Prop where
  clean : db.stance sha = .clean
  admitted : db.isBlacklisted sha = false

/-- Events about a track converge: the newest of them decides where any history that ingests
them leaves the track, and a pin event that is older than the row changes nothing. -/
def PinsConverge (jsonLoadb : Text → Option Json) (metaDir : Path) (sha : Sha) (ms : List Move) :
    Prop :=
  ∀ (d : Desk) (steps : List DeskStep) (log : List LogEntry), d.machine.db.Untouched sha →
    d.Explains jsonLoadb metaDir steps log → CarriesMoves jsonLoadb sha ms log →
    (∀ m, Lww.Newest Move.ts ms m →
      ((d.after jsonLoadb metaDir steps).machine.db.stance sha).pair = m.wish.verdict) ∧
    ∀ before e after pinned ts, log = before ++ e :: after →
      lineEvent jsonLoadb e.kind e.now e.line = some (.pin .track sha pinned ts) →
      ((replay jsonLoadb before d.machine.db).stance sha).stale ts = true →
      (replay jsonLoadb before d.machine.db).applyLine jsonLoadb e.kind e.relpath e.now e.line =
        replay jsonLoadb before d.machine.db

section Histories

variable {jsonLoadb : Text → Option Json} {metaDir : Path} {sha : Sha} {t₀ : Int}

/-- Moves that settle in any order converge, in whatever files and batches they come. -/
theorem Orderless.pinsConverge {ms : List Move} (h : Orderless ms) :
    PinsConverge jsonLoadb metaDir sha ms := by
  intro d steps log hd hexpl hc
  have hsettles := h _ hc.moves
  constructor
  · intro m hm
    rw [hexpl.replayed]
    show ((replay jsonLoadb log d.machine.db).stance sha).pair = _
    rw [(stance_replay hd.admitted hc.spared).1, hd.clean]
    exact hsettles.decides m (hm.perm hc.moves)
  · intro before e after pinned ts hlog hline hs
    have hspared : NotDeleted jsonLoadb sha before := by
      intro e' he'
      apply hc.spared e'
      rw [hlog]
      exact List.mem_append_left _ he'
    obtain ⟨hstance, hb⟩ := stance_replay hd.admitted hspared
    rw [hd.clean] at hstance
    have hmove : e.move? jsonLoadb sha = some ⟨.pin pinned, ts⟩ := by
      rw [LogEntry.move?, hline]
      exact if_pos rfl
    have hmoves : movesOf jsonLoadb sha log = movesOf jsonLoadb sha before ++
        ⟨.pin pinned, ts⟩ :: movesOf jsonLoadb sha after := by
      rw [hlog, movesOf, List.filterMap_append, List.filterMap_cons, hmove]
      rfl
    rw [hmoves] at hsettles
    have hsame := hsettles.ignores _ _ _ _ rfl (by rw [← hstance]; exact hs)
    rw [← hstance] at hsame
    rw [Db.applyLine, hline]
    show (if _ then _ else Db.pin _ .track sha pinned ts) = _
    rw [if_neg fun h ↦ (by rw [hb] at h; cases h.2)]
    apply Db.pin_stale hs
    rintro rfl
    have ho := congrArg Stance.override hsame
    rw [override_move_pin, Bool.not_true, Bool.and_false] at ho
    exact ho.symm

/-- A log of the events of a move. -/
def moveLog (m : Move) : Path :=
  match m.wish with
  | .pin _ => [ascii "pins-phone-A.jsonl"]
  | .unsync => [ascii "actions-phone-A.jsonl"]

/-- The log of a move is one that its handler takes. -/
theorem moveLog_owned (m : Move) (sha : Sha) : (m.event sha).kind.owns (moveLog m) = true := by
  obtain ⟨wish, ts⟩ := m
  cases wish with
  | pin pinned =>
    show FileKind.pins.owns [ascii "pins-phone-A.jsonl"] = true
    decide
  | unsync =>
    show FileKind.actions.owns [ascii "actions-phone-A.jsonl"] = true
    decide

/-- The lines of some events, in the logs they belong to. -/
def moveLines (E : List (MoveLine jsonLoadb sha t₀)) : List (FileKind × Path × Text) :=
  E.map fun e ↦ ((e.move.event sha).kind, moveLog e.move, e.text)

/-- Each line of a list of moves can be delivered. -/
theorem deliverable_moveLines (E : List (MoveLine jsonLoadb sha t₀)) :
    ∀ l ∈ moveLines E, Deliverable l.1 l.2.1 l.2.2 := by
  intro l hl
  obtain ⟨e, -, rfl⟩ := List.mem_map.mp hl
  exact ⟨moveLog_owned e.move sha, e.one, e.short⟩

/-- The entry that a delivered line becomes. -/
def MoveLine.entry (e : MoveLine jsonLoadb sha t₀) : LogEntry :=
  ⟨moveLog e.move, (e.move.event sha).kind, t₀, e.text⟩

/-- The line of a move holds its event. -/
theorem MoveLine.line (e : MoveLine jsonLoadb sha t₀) :
    lineEvent jsonLoadb e.entry.kind e.entry.now e.entry.line = some (e.move.event sha) :=
  e.parses t₀ (Int.le_refl _)

/-- The entry of a move is read as the move. -/
theorem move?_entry (e : MoveLine jsonLoadb sha t₀) :
    e.entry.move? jsonLoadb sha = some e.move := by
  rw [LogEntry.move?, e.line]
  exact move?_event sha e.move

/-- The entries of moves are read as the moves. -/
theorem movesOf_entries (E : List (MoveLine jsonLoadb sha t₀)) :
    movesOf jsonLoadb sha (E.map MoveLine.entry) = E.map MoveLine.move := by
  rw [movesOf, List.filterMap_map]
  induction E with
  | nil => rfl
  | cons e E ih =>
    rw [List.filterMap_cons, Function.comp_apply, move?_entry, ih]
    rfl

/-- Moves delete no track. -/
theorem notDeleted_entries (E : List (MoveLine jsonLoadb sha t₀)) :
    NotDeleted jsonLoadb sha (E.map MoveLine.entry) := by
  intro e he ts hdel
  obtain ⟨e, -, rfl⟩ := List.mem_map.mp he
  rw [e.line] at hdel
  exact event_ne_delete e.move sha ts (Option.some.inj hdel)

/-- The empty database has nothing of a track. -/
theorem untouched_empty (sha : Sha) : Db.empty.Untouched sha := ⟨rfl, rfl⟩

/-- Converging events settle in every order: each order is delivered. -/
theorem PinsConverge.orderless (hmeta : metaDir ≠ []) {E : List (MoveLine jsonLoadb sha t₀)}
    (h : PinsConverge jsonLoadb metaDir sha (E.map MoveLine.move)) :
    Orderless (E.map MoveLine.move) := by
  intro ms' hp
  obtain ⟨E', hperm, rfl⟩ := exists_perm_map hp
  have hexpl := @deliver_fresh jsonLoadb metaDir hmeta t₀ _ (deliverable_moveLines E')
  have hentries : ((moveLines E').map fun l ↦ (⟨l.2.1, l.1, t₀, l.2.2⟩ : LogEntry)) =
      E'.map MoveLine.entry := by
    rw [moveLines, List.map_map]
    rfl
  rw [hentries] at hexpl
  have hcarries : CarriesMoves jsonLoadb sha (E.map MoveLine.move) (E'.map MoveLine.entry) := by
    refine ⟨?_, notDeleted_entries E'⟩
    rw [movesOf_entries]
    exact hp
  obtain ⟨hdecides, hignores⟩ := h .fresh _ _ (untouched_empty sha) hexpl hcarries
  have hstance : ∀ E'' : List (MoveLine jsonLoadb sha t₀),
      (replay jsonLoadb (E''.map MoveLine.entry) Db.empty).stance sha =
        Stance.clean.run (E''.map MoveLine.move) := by
    intro E''
    rw [(stance_replay (untouched_empty sha).admitted (notDeleted_entries E'')).1, movesOf_entries]
    rfl
  constructor
  · intro m hm
    have hpair := hdecides m (hm.perm hp.symm)
    rw [hexpl.replayed] at hpair
    rw [← hstance E']
    exact hpair
  · intro before pinned ts after he hs
    obtain ⟨E₁, E₂, rfl, rfl, hE₂⟩ := List.map_eq_append_iff.mp he
    obtain ⟨e, E₃, rfl, hmove, rfl⟩ := List.map_eq_cons_iff.mp hE₂
    have hline := e.line
    rw [hmove] at hline
    rw [← hstance E₁] at hs ⊢
    have hsame := hignores (E₁.map MoveLine.entry) e.entry (E₃.map MoveLine.entry) pinned ts
      (by rw [List.map_append, List.map_cons]) hline hs
    have happly := (@stance_applyLine jsonLoadb sha (replay jsonLoadb (E₁.map MoveLine.entry) .empty)
      e.entry (stance_replay (untouched_empty sha).admitted (notDeleted_entries E₁)).2
      (fun ts' hdel ↦ (by rw [hline] at hdel; cases hdel))).1
    rw [move?_entry, hmove] at happly
    exact (happly.symm.trans (congrArg (fun db ↦ Db.stance db sha) hsame))

end Histories

/-- Events about a track, with different stamps, converge exactly when there is no unsync among
them; or an unsync is the newest and none pins the track; or a pin is the newest, no unpin is
newer than a pin, and no unsync is newer than two pins. -/
theorem pins_converge_iff {jsonLoadb : Text → Option Json} {metaDir : Path} {sha : Sha} {t₀ : Int}
    (hmeta : metaDir ≠ []) (E : List (MoveLine jsonLoadb sha t₀))
    (hn : ((E.map MoveLine.move).map Move.ts).Nodup) :
    PinsConverge jsonLoadb metaDir sha (E.map MoveLine.move) ↔ Unharmed (E.map MoveLine.move) :=
  ⟨fun h ↦ (h.orderless hmeta).unharmed hn, fun h ↦ ((orderless_iff hn).mpr h).pinsConverge⟩

namespace LatePin

/-- The `n`-th millisecond of the events below. -/
def stamp (n : Fin 3) : Int := 1600000000000 + n.val

/-- The last member of an event. -/
def wishMember : Wish → Text × JsonValue
  | .pin pinned => (ascii "pinned", .boolean pinned)
  | .unsync => (ascii "action", .string (ascii "unsync"))

/-- A pin, an unpin or an unsync of a track. -/
def root (wish : Wish) (n : Fin 3) : List (Text × JsonValue) :=
  [(ascii "v", .integer 1), (ascii "ts", .integer (stamp n)), (ascii "unit", .string (ascii "track")),
    (ascii "id", .string LostOffset.sha), wishMember wish]

/-- Each event below is about the track, at its own time. -/
theorem item (wish : Wish) (n : Fin 3) {now : Int} (h : 1600000000002 ≤ now) :
    itemOf now (root wish n) = some (.track, LostOffset.sha, stamp n) := by
  have hts : tsPlausible now (stamp n) = true := by
    rw [tsPlausible, ingestTsMinMs, stamp, decide_eq_true_iff]
    omega
  exact itemOf_eq_some rfl rfl rfl rfl rfl ⟨hts, by decide, fun _ ↦ by decide⟩

/-- The lines below are read back as what they were printed from. -/
theorem read (wish : Wish) (n : Fin 3) :
    readObject (dumpObject (root wish n)) = some (.object (root wish n)) := by
  apply readObject_dumpObject
  cases wish with
  | pin pinned =>
    revert pinned n
    decide +kernel
  | unsync =>
    revert n
    decide +kernel

/-- The event of a line. -/
def event (wish : Wish) (n : Fin 3) : MoveLine readObject LostOffset.sha 1600000000002 where
  text := dumpObject (root wish n)
  move := ⟨wish, stamp n⟩
  one := newline_notMem_dumpObject _
  short := by
    cases wish with
    | pin pinned =>
      revert pinned n
      decide +kernel
    | unsync =>
      revert n
      decide +kernel
  parses now h := by
    rw [lineEvent, if_neg (dumpObject_ne_nil _), read]
    cases wish with
    | pin pinned =>
      show (itemOf now (root (.pin pinned) n)).bind _ = _
      rw [item _ n h]
      rfl
    | unsync =>
      show (itemOf now (root .unsync n)).bind _ = _
      rw [item _ n h]
      rfl

/-- A pin of a track, and a later unsync of it. -/
def harmful : List (MoveLine readObject LostOffset.sha 1600000000002) :=
  [event (.pin true) ⟨0, by decide⟩, event .unsync ⟨1, by decide⟩]

/-- A pin behind an unpin and an unsync. -/
def settled : List (MoveLine readObject LostOffset.sha 1600000000002) :=
  [event (.pin false) ⟨0, by decide⟩, event .unsync ⟨1, by decide⟩,
    event (.pin true) ⟨2, by decide⟩]

end LatePin

/-- A pin that is ingested after a newer unsync undoes it. -/
theorem late_pin_wins : ¬ PinsConverge readObject LostOffset.metaDir LostOffset.sha
    (LatePin.harmful.map MoveLine.move) := by
  intro h
  have hlate := (h.orderless (by decide) [⟨.unsync, 1600000000001⟩, ⟨.pin true, 1600000000000⟩]
    (List.Perm.swap _ _ _)).decides ⟨.unsync, 1600000000001⟩ ⟨by decide, by decide⟩
  revert hlate
  decide

/-- Events whose last one is the only pin converge. -/
theorem last_pin_converges : PinsConverge readObject LostOffset.metaDir LostOffset.sha
    (LatePin.settled.map MoveLine.move) := by
  apply (pins_converge_iff (by decide) LatePin.settled (by decide)).mpr
  apply Unharmed.pinned ⟨.pin true, 1600000000002⟩ ⟨by decide, by decide⟩ rfl
  · intro ts ts' hpin hunpin
    simp [LatePin.settled, LatePin.event, LatePin.stamp] at hpin hunpin
    omega
  · intro ts ts' ts'' hpin hpin' _ hlt
    simp [LatePin.settled, LatePin.event, LatePin.stamp] at hpin hpin'
    omega

end Nocturne
