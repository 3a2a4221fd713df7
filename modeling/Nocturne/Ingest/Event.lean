import Mathlib.Data.Option.Basic
import Nocturne.Db

/-!
# Events of the phone

What the lines of the event logs say, and what one event means for the database. The parser
of a line belongs to the JSON library; what the handlers look at of its result is `Json`.
Validation decides whether a parsed line is an event at all, and `Db.apply` is the effect of
an event.
-/

namespace Nocturne

open Lib

/-! ### Times -/

/-- The last `width` decimal digits of a number. -/
def digits (width n : Nat) : Text :=
  (List.range width).reverse.map fun i ↦ (48 + n / 10 ^ i % 10).toUInt8

/-- `gmtime`: year, month and day of a day counted from 1970-01-01. -/
def civilOfDays (days : Int) : Nat × Nat × Nat :=
  let z := days + 719468
  let era := z / 146097
  let doe := z % 146097
  let yoe := (doe - doe / 1460 + doe / 36524 - doe / 146096) / 365
  let doy := doe - (365 * yoe + yoe / 4 - yoe / 100)
  let mp := (5 * doy + 2) / 153
  let day := doy - (153 * mp + 2) / 5 + 1
  let month := if mp < 10 then mp + 3 else mp - 9
  let year := yoe + era * 400 + if month ≤ 2 then 1 else 0
  (year.toNat, month.toNat, day.toNat)

/-- `%Y-%m-%dT%H:%M:%S` of a time in seconds. -/
def isoDateTime (secs : Int) : Text :=
  let (year, month, day) := civilOfDays (secs / 86400)
  let s := (secs % 86400).toNat
  digits 4 year ++ ascii "-" ++ digits 2 month ++ ascii "-" ++ digits 2 day ++ ascii "T" ++
    digits 2 (s / 3600) ++ ascii ":" ++ digits 2 (s / 60 % 60) ++ ascii ":" ++ digits 2 (s % 60)

/-- `%Y-%m-%dT%H:%M:%fZ` of a time in milliseconds. -/
def isoMillis (ms : Int) : Text :=
  isoDateTime (ms / 1000) ++ ascii "." ++ digits 3 (ms % 1000).toNat ++ ascii "Z"

/-- `iso_now_buf`, `actions.c:51–57`, at a time in milliseconds. -/
def isoNow (now : Int) : Text := isoDateTime (now / 1000) ++ ascii "Z"

example : isoMillis 1577836800042 = ascii "2020-01-01T00:00:00.042Z" := by decide +kernel

/-- `INGEST_TS_MIN_MS`, `ingest.c:64`. -/
def ingestTsMinMs : Int := 1577836800000

/-- `ts_plausible`, `ingest.c:74–79`. -/
def tsPlausible (now ts : Int) : Bool := decide (ingestTsMinMs ≤ ts ∧ ts ≤ now + 86400000)

/-! ### Parsed lines -/

/-- A member of a JSON object, as far as the handlers look at it. -/
inductive JsonValue where
  | integer (n : Int)
  | string (s : Text)
  | boolean (b : Bool)
  | other
  deriving DecidableEq, Repr

/-- A parsed line. -/
inductive Json where
  | object (members : List (Text × JsonValue))
  | other
  deriving DecidableEq, Repr

/-- `json_object_get`, `json_is_integer` and `json_integer_value`. -/
def integerAt (root : List (Text × JsonValue)) (key : Text) : Option Int :=
  match root.lookup key with
  | some (.integer n) => some n
  | _ => none

/-- `json_object_get`, `json_is_string` and `json_string_value`. -/
def stringAt (root : List (Text × JsonValue)) (key : Text) : Option Text :=
  match root.lookup key with
  | some (.string s) => some s
  | _ => none

/-- `json_object_get`, `json_is_boolean` and `json_is_true`. -/
def booleanAt (root : List (Text × JsonValue)) (key : Text) : Option Bool :=
  match root.lookup key with
  | some (.boolean b) => some b
  | _ => none

/-- `is_sha256_hex`, `ingest.c:83–94`. -/
def isSha256Hex (s : Text) : Bool :=
  s.length == 64 && s.all fun c ↦ (48 ≤ c && c ≤ 57) || (97 ≤ c && c ≤ 102)

/-- The values of `unit` that the handlers accept. -/
def unitOf (unit : Text) : Option ItemUnit :=
  if unit = ascii "track" then some .track
  else if unit = ascii "album" then some .album
  else none

/-! ### Events -/

/-- A line that passed the checks of its handler. -/
inductive Event where
  | play (ts : Int) (kind : Text) (track : Sha) (playedMs : Int)
  | like (unit : ItemUnit) (id : Text) (liked : Bool) (ts : Int)
  | pin (unit : ItemUnit) (id : Text) (pinned : Bool) (ts : Int)
  | unsync (unit : ItemUnit) (id : Text) (ts : Int)
  | delete (unit : ItemUnit) (id : Text) (ts : Int)
  deriving DecidableEq, Repr

/-- The `ts` of an event. -/
def Event.ts : Event → Int
  | play ts _ _ _ => ts
  | like _ _ _ ts => ts
  | pin _ _ _ ts => ts
  | unsync _ _ ts => ts
  | delete _ _ ts => ts

/-- The kind of a log, `enum file_kind`, selects the handler. -/
inductive FileKind where
  | stats
  | likes
  | pins
  | actions
  deriving DecidableEq, Repr

/-- The checks of `handle_play`, `ingest.c:263–340`. -/
def playEvent (now : Int) (root : List (Text × JsonValue)) : Option Event := do
  let v ← integerAt root (ascii "v")
  let ts ← integerAt root (ascii "ts")
  let kind ← stringAt root (ascii "kind")
  let track ← stringAt root (ascii "track")
  let playedMs ← integerAt root (ascii "played_ms")
  guard (v = 1 ∧ tsPlausible now ts ∧ (kind = ascii "play" ∨ kind = ascii "skip") ∧
    isSha256Hex track ∧ 0 ≤ playedMs)
  return .play ts kind track playedMs

/-- The checks that `handle_like`, `handle_pin` and `handle_action` share: unit, id
and `ts`. -/
def itemOf (now : Int) (root : List (Text × JsonValue)) : Option (ItemUnit × Text × Int) := do
  let v ← integerAt root (ascii "v")
  let ts ← integerAt root (ascii "ts")
  let unit ← (← stringAt root (ascii "unit")) |> unitOf
  let id ← stringAt root (ascii "id")
  guard (v = 1 ∧ tsPlausible now ts ∧ id ≠ [] ∧ (unit = .track → isSha256Hex id))
  return (unit, id, ts)

/-- The checks of `handle_like`, `ingest.c:342–391`. -/
def likeEvent (now : Int) (root : List (Text × JsonValue)) : Option Event := do
  let (unit, id, ts) ← itemOf now root
  let liked ← booleanAt root (ascii "liked")
  return .like unit id liked ts

/-- The checks of `handle_pin`, `ingest.c:487–582`. -/
def pinEvent (now : Int) (root : List (Text × JsonValue)) : Option Event := do
  let (unit, id, ts) ← itemOf now root
  let pinned ← booleanAt root (ascii "pinned")
  return .pin unit id pinned ts

/-- The checks of `handle_action`, `ingest.c:406–485`. -/
def actionEvent (now : Int) (root : List (Text × JsonValue)) : Option Event := do
  let (unit, id, ts) ← itemOf now root
  let action ← stringAt root (ascii "action")
  if action = ascii "unsync" then return .unsync unit id ts
  else if action = ascii "delete" then return .delete unit id ts
  else none

/-- The event that a parsed line of a log is, if any. -/
def eventOf (kind : FileKind) (now : Int) (root : List (Text × JsonValue)) : Option Event :=
  match kind with
  | .stats => playEvent now root
  | .likes => likeEvent now root
  | .pins => pinEvent now root
  | .actions => actionEvent now root

/-- The log that an event stands in. -/
def Event.kind : Event → FileKind
  | .play .. => .stats
  | .like .. => .likes
  | .pin .. => .pins
  | .unsync .. => .actions
  | .delete .. => .actions

/-- An event of a file is of the kind of the file. -/
theorem eventOf_kind {kind : FileKind} {now : Int} {root : List (Text × JsonValue)} {ev : Event}
    (h : eventOf kind now root = some ev) : ev.kind = kind := by
  cases kind with
  | stats =>
    simp only [eventOf, playEvent, Option.bind_eq_bind, Option.bind_eq_some_iff] at h
    obtain ⟨_, -, _, -, _, -, _, -, _, -, _, -, he⟩ := h
    cases he
    rfl
  | likes =>
    simp only [eventOf, likeEvent, Option.bind_eq_bind, Option.bind_eq_some_iff] at h
    obtain ⟨_, -, _, -, he⟩ := h
    cases he
    rfl
  | pins =>
    simp only [eventOf, pinEvent, Option.bind_eq_bind, Option.bind_eq_some_iff] at h
    obtain ⟨_, -, _, -, he⟩ := h
    cases he
    rfl
  | actions =>
    simp only [eventOf, actionEvent, Option.bind_eq_bind, Option.bind_eq_some_iff] at h
    obtain ⟨_, -, _, -, he⟩ := h
    split at he
    · cases he
      rfl
    · split at he
      · cases he
        rfl
      · cases he

/-- What the shared checks accept. -/
theorem itemOf_eq_some {now ts : Int} {root : List (Text × JsonValue)} {s id : Text}
    {unit : ItemUnit} (hv : integerAt root (ascii "v") = some 1)
    (hts : integerAt root (ascii "ts") = some ts) (hs : stringAt root (ascii "unit") = some s)
    (hunit : unitOf s = some unit) (hid : stringAt root (ascii "id") = some id)
    (h : tsPlausible now ts = true ∧ id ≠ [] ∧ (unit = .track → isSha256Hex id = true)) :
    itemOf now root = some (unit, id, ts) := by
  simp only [itemOf, hv, hts, hs, hid, hunit, Option.bind_eq_bind, Option.bind_some, guard]
  rw [if_pos ⟨trivial, h⟩]
  rfl

theorem of_guard {p : Prop} [Decidable p] {u : Unit} (h : (guard p : Option Unit) = some u) : p := by
  by_contra hp
  rw [guard, if_neg hp] at h
  cases h

/-- An item that is read has a plausible time. -/
theorem ts_of_itemOf {now : Int} {root : List (Text × JsonValue)} {r : ItemUnit × Text × Int}
    (h : itemOf now root = some r) : tsPlausible now r.2.2 = true := by
  simp only [itemOf, Option.bind_eq_bind, Option.bind_eq_some_iff] at h
  obtain ⟨v, -, ts, -, s, -, unit, -, id, -, u, hg, he⟩ := h
  cases he
  exact (of_guard hg).2.1

/-- The handlers check `ts`. -/
theorem ts_of_eventOf {kind : FileKind} {now : Int} {root : List (Text × JsonValue)} {ev : Event}
    (h : eventOf kind now root = some ev) : tsPlausible now ev.ts = true := by
  cases kind with
  | stats =>
    simp only [eventOf, playEvent, Option.bind_eq_bind, Option.bind_eq_some_iff] at h
    obtain ⟨_, -, _, -, _, -, _, -, _, -, _, hg, he⟩ := h
    cases he
    exact (of_guard hg).2.1
  | likes =>
    simp only [eventOf, likeEvent, Option.bind_eq_bind, Option.bind_eq_some_iff] at h
    obtain ⟨r, hr, _, -, he⟩ := h
    cases he
    exact ts_of_itemOf hr
  | pins =>
    simp only [eventOf, pinEvent, Option.bind_eq_bind, Option.bind_eq_some_iff] at h
    obtain ⟨r, hr, _, -, he⟩ := h
    cases he
    exact ts_of_itemOf hr
  | actions =>
    simp only [eventOf, actionEvent, Option.bind_eq_bind, Option.bind_eq_some_iff] at h
    obtain ⟨r, hr, _, -, he⟩ := h
    split at he
    · cases he
      exact ts_of_itemOf hr
    · split at he
      · cases he
        exact ts_of_itemOf hr
      · cases he
/-- `src_from_relpath`, `ingest.c:223–239`: the file's name without `.jsonl`. -/
def srcFromRelpath (relpath : Path) : Text :=
  let base := relpath.getLastD []
  let ext := ascii ".jsonl"
  if ext.length < base.length ∧ ext <:+ base then base.take (base.length - ext.length) else base

/-- The row that `handle_play` inserts. -/
def playRow (relpath : Path) (ts : Int) (kind : Text) (track : Sha) (playedMs : Int) : PlayRow where
  sha256 := track
  playedAt := isoMillis ts
  playedMs := playedMs
  isSkip := kind == ascii "skip"
  src := srcFromRelpath relpath
  ts := ts
  eventKind := kind
  sourcePath := relpath

/-- The reason that `delete_track_everywhere` gives. -/
def didntLike : Text := ascii "didnt_like"

namespace Db

/-- The effect of a play: none where the track is unknown. -/
def play (db : Db) (row : PlayRow) : Db := (db.insertPlay row).getD db

/-- A play of a known track is added. -/
theorem play_of_known {db : Db} {row : PlayRow} (h : (db.tracks.get? row.sha256).isSome = true) :
    db.play row = { db with plays := db.plays ++ [row] } := by
  rw [play, insertPlay, if_pos h]
  rfl

/-- Override a pin: the pin is cleared and the override put. -/
def unsync (db : Db) (sha : Sha) (iso : Text) : Db := (db.clearPin sha iso).putUnsync sha iso

/-- A pin event that is not refused: a new pin of a track lifts its override. -/
def pin (db : Db) (unit : ItemUnit) (id : Text) (pinned : Bool) (ts : Int) : Db :=
  let db := db.upsertPin unit id ⟨pinned, ts, isoMillis ts⟩
  if pinned = true ∧ unit = .track then db.dropUnsync id else db

/-- The effect of one event, seen at the time `now` in the log `relpath`. A play of an unknown
track, a pin of a blacklisted track, an override older than the pin and every action on an
album have none. -/
def apply (relpath : Path) (now : Int) (db : Db) : Event → Db
  | .play ts kind track playedMs => db.play (playRow relpath ts kind track playedMs)
  | .like unit id liked ts => db.upsertLike unit id ⟨liked, ts⟩
  | .pin unit id pinned ts =>
    if unit = .track ∧ db.isBlacklisted id = true then db else db.pin unit id pinned ts
  | .unsync .track id ts => if ts < (db.pinTs id).getD 0 then db else db.unsync id (isoNow now)
  | .delete .track id _ => (db.putBlacklist id didntLike (isoNow now)).deleteTrack id
  | .unsync .album _ _ => db
  | .delete .album _ _ => db

/-- A database with the offsets of another one. -/
def withOffsets (db db' : Db) : Db := { db with ingestOffsets := db'.ingestOffsets }

/-- A statement that neither looks at the offsets nor changes them. -/
def Blind (f : Db → Db) : Prop := ∀ db db', f (db.withOffsets db') = (f db).withOffsets db'

/-- What is blind to the offsets leaves them as they are. -/
theorem Blind.ingestOffsets {f : Db → Db} (h : Blind f) (db : Db) :
    (f db).ingestOffsets = db.ingestOffsets := by
  have he := congrArg Db.ingestOffsets (h db db)
  exact he

theorem Blind.comp {f g : Db → Db} (hg : Blind g) (hf : Blind f) : Blind fun db ↦ g (f db) := by
  intro db db'
  show g (f (db.withOffsets db')) = _
  rw [hf, hg]

/-- Adding a play is blind to the offsets. -/
theorem blind_play (row : PlayRow) : Blind fun db ↦ db.play row := by
  intro db db'
  dsimp only [play, insertPlay]
  by_cases h : (db.tracks.get? row.sha256).isSome = true
  · rw [if_pos h, if_pos (show ((db.withOffsets db').tracks.get? _).isSome = true from h)]
    rfl
  · rw [if_neg h, if_neg (show ¬ ((db.withOffsets db').tracks.get? _).isSome = true from h)]
    rfl

theorem blind_upsertLike (unit : ItemUnit) (id : Text) (row : LikeRow) :
    Blind fun db ↦ db.upsertLike unit id row := by
  intro db db'
  simp only [upsertLike, withOffsets]
  cases db.likes.get? (unit, id) with
  | none => rfl
  | some old =>
    dsimp only
    split <;> rfl

theorem blind_upsertPin (unit : ItemUnit) (id : Text) (row : PinRow) :
    Blind fun db ↦ db.upsertPin unit id row := by
  intro db db'
  simp only [upsertPin, withOffsets]
  cases db.pins.get? (unit, id) with
  | none => rfl
  | some old =>
    dsimp only
    split <;> rfl

theorem blind_dropUnsync (sha : Sha) : Blind fun db ↦ db.dropUnsync sha := by
  intro db db'
  simp only [dropUnsync, withOffsets]
  cases db.unsyncOverrides.get? sha <;> rfl

theorem blind_clearPin (sha : Sha) (iso : Text) : Blind fun db ↦ db.clearPin sha iso := by
  intro db db'
  simp only [clearPin, withOffsets]
  cases db.pins.get? (.track, sha) <;> rfl

theorem blind_putUnsync (sha : Sha) (iso : Text) : Blind fun db ↦ db.putUnsync sha iso :=
  fun _ _ ↦ rfl

/-- A pin is blind to the offsets. -/
theorem blind_pin (unit : ItemUnit) (id : Text) (pinned : Bool) (ts : Int) :
    Blind fun db ↦ db.pin unit id pinned ts := by
  unfold pin
  by_cases h : pinned = true ∧ unit = .track
  · simp only [if_pos h]
    exact (blind_dropUnsync id).comp (blind_upsertPin unit id _)
  · simp only [if_neg h]
    exact blind_upsertPin unit id _

/-- A statement behind a condition on other tables. -/
theorem Blind.ite {f : Db → Db} {c : Db → Prop} [DecidablePred c] (hf : Blind f)
    (hc : ∀ db db', c (db.withOffsets db') ↔ c db) : Blind fun db ↦ if c db then db else f db := by
  intro db db'
  dsimp only
  by_cases h : c db
  · rw [if_pos h, if_pos ((hc db db').mpr h)]
  · rw [if_neg h, if_neg fun h' ↦ h ((hc db db').mp h'), hf]

/-- Events do not look at the offsets. -/
theorem blind_apply (relpath : Path) (now : Int) (ev : Event) :
    Blind fun db ↦ db.apply relpath now ev := by
  cases ev with
  | play ts kind track playedMs => exact blind_play _
  | like unit id liked ts => exact blind_upsertLike unit id _
  | pin unit id pinned ts => exact (blind_pin unit id pinned ts).ite fun _ _ ↦ Iff.rfl
  | unsync unit id ts =>
    cases unit with
    | track =>
      exact ((blind_putUnsync id _).comp (blind_clearPin id _)).ite
        (c := fun db ↦ ts < (db.pinTs id).getD 0) fun _ _ ↦ Iff.rfl
    | album => exact fun _ _ ↦ rfl
  | delete unit id ts => cases unit <;> exact fun _ _ ↦ rfl

end Db

end Nocturne
