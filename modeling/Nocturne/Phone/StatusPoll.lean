import Mathlib.Data.Int.Order.Basic
import Nocturne.Lib.Lww
import Nocturne.Phone.Downloads

/-!
# Polls of the status file

`DownloadStatusReader` reads `downloads-desktop.jsonl` from the start and hands each status line to
the table. A line that does not parse is skipped, but the accessors of an element throw where it is
no primitive, and what they throw ends the loop.
-/

namespace Nocturne

open Lib

/-- `JsonElement`, where `JsonNull` is the primitive `null`. -/
inductive JsonElement where
  | primitive (content : Text) (isString : Bool)
  | array (elements : List JsonElement)
  | object (members : List (Text × JsonElement))

/-- What the reader takes from the libraries: `isBlank`, `Json.parseToJsonElement` where it does not
throw, and `toLongOrNull`. -/
structure StatusParser where
  isBlank : Text → Bool
  parseToJsonElement : Text → Option JsonElement
  toLongOrNull : Text → Option Int

/-- The arguments of a call of `updateStatus`. -/
structure StatusLine where
  id : Text
  state : Text
  message : Option Text
  ts : Int
  deriving DecidableEq, Repr

/-- The columns of a row that a status sets. -/
structure RowStatus where
  state : Text
  message : Option Text
  ts : Int

namespace StatusPoll

/-- The exception of `jsonPrimitive`. -/
inductive Thrown where
  | illegalArgument
  deriving DecidableEq, Repr

/-! ### The reader -/

/-- `contentOrNullSafe`, `DownloadStatusReader.kt:70–71`. -/
def contentOrNullSafe (content : Text) (isString : Bool) : Option Text :=
  if isString then some content else if content = ascii "null" then none else some content

/-- `?.jsonPrimitive?.contentOrNullSafe()`. -/
def primitiveContent : Option JsonElement → Except Thrown (Option Text)
  | none => .ok none
  | some (.primitive content isString) => .ok (contentOrNullSafe content isString)
  | some _ => .error .illegalArgument

variable (k : StatusParser)

/-- `parsed`, `DownloadStatusReader.kt:51–54`. -/
def parsedObject (raw : Text) : Option (List (Text × JsonElement)) :=
  if k.isBlank raw then none
  else
    match k.parseToJsonElement raw with
    | some (.object members) => some members
    | _ => none

/-- The body of the loop up to the call of `updateStatus`, `DownloadStatusReader.kt:51–58`. -/
def readLine (raw : Text) : Except Thrown (Option StatusLine) :=
  match parsedObject k raw with
  | none => .ok none
  | some parsed => do
    match ← primitiveContent (parsed.lookup (ascii "id")) with
    | none => return none
    | some id =>
      match ← primitiveContent (parsed.lookup (ascii "state")) with
      | none => return none
      | some state =>
        let ts := ((← primitiveContent (parsed.lookup (ascii "ts"))).bind k.toLongOrNull).getD 0
        let msg ← primitiveContent (parsed.lookup (ascii "msg"))
        return some ⟨id, state, msg, ts⟩

/-- `DownloadDao.updateStatus`. -/
def updateStatus (rows : Table Text DownloadEntity) (line : StatusLine) :
    Table Text DownloadEntity :=
  (Downloads.updateStatus rows line.id line.state line.message line.ts).1

/-- The loop over the lines: the table, and how many lines were applied, when it ends or an
exception is thrown. -/
def applyLines : List Text → Table Text DownloadEntity → Table Text DownloadEntity × Nat
  | [], rows => (rows, 0)
  | raw :: lines, rows =>
    match readLine k raw with
    | .error _ => (rows, 0)
    | .ok none => applyLines lines rows
    | .ok (some line) =>
      let (rows, applied) := applyLines lines (updateStatus rows line)
      (rows, applied + 1)

/-- `BufferedReader.readLine`, with what was read of a line. -/
def linesFrom : Text → Text → List Text
  | line, [] => if line.isEmpty then [] else [line]
  | line, 13 :: 10 :: rest => line :: linesFrom [] rest
  | line, b :: rest =>
    if b = 10 ∨ b = 13 then line :: linesFrom [] rest else linesFrom (line ++ [b]) rest

/-- `poll`, `DownloadStatusReader.kt:41–68`, on the content of the file, if it can be read. -/
def poll (file : Option Text) (rows : Table Text DownloadEntity) :
    Table Text DownloadEntity × Nat :=
  match file with
  | none => (rows, 0)
  | some content => applyLines k (linesFrom [] content) rows

/-! ### Status lines -/

/-- The content of a primitive that is not `null`. -/
def nonNull : Option JsonElement → Option Text
  | some (.primitive content isString) => contentOrNullSafe content isString
  | _ => none

/-- The member is absent or a primitive. -/
def isPlain : Option JsonElement → Bool
  | none | some (.primitive _ _) => true
  | _ => false

/-- The status of a line: an object whose id and state are primitives that are not `null` and whose
time and message are primitives or absent. -/
def statusOf (raw : Text) : Option StatusLine :=
  match parsedObject k raw with
  | none => none
  | some parsed =>
    match nonNull (parsed.lookup (ascii "id")), nonNull (parsed.lookup (ascii "state")) with
    | some id, some state =>
      let ts := parsed.lookup (ascii "ts")
      let msg := parsed.lookup (ascii "msg")
      if isPlain ts && isPlain msg then
        some ⟨id, state, nonNull msg, ((nonNull ts).bind k.toLongOrNull).getD 0⟩
      else none
    | _, _ => none

/-- The line is an object, and a member of it that is asked for is no primitive: the id, the state
behind an id, or the time or the message behind both. -/
def Throws (raw : Text) : Prop :=
  ∃ parsed, parsedObject k raw = some parsed ∧
    (isPlain (parsed.lookup (ascii "id")) = false ∨
      nonNull (parsed.lookup (ascii "id")) ≠ none ∧
        (isPlain (parsed.lookup (ascii "state")) = false ∨
          nonNull (parsed.lookup (ascii "state")) ≠ none ∧
            (isPlain (parsed.lookup (ascii "ts")) = false ∨
              isPlain (parsed.lookup (ascii "msg")) = false)))

/-- A status line stands behind a line that throws. -/
def HidesStatus (lines : List Text) : Prop :=
  ∃ before raw after, lines = before ++ raw :: after ∧ Throws k raw ∧
    ∃ line ∈ after, statusOf k line ≠ none

/-- A poll applies the status lines of the file, in their order, and the same poll once more changes
nothing. -/
def Tolerates (content : Text) (rows : Table Text DownloadEntity) : Prop :=
  let statuses := (linesFrom [] content).filterMap (statusOf k)
  let polled := poll k (some content) rows
  polled = (statuses.foldl updateStatus rows, statuses.length) ∧
    ∀ id, (poll k (some content) polled.1).1.get? id = polled.1.get? id

section Lines

variable {k} {raw : Text}

/-- Reading a primitive fails for objects and arrays only. -/
theorem primitiveContent_eq (e : Option JsonElement) :
    primitiveContent e = if isPlain e then .ok (nonNull e) else .error .illegalArgument := by
  cases e with
  | none => rfl
  | some e => cases e <;> rfl

/-- What is read is no object and no array. -/
theorem isPlain_of_nonNull {e : Option JsonElement} {content : Text}
    (h : nonNull e = some content) : isPlain e = true := by
  cases e with
  | none => cases h
  | some e => cases e <;> first | rfl | cases h

/-- A status line is applied, with its status. -/
theorem readLine_of_status {line : StatusLine} (h : statusOf k raw = some line) :
    readLine k raw = .ok (some line) := by
  rw [statusOf] at h
  rw [readLine]
  cases hparsed : parsedObject k raw with
  | none => simp [hparsed] at h
  | some parsed =>
    simp only [hparsed] at h
    split at h
    · next id state hid hstate =>
      split at h
      · next hplain =>
        rw [Bool.and_eq_true] at hplain
        simp only [primitiveContent_eq, isPlain_of_nonNull hid, isPlain_of_nonNull hstate, hplain,
          hid, hstate, if_true, ← Option.some.inj h]
        rfl
      · cases h
    · cases h

/-- A line throws where a member that is asked for is no primitive. -/
theorem readLine_of_throws (h : Throws k raw) :
    readLine k raw = .error .illegalArgument := by
  obtain ⟨parsed, hparsed, h⟩ := h
  simp only [readLine, hparsed, primitiveContent_eq]
  rcases h with hid | ⟨hid, hrest⟩
  · rw [hid]
    rfl
  · obtain ⟨id, hid⟩ := Option.ne_none_iff_exists'.mp hid
    rw [isPlain_of_nonNull hid, hid]
    rcases hrest with hstate | ⟨hstate, hrest⟩
    · rw [hstate]
      rfl
    · obtain ⟨state, hstate⟩ := Option.ne_none_iff_exists'.mp hstate
      rw [isPlain_of_nonNull hstate, hstate]
      rcases hrest with hts | hmsg
      · rw [hts]
        rfl
      · rw [hmsg]
        cases isPlain (parsed.lookup (ascii "ts")) <;> rfl

/-- Every other line is skipped. -/
theorem readLine_of_neither (hstatus : statusOf k raw = none) (hthrows : ¬ Throws k raw) :
    readLine k raw = .ok none := by
  rw [statusOf] at hstatus
  rw [readLine]
  cases hparsed : parsedObject k raw with
  | none => rfl
  | some parsed =>
    have hthrows := fun h ↦ hthrows ⟨parsed, hparsed, h⟩
    simp only [hparsed] at hstatus
    simp only [not_or, Bool.not_eq_false, not_and, imp_false] at hthrows
    obtain ⟨hid, hrest⟩ := hthrows
    simp only [primitiveContent_eq, hid, if_true]
    cases hid : nonNull (parsed.lookup (ascii "id")) with
    | none => rfl
    | some id =>
      obtain ⟨hstate, hrest⟩ := hrest (by simp [hid])
      simp only [hstate, if_true]
      cases hstate : nonNull (parsed.lookup (ascii "state")) with
      | none => rfl
      | some state =>
        obtain ⟨hts, hmsg⟩ := hrest (by simp [hstate])
        simp [hid, hstate, hts, hmsg] at hstatus

/-- A line that throws has no status. -/
theorem statusOf_of_throws (h : Throws k raw) : statusOf k raw = none := by
  cases hstatus : statusOf k raw with
  | none => rfl
  | some line =>
    have := readLine_of_throws h
    rw [readLine_of_status hstatus] at this
    cases this

end Lines

/-! ### The loop -/

/-- The status lines that are applied: those before the first line that throws. -/
def applied : List Text → List StatusLine
  | [] => []
  | raw :: lines =>
    match readLine k raw with
    | .error _ => []
    | .ok none => applied lines
    | .ok (some line) => line :: applied lines

section Loop

variable {k} {lines : List Text} {raw : Text} {rows : Table Text DownloadEntity}

/-- The lines are applied one after another. -/
theorem applyLines_eq : applyLines k lines rows =
    ((applied k lines).foldl updateStatus rows, (applied k lines).length) := by
  induction lines generalizing rows with
  | nil => rfl
  | cons raw lines ih =>
    rw [applyLines, applied]
    cases readLine k raw with
    | error e => rfl
    | ok line =>
      cases line with
      | none => exact ih
      | some line => simp only [ih, List.foldl_cons, List.length_cons]

/-- A line hides a status where it throws before that, or a later one does. -/
theorem hidesStatus_cons : HidesStatus k (raw :: lines) ↔
    (Throws k raw ∧ ∃ line ∈ lines, statusOf k line ≠ none) ∨ HidesStatus k lines := by
  constructor
  · rintro ⟨before, bad, after, hsplit, hthrows, hstatus⟩
    cases before with
    | nil =>
      injection hsplit with hraw hlines
      subst hraw hlines
      exact .inl ⟨hthrows, hstatus⟩
    | cons first before =>
      injection hsplit with hraw hlines
      exact .inr ⟨before, bad, after, hlines, hthrows, hstatus⟩
  · rintro (⟨hthrows, hstatus⟩ | ⟨before, bad, after, rfl, hthrows, hstatus⟩)
    · exact ⟨[], raw, lines, rfl, hthrows, hstatus⟩
    · exact ⟨raw :: before, bad, after, rfl, hthrows, hstatus⟩

/-- Where a status is hidden, there is one. -/
theorem HidesStatus.exists_status (h : HidesStatus k lines) :
    ∃ line ∈ lines, statusOf k line ≠ none := by
  obtain ⟨before, bad, after, rfl, -, line, hline, hstatus⟩ := h
  exact ⟨line, by simp [hline], hstatus⟩

/-- Where there is a status, it is counted. -/
theorem filterMap_pos (h : ∃ line ∈ lines, statusOf k line ≠ none) :
    0 < (lines.filterMap (statusOf k)).length := by
  obtain ⟨line, hline, hstatus⟩ := h
  obtain ⟨status, hstatus⟩ := Option.ne_none_iff_exists'.mp hstatus
  exact List.length_pos_of_mem (List.mem_filterMap.mpr ⟨line, hline, hstatus⟩)

/-- All status lines are applied where none is hidden. -/
theorem applied_eq (h : ¬ HidesStatus k lines) :
    applied k lines = lines.filterMap (statusOf k) := by
  induction lines with
  | nil => rfl
  | cons raw lines ih =>
    rw [hidesStatus_cons, not_or] at h
    rw [applied]
    cases hstatus : statusOf k raw with
    | some line =>
      rw [readLine_of_status hstatus, List.filterMap_cons_some hstatus]
      exact congrArg (line :: ·) (ih h.2)
    | none =>
      rw [List.filterMap_cons_none hstatus]
      by_cases hthrows : Throws k raw
      · rw [readLine_of_throws hthrows, eq_comm, List.filterMap_eq_nil_iff]
        intro line hline
        by_contra hne
        exact h.1 ⟨hthrows, line, hline, hne⟩
      · rw [readLine_of_neither hstatus hthrows]
        exact ih h.2

/-- Fewer lines are applied where one is hidden. -/
theorem length_applied_lt (h : HidesStatus k lines) :
    (applied k lines).length < (lines.filterMap (statusOf k)).length := by
  induction lines with
  | nil => exact absurd h.exists_status (by simp)
  | cons raw lines ih =>
    rw [applied]
    by_cases hthrows : Throws k raw
    · rw [readLine_of_throws hthrows, List.filterMap_cons_none (statusOf_of_throws hthrows)]
      apply filterMap_pos
      rcases hidesStatus_cons.mp h with ⟨-, hstatus⟩ | hrest
      · exact hstatus
      · exact hrest.exists_status
    · have hrest : HidesStatus k lines := by
        rcases hidesStatus_cons.mp h with ⟨h, -⟩ | hrest
        · exact absurd h hthrows
        · exact hrest
      cases hstatus : statusOf k raw with
      | some line =>
        rw [readLine_of_status hstatus, List.filterMap_cons_some hstatus]
        exact Nat.succ_lt_succ (ih hrest)
      | none =>
        rw [readLine_of_neither hstatus hthrows, List.filterMap_cons_none hstatus]
        exact ih hrest

end Loop

/-! ### The rows -/

/-- The columns of a row that a status sets. -/
def rowStatus (row : DownloadEntity) : RowStatus := ⟨row.state, row.message, row.statusUpdatedAt⟩

/-- The row with a status. -/
def withStatus (row : DownloadEntity) (status : RowStatus) : DownloadEntity :=
  { row with state := status.state, message := status.message, statusUpdatedAt := status.ts }

/-- What a status line sets. -/
def lineStatus (line : StatusLine) : RowStatus := ⟨line.state, line.message, line.ts⟩

section Rows

variable {rows : Table Text DownloadEntity} {row : DownloadEntity} {status status' : RowStatus}

@[simp] theorem withStatus_rowStatus : withStatus row (rowStatus row) = row := rfl

@[simp] theorem rowStatus_withStatus : rowStatus (withStatus row status) = status := rfl

@[simp] theorem withStatus_withStatus :
    withStatus (withStatus row status) status' = withStatus row status' := rfl

/-- A row takes a line's status where that is no older. -/
theorem get?_updateStatus (line : StatusLine) (id : Text) :
    (updateStatus rows line).get? id = (rows.get? id).map fun row ↦
      if line.id = id then
        withStatus row (Lww.later RowStatus.ts (rowStatus row) (lineStatus line))
      else row := by
  by_cases hid : line.id = id
  · subst hid
    rw [updateStatus, Downloads.updateStatus]
    cases hrow : rows.get? line.id with
    | none => simp [hrow]
    | some row =>
      by_cases hts : row.statusUpdatedAt ≤ line.ts
      · simp [hts, Lww.later, rowStatus, lineStatus, withStatus]
      · simp [hts, hrow, Lww.later, rowStatus, lineStatus, withStatus]
  · simp only [if_neg hid, Option.map_id']
    rw [updateStatus, Downloads.updateStatus]
    split
    · split
      · exact Table.get?_put_ne _ _ (Ne.symm hid)
      · rfl
    · rfl

/-- The status of a row is the latest one, of the row and of the lines about it. -/
theorem get?_foldl_updateStatus (statuses : List StatusLine) (id : Text) :
    (statuses.foldl updateStatus rows).get? id = (rows.get? id).map fun row ↦
      withStatus row (((statuses.filter fun line ↦ line.id = id).map lineStatus).foldl
        (Lww.later RowStatus.ts) (rowStatus row)) := by
  induction statuses generalizing rows with
  | nil => simp
  | cons line statuses ih =>
    rw [List.foldl_cons, ih, get?_updateStatus, Option.map_map]
    congr 1
    funext row
    by_cases hid : line.id = id <;> simp [hid]

/-- The same lines once more change nothing. -/
theorem foldl_updateStatus_twice (statuses : List StatusLine) (id : Text) :
    (statuses.foldl updateStatus (statuses.foldl updateStatus rows)).get? id =
      (statuses.foldl updateStatus rows).get? id := by
  rw [get?_foldl_updateStatus, get?_foldl_updateStatus, Option.map_map]
  congr 1
  funext row
  simp [Lww.foldl_later_twice]

end Rows

/-- A poll is tolerant exactly of the files in which no line that throws hides a status line. -/
theorem tolerates_iff (k : StatusParser) (content : Text) (rows : Table Text DownloadEntity) :
    Tolerates k content rows ↔ ¬ HidesStatus k (linesFrom [] content) := by
  simp only [Tolerates, poll, applyLines_eq]
  constructor
  · rintro ⟨hall, -⟩ hhidden
    have := length_applied_lt hhidden
    rw [(Prod.mk.inj hall).2] at this
    exact Nat.lt_irrefl _ this
  · intro h
    refine ⟨by rw [applied_eq h], fun id ↦ ?_⟩
    exact foldl_updateStatus_twice _ id

/-- A line whose id is an array. -/
def brokenLine : Text := ascii "\x7b\"id\":[7],\"state\":\"done\"\x7d"

/-- A status line. -/
def doneLine : Text := ascii "\x7b\"id\":\"7\",\"state\":\"done\",\"ts\":5\x7d"

/-- What the parser makes of these two lines. -/
def sampleParser : StatusParser where
  isBlank := fun raw ↦ raw.all fun b ↦ b == 32
  parseToJsonElement := fun raw ↦
    let done := (ascii "state", .primitive (ascii "done") true)
    if raw = brokenLine then
      some (.object [(ascii "id", .array [.primitive (ascii "7") false]), done])
    else if raw = doneLine then
      some (.object [(ascii "id", .primitive (ascii "7") true), done,
        (ascii "ts", .primitive (ascii "5") false)])
    else none
  toLongOrNull := fun text ↦ if text = ascii "5" then some 5 else none

/-- A request that has been handed over. -/
def oneRequest : Table Text DownloadEntity :=
  Table.empty.put (ascii "7") ⟨ascii "song", 1, ascii "queued", none, true, 0⟩

example : (poll sampleParser (some (doneLine ++ [10])) oneRequest).2 = 1 := by decide +kernel

/-- One line with an array for an id hides the status behind it. -/
theorem status_hidden :
    ¬ Tolerates sampleParser (brokenLine ++ 10 :: doneLine ++ [10]) oneRequest := by
  rintro ⟨hall, -⟩
  have happlied := congrArg Prod.snd hall
  revert happlied
  decide +kernel

end StatusPoll

end Nocturne
