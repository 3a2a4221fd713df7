import Nocturne.Phone.FileWriter
import Nocturne.Lib.Table

/-!
# The drains of the phone

The phone keeps pins and likes in two tables. A drain reads the rows that are not synced, appends
an event for each of them to a log and marks the row by its key, while the UI may write the row
again between any two of these steps. Both tables and both writers have the same shape, so that
one model serves both.
-/

namespace Nocturne

open Lib Lib.Records

/-! ### Tables -/

/-- A row of `pins` or `likes` on the phone, without its key. -/
structure OutRow where
  unit : Text
  flag : Bool
  ts : Int
  synced : Bool
  deriving DecidableEq, Repr

/-- `PinEvent`, `JsonlEvents.kt`. -/
structure PinEvent where
  v : Int
  ts : Int
  unit : Text
  id : Text
  pinned : Bool
  deriving DecidableEq, Repr

/-- `LikeEvent`, `JsonlEvents.kt`. -/
structure LikeEvent where
  v : Int
  ts : Int
  unit : Text
  id : Text
  liked : Bool
  deriving DecidableEq, Repr

/-- A table's key, and the event that its writer emits for a row. -/
structure DrainWriter (K T : Type) where
  event (k : K) (unit : Text) (flag : Bool) (ts : Int) : T
  fmt : LineFormat T

/-- `PinsWriter`, `PinsWriter.kt:34–40`: the key of `pins` is the id. -/
def pinsWriter (fmt : LineFormat PinEvent) : DrainWriter Text PinEvent where
  event id unit pinned ts := ⟨1, ts, unit, id, pinned⟩
  fmt := fmt

/-- `LikesWriter`, `LikesWriter.kt:54–60`: the key of `likes` is the id and the unit. -/
def likesWriter (fmt : LineFormat LikeEvent) : DrainWriter (Text × Text) LikeEvent where
  event key unit liked ts := ⟨1, ts, unit, key.1, liked⟩
  fmt := fmt

/-- The line that a drain appends for a row. -/
def DrainWriter.line {K T : Type} (w : DrainWriter K T) (k : K) (row : OutRow) : Text :=
  w.fmt.encode (w.event k row.unit row.flag row.ts)

/-- The bytes that it writes. -/
def DrainWriter.bytes {K T : Type} (w : DrainWriter K T) (k : K) (row : OutRow) : Text :=
  w.fmt.bytes (w.event k row.unit row.flag row.ts)

/-- A statement of the UI on one of the tables: `upsert`, or `setPinned`, `PinDao.kt:43–44`. -/
inductive UiWrite (K : Type) where
  | upsert (k : K) (unit : Text) (flag : Bool) (ts : Int)
  | setPinned (k : K) (flag : Bool) (ts : Int)
  deriving DecidableEq, Repr

/-- `pinTrack`, `BrowserViewModel.kt:298–309`. -/
def pinTrack (trackId : Text) (now : Int) : UiWrite Text :=
  .upsert trackId (ascii "track") true now

/-- `togglePin`, `BrowserViewModel.kt:329–350`, with the table as it was read before. -/
def togglePin (seen : Table Text OutRow) (id unit : Text) (now : Int) : UiWrite Text :=
  match seen.get? id with
  | some row => if row.unit = unit then .setPinned id (!row.flag) now else .upsert id unit true now
  | none => .upsert id unit true now

/-- `unsyncTrack` and `unsyncAlbum`, `BrowserViewModel.kt:374–389`. -/
def unsyncLocal (id : Text) (now : Int) : UiWrite Text := .setPinned id false now

/-- The upsert of `record`, `LikesWriter.kt:31–39`. -/
def recordLike (id unit : Text) (liked : Bool) (now : Int) : UiWrite (Text × Text) :=
  .upsert (id, unit) unit liked now

/-! ### Drains -/

/-- Where a drain stands: before the append for the first of some rows, between the open of the
log and the write, or before the `markSynced` of a row. -/
inductive DrainState (K : Type) where
  | pending (rows : List (K × OutRow))
  | writing (k : K) (row : OutRow) (o : AppendOutcome) (mode : WriteMode) (rest : List (K × OutRow))
  | appended (k : K) (row : OutRow) (rest : List (K × OutRow))
  deriving DecidableEq, Repr

/-- One table of the phone, its log, and the drains in progress, by their coroutine. -/
structure Phone (K : Type) [DecidableEq K] where
  rows : Table K OutRow
  file : Text
  drains : Table Nat (DrainState K)

/-- The steps that interleave. -/
inductive PhoneStep (K : Type) where
  | ui (write : UiWrite K)
  | drain (pid : Nat)
  | openLog (pid : Nat) (o : AppendOutcome)
  | write (pid : Nat)
  | mark (pid : Nat)
  | die (pid : Nat)
  deriving DecidableEq, Repr

variable {K T : Type} [DecidableEq K]

namespace Phone

/-- Nothing recorded yet. -/
def start (file : Text) : Phone K := ⟨.empty, file, .empty⟩

/-- The effect of a statement of the UI: the row is not synced. -/
def record (m : Phone K) : UiWrite K → Phone K
  | .upsert k unit flag ts => { m with rows := m.rows.put k ⟨unit, flag, ts, false⟩ }
  | .setPinned k flag ts =>
    match m.rows.get? k with
    | some row => { m with rows := m.rows.put k ⟨row.unit, flag, ts, false⟩ }
    | none => m

/-- `unsyncedList`, `PinDao.kt:33–34`. -/
def unsyncedList (m : Phone K) : List (K × OutRow) :=
  (m.rows.rows.filter fun r ↦ !r.2.synced).mergeSort fun a b ↦ decide (a.2.ts ≤ b.2.ts)

/-- `markSynced`, `PinDao.kt:36–37`. -/
def markSynced (m : Phone K) (k : K) : Table K OutRow :=
  match m.rows.get? k with
  | some row => m.rows.put k { row with synced := true }
  | none => m.rows

/-- `appendLine` returned, or threw: an exception ends the drain. -/
def answered (m : Phone K) (pid : Nat) (k : K) (row : OutRow) (rest : List (K × OutRow)) :
    Except Thrown Bool → Phone K
  | .ok true => { m with drains := m.drains.put pid (.appended k row rest) }
  | .ok false => { m with drains := m.drains.put pid (.pending rest) }
  | .error _ => { m with drains := m.drains.drop pid }

/-- One step. A step whose drain is not there, or not at that point, does nothing. -/
def step (w : DrainWriter K T) (m : Phone K) : PhoneStep K → Phone K
  | .ui write => m.record write
  | .drain pid =>
    match m.drains.get? pid with
    | some _ => m
    | none => { m with drains := m.drains.put pid (.pending m.unsyncedList) }
  | .openLog pid o =>
    match m.drains.get? pid with
    | some (.pending ((k, row) :: rest)) =>
      match o.resolve with
      | .null => m.answered pid k row rest (.ok false)
      | .throws e => m.answered pid k row rest (.error e)
      | .found =>
        match o.openFile m.file with
        | .throws e => m.answered pid k row rest (caught e)
        | .returns => m.answered pid k row rest o.told
        | .writing mode => { m with drains := m.drains.put pid (.writing k row o mode rest) }
    | _ => m
  | .write pid =>
    match m.drains.get? pid with
    | some (.writing k row o mode rest) =>
      let written := o.write mode (w.bytes k row) m.file
      { m with file := written.1 }.answered pid k row rest
        (match written.2 with
          | some e => caught e
          | none => o.told)
    | _ => m
  | .mark pid =>
    match m.drains.get? pid with
    | some (.appended k _ rest) =>
      { m with rows := m.markSynced k, drains := m.drains.put pid (.pending rest) }
    | _ => m
  | .die pid => { m with drains := m.drains.drop pid }

/-- The drain after `appendLine`. -/
def afterAppend (k : K) (row : OutRow) (rest : List (K × OutRow)) :
    Except Thrown Bool → Option (DrainState K)
  | .ok true => some (.appended k row rest)
  | .ok false => some (.pending rest)
  | .error _ => none

theorem drains_answered (m : Phone K) (pid : Nat) (k : K) (row : OutRow)
    (rest : List (K × OutRow)) (r : Except Thrown Bool) :
    (m.answered pid k row rest r).drains.get? pid = afterAppend k row rest r := by
  unfold answered afterAppend
  split
  · exact Table.get?_put_self ..
  · exact Table.get?_put_self ..
  · exact Table.get?_drop_self ..

theorem file_answered (m : Phone K) (pid : Nat) (k : K) (row : OutRow)
    (rest : List (K × OutRow)) (r : Except Thrown Bool) :
    (m.answered pid k row rest r).file = m.file := by
  unfold answered
  split <;> rfl

/-- An append that is over is not written again. -/
theorem write_answered (w : DrainWriter K T) (m : Phone K) (pid : Nat) (k : K) (row : OutRow)
    (rest : List (K × OutRow)) (r : Except Thrown Bool) :
    (m.answered pid k row rest r).step w (.write pid) = m.answered pid k row rest r := by
  dsimp only [step]
  rw [drains_answered]
  cases r with
  | error e => rfl
  | ok told => cases told <;> rfl

/-- Where nothing comes between the open and the write, the two are one `appendLine`. -/
theorem openLog_write (w : DrainWriter K T) {m : Phone K} {pid : Nat} {o : AppendOutcome} {k : K}
    {row : OutRow} {rest : List (K × OutRow)}
    (h : m.drains.get? pid = some (.pending ((k, row) :: rest))) :
    ((m.step w (.openLog pid o)).step w (.write pid)).file =
        (o.appendLine (w.bytes k row) m.file).1 ∧
      ((m.step w (.openLog pid o)).step w (.write pid)).drains.get? pid =
        afterAppend k row rest (o.appendLine (w.bytes k row) m.file).2 := by
  have answered : ∀ r, m.step w (.openLog pid o) = m.answered pid k row rest r →
      o.appendLine (w.bytes k row) m.file = (m.file, r) →
      ((m.step w (.openLog pid o)).step w (.write pid)).file =
          (o.appendLine (w.bytes k row) m.file).1 ∧
        ((m.step w (.openLog pid o)).step w (.write pid)).drains.get? pid =
          afterAppend k row rest (o.appendLine (w.bytes k row) m.file).2 := by
    intro r hopen happend
    rw [hopen, happend, write_answered]
    exact ⟨file_answered .., drains_answered ..⟩
  cases hr : o.resolve with
  | null =>
    apply answered (.ok false)
    · simp only [step, h, hr]
    · simp only [AppendOutcome.appendLine, hr]
  | throws e =>
    apply answered (.error e)
    · simp only [step, h, hr]
    · simp only [AppendOutcome.appendLine, hr]
  | found =>
    cases hopen : o.openFile m.file with
    | throws e =>
      apply answered (caught e)
      · simp only [step, h, hr, hopen]
      · simp only [AppendOutcome.appendLine, hr, hopen]
    | returns =>
      apply answered o.told
      · simp only [step, h, hr, hopen]
      · simp only [AppendOutcome.appendLine, hr, hopen]
    | writing mode =>
      have hstep : m.step w (.openLog pid o) =
          { m with drains := m.drains.put pid (.writing k row o mode rest) } := by
        simp only [step, h, hr, hopen]
      rw [hstep]
      simp only [step, Table.get?_put_self, AppendOutcome.appendLine, hr, hopen]
      exact ⟨file_answered .., drains_answered ..⟩

/-! ### Nothing is lost -/

/-- The event of every synced row is a line of the log. -/
def Kept (w : DrainWriter K T) (m : Phone K) : Prop :=
  ∀ k row, m.rows.get? k = some row → row.synced = true → w.line k row ∈ linesIn m.file

/-- A step does not lose an event: an append that has no descriptor does not report success; a
write is at the end of the log and, if it is to succeed, behind a complete line; a row that is
marked is still the row that the drain read, unless its event is in the log as well. -/
def Careful (w : DrainWriter K T) (m : Phone K) : PhoneStep K → Prop
  | .openLog pid o => ∀ k row rest, m.drains.get? pid = some (.pending ((k, row) :: rest)) →
      o.resolve = .found → o.prefs = none → o.openFile m.file ≠ .returns
  | .write pid => ∀ k row o mode rest, m.drains.get? pid = some (.writing k row o mode rest) →
      (∀ pos, mode = .rw pos → pos = m.file.length) ∧
        (o.cut = none → o.sync = none → o.prefs = none → AtLineEnd m.file)
  | .mark pid => ∀ k row rest, m.drains.get? pid = some (.appended k row rest) →
      ∀ now, m.rows.get? k = some now →
        (now.unit = row.unit ∧ now.flag = row.flag ∧ now.ts = row.ts) ∨
          w.line k now ∈ linesIn m.file
  | _ => True

/-- Synced rows, and rows about to be marked, have their event in the log. -/
structure Inv (w : DrainWriter K T) (m : Phone K) : Prop where
  kept : m.Kept w
  appended : ∀ pid k row rest, m.drains.get? pid = some (.appended k row rest) →
    w.line k row ∈ linesIn m.file

variable {w : DrainWriter K T} {m : Phone K}

theorem inv_start (w : DrainWriter K T) (file : Text) : Inv w (start file) :=
  ⟨fun _ _ h ↦ (by cases h), fun _ _ _ _ h ↦ (by cases h)⟩

/-- Bytes at the end of the log do no harm. -/
theorem Inv.grow (h : Inv w m) (bytes : Text) : Inv w { m with file := m.file ++ bytes } := by
  constructor
  · intro k row hrow hsynced
    exact (linesIn_grows m.file bytes).subset (h.kept k row hrow hsynced)
  · intro pid k row rest hd
    exact (linesIn_grows m.file bytes).subset (h.appended pid k row rest hd)

/-- A row that is written anew is not synced. -/
theorem Inv.record (h : Inv w m) (u : UiWrite K) : Inv w (m.record u) := by
  have put : ∀ k unit flag ts,
      Inv w { m with rows := m.rows.put k (OutRow.mk unit flag ts false) } := by
    intro k unit flag ts
    constructor
    · intro k' row hrow hsynced
      rw [Table.get?_put] at hrow
      split at hrow
      · cases hrow
        cases hsynced
      · exact h.kept k' row hrow hsynced
    · exact h.appended
  cases u with
  | upsert k unit flag ts => exact put k unit flag ts
  | setPinned k flag ts =>
    dsimp only [Phone.record]
    split
    · exact put k _ flag ts
    · exact h

/-- A drain that is not behind an append comes to another state. -/
theorem Inv.drains (h : Inv w m) (pid : Nat) {d : DrainState K}
    (hd : ∀ k row rest, d = .appended k row rest → w.line k row ∈ linesIn m.file) :
    Inv w { m with drains := m.drains.put pid d } := by
  constructor
  · exact h.kept
  · intro pid' k row rest hget
    rw [Table.get?_put] at hget
    split at hget
    · exact hd k row rest (Option.some.inj hget)
    · exact h.appended pid' k row rest hget

theorem Inv.die (h : Inv w m) (pid : Nat) : Inv w { m with drains := m.drains.drop pid } := by
  constructor
  · exact h.kept
  · intro pid' k row rest hget
    rw [Table.get?_drop] at hget
    split at hget
    · cases hget
    · exact h.appended pid' k row rest hget

theorem Inv.answered (h : Inv w m) (pid : Nat) {k : K} {row : OutRow} (rest : List (K × OutRow))
    {r : Except Thrown Bool} (hr : r = .ok true → w.line k row ∈ linesIn m.file) :
    Inv w (m.answered pid k row rest r) := by
  unfold Phone.answered
  split
  · apply h.drains pid
    intro k' row' rest' he
    cases he
    exact hr rfl
  · exact h.drains pid fun _ _ _ he ↦ (by cases he)
  · exact h.die pid

/-- A write at the end of the log, that puts a line of its own there if it succeeds. -/
theorem Inv.write (h : Inv w m) {pid : Nat} (hc : m.Careful w (.write pid)) :
    Inv w (m.step w (.write pid)) := by
  dsimp only [step]
  split
  · next k row o mode rest hd =>
    obtain ⟨hpos, hend⟩ := hc k row o mode rest hd
    have hput : ∀ bytes, mode.put bytes m.file = m.file ++ bytes := by
      intro bytes
      cases mode with
      | wa => rfl
      | rw pos =>
        rw [hpos pos rfl]
        simp [WriteMode.put]
    unfold AppendOutcome.write
    cases hcut : o.cut with
    | some c =>
      dsimp only
      rw [hput]
      apply (h.grow _).answered
      exact fun he ↦ absurd he (caught_ne_true _)
    | none =>
      dsimp only
      rw [hput]
      apply (h.grow _).answered
      intro he
      cases hs : o.sync with
      | some e =>
        rw [hs] at he
        exact absurd he (caught_ne_true _)
      | none =>
        rw [hs] at he
        have htail : (split newline m.file).2 = [] := hend hcut hs (told_eq_true.mp he)
        show w.line k row ∈ linesIn (m.file ++ w.bytes k row)
        rw [DrainWriter.bytes, linesIn_line, htail]
        exact List.mem_append_right _ (List.mem_singleton.mpr rfl)
  · exact h

/-- A row that is marked has its event in the log. -/
theorem Inv.mark (h : Inv w m) {pid : Nat} (hc : m.Careful w (.mark pid)) :
    Inv w (m.step w (.mark pid)) := by
  dsimp only [step]
  split
  · next k row rest hd =>
    have hline : ∀ now, m.rows.get? k = some now → w.line k now ∈ linesIn m.file := by
      intro now hnow
      rcases hc k row rest hd now hnow with ⟨hu, hf, ht⟩ | hmem
      · rw [DrainWriter.line, hu, hf, ht]
        exact h.appended pid k row rest hd
      · exact hmem
    have hmarked : Inv w { m with rows := m.markSynced k } := by
      constructor
      · intro k' now hnow hsynced
        unfold markSynced at hnow
        split at hnow
        · next now' hnow' =>
          dsimp only at hnow
          rw [Table.get?_put] at hnow
          split at hnow
          · next he =>
            cases hnow
            rw [he]
            exact hline now' hnow'
          · exact h.kept k' now hnow hsynced
        · exact h.kept k' now hnow hsynced
      · exact h.appended
    exact hmarked.drains pid fun _ _ _ he ↦ (by cases he)
  · exact h

theorem Inv.step (h : Inv w m) (s : PhoneStep K) (hc : m.Careful w s) : Inv w (m.step w s) := by
  cases s with
  | ui u => exact h.record u
  | drain pid =>
    dsimp only [Phone.step]
    split
    · exact h
    · exact h.drains pid fun _ _ _ he ↦ (by cases he)
  | openLog pid o =>
    dsimp only [Phone.step]
    split
    · next k row rest hd =>
      split
      · exact h.answered pid rest fun he ↦ (by cases he)
      · exact h.answered pid rest fun he ↦ (by cases he)
      · next hr =>
        split
        · exact h.answered pid rest fun he ↦ absurd he (caught_ne_true _)
        · next hret =>
          apply h.answered pid rest
          intro he
          exact absurd hret (hc k row rest hd hr (told_eq_true.mp he))
        · exact h.drains pid fun _ _ _ he ↦ (by cases he)
    · exact h
  | write pid => exact h.write hc
  | mark pid => exact h.mark hc
  | die pid => exact h.die pid

/-- Careful steps lose nothing. -/
theorem always_kept (w : DrainWriter K T) (file : Text) {run : List (PhoneStep K)}
    (h : Steps.Meets (Phone.step w) (Careful w) (start file) run) :
    Steps.Always (Phone.step w) (Kept w) (start file) run :=
  Steps.always_of_inv (I := Inv w) (fun _ hi ↦ hi.kept) (fun _ s hi hc ↦ hi.step s hc)
    (inv_start w file) h

end Phone

/-- The drains of pins and of likes lose nothing in runs of careful steps. -/
theorem drains_lose_nothing (pinFmt : LineFormat PinEvent) (likeFmt : LineFormat LikeEvent)
    (file : Text) :
    (∀ run, Steps.Meets (Phone.step (pinsWriter pinFmt)) (Phone.Careful (pinsWriter pinFmt))
        (.start file) run →
      Steps.Always (Phone.step (pinsWriter pinFmt)) (Phone.Kept (pinsWriter pinFmt))
        (.start file) run) ∧
    ∀ run, Steps.Meets (Phone.step (likesWriter likeFmt)) (Phone.Careful (likesWriter likeFmt))
        (.start file) run →
      Steps.Always (Phone.step (likesWriter likeFmt)) (Phone.Kept (likesWriter likeFmt))
        (.start file) run :=
  ⟨fun _ h ↦ Phone.always_kept _ file h, fun _ h ↦ Phone.always_kept _ file h⟩

namespace LateToggle

/-- Lines that tell the events of the example apart. -/
def pinFmt : LineFormat PinEvent :=
  ⟨fun e ↦ List.replicate e.ts.toNat 49 ++ [if e.pinned then 50 else 51], fun e ↦ by
    rw [List.mem_append, List.mem_replicate, List.mem_singleton]
    rintro (⟨-, h⟩ | h)
    · cases h
    · split at h <;> cases h⟩

def likeFmt : LineFormat LikeEvent := ⟨fun _ ↦ [], fun _ h ↦ (by cases h)⟩

/-- A pin is drained; `between` happens between the append and `markSynced`. -/
def run (between : List (PhoneStep Text)) : List (PhoneStep Text) :=
  [.ui (pinTrack [97] 1), .drain 1, .openLog 1 NoDescriptor.fine, .write 1] ++ between ++ [.mark 1]

/-- The user turns the pin off. -/
def toggle : PhoneStep Text :=
  .ui (togglePin ((Table.empty : Table Text OutRow).put [97] ⟨ascii "track", true, 1, false⟩) [97]
    (ascii "track") 2)

end LateToggle

/-- A toggle between the append and `markSynced` is lost. -/
theorem toggle_lost : ¬ Steps.Always (Phone.step (pinsWriter LateToggle.pinFmt))
    (Phone.Kept (pinsWriter LateToggle.pinFmt)) (.start []) (LateToggle.run [LateToggle.toggle]) := by
  intro h
  have hline := h.last [97] ⟨ascii "track", false, 2, true⟩ (by decide +kernel) rfl
  revert hline
  decide +kernel

/-- Without the toggle nothing is lost. -/
theorem pin_drained : Steps.Always (Phone.step (pinsWriter LateToggle.pinFmt))
    (Phone.Kept (pinsWriter LateToggle.pinFmt)) (.start []) (LateToggle.run []) := by
  apply (drains_lose_nothing LateToggle.pinFmt LateToggle.likeFmt []).1
  refine ⟨trivial, trivial, ?_, ?_, ?_, trivial⟩
  · intro _ _ _ _ _ _
    decide
  · intro k row o mode rest hd
    have hget : (Steps.after (Phone.step (pinsWriter LateToggle.pinFmt)) (.start [])
        ((LateToggle.run []).take 3)).drains.get? 1 = some (.writing [97]
          ⟨ascii "track", true, 1, false⟩ NoDescriptor.fine .wa []) := by decide +kernel
    cases hget.symm.trans hd
    refine ⟨fun _ h ↦ (by cases h), fun _ _ _ ↦ ?_⟩
    unfold AtLineEnd
    decide +kernel
  · intro k row rest hd now hnow
    have hget : (Steps.after (Phone.step (pinsWriter LateToggle.pinFmt)) (.start [])
        ((LateToggle.run []).take 4)).drains.get? 1 = some (.appended [97]
          ⟨ascii "track", true, 1, false⟩ []) := by decide +kernel
    have hrow : (Steps.after (Phone.step (pinsWriter LateToggle.pinFmt)) (.start [])
        ((LateToggle.run []).take 4)).rows.get? [97] =
          some ⟨ascii "track", true, 1, false⟩ := by decide +kernel
    cases hget.symm.trans hd
    cases hrow.symm.trans hnow
    exact Or.inl ⟨rfl, rfl, rfl⟩

end Nocturne
