import Mathlib.Data.List.Basic
import Nocturne.Base
import Nocturne.Lib.Steps
import Nocturne.Lib.Table

/-!
# Download requests

A request is a row of `downloads`. `DownloadsWriter` appends a line for each row that is not synced
and marks the row, unless its state is no longer `pending`. Submissions, drains and status polls are
coroutines of one process: between any two database calls another one may go on.
-/

namespace Nocturne

open Lib Lib.Steps

/-- The states that the desktop writes, `download.c:319–349`. -/
inductive DesktopState where
  | running
  | done
  | error
  deriving DecidableEq, Repr

/-- The text of a state in the status log. -/
def DesktopState.text : DesktopState → Text
  | .running => ascii "running"
  | .done => ascii "done"
  | .error => ascii "error"

/-- `DownloadEntity`, without its key. -/
structure DownloadEntity where
  query : Text
  requestedAt : Int
  state : Text
  message : Option Text
  synced : Bool
  statusUpdatedAt : Int
  deriving DecidableEq, Repr

/-- A drain: the ids of the rows that it read, those that it has not appended yet, the one that it
appended and has not marked, and whether each append went well. -/
structure DownloadDrain where
  read : List Text
  todo : List Text
  appended : Option Text
  unfailed : Bool
  deriving DecidableEq, Repr

/-- The table and the drains of the process. The last three fields only record what happened: the
requests appended and then marked, those appended once more, and those that got a status. -/
structure Downloads where
  rows : Table Text DownloadEntity
  drains : Table Nat DownloadDrain
  sent : List Text
  resent : List Text
  answered : List Text

/-- The steps that interleave. -/
inductive DownloadStep where
  /-- The upsert of `submit`, `DownloadsViewModel.kt:46–55`. -/
  | submit (id query : Text) (now : Int)
  /-- `unsyncedList` of a drain that begins. -/
  | read (pid : Nat)
  /-- `appendLine`: whether the line is in the file, and what is returned, if nothing is thrown. -/
  | append (pid : Nat) (lands : Bool) (result : Option Bool)
  /-- `markQueued`. -/
  | mark (pid : Nat)
  /-- A drain without anything left to do returns. -/
  | finish (pid : Nat)
  /-- `updateStatus` for a line of the desktop. -/
  | status (id : Text) (state : DesktopState) (message : Option Text) (ts : Int)
  /-- The process dies. -/
  | die

namespace Downloads

/-- A phone without requests. -/
def start : Downloads := ⟨.empty, .empty, [], [], []⟩

/-- `unsyncedList`, `DownloadDao.kt:23–24`. -/
def unsyncedList (rows : Table Text DownloadEntity) : List Text :=
  ((rows.rows.filter fun r ↦ !r.2.synced).mergeSort
    fun a b ↦ decide (a.2.requestedAt ≤ b.2.requestedAt)).map Prod.fst

/-- `markQueued`, `DownloadDao.kt:26–27`. -/
def markQueued (rows : Table Text DownloadEntity) (id : Text) : Table Text DownloadEntity :=
  match rows.get? id with
  | some row =>
    if row.state = ascii "pending" then
      rows.put id { row with synced := true, state := ascii "queued" }
    else rows
  | none => rows

/-- `updateStatus`, `DownloadDao.kt:34–38`, and whether a row is affected. -/
def updateStatus (rows : Table Text DownloadEntity) (id state : Text) (message : Option Text)
    (ts : Int) : Table Text DownloadEntity × Bool :=
  match rows.get? id with
  | some row =>
    if row.statusUpdatedAt ≤ ts then
      (rows.put id { row with state := state, message := message, statusUpdatedAt := ts }, true)
    else (rows, false)
  | none => (rows, false)

/-- One step. A step of a drain that is not at that point does nothing. -/
def step (s : Downloads) : DownloadStep → Downloads
  | .submit id query now =>
    -- The id is a fresh UUID.
    match s.rows.get? id with
    | some _ => s
    | none => { s with rows := s.rows.put id ⟨query, now, ascii "pending", none, false, 0⟩ }
  | .read pid =>
    match s.drains.get? pid with
    | some _ => s
    | none =>
      let ids := unsyncedList s.rows
      { s with drains := s.drains.put pid ⟨ids, ids, none, true⟩ }
  | .append pid lands result =>
    match s.drains.get? pid with
    | some ⟨read, id :: todo, none, unfailed⟩ =>
      let resent := if lands && s.sent.contains id then id :: s.resent else s.resent
      match result with
      | some true =>
        { s with resent := resent, drains := s.drains.put pid ⟨read, todo, some id, unfailed⟩ }
      | some false =>
        { s with resent := resent, drains := s.drains.put pid ⟨read, todo, none, false⟩ }
      | none => { s with resent := resent, drains := s.drains.drop pid }
    | _ => s
  | .mark pid =>
    match s.drains.get? pid with
    | some ⟨read, todo, some id, unfailed⟩ =>
      { s with
        rows := markQueued s.rows id
        sent := id :: s.sent
        drains := s.drains.put pid ⟨read, todo, none, unfailed⟩ }
    | _ => s
  | .finish pid =>
    match s.drains.get? pid with
    | some ⟨_, [], none, _⟩ => { s with drains := s.drains.drop pid }
    | _ => s
  | .status id state message ts =>
    let updated := updateStatus s.rows id state.text message ts
    { s with
      rows := updated.1
      answered := if updated.2 then id :: s.answered else s.answered }
  | .die => { s with drains := .empty }

/-! ### The properties -/

/-- A row is marked. -/
def isSynced (rows : Table Text DownloadEntity) (id : Text) : Bool :=
  match rows.get? id with
  | some row => row.synced
  | none => false

/-- No request was appended again after it had been appended and marked, and none that got a status
is queued or pending. -/
structure Sound (s : Downloads) : Prop where
  once : s.resent = []
  forward : ∀ id ∈ s.answered, ∀ row, s.rows.get? id = some row →
    row.state ≠ ascii "pending" ∧ row.state ≠ ascii "queued"

/-- A drain that returns, and had no append fail, leaves every row that it read synced. -/
def Complete (s : Downloads) : DownloadStep → Prop
  | .finish pid => ∀ read, s.drains.get? pid = some ⟨read, [], none, true⟩ →
      ∀ id ∈ read, isSynced s.rows id = true
  | _ => True

/-- No drain appends a request that another one marked since it was read, and no status is applied
to a request between its append and its mark. -/
def undisturbed (s : Downloads) : DownloadStep → Bool
  | .append pid lands _ =>
    match s.drains.get? pid with
    | some ⟨_, id :: _, none, _⟩ => !lands || !isSynced s.rows id
    | _ => true
  | .mark pid =>
    match s.drains.get? pid with
    | some ⟨_, _, some id, _⟩ =>
      match s.rows.get? id with
      | some row => decide (row.state = ascii "pending") || row.synced
      | none => true
    | _ => true
  | _ => true

/-- What is true of a drain: its rows are in the table, and each of those that it read is still to be
done, unless an append failed, or synced. -/
structure DrainInv (rows : Table Text DownloadEntity) (d : DownloadDrain) : Prop where
  known : ∀ id ∈ d.read, (rows.get? id).isSome
  todo : ∀ id ∈ d.todo, id ∈ d.read
  appended : ∀ id, d.appended = some id → id ∈ d.read
  done : d.unfailed = true →
    ∀ id ∈ d.read, id ∈ d.todo ∨ d.appended = some id ∨ isSynced rows id = true

/-- What the steps keep where they are undisturbed. -/
structure Inv (s : Downloads) : Prop where
  sound : s.Sound
  settled : ∀ id ∈ s.sent, isSynced s.rows id = true
  known : ∀ id ∈ s.answered, (s.rows.get? id).isSome
  drains : ∀ pid d, s.drains.get? pid = some d → DrainInv s.rows d

section Tables

variable {rows rows' : Table Text DownloadEntity} {id id' : Text}

/-! ### What the statements do to the rows -/

/-- No row goes, and none that is synced is unsynced. -/
def Grows (rows rows' : Table Text DownloadEntity) : Prop :=
  ∀ id row, rows.get? id = some row →
    ∃ row', rows'.get? id = some row' ∧ (row.synced = true → row'.synced = true)

theorem Grows.refl (rows : Table Text DownloadEntity) : Grows rows rows :=
  fun _ row h ↦ ⟨row, h, fun hs ↦ hs⟩

/-- A row is written that is new, or synced if the old one was. -/
theorem grows_put {row : DownloadEntity}
    (h : ∀ old, rows.get? id = some old → old.synced = true → row.synced = true) :
    Grows rows (rows.put id row) := by
  intro id' old hold
  rw [Table.get?_put]
  by_cases he : id' = id
  · subst he
    rw [if_pos rfl]
    exact ⟨row, rfl, h old hold⟩
  · rw [if_neg he]
    exact ⟨old, hold, fun hs ↦ hs⟩

theorem grows_markQueued : Grows rows (markQueued rows id) := by
  unfold markQueued
  split
  · split
    · exact grows_put fun _ _ _ ↦ rfl
    · exact .refl rows
  · exact .refl rows

theorem grows_updateStatus {state : Text} {message : Option Text} {ts : Int} :
    Grows rows (updateStatus rows id state message ts).1 := by
  unfold updateStatus
  split
  · next row hrow =>
    split
    · refine grows_put fun old hold hs ↦ ?_
      rw [hrow] at hold
      cases hold
      exact hs
    · exact .refl rows
  · exact .refl rows

theorem isSynced_iff : isSynced rows id = true ↔
    ∃ row, rows.get? id = some row ∧ row.synced = true := by
  unfold isSynced
  cases rows.get? id with
  | none => simp
  | some row => simp

/-- A row that is pending is synced by the mark. -/
theorem synced_markQueued {row : DownloadEntity} (hrow : rows.get? id = some row)
    (h : row.state = ascii "pending" ∨ row.synced = true) :
    isSynced (markQueued rows id) id = true := by
  rw [isSynced_iff]
  unfold markQueued
  rw [hrow]
  dsimp only
  by_cases hp : row.state = ascii "pending"
  · rw [if_pos hp]
    exact ⟨_, Table.get?_put_self _ _ _, rfl⟩
  · rw [if_neg hp]
    exact ⟨row, hrow, h.resolve_left hp⟩

/-- The mark changes only a row that is pending. -/
theorem state_markQueued {row : DownloadEntity} (h : (markQueued rows id).get? id' = some row) :
    rows.get? id' = some row ∨
      ∃ old, rows.get? id' = some old ∧ old.state = ascii "pending" := by
  unfold markQueued at h
  split at h
  · next old hold =>
    split at h
    · next hp =>
      rw [Table.get?_put] at h
      by_cases he : id' = id
      · subst he
        exact Or.inr ⟨old, hold, hp⟩
      · rw [if_neg he] at h
        exact Or.inl h
    · exact Or.inl h
  · exact Or.inl h

/-- A status is the state of the row that it is applied to. -/
theorem state_updateStatus {state : Text} {message : Option Text} {ts : Int}
    {row : DownloadEntity} (h : (updateStatus rows id state message ts).1.get? id' = some row) :
    row.state = state ∨ (rows.get? id' = some row ∧
      ((updateStatus rows id state message ts).2 = true → id' ≠ id)) := by
  unfold updateStatus at h ⊢
  split at h
  · split at h
    · rw [Table.get?_put] at h
      by_cases he : id' = id
      · rw [if_pos he] at h
        cases h
        exact Or.inl rfl
      · rw [if_neg he] at h
        exact Or.inr ⟨h, fun _ ↦ he⟩
    · next hle =>
      rw [if_neg hle]
      exact Or.inr ⟨h, fun hf ↦ by cases hf⟩
  · exact Or.inr ⟨h, fun hf ↦ by cases hf⟩

theorem isSome_updateStatus {state : Text} {message : Option Text} {ts : Int}
    (h : (updateStatus rows id state message ts).2 = true) : (rows.get? id).isSome := by
  unfold updateStatus at h
  split at h
  · next row hrow =>
    rw [hrow]
    rfl
  · cases h

theorem mem_unsyncedList (h : id ∈ unsyncedList rows) : (rows.get? id).isSome := by
  obtain ⟨r, hr, rfl⟩ := List.mem_map.mp h
  have hrow := (List.mem_filter.mp (List.mem_mergeSort.mp hr)).1
  rw [Table.mem_rows.mp hrow]
  rfl

end Tables

section Steps

variable {s : Downloads} {rows' : Table Text DownloadEntity} {d : DownloadDrain} {pid : Nat}

/-! ### What the steps keep -/

theorem isSynced_grows {rows : Table Text DownloadEntity} {id : Text}
    (h : isSynced rows id = true) (hg : Grows rows rows') : isSynced rows' id = true := by
  rw [isSynced_iff] at h ⊢
  obtain ⟨row, hrow, hs⟩ := h
  obtain ⟨row', hrow', hs'⟩ := hg id row hrow
  exact ⟨row', hrow', hs' hs⟩

theorem isSome_grows {rows : Table Text DownloadEntity} {id : Text} (h : (rows.get? id).isSome)
    (hg : Grows rows rows') : (rows'.get? id).isSome := by
  obtain ⟨row, hrow⟩ := Option.isSome_iff_exists.mp h
  obtain ⟨row', hrow', -⟩ := hg id row hrow
  rw [hrow']
  rfl

theorem DrainInv.grows {rows : Table Text DownloadEntity} (h : DrainInv rows d)
    (hg : Grows rows rows') : DrainInv rows' d where
  known id hid := isSome_grows (h.known id hid) hg
  todo := h.todo
  appended := h.appended
  done hu id hid := by
    rcases h.done hu id hid with htodo | happ | hs
    · exact Or.inl htodo
    · exact Or.inr (Or.inl happ)
    · exact Or.inr (Or.inr (isSynced_grows hs hg))

/-- A statement that keeps rows and marks, and no answered row becomes pending or queued by. -/
theorem Inv.grows (h : s.Inv) (hg : Grows s.rows rows')
    (hforward : ∀ id ∈ s.answered, ∀ row, rows'.get? id = some row →
      row.state ≠ ascii "pending" ∧ row.state ≠ ascii "queued") :
    Inv { s with rows := rows' } where
  sound := ⟨h.sound.once, hforward⟩
  settled id hid := isSynced_grows (h.settled id hid) hg
  known id hid := isSome_grows (h.known id hid) hg
  drains pid d hd := (h.drains pid d hd).grows hg

/-- A drain goes on. -/
theorem Inv.put (h : s.Inv) (hd : DrainInv s.rows d) : Inv { s with drains := s.drains.put pid d } where
  sound := ⟨h.sound.once, h.sound.forward⟩
  settled := h.settled
  known := h.known
  drains pid' d' hget := by
    have hget : (s.drains.put pid d).get? pid' = some d' := hget
    rw [Table.get?_put] at hget
    split at hget
    · cases hget
      exact hd
    · exact h.drains pid' d' hget

/-- A drain ends. -/
theorem Inv.drop (h : s.Inv) : Inv { s with drains := s.drains.drop pid } where
  sound := ⟨h.sound.once, h.sound.forward⟩
  settled := h.settled
  known := h.known
  drains pid' d' hget := by
    have hget : (s.drains.drop pid).get? pid' = some d' := hget
    rw [Table.get?_drop] at hget
    split at hget
    · cases hget
    · exact h.drains pid' d' hget

theorem inv_start : start.Inv where
  sound := ⟨rfl, fun _ h ↦ by cases h⟩
  settled _ h := by cases h
  known _ h := by cases h
  drains _ _ h := by cases h

/-- An append of a request that is not marked does not send it again. -/
theorem Inv.append (h : s.Inv) {lands : Bool} {result : Option Bool}
    (hfree : s.undisturbed (.append pid lands result) = true) :
    (s.step (.append pid lands result)).Inv := by
  rw [step]
  split
  · next read id todo unfailed hd =>
    have hinv := h.drains pid _ hd
    have hresent : (if lands && s.sent.contains id then id :: s.resent else s.resent) =
        s.resent := by
      rw [if_neg]
      intro hboth
      rw [Bool.and_eq_true, List.contains_iff_mem] at hboth
      rw [undisturbed, hd] at hfree
      simp [hboth.1, h.settled id hboth.2] at hfree
    dsimp only
    rw [hresent]
    have hrest : ∀ id' ∈ todo, id' ∈ read := fun id' hid' ↦ hinv.todo id' (List.mem_cons_of_mem _ hid')
    split
    · apply h.put
      refine ⟨hinv.known, hrest, fun id' hid' ↦ ?_, fun hu id' hid' ↦ ?_⟩
      · cases hid'
        exact hinv.todo id List.mem_cons_self
      · rcases hinv.done hu id' hid' with htodo | happ | hs
        · rcases List.mem_cons.mp htodo with rfl | htodo
          · exact Or.inr (Or.inl rfl)
          · exact Or.inl htodo
        · cases happ
        · exact Or.inr (Or.inr hs)
    · apply h.put
      refine ⟨hinv.known, hrest, fun id' hid' ↦ ?_, fun hu ↦ ?_⟩
      · cases hid'
      · cases hu
    · exact h.drop
  · exact h

/-- The mark of a row that is pending syncs it. -/
theorem Inv.mark (h : s.Inv) (hfree : s.undisturbed (.mark pid) = true) : (s.step (.mark pid)).Inv := by
  rw [step]
  split
  · next read todo id unfailed hd =>
    have hinv := h.drains pid _ hd
    obtain ⟨row, hrow⟩ := Option.isSome_iff_exists.mp (hinv.known id (hinv.appended id rfl))
    have hsynced : isSynced (markQueued s.rows id) id = true := by
      rw [undisturbed, hd] at hfree
      simp only [hrow, Bool.or_eq_true, decide_eq_true_eq] at hfree
      exact synced_markQueued hrow hfree
    have hmarked : Inv { s with rows := markQueued s.rows id } := by
      refine h.grows grows_markQueued fun id' hid' row' hrow' ↦ ?_
      rcases state_markQueued hrow' with hold | ⟨old, hold, hp⟩
      · exact h.sound.forward id' hid' row' hold
      · exact absurd hp (h.sound.forward id' hid' old hold).1
    have hsent : Inv { s with rows := markQueued s.rows id, sent := id :: s.sent } := by
      refine ⟨⟨hmarked.sound.once, hmarked.sound.forward⟩, fun id' hid' ↦ ?_, hmarked.known,
        hmarked.drains⟩
      rcases List.mem_cons.mp hid' with rfl | hid'
      · exact hsynced
      · exact hmarked.settled id' hid'
    obtain ⟨hk, ht, ha, hdone⟩ := hsent.drains pid _ hd
    refine hsent.put ⟨hk, ht, fun _ hid' ↦ (by cases hid'), fun hu id' hid' ↦ ?_⟩
    rcases hdone hu id' hid' with htodo | happ | hs
    · exact Or.inl htodo
    · cases happ
      exact Or.inr (Or.inr hsynced)
    · exact Or.inr (Or.inr hs)
  · exact h

/-- A status moves a request forward. -/
theorem Inv.status (h : s.Inv) (id : Text) (state : DesktopState) (message : Option Text)
    (ts : Int) : (s.step (.status id state message ts)).Inv := by
  have htext : state.text ≠ ascii "pending" ∧ state.text ≠ ascii "queued" := by
    cases state <;> decide
  have hforward : ∀ id' ∈ s.answered, ∀ row,
      (updateStatus s.rows id state.text message ts).1.get? id' = some row →
        row.state ≠ ascii "pending" ∧ row.state ≠ ascii "queued" := by
    intro id' hid' row hrow
    rcases state_updateStatus hrow with he | ⟨hold, -⟩
    · rw [he]
      exact htext
    · exact h.sound.forward id' hid' row hold
  have hrows := h.grows grows_updateStatus hforward
  rw [step]
  by_cases happlied : (updateStatus s.rows id state.text message ts).2 = true
  · simp only [happlied, if_true]
    refine ⟨⟨hrows.sound.once, fun id' hid' row hrow ↦ ?_⟩, hrows.settled, fun id' hid' ↦ ?_,
      hrows.drains⟩
    · rcases List.mem_cons.mp hid' with rfl | hid'
      · rcases state_updateStatus hrow with he | ⟨-, hne⟩
        · rw [he]
          exact htext
        · exact absurd rfl (hne happlied)
      · exact hforward id' hid' row hrow
    · rcases List.mem_cons.mp hid' with rfl | hid'
      · exact isSome_grows (isSome_updateStatus happlied) grows_updateStatus
      · exact hrows.known id' hid'
  · simp only [happlied]
    exact hrows

/-- A fresh request takes no other one's place. -/
theorem Inv.submit (h : s.Inv) (id query : Text) (now : Int) :
    (s.step (.submit id query now)).Inv := by
  rw [step]
  split
  · exact h
  · next hnone =>
    refine h.grows (grows_put fun old hold ↦ ?_) fun id' hid' row hrow ↦ ?_
    · rw [hnone] at hold
      cases hold
    · have hne : id' ≠ id := by
        rintro rfl
        have hsome := h.known id' hid'
        rw [hnone] at hsome
        cases hsome
      rw [Table.get?_put_ne _ _ hne] at hrow
      exact h.sound.forward id' hid' row hrow

/-- Every step that is undisturbed keeps the invariant. -/
theorem Inv.step (h : s.Inv) (a : DownloadStep) (hfree : s.undisturbed a = true) : (s.step a).Inv := by
  cases a with
  | submit id query now => exact h.submit id query now
  | read pid =>
    rw [Downloads.step]
    split
    · exact h
    · apply h.put
      exact ⟨fun id hid ↦ mem_unsyncedList hid, fun _ hid ↦ hid, fun _ hid ↦ (by cases hid),
        fun _ _ hid ↦ Or.inl hid⟩
  | append pid lands result => exact h.append hfree
  | mark pid => exact h.mark hfree
  | finish pid =>
    rw [Downloads.step]
    split
    · exact h.drop
    · exact h
  | status id state message ts => exact h.status id state message ts
  | die =>
    refine ⟨⟨h.sound.once, h.sound.forward⟩, h.settled, h.known, fun pid d hd ↦ ?_⟩
    cases hd

/-- A drain that returns has nothing left to do. -/
theorem Inv.complete (h : s.Inv) (a : DownloadStep) : s.Complete a := by
  cases a with
  | finish pid =>
    intro read hd id hid
    rcases (h.drains pid _ hd).done rfl id hid with htodo | happ | hs
    · cases htodo
    · cases happ
    · exact hs
  | _ => trivial

end Steps

/-- In every undisturbed run each request is sent once: none is appended again behind its mark, none
goes back to the phone's own states after a status, and a drain without failures leaves what it read
synced. -/
theorem requests_sent_once (run : List DownloadStep) (h : Meets step (fun s a ↦ s.undisturbed a = true) start run) :
    Always step Sound start run ∧ Meets step Complete start run :=
  ⟨always_of_inv (fun _ hinv ↦ hinv.sound) (fun _ a hinv hfree ↦ hinv.step a hfree) inv_start h,
    meets_of_inv (fun _ a hinv hfree ↦ hinv.step a hfree) (fun _ a hinv _ ↦ hinv.complete a)
      inv_start h⟩

/-- A request that is sent, answered and not sent again. -/
def answeredLater : List DownloadStep :=
  [.submit (ascii "u") (ascii "song") 5, .read 0, .append 0 true (some true), .mark 0, .finish 0,
    .status (ascii "u") .running none 9, .read 1, .finish 1]

theorem answered_later_once : Always step Sound start answeredLater ∧
    Meets step Complete start answeredLater := by
  apply requests_sent_once
  decide +kernel

/-- A status between the append and the mark leaves the request unsynced, and the next drain sends it
again. -/
def answeredEarly : List DownloadStep :=
  [.submit (ascii "u") (ascii "song") 5, .read 0, .append 0 true (some true),
    .status (ascii "u") .running none 9, .mark 0, .finish 0, .read 1, .append 1 true (some true)]

/-- Two drains that read a request before either marks it both send it. -/
def twoDrains : List DownloadStep :=
  [.submit (ascii "u") (ascii "song") 5, .read 0, .read 1, .append 0 true (some true), .mark 0,
    .append 1 true (some true)]

theorem requests_sent_twice : ¬ Always step Sound start answeredEarly ∧
    ¬ Meets step Complete start answeredEarly ∧ ¬ Always step Sound start twoDrains := by
  refine ⟨fun h ↦ ?_, fun h ↦ ?_, fun h ↦ ?_⟩
  · have honce := h.last.once
    revert honce
    decide +kernel
  · have hfinish := h.2.2.2.2.2.1 [ascii "u"] (by decide +kernel) (ascii "u") (by decide)
    revert hfinish
    decide +kernel
  · have honce := h.last.once
    revert honce
    decide +kernel

end Downloads

end Nocturne
