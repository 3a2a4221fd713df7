import Nocturne.Ingest.Run

/-!
# What the handlers write

Inside the transaction of a file, a handler that does not report a failure has the effect of
its event on the working state, and nothing reaches the committed state. `IngestSound` says
which failures the handlers may meet without noticing: those of statements whose results
they ignore must not have mattered, and must not have ended the transaction.
-/

namespace Nocturne

open Lib Proc IngestStats

/-- The answers that do no harm. A failing lookup of the offset must not hide an offset, and
a failing statement whose result is ignored must not hide or keep anything. -/
def IngestSound (w : World IngestStats) : Call → Reply Fault → Prop
  | .sql (.selectOffset relpath), .fail _ => w.conn.committed.storedOffset relpath = 0
  | .sql (.blacklisted sha), .fail f =>
    f.rollsBack = false ∧ w.conn.view.isBlacklisted sha = false
  | .sql (.pinTs sha ts), .fail f =>
    f.rollsBack = false ∧ ¬ ts < (w.conn.view.pinTs sha).getD 0
  | .sql (.clearPin sha), .fail f =>
    f.rollsBack = false ∧ w.conn.view.pins.get? (.track, sha) = none
  | .sql (.dropUnsync sha), .fail f =>
    f.rollsBack = false ∧ w.conn.view.unsyncOverrides.get? sha = none
  | .sql (.trackSize _), .fail f => f.rollsBack = false
  | .sql (.trackPath _), .fail f => f.rollsBack = false
  | .sql (.transcodePath _), .fail f => f.rollsBack = false
  | .sql (.release false), .fail f => f.rollsBack = false
  | _, _ => True

/-- The connection is in a transaction with the working state `work`, over the committed
state `base`. -/
structure InWork (base work : Db) (w : World IngestStats) : Prop where
  committed : w.conn.committed = base
  txn : ∃ saves, w.conn.txn = some ⟨work, saves, false⟩

/-- Nothing but what is committed is known, but no savepoint commits on its own. -/
structure Quiet (base : Db) (w : World IngestStats) : Prop where
  committed : w.conn.committed = base
  explicit : ∀ t, w.conn.txn = some t → t.implicit = false

/-- A handler keeps the committed state and, unless it failed, has brought the working state
to `work`. -/
structure Wrote (base work : Db) (ok : Bool) (w : World IngestStats) : Prop where
  committed : w.conn.committed = base
  work : ok = true → InWork base work w

variable {base work : Db} {w : World IngestStats} {α : Type}

/-- Within the transaction the connection sees the working state. -/
theorem InWork.view (h : InWork base work w) : w.conn.view = work := by
  obtain ⟨saves, hs⟩ := h.txn
  rw [Conn.view, hs]

/-- Within the transaction nothing more is committed. -/
theorem InWork.quiet (h : InWork base work w) : Quiet base w := by
  refine ⟨h.committed, fun t ht ↦ ?_⟩
  obtain ⟨saves, hs⟩ := h.txn
  rw [hs] at ht
  cases ht
  rfl

theorem InWork.wrote (h : InWork base work w) (ok : Bool) : Wrote base work ok w :=
  ⟨h.committed, fun _ ↦ h⟩

theorem wrote_failed (h : w.conn.committed = base) : Wrote base work false w :=
  ⟨h, fun he ↦ by cases he⟩

/-- Statements do not touch what is committed while a transaction is open. -/
theorem InWork.setView (h : InWork base work w) (db : Db) :
    InWork base db { w with conn := w.conn.setView db } := by
  obtain ⟨saves, hs⟩ := h.txn
  unfold Conn.setView
  rw [hs]
  exact ⟨h.committed, saves, rfl⟩

/-- A failing statement leaves what is committed alone. -/
theorem Quiet.failed (h : Quiet base w) (f : Fault) :
    Quiet base { w with conn := w.conn.failed f } := by
  unfold Conn.failed
  split
  · exact ⟨h.committed, fun t ht ↦ by cases ht⟩
  · exact h

/-- A failure that leaves the transaction alone. -/
theorem InWork.failed (h : InWork base work w) {f : Fault} (hf : f.rollsBack = false) :
    InWork base work { w with conn := w.conn.failed f } := by
  unfold Conn.failed
  rw [hf]
  exact h

/-- Counting does not touch the transaction. -/
theorem InWork.tally (h : InWork base work w) (f : IngestStats → IngestStats) :
    InWork base work { w with out := f w.out } := ⟨h.committed, h.txn⟩

/-! ### Rules for the statements -/

section Rules

variable {A : World IngestStats → Call → Reply Fault → Prop} {C : World IngestStats → Prop}

/-- A statement within the transaction, by its answers. -/
theorem wp_exec_inWork {stmt : Stmt} {f : Db → Option Db} {Q : StepRc → World IngestStats → Prop}
    (h : InWork base work w) (hdie : C w)
    (hdone : ∀ db, f work = some db → ∀ w', InWork base db w' → Q .done w')
    (hcon : f work = none → Q .constraint w)
    (herr : ∀ e, A w (.sql stmt) (.fail e) → ∀ w', Quiet base w' →
      (e.rollsBack = false → InWork base work w') → Q .error w') :
    wp A (exec stmt f) Q C w := by
  refine (wp_ask _ _).mpr ⟨fun _ ↦ hdie, fun _ ↦ ?_, fun e he ↦ ?_⟩
  · dsimp only
    rw [h.view]
    cases hf : f work with
    | none => exact hcon hf
    | some db => exact hdone db hf _ (h.setView db)
  · exact herr e he _ (h.quiet.failed e) fun hr ↦ h.failed hr

/-- A statement that no constraint refuses and whose failure the caller reports. -/
theorem wp_exec_some {stmt : Stmt} {g : Db → Db} {Q : StepRc → World IngestStats → Prop}
    (h : InWork base work w) (hdie : C w) (hdone : ∀ w', InWork base (g work) w' → Q .done w')
    (herr : ∀ w', Quiet base w' → Q .error w') :
    wp A (exec stmt fun db ↦ some (g db)) Q C w := by
  refine wp_exec_inWork h hdie (fun db hdb w' hw' ↦ ?_) (fun hn ↦ by cases hn)
    fun e _ w' hw' _ ↦ herr w' hw'
  cases hdb
  exact hdone w' hw'

/-- A query within the transaction, by its answers. -/
theorem wp_query_inWork {stmt : Stmt} {f : Db → α} {Q : Option α → World IngestStats → Prop}
    (h : InWork base work w) (hdie : C w) (hok : Q (some (f work)) w)
    (herr : ∀ e, A w (.sql stmt) (.fail e) → e.rollsBack = false ∧
      ∀ w', InWork base work w' → Q none w') :
    wp A (query stmt f) Q C w := by
  refine (wp_ask _ _).mpr ⟨fun _ ↦ hdie, fun _ ↦ ?_, fun e he ↦ ?_⟩
  · show Q (some (f w.conn.view)) w
    rw [h.view]
    exact hok
  · obtain ⟨hr, hq⟩ := herr e he
    exact hq _ (h.failed hr)

/-- Counting within the transaction. -/
theorem wp_tally_inWork {f : IngestStats → IngestStats} {Q : Unit → World IngestStats → Prop}
    (h : InWork base work w) (hq : ∀ w', InWork base work w' → Q () w') :
    wp A (tally f) Q C w := hq _ (h.tally f)

end Rules

/-! ### The writing parts -/

/-- The run keeps what is committed and, unless it reports a failure, ends with the effect
`g` on the working state. -/
def Writes (p : Sys IngestStats α) (ok : α → Bool) (g : Db → Db) : Prop :=
  ∀ base work w, InWork base work w →
    wp IngestSound p (fun a ↦ Wrote base (g work) (ok a)) (fun w ↦ w.conn.committed = base) w

/-- A handler result other than −1. -/
def HandlerRc.ok (rc : HandlerRc) : Bool := rc != .failed

/-- What an action returns tells whether it has written. -/
theorem writes_actionDone (rc : Bool) (h : InWork base work w) :
    wp IngestSound (actionDone rc) (fun a ↦ Wrote base work a.ok)
      (fun w ↦ w.conn.committed = base) w := by
  cases rc with
  | true => exact (h.tally _).wrote _
  | false => exact wrote_failed h.committed

/-- The result of a track action decides the result of the handler. -/
theorem writes_action {p : Sys IngestStats Bool} {g : Db → Db} (hp : Writes p id g) :
    Writes (do let rc ← p; actionDone rc) HandlerRc.ok g := by
  intro base work w h
  rw [wp_bind]
  refine wp_mono (hp base work w h) (fun rc w' hw' ↦ ?_) fun _ hc ↦ hc
  cases rc with
  | true => exact writes_actionDone true (hw'.work rfl)
  | false => exact wrote_failed hw'.committed

/-- A play is written as `Db.play` says. -/
theorem writes_play (row : PlayRow) :
    Writes (writePlay row) HandlerRc.ok fun db ↦ db.play row := by
  intro base work w h
  rw [writePlay, wp_bind]
  refine wp_exec_inWork h h.committed (fun db hdb w' hw' ↦ ?_) (fun hn ↦ ?_)
    fun e _ w' hw' _ ↦ wrote_failed hw'.committed
  · have hp : work.play row = db := by rw [Db.play, hdb, Option.getD_some]
    subst hp
    exact (hw'.tally _).wrote _
  · have hp : work.play row = work := by rw [Db.play, hn, Option.getD_none]
    dsimp only
    rw [hp]
    exact h.wrote _

/-- A like is written as `Db.upsertLike` says. -/
theorem writes_like (unit : ItemUnit) (id : Text) (row : LikeRow) :
    Writes (writeLike unit id row) HandlerRc.ok fun db ↦ db.upsertLike unit id row := by
  intro base work w h
  rw [writeLike, wp_bind]
  refine wp_exec_some h h.committed (fun w' hw' ↦ ?_) fun w' hw' ↦ wrote_failed hw'.committed
  exact (hw'.tally _).wrote _

/-- An unsync is written as `Db.unsync` says. -/
theorem writes_unsyncTrack (sha : Sha) (iso : Text) :
    Writes (unsyncTrack sha iso) id fun db ↦ db.unsync sha iso := by
  intro base work w h
  rw [unsyncTrack, wp_bind]
  have put : ∀ w', InWork base (work.clearPin sha iso) w' →
      wp IngestSound (do
        let rc ← exec (.putUnsync sha) fun db ↦ some (db.putUnsync sha iso)
        pure (rc == .done)) (fun a ↦ Wrote base (work.unsync sha iso) (id a))
        (fun w ↦ w.conn.committed = base) w' := by
    intro w' hw'
    rw [wp_bind]
    exact wp_exec_some hw' hw'.committed (fun w'' hw'' ↦ hw''.wrote _)
      fun w'' hw'' ↦ wrote_failed hw''.committed
  refine wp_exec_inWork h h.committed (fun db hdb w' hw' ↦ ?_) (fun hn ↦ by cases hn)
    fun e he w' _ hw' ↦ ?_
  · cases hdb
    exact put w' hw'
  · obtain ⟨hr, hn⟩ := he
    apply put
    rw [h.view] at hn
    rw [Db.clearPin, hn]
    exact hw' hr

/-- A transaction statement that the handler does not look at, where nothing is known of the
working state. -/
theorem wp_execTxn_quiet {A : World IngestStats → Call → Reply Fault → Prop} {stmt : Stmt}
    {f : Conn → Option Conn} {Q : Bool → World IngestStats → Prop}
    {C : World IngestStats → Prop} (h : Quiet base w) (hdie : C w)
    (hf : ∀ c, f w.conn = some c → Quiet base { w with conn := c })
    (hq : ∀ b w', Quiet base w' → Q b w') : wp A (execTxn stmt f) Q C w := by
  refine (wp_ask _ _).mpr ⟨fun _ ↦ hdie, fun _ ↦ ?_, fun e _ ↦ hq _ _ (h.failed e)⟩
  dsimp only
  split
  · next c hc => exact hq _ _ (hf c hc)
  · exact hq _ _ h

/-- A rollback to the savepoint commits nothing. -/
theorem Quiet.rollbackTo (h : Quiet base w) {c : Conn} (hc : w.conn.rollbackTo = some c) :
    Quiet base { w with conn := c } := by
  unfold Conn.rollbackTo at hc
  split at hc
  · cases hc
  · next t ht =>
    split at hc
    · cases hc
    · cases hc
      refine ⟨h.committed, fun t' ht' ↦ ?_⟩
      cases ht'
      exact h.explicit t ht

/-- A release commits nothing while the transaction is open. -/
theorem Quiet.release (h : Quiet base w) {c : Conn} (hc : w.conn.release = some c) :
    Quiet base { w with conn := c } := by
  unfold Conn.release at hc
  split at hc
  · cases hc
  · next t ht =>
    have hi := h.explicit t ht
    split at hc
    · cases hc
    · rw [hi] at hc
      cases hc
      refine ⟨h.committed, fun t' ht' ↦ ?_⟩
      cases ht'
      rfl
    · cases hc
      refine ⟨h.committed, fun t' ht' ↦ ?_⟩
      cases ht'
      exact hi

/-- Opening and releasing a savepoint leave the working state alone. -/
theorem InWork.savepoint (h : InWork base work w) :
    InWork base work { w with conn := w.conn.savepoint } := by
  obtain ⟨saves, hs⟩ := h.txn
  unfold Conn.savepoint
  rw [hs]
  exact ⟨h.committed, _, rfl⟩

/-- A release keeps the working state. -/
theorem InWork.release (h : InWork base work w) {c : Conn} (hc : w.conn.release = some c) :
    InWork base work { w with conn := c } := by
  obtain ⟨saves, hs⟩ := h.txn
  unfold Conn.release at hc
  rw [hs] at hc
  cases saves with
  | nil => cases hc
  | cons db rest =>
    cases rest with
    | nil =>
      cases hc
      exact ⟨h.committed, _, rfl⟩
    | cons db' rest =>
      cases hc
      exact ⟨h.committed, _, rfl⟩

/-- A deletion writes the blacklist and takes the rows of the track away. -/
theorem writes_blacklistAndDelete (sha : Sha) (iso : Text) :
    Writes (blacklistAndDelete sha iso) id fun db ↦
      (db.putBlacklist sha didntLike iso).deleteTrack sha := by
  intro base work w h
  have undo : ∀ w', Quiet base w' →
      wp IngestSound (do
        let _ ← execTxn .rollbackTo Conn.rollbackTo
        let _ ← execTxn (.release true) Conn.release
        pure false)
        (fun a ↦ Wrote base ((work.putBlacklist sha didntLike iso).deleteTrack sha) (id a))
        (fun w ↦ w.conn.committed = base) w' := by
    intro w' hw'
    rw [wp_bind]
    refine wp_execTxn_quiet hw' hw'.committed (fun c hc ↦ hw'.rollbackTo hc) fun _ w₁ hw₁ ↦ ?_
    rw [wp_bind]
    exact wp_execTxn_quiet hw₁ hw₁.committed (fun c hc ↦ hw₁.release hc)
      fun _ w₂ hw₂ ↦ wrote_failed hw₂.committed
  rw [blacklistAndDelete, wp_bind]
  refine (wp_ask _ _).mpr ⟨fun _ ↦ h.committed, fun _ ↦ ?_, fun e _ ↦ ?_⟩
  · dsimp only
    rw [if_pos rfl, wp_bind]
    refine wp_exec_some h.savepoint h.savepoint.committed (fun w₁ hw₁ ↦ ?_) fun w₁ hw₁ ↦ ?_
    · rw [if_pos rfl, wp_bind]
      refine wp_exec_some hw₁ hw₁.committed (fun w₂ hw₂ ↦ ?_) fun w₂ hw₂ ↦ undo w₂ hw₂
      rw [if_pos rfl, wp_bind]
      refine (wp_ask _ _).mpr ⟨fun _ ↦ hw₂.committed, fun _ ↦ ?_, fun e he ↦ ?_⟩
      · dsimp only
        split
        · next c hc => exact (hw₂.release hc).wrote _
        · exact hw₂.wrote _
      · exact (hw₂.failed he).wrote _
    · exact undo w₁ hw₁
  · exact wrote_failed (h.quiet.failed e).committed

/-- Removing a file is nothing to the database. -/
theorem writes_unlinkNamed (path : Option Path) :
    Writes (unlinkNamed path) (fun _ ↦ true) id := by
  intro base work w h
  cases path with
  | none => exact h.wrote _
  | some path =>
    rw [unlinkNamed, wp_bind]
    refine (wp_ask _ _).mpr ⟨fun _ ↦ h.committed, fun _ ↦ ?_, fun e _ ↦ h.wrote _⟩
    dsimp only
    split
    · exact ⟨h.committed, fun _ ↦ ⟨h.committed, h.txn⟩⟩
    · exact h.wrote _

/-- A first part without effect that cannot fail. -/
theorem Writes.skip {β : Type} {p : Sys IngestStats α} {k : α → Sys IngestStats β}
    {ok : β → Bool} {g : Db → Db} (hp : Writes p (fun _ ↦ true) id)
    (hk : ∀ a, Writes (k a) ok g) : Writes (p >>= k) ok g := by
  intro base work w h
  rw [wp_bind]
  exact wp_mono (hp base work w h) (fun a w' hw' ↦ hk a base work w' (hw'.work rfl)) fun _ hc ↦ hc

/-- A look that must not end the transaction, and whose result does not matter. -/
theorem writes_query {stmt : Stmt} {f : Db → α}
    (hs : ∀ w e, IngestSound w (.sql stmt) (.fail e) → e.rollsBack = false) :
    Writes (query stmt f) (fun _ ↦ true) id := by
  intro base work w h
  exact wp_query_inWork h h.committed (h.wrote _) fun e he ↦ ⟨hs w e he, fun w' hw' ↦ hw'.wrote _⟩

/-- A deletion with its savepoint writes what it writes without one. -/
theorem writes_deleteTrackEverywhere (sha : Sha) (iso : Text) :
    Writes (deleteTrackEverywhere sha iso) id fun db ↦
      (db.putBlacklist sha didntLike iso).deleteTrack sha := by
  unfold deleteTrackEverywhere
  refine Writes.skip (writes_query ?_) fun _ ↦ ?_
  · exact fun _ _ he ↦ he
  refine Writes.skip (writes_query ?_) fun archivePath ↦ ?_
  · exact fun _ _ he ↦ he
  refine Writes.skip (writes_query ?_) fun transcodePath ↦ ?_
  · exact fun _ _ he ↦ he
  refine (writes_unlinkNamed _).skip fun _ ↦ ?_
  exact (writes_unlinkNamed _).skip fun _ ↦ writes_blacklistAndDelete sha iso

/-- Whether a pin is refused is asked of the working state. -/
theorem wp_pinRefused (unit : ItemUnit) (id : Text) (h : InWork base work w) :
    wp IngestSound (pinRefused unit id)
      (fun refused w' ↦ refused = decide (unit = .track ∧ work.isBlacklisted id = true) ∧
        InWork base work w') (fun w ↦ w.conn.committed = base) w := by
  cases unit with
  | album => exact ⟨rfl, h⟩
  | track =>
    rw [pinRefused, wp_map]
    refine wp_query_inWork h h.committed ⟨?_, h⟩ fun e he ↦ ⟨he.1, fun w' hw' ↦ ⟨?_, hw'⟩⟩
    · simp
    · have hb := he.2
      rw [h.view] at hb
      simp [hb]

/-- A pin is written as `Db.pin` says, unless its track is on the blacklist. -/
theorem writes_pin (unit : ItemUnit) (id : Text) (pinned : Bool) (ts : Int) :
    Writes (writePin unit id pinned ts) HandlerRc.ok fun db ↦
      if unit = .track ∧ db.isBlacklisted id = true then db else db.pin unit id pinned ts := by
  intro base work w h
  dsimp only
  rw [writePin, wp_bind]
  refine wp_mono (wp_pinRefused unit id h) (fun refused w₁ ⟨hr, hw₁⟩ ↦ ?_) fun _ hc ↦ hc
  subst hr
  by_cases hb : unit = .track ∧ work.isBlacklisted id = true
  · rw [if_pos hb, if_pos (decide_eq_true hb)]
    exact hw₁.wrote _
  · rw [if_neg hb, if_neg (by simpa using hb), wp_bind]
    refine wp_exec_some hw₁ hw₁.committed (fun w₂ hw₂ ↦ ?_) fun w₂ hw₂ ↦ wrote_failed hw₂.committed
    rw [if_pos rfl, wp_bind]
    refine wp_tally_inWork hw₂ fun w₃ hw₃ ↦ ?_
    by_cases hp : pinned = true ∧ unit = .track
    · rw [if_pos hp, wp_bind, Db.pin, if_pos hp]
      refine wp_exec_inWork hw₃ hw₃.committed (fun db hdb w₄ hw₄ ↦ ?_) (fun hn ↦ by cases hn)
        fun e he w₄ _ hw₄ ↦ ?_
      · cases hdb
        exact hw₄.wrote _
      · obtain ⟨hr, hn⟩ := he
        rw [hw₃.view] at hn
        rw [Db.dropUnsync, hn]
        exact (hw₄ hr).wrote _
    · rw [if_neg hp, Db.pin, if_neg hp]
      exact hw₃.wrote _

/-- Whether the pin is newer is asked of the working state. -/
theorem wp_pinNewer (id : Text) (ts : Int) (h : InWork base work w) :
    wp IngestSound (pinNewer id ts)
      (fun newer w' ↦ newer = decide (ts < (work.pinTs id).getD 0) ∧ InWork base work w')
      (fun w ↦ w.conn.committed = base) w := by
  rw [pinNewer, wp_map]
  refine wp_query_inWork h h.committed ⟨rfl, h⟩ fun e he ↦ ⟨he.1, fun w' hw' ↦ ⟨?_, hw'⟩⟩
  have hn := he.2
  rw [h.view] at hn
  exact (decide_eq_false hn).symm

/-- An unsync of a track is written unless the pin is newer. -/
theorem writes_unsync (id iso : Text) (ts : Int) :
    Writes (do
      let newer ← pinNewer id ts
      if newer then actionDone true
      else
        let rc ← unsyncTrack id iso
        actionDone rc) HandlerRc.ok fun db ↦
      if ts < (db.pinTs id).getD 0 then db else db.unsync id iso := by
  intro base work w h
  dsimp only
  rw [wp_bind]
  refine wp_mono (wp_pinNewer id ts h) (fun newer w₁ ⟨hn, hw₁⟩ ↦ ?_) fun _ hc ↦ hc
  subst hn
  by_cases hlt : ts < (work.pinTs id).getD 0
  · rw [if_pos hlt, if_pos (decide_eq_true hlt)]
    exact writes_actionDone true hw₁
  · rw [if_neg hlt, if_neg (by simpa using hlt)]
    exact writes_action (writes_unsyncTrack id iso) base work w₁ hw₁

/-- A handler writes its event. -/
theorem writes_event (relpath : Path) (now : Int) (ev : Event) :
    Writes (writeEvent relpath now ev) HandlerRc.ok fun db ↦ db.apply relpath now ev := by
  cases ev with
  | play ts kind track playedMs => exact writes_play _
  | like unit id liked ts => exact writes_like unit id _
  | pin unit id pinned ts => exact writes_pin unit id pinned ts
  | unsync unit id ts =>
    cases unit with
    | album => exact writes_action fun base work w h ↦ h.wrote _
    | track => exact writes_unsync id (isoNow now) ts
  | delete unit id ts =>
    cases unit with
    | album => exact writes_action fun base work w h ↦ h.wrote _
    | track => exact writes_action (writes_deleteTrackEverywhere id (isoNow now))

end Nocturne
