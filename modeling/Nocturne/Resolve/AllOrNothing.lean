import Mathlib.Data.Fintype.EquivFin
import Nocturne.Resolve.Write

/-!
# A manifest is written whole, or not at all

Whether a failure of the statements of `write_manifest_to_db` stays without consequence depends on
which ones fail: the transaction has to be gone by the end, with nothing written after it, or none
of them may fail.
-/

namespace Nocturne

open Lib

/-! ### Patterns of failures -/

/-- The answers to the statements, one after another; behind the end they go through. -/
def replies (pattern : List (Option Fault)) : List (Reply Fault) :=
  pattern.map fun fault ↦
    match fault with
    | none => .ok
    | some e => .fail e

/-- The next `n` statements fail. -/
def AllFail : Nat → List (Option Fault) → Bool
  | 0, _ => true
  | n + 1, pattern => (pattern.headD none).isSome && AllFail n pattern.tail

/-- What becomes of an open transaction with `n` statements and the `COMMIT` to come: it goes
through with none of them failed, or is taken along by one that fails, with failures only behind. -/
def TxnSettles : Nat → Bool → List (Option Fault) → Bool
  | 0, failed, pattern =>
    match pattern.headD none with
    | none => !failed
    | some e => e.rollsBack
  | n + 1, failed, pattern =>
    match pattern.headD none with
    | none => TxnSettles n failed pattern.tail
    | some e => if e.rollsBack then AllFail n pattern.tail else TxnSettles n true pattern.tail

/-- The failures of a pattern do not matter: the `BEGIN` fails, or the transaction settles. -/
def Harmless (n : Nat) (pattern : List (Option Fault)) : Bool :=
  (pattern.headD none).isSome || TxnSettles n false pattern.tail

/-- Under a pattern of failures, on every database that has the tracks of the manifest: with 0 the
manifest is written, with −1 both tables are as before, and no transaction is left open. -/
def AllOrNothing (m : Resolution) (pattern : List (Option Fault)) : Prop :=
  ∀ (fs : Tree) (db : Db), m.Fits db → ∃ ok w rest,
    (writeManifestToDb m).run ((Machine.mk fs db).start ()) (replies pattern) = .done ok w rest ∧
    w.conn.txn = none ∧ (ok = true → db.Manifested m w.conn.committed) ∧
    (ok = false → w.conn.committed.manifestCurrent = db.manifestCurrent ∧
      w.conn.committed.manifestMeta = db.manifestMeta)

/-! ### Runs -/

section Runs

variable {ω : Type} {m : Resolution} {db : Db} {c : Conn} {ws : List ManifestWrite}
  {pattern : List (Option Fault)}

/-- The connection after a statement. -/
def Conn.attempt (c : Conn) (w : ManifestWrite) : Option Fault → Conn
  | some e => c.failed e
  | none => c.setView (w.onto c.view)

/-- The connection after some statements. -/
def Conn.attempts (c : Conn) : List ManifestWrite → List (Option Fault) → Conn
  | [], _ => c
  | w :: ws, pattern => (c.attempt w (pattern.headD none)).attempts ws pattern.tail

/-- How `COMMIT` ends. -/
def Conn.finish (c : Conn) : Option Fault → Bool × Conn
  | some e => (false, c.failed e)
  | none =>
    match c.commit with
    | some c' => (true, c')
    | none => (false, c)

theorem run_execWrite (w : ManifestWrite) (s : World ω) (pattern : List (Option Fault)) :
    (execWrite w).run s (replies pattern) =
      .done () { s with conn := s.conn.attempt w (pattern.headD none) } (replies pattern.tail) := by
  have through : ∀ rest, (execWrite w).run s (.ok :: rest) =
      .done () { s with conn := s.conn.attempt w none } rest := by
    intro rest
    refine congrArg (Outcome.done () · rest) ?_
    unfold Conn.attempt ManifestWrite.onto
    dsimp only
    cases w.apply s.conn.view with
    | some db => rfl
    | none => simp
  cases pattern with
  | nil => exact through []
  | cons e rest =>
    cases e with
    | none => exact through (replies rest)
    | some e => rfl

theorem run_writes (ws : List ManifestWrite) (s : World ω) (pattern : List (Option Fault)) :
    (Proc.each execWrite ws).run s (replies pattern) =
      .done () { s with conn := s.conn.attempts ws pattern } (replies (pattern.drop ws.length)) := by
  induction ws generalizing s pattern with
  | nil => rfl
  | cons w ws ih =>
    rw [Proc.each, Proc.run_bind, run_execWrite]
    dsimp only
    rw [ih, List.length_cons, ← List.drop_tail]
    rfl

theorem run_finish (s : World ω) (pattern : List (Option Fault)) :
    (dbCommit : Sys ω Bool).run s (replies pattern) =
      .done (s.conn.finish (pattern.headD none)).1
        { s with conn := (s.conn.finish (pattern.headD none)).2 } (replies pattern.tail) := by
  have through : (match s.conn.commit with
      | some c => (true, { s with conn := c })
      | none => (false, s)) = ((s.conn.finish none).1, { s with conn := (s.conn.finish none).2 }) := by
    unfold Conn.finish
    cases s.conn.commit with
    | some c => rfl
    | none => rfl
  match pattern with
  | [] => exact congrArg (fun r : Bool × World ω ↦ Outcome.done r.1 r.2 []) through
  | none :: rest => exact congrArg (fun r : Bool × World ω ↦ Outcome.done r.1 r.2 (replies rest)) through
  | some e :: rest => rfl

/-- An open transaction on a database. -/
def Conn.opened (db : Db) : Conn := ⟨db, some ⟨db, [], false⟩⟩

/-- How a writing of the manifest ends. -/
def writeOutcome (m : Resolution) (db : Db) (pattern : List (Option Fault)) : Bool × Conn :=
  match pattern.headD none with
  | some _ => (false, ⟨db, none⟩)
  | none =>
    ((Conn.opened db).attempts (manifestWrites m) pattern.tail).finish
      ((pattern.tail.drop (manifestWrites m).length).headD none)

theorem run_writeManifestToDb (m : Resolution) (fs : Tree) (db : Db) (out : ω)
    (pattern : List (Option Fault)) :
    ∃ rest, (writeManifestToDb m).run ((Machine.mk fs db).start out) (replies pattern) =
      .done (writeOutcome m db pattern).1 ⟨fs, (writeOutcome m db pattern).2, out⟩ rest := by
  have opened : ∀ tail, ∃ rest, (do
      Proc.each execWrite (manifestWrites m)
      dbCommit : Sys ω Bool).run (World.mk fs (Conn.opened db) out) (replies tail) =
        .done (((Conn.opened db).attempts (manifestWrites m) tail).finish
            ((tail.drop (manifestWrites m).length).headD none)).1
          ⟨fs, (((Conn.opened db).attempts (manifestWrites m) tail).finish
            ((tail.drop (manifestWrites m).length).headD none)).2, out⟩ rest := by
    intro tail
    rw [Proc.run_bind, run_writes]
    exact ⟨_, run_finish ..⟩
  match pattern with
  | [] => exact opened []
  | none :: rest => exact opened rest
  | some e :: rest =>
    refine ⟨replies rest, ?_⟩
    show Outcome.done false (World.mk fs ((Conn.mk db none).failed e) out) (replies rest) = _
    unfold Conn.failed
    rw [ite_self]
    rfl

theorem attempts_nil {c : Conn} {t : Txn} (h : c.txn = some t) (ws : List ManifestWrite) :
    (c.attempts ws []).commit = some ⟨ws.foldl ManifestWrite.onto t.work, none⟩ := by
  induction ws generalizing c t with
  | nil =>
    rw [Conn.attempts, Conn.commit, h]
    rfl
  | cons w ws ih =>
    have hview : c.view = t.work := by rw [Conn.view, h]
    have hnext : (c.setView (w.onto c.view)).txn = some { t with work := w.onto t.work } := by
      rw [Conn.setView, h, hview]
    exact ih hnext

/-- Without incident the manifest is written. -/
theorem writeOutcome_nil (m : Resolution) (db : Db) :
    writeOutcome m db [] = (true, ⟨written m db, none⟩) := by
  have hcommit := @attempts_nil (Conn.opened db) ⟨db, [], false⟩ rfl (manifestWrites m)
  show ((Conn.opened db).attempts (manifestWrites m) []).finish
    ((([] : List (Option Fault)).drop (manifestWrites m).length).headD none) = _
  rw [List.drop_nil, List.headD_nil, Conn.finish, hcommit]
  rfl

end Runs

/-! ### Harmless failures -/

section Harmless

variable {m : Resolution} {db : Db} {ws : List ManifestWrite} {pattern : List (Option Fault)}

/-- Without a transaction, statements that fail change nothing. -/
theorem attempts_allFail (h : AllFail ws.length pattern = true) :
    (Conn.mk db none).attempts ws pattern = ⟨db, none⟩ := by
  induction ws generalizing pattern with
  | nil => rfl
  | cons w ws ih =>
    rw [List.length_cons, AllFail, Bool.and_eq_true] at h
    obtain ⟨e, he⟩ := Option.isSome_iff_exists.mp h.1
    have hsame : (Conn.mk db none).attempt w (some e) = ⟨db, none⟩ := ite_self _
    rw [Conn.attempts, he, hsame]
    exact ih h.2

theorem finish_none (db : Db) (fault : Option Fault) :
    (Conn.mk db none).finish fault = (false, ⟨db, none⟩) := by
  cases fault with
  | none => rfl
  | some e => exact congrArg (Prod.mk false) (ite_self _)

/-- A transaction that settles is gone without a trace, or has all its statements committed. -/
theorem finish_of_settles {t : Txn} {failed : Bool} (h : TxnSettles ws.length failed pattern = true) :
    ((Conn.mk db (some t)).attempts ws pattern).finish ((pattern.drop ws.length).headD none) =
        (false, ⟨db, none⟩) ∨
      failed = false ∧
        ((Conn.mk db (some t)).attempts ws pattern).finish ((pattern.drop ws.length).headD none) =
          (true, ⟨ws.foldl ManifestWrite.onto t.work, none⟩) := by
  induction ws generalizing t failed pattern with
  | nil =>
    show (Conn.mk db (some t)).finish (pattern.headD none) = _ ∨ _ ∧
      (Conn.mk db (some t)).finish (pattern.headD none) = _
    rw [List.length_nil, TxnSettles] at h
    cases hp : pattern.headD none with
    | none =>
      rw [hp] at h
      exact Or.inr ⟨by simpa using h, rfl⟩
    | some e =>
      rw [hp] at h
      exact Or.inl (congrArg (Prod.mk false) (if_pos h))
  | cons w ws ih =>
    rw [List.length_cons, TxnSettles] at h
    rw [Conn.attempts, List.length_cons, ← List.drop_tail, List.foldl_cons]
    cases hp : pattern.headD none with
    | none =>
      rw [hp] at h
      exact ih h
    | some e =>
      rw [hp] at h
      dsimp only at h
      by_cases hr : e.rollsBack = true
      · rw [if_pos hr] at h
        have hlost : (Conn.mk db (some t)).attempt w (some e) = ⟨db, none⟩ := if_pos hr
        rw [hlost, attempts_allFail h, finish_none]
        exact Or.inl rfl
      · rw [if_neg hr] at h
        have hsame : (Conn.mk db (some t)).attempt w (some e) = ⟨db, some t⟩ := if_neg hr
        rw [hsame]
        rcases @ih _ t _ h with h' | ⟨h', -⟩
        · exact Or.inl h'
        · cases h'

/-- Harmless failures do no harm. -/
theorem allOrNothing_of_harmless
    (h : Harmless (manifestWrites m).length pattern = true) : AllOrNothing m pattern := by
  intro fs db hfits
  obtain ⟨rest, hrun⟩ := run_writeManifestToDb m fs db () pattern
  have hout : writeOutcome m db pattern = (false, ⟨db, none⟩) ∨
      writeOutcome m db pattern = (true, ⟨written m db, none⟩) := by
    unfold writeOutcome
    unfold Harmless at h
    cases hp : pattern.headD none with
    | some e => exact Or.inl rfl
    | none =>
      rw [hp] at h
      rcases @finish_of_settles db (manifestWrites m) pattern.tail ⟨db, [], false⟩ false h with h' | h'
      · exact Or.inl h'
      · exact Or.inr h'.2
  refine ⟨_, _, rest, hrun, ?_⟩
  rcases hout with he | he
  · rw [he]
    exact ⟨rfl, fun hf ↦ (by cases hf), fun _ ↦ ⟨rfl, rfl⟩⟩
  · rw [he]
    exact ⟨rfl, fun _ ↦ manifested_written hfits, fun hf ↦ (by cases hf)⟩

end Harmless

/-! ### Harmful failures -/

section Harmful

variable {m : Resolution} {db : Db} {z : Sha} {w w' : ManifestWrite} {ws : List ManifestWrite}
  {pattern : List (Option Fault)} {failed : Bool}

/-- A statement has left its mark: the row that was there before is gone, the track is there, the
number is set. -/
def ManifestWrite.Done (z : Sha) (db : Db) : ManifestWrite → Prop
  | clear => db.manifestCurrent.get? z = none
  | track t => db.manifestCurrent.get? t.sha256 ≠ none
  | number key _ => db.manifestMeta.get? key ≠ none

/-- What a statement writes. -/
def ManifestWrite.target : ManifestWrite → Option (Sha ⊕ Text)
  | clear => none
  | track t => some (.inl t.sha256)
  | number key _ => some (.inr key)

/-- The statement goes through and leaves its mark where there is none. -/
structure ManifestWrite.Pending (z : Sha) (db : Db) (w : ManifestWrite) : Prop where
  undone : ¬ w.Done z db
  known : ∀ t, w = .track t → (db.tracks.get? t.sha256).isSome ∧ db.isExcluded t.sha256 = false

/-- A pending track is inserted. -/
theorem onto_track {t : ManifestTrack} (h : (ManifestWrite.track t).Pending z db) :
    (ManifestWrite.track t).onto db = { db with
      manifestCurrent := db.manifestCurrent.put t.sha256 ⟨bucketsCsv t.buckets, t.sizeBytes⟩ } := by
  obtain ⟨hknown, hin⟩ := h.known t rfl
  rw [ManifestWrite.onto, ManifestWrite.apply,
    insertManifest_new hknown hin (not_not.mp h.undone)]
  rfl

/-- A pending statement leaves its mark. -/
theorem done_onto (h : w.Pending z db) : w.Done z (w.onto db) := by
  cases w with
  | clear => exact Table.get?_empty z
  | number key value =>
    show (db.manifestMeta.put key value).get? key ≠ none
    rw [Table.get?_put_self]
    exact Option.some_ne_none _
  | track t =>
    rw [onto_track h]
    show (db.manifestCurrent.put t.sha256 _).get? t.sha256 ≠ none
    rw [Table.get?_put_self]
    exact Option.some_ne_none _

/-- No other statement leaves it. -/
theorem undone_onto (h : w.Pending z db) (hne : w'.target ≠ w.target)
    (hz : ∀ t, w = .track t → t.sha256 ≠ z) (hundone : ¬ w'.Done z db) :
    ¬ w'.Done z (w.onto db) := by
  cases w with
  | clear =>
    cases w' with
    | clear => exact absurd rfl hne
    | number key value => exact hundone
    | track t => exact fun hd ↦ hd (Table.get?_empty t.sha256)
  | number key value =>
    cases w' with
    | clear => exact hundone
    | track t => exact hundone
    | number key' value' =>
      have hkey : key' ≠ key := fun he ↦ hne (by rw [he]; rfl)
      show ¬ (db.manifestMeta.put key value).get? key' ≠ none
      rw [Table.get?_put_ne _ _ hkey]
      exact hundone
  | track t =>
    rw [onto_track h]
    cases w' with
    | number key value => exact hundone
    | clear =>
      show ¬ (db.manifestCurrent.put t.sha256 _).get? z = none
      rw [Table.get?_put_ne _ _ (Ne.symm (hz t rfl))]
      exact hundone
    | track t' =>
      have hsha : t'.sha256 ≠ t.sha256 := fun he ↦ hne (by
        show some (Sum.inl t'.sha256) = some (Sum.inl t.sha256)
        rw [he])
      show ¬ (db.manifestCurrent.put t.sha256 _).get? t'.sha256 ≠ none
      rw [Table.get?_put_ne _ _ hsha]
      exact hundone

/-- A mark stays, unless the table is cleared. -/
theorem done_keep (h : w.Pending z db) (hclear : w ≠ .clear) (hclear' : w' ≠ .clear)
    (hdone : w'.Done z db) : w'.Done z (w.onto db) := by
  cases w with
  | clear => exact absurd rfl hclear
  | number key value =>
    cases w' with
    | clear => exact absurd rfl hclear'
    | track t => exact hdone
    | number key' value' =>
      show (db.manifestMeta.put key value).get? key' ≠ none
      rw [Table.get?_put]
      split
      · exact Option.some_ne_none _
      · exact hdone
  | track t =>
    rw [onto_track h]
    cases w' with
    | clear => exact absurd rfl hclear'
    | number key value => exact hdone
    | track t' =>
      show (db.manifestCurrent.put t.sha256 _).get? t'.sha256 ≠ none
      rw [Table.get?_put]
      split
      · exact Option.some_ne_none _
      · exact hdone

/-- What is pending behind a statement stays so. -/
theorem pending_onto (h : w.Pending z db) (h' : w'.Pending z db) (hne : w'.target ≠ w.target)
    (hz : ∀ t, w = .track t → t.sha256 ≠ z) : w'.Pending z (w.onto db) where
  undone := undone_onto h hne hz h'.undone
  known t ht := by
    have hsame := sameElsewhere_onto db w
    rw [hsame.tracks, hsame.isExcluded]
    exact h'.known t ht

/-- Statements that are pending together, and write to different places. -/
structure PendingAll (z : Sha) (db : Db) (ws : List ManifestWrite) : Prop where
  pending : ∀ w ∈ ws, w.Pending z db
  apart : (ws.map ManifestWrite.target).Nodup
  other : ∀ t, .track t ∈ ws → t.sha256 ≠ z

theorem PendingAll.head (h : PendingAll z db (w :: ws)) : w.Pending z db :=
  h.pending w (List.mem_cons_self ..)

theorem PendingAll.tail (h : PendingAll z db (w :: ws)) : PendingAll z db ws where
  pending w' hw' := h.pending w' (List.mem_cons_of_mem _ hw')
  apart := (List.nodup_cons.mp h.apart).2
  other t ht := h.other t (List.mem_cons_of_mem _ ht)

theorem PendingAll.target_ne (h : PendingAll z db (w :: ws)) (hw' : w' ∈ ws) :
    w'.target ≠ w.target := by
  intro he
  apply (List.nodup_cons.mp h.apart).1
  rw [← he]
  exact List.mem_map_of_mem hw'

theorem PendingAll.onto (h : PendingAll z db (w :: ws)) : PendingAll z (w.onto db) ws where
  pending w' hw' := by
    apply pending_onto h.head (h.tail.pending w' hw') (h.target_ne hw')
    rintro t rfl
    exact h.other t (List.mem_cons_self ..)
  apart := h.tail.apart
  other := h.tail.other

/-- A mark that was committed stays. -/
theorem done_attempts (hws : PendingAll z db ws) (hclear : .clear ∉ ws) (hw : w ≠ .clear)
    (hdone : w.Done z db) :
    ∃ db', (Conn.mk db none).attempts ws pattern = ⟨db', none⟩ ∧ w.Done z db' := by
  induction ws generalizing db pattern with
  | nil => exact ⟨db, rfl, hdone⟩
  | cons w' ws ih =>
    rw [List.mem_cons, not_or] at hclear
    rw [Conn.attempts]
    cases pattern.headD none with
    | some e =>
      have hsame : (Conn.mk db none).attempt w' (some e) = ⟨db, none⟩ := ite_self _
      rw [hsame]
      exact ih hws.tail hclear.2 hdone
    | none => exact ih hws.onto hclear.2 (done_keep hws.head (Ne.symm hclear.1) hw hdone)

/-- A statement that goes through without a transaction leaves its mark for good. -/
theorem exists_done_attempts (hws : PendingAll z db ws) (hclear : .clear ∉ ws)
    (h : AllFail ws.length pattern = false) :
    ∃ db', (Conn.mk db none).attempts ws pattern = ⟨db', none⟩ ∧ ∃ w ∈ ws, w.Done z db' := by
  induction ws generalizing pattern with
  | nil => cases h
  | cons w ws ih =>
    rw [List.mem_cons, not_or] at hclear
    rw [List.length_cons, AllFail] at h
    rw [Conn.attempts]
    cases hp : pattern.headD none with
    | some e =>
      have hsame : (Conn.mk db none).attempt w (some e) = ⟨db, none⟩ := ite_self _
      rw [hp] at h
      rw [hsame]
      obtain ⟨db', he, w', hw', hdone⟩ := ih hws.tail hclear.2 h
      exact ⟨db', he, w', List.mem_cons_of_mem _ hw', hdone⟩
    | none =>
      have hdone := done_onto hws.head
      obtain ⟨db', he, hdone'⟩ := @done_attempts _ z w ws pattern.tail hws.onto hclear.2
        (Ne.symm hclear.1) hdone
      exact ⟨db', he, w, List.mem_cons_self .., hdone'⟩

/-- What no writing of the manifest may end in: the transaction is open, a statement is missing,
or one is there that should not be. -/
def Broken (z : Sha) (all : List ManifestWrite) (r : Bool × Conn) : Prop :=
  r.1 = false ∧ r.2.txn ≠ none ∨ r.1 = true ∧ (∃ w ∈ all, ¬ w.Done z r.2.committed) ∨
    r.1 = false ∧ ∃ w ∈ all, w.Done z r.2.committed

/-- A transaction that does not settle ends broken. -/
theorem broken_of_not_settles {all : List ManifestWrite} {t : Txn} (hsub : ws ⊆ all)
    (hwork : PendingAll z t.work ws) (hdb : PendingAll z db ws) (hclear : .clear ∉ ws.tail)
    (hfailed : failed = true →
      ∃ w ∈ all, w.target ∉ ws.map ManifestWrite.target ∧ ¬ w.Done z t.work)
    (h : TxnSettles ws.length failed pattern = false) :
    Broken z all (((Conn.mk db (some t)).attempts ws pattern).finish
      ((pattern.drop ws.length).headD none)) := by
  induction ws generalizing t failed pattern with
  | nil =>
    show Broken z all ((Conn.mk db (some t)).finish (pattern.headD none))
    rw [List.length_nil, TxnSettles] at h
    cases hp : pattern.headD none with
    | none =>
      rw [hp] at h
      obtain ⟨w, hw, -, hundone⟩ := hfailed (by simpa using h)
      exact Or.inr (Or.inl ⟨rfl, w, hw, hundone⟩)
    | some e =>
      rw [hp] at h
      have hopen : (Conn.mk db (some t)).failed e = ⟨db, some t⟩ := if_neg (by simp [h])
      refine Or.inl ⟨rfl, ?_⟩
      show ((Conn.mk db (some t)).failed e).txn ≠ none
      rw [hopen]
      exact Option.some_ne_none t
  | cons w ws ih =>
    have hclear' : .clear ∉ ws.tail := fun hc ↦ hclear (List.mem_of_mem_tail hc)
    have hsub' : ws ⊆ all := fun w' hw' ↦ hsub (List.mem_cons_of_mem _ hw')
    rw [List.length_cons, TxnSettles] at h
    rw [Conn.attempts, List.length_cons, ← List.drop_tail]
    cases hp : pattern.headD none with
    | none =>
      rw [hp] at h
      apply ih hsub' hwork.onto hdb.tail hclear' _ h
      intro hf
      obtain ⟨w', hw', htarget, hundone⟩ := hfailed hf
      rw [List.map_cons, List.mem_cons, not_or] at htarget
      refine ⟨w', hw', htarget.2, undone_onto hwork.head htarget.1 ?_ hundone⟩
      rintro t' rfl
      exact hwork.other t' (List.mem_cons_self ..)
    | some e =>
      rw [hp] at h
      dsimp only at h
      by_cases hr : e.rollsBack = true
      · rw [if_pos hr] at h
        have hlost : (Conn.mk db (some t)).attempt w (some e) = ⟨db, none⟩ := if_pos hr
        obtain ⟨db', he, w', hw', hdone⟩ := exists_done_attempts hdb.tail hclear h
        rw [hlost, he, finish_none]
        exact Or.inr (Or.inr ⟨rfl, w', hsub' hw', hdone⟩)
      · rw [if_neg hr] at h
        have hsame : (Conn.mk db (some t)).attempt w (some e) = ⟨db, some t⟩ := if_neg hr
        rw [hsame]
        apply ih hsub' hwork.tail hdb.tail hclear' _ h
        intro _
        exact ⟨w, hsub (List.mem_cons_self ..), (List.nodup_cons.mp hwork.apart).1,
          hwork.head.undone⟩

/-! A database on which every statement of a manifest is pending. -/

/-- The statements of a manifest write to different places. -/
theorem nodup_targets (honce : (m.resident.map ManifestTrack.sha256).Nodup) :
    ((manifestWrites m).map ManifestWrite.target).Nodup := by
  have htracks : (m.resident.map fun t ↦ (some (Sum.inl t.sha256) : Option (Sha ⊕ Text))).Nodup := by
    have hinj : Function.Injective fun sha : Sha ↦ (some (Sum.inl sha) : Option (Sha ⊕ Text)) :=
      fun a b h ↦ by simpa using h
    have h := honce.map hinj
    rwa [List.map_map] at h
  have hnumbers : (m.numbers.map fun n ↦ (some (Sum.inr n.1) : Option (Sha ⊕ Text))).Nodup := by
    have hinj : Function.Injective fun key : Text ↦ (some (Sum.inr key) : Option (Sha ⊕ Text)) :=
      fun a b h ↦ by simpa using h
    have h := (nodup_numbers m).map hinj
    rwa [List.map_map] at h
  have heq : (manifestWrites m).map ManifestWrite.target =
      none :: (m.resident.map (fun t ↦ some (Sum.inl t.sha256)) ++
        m.numbers.map fun n ↦ some (Sum.inr n.1)) := by
    rw [manifestWrites, List.map_cons, List.map_append, List.map_map, List.map_map]
    rfl
  rw [heq, List.nodup_cons, List.nodup_append]
  refine ⟨?_, htracks, hnumbers, ?_⟩
  · rw [List.mem_append, List.mem_map, List.mem_map]
    rintro (⟨_, _, h⟩ | ⟨_, _, h⟩) <;> cases h
  · intro a ha b hb he
    obtain ⟨t, -, rfl⟩ := List.mem_map.mp ha
    obtain ⟨n, -, rfl⟩ := List.mem_map.mp hb
    cases he

theorem mem_manifestWrites_track {t : ManifestTrack} :
    .track t ∈ manifestWrites m ↔ t ∈ m.resident := by
  simp [manifestWrites]

/-- The tracks of a manifest, and a row that is not of it. -/
def pendingDb (m : Resolution) (z : Sha) : Db :=
  { Db.ofTracks (m.resident.map fun t ↦ (t.sha256, t.sizeBytes)) with
    manifestCurrent := Table.empty.put z ⟨[], 0⟩ }

theorem pendingDb_eq (m : Resolution) (z : Sha) : ∃ t, pendingDb m z =
    { Db.empty with
      tracks := t
      manifestCurrent := Table.empty.put z ⟨[], 0⟩ } := by
  obtain ⟨t, ht⟩ := Db.ofTracks_eq (m.resident.map fun t ↦ (t.sha256, t.sizeBytes))
  unfold pendingDb
  rw [ht]
  exact ⟨t, rfl⟩

theorem fits_pendingDb (honce : (m.resident.map ManifestTrack.sha256).Nodup) (z : Sha) :
    m.Fits (pendingDb m z) where
  once := honce
  known t ht := by
    have h := Db.ofTracks_known (m.resident.map fun t ↦ (t.sha256, t.sizeBytes))
    exact h (t.sha256, t.sizeBytes) (List.mem_map_of_mem ht)

theorem pendingAll_pendingDb (honce : (m.resident.map ManifestTrack.sha256).Nodup)
    (hz : z ∉ m.resident.map ManifestTrack.sha256) :
    PendingAll z (pendingDb m z) (manifestWrites m) where
  pending w hw := by
    have hne : ∀ t ∈ m.resident, t.sha256 ≠ z := by
      rintro t ht rfl
      exact hz (List.mem_map_of_mem ht)
    have hknown := (fits_pendingDb honce z).known
    obtain ⟨tracks, hdb⟩ := pendingDb_eq m z
    constructor
    · rw [hdb]
      cases w with
      | clear =>
        show ¬ (Table.empty.put z _ : Table Sha ManifestRow).get? z = none
        rw [Table.get?_put_self]
        exact Option.some_ne_none _
      | number key value => exact not_not.mpr (Table.get?_empty key)
      | track t =>
        have ht := hne t (mem_manifestWrites_track.mp hw)
        show ¬ (Table.empty.put z _ : Table Sha ManifestRow).get? t.sha256 ≠ none
        rw [Table.get?_put_ne _ _ ht]
        exact not_not.mpr (Table.get?_empty t.sha256)
    · rintro t rfl
      refine ⟨hknown t (mem_manifestWrites_track.mp hw), ?_⟩
      rw [hdb]
      rfl
  apart := nodup_targets honce
  other t ht := by
    rintro rfl
    exact hz (List.mem_map_of_mem (mem_manifestWrites_track.mp ht))

/-- A written manifest has the marks of all its statements. -/
theorem done_of_manifested {db' : Db} (h : db.Manifested m db')
    (hz : z ∉ m.resident.map ManifestTrack.sha256)
    (hin : ∀ t ∈ m.resident, db.isExcluded t.sha256 = false) :
    ∀ w ∈ manifestWrites m, w.Done z db' := by
  intro w hw
  rw [manifestWrites, List.mem_cons, List.mem_append, List.mem_map, List.mem_map] at hw
  rcases hw with rfl | ⟨t, ht, rfl⟩ | ⟨n, hn, rfl⟩
  · cases hrow : db'.manifestCurrent.get? z with
    | none => exact hrow
    | some row =>
      obtain ⟨-, t, ht, rfl, -⟩ := (h.tracks z row).mp hrow
      exact absurd (List.mem_map_of_mem ht) hz
  · have hrow := (h.tracks t.sha256 _).mpr ⟨hin t ht, t, ht, rfl, rfl⟩
    show db'.manifestCurrent.get? t.sha256 ≠ none
    rw [hrow]
    exact Option.some_ne_none _
  · show db'.manifestMeta.get? n.1 ≠ none
    rw [h.numbers n hn]
    exact Option.some_ne_none _

end Harmful

/-- The manifest is written whole or not at all, on every database that has its tracks, exactly
where `BEGIN` fails or the transaction settles: no statement fails and `COMMIT` goes through, or
the transaction is taken along by a `COMMIT` that fails, or by a statement behind which all fail. -/
theorem manifest_all_or_nothing (m : Resolution)
    (honce : (m.resident.map ManifestTrack.sha256).Nodup) (pattern : List (Option Fault)) :
    AllOrNothing m pattern ↔ Harmless (manifestWrites m).length pattern = true := by
  constructor
  · intro hall
    by_contra hharm
    rw [Bool.not_eq_true, Harmless, Bool.or_eq_false_iff] at hharm
    obtain ⟨hbegin, hsettles⟩ := hharm
    obtain ⟨z, hz⟩ := Infinite.exists_notMem_finset (m.resident.map ManifestTrack.sha256).toFinset
    rw [List.mem_toFinset] at hz
    have hfits := fits_pendingDb honce z
    have hpending := pendingAll_pendingDb honce hz
    have hclear : ManifestWrite.clear ∉ (manifestWrites m).tail := by simp [manifestWrites]
    have hout : writeOutcome m (pendingDb m z) pattern =
        ((Conn.opened (pendingDb m z)).attempts (manifestWrites m) pattern.tail).finish
          ((pattern.tail.drop (manifestWrites m).length).headD none) := by
      unfold writeOutcome
      rw [Option.isSome_eq_false_iff, Option.isNone_iff_eq_none] at hbegin
      rw [hbegin]
    have hbroken := @broken_of_not_settles (pendingDb m z) z (manifestWrites m) pattern.tail false
      (manifestWrites m) ⟨pendingDb m z, [], false⟩ (List.Subset.refl _) hpending hpending hclear
      (fun h ↦ by cases h) hsettles
    obtain ⟨rest, hrun⟩ := run_writeManifestToDb m Tree.empty (pendingDb m z) () pattern
    obtain ⟨ok, w, rest', hrun', htxn, hwritten, hkept⟩ := hall Tree.empty (pendingDb m z) hfits
    have hsame := hrun.symm.trans hrun'
    rw [hout] at hsame
    injection hsame with hok hw
    rw [← hw] at htxn hwritten hkept
    rcases hbroken with ⟨-, hopen⟩ | ⟨htrue, w', hw', hundone⟩ | ⟨hfalse, w', hw', hdone⟩
    · exact hopen htxn
    · have hin : ∀ t ∈ m.resident, (pendingDb m z).isExcluded t.sha256 = false :=
        fun t ht ↦ ((hpending.pending _ (mem_manifestWrites_track.mpr ht)).known t rfl).2
      exact hundone (done_of_manifested (hwritten (hok.symm.trans htrue)) hz hin w' hw')
    · have htables := hkept (hok.symm.trans hfalse)
      apply (hpending.pending w' hw').undone
      cases w' with
      | clear => exact (congrArg (Table.get? · z) htables.1).symm.trans hdone
      | track t =>
        intro hnone
        exact hdone ((congrArg (Table.get? · t.sha256) htables.1).trans hnone)
      | number key value =>
        intro hnone
        exact hdone ((congrArg (Table.get? · key) htables.2).trans hnone)
  · exact allOrNothing_of_harmless

/-- A manifest of one track. -/
def oneTrack : Resolution where
  resident := [⟨[97], 100, [ascii "loved"]⟩]
  usedBytes := 100
  generatedAt := ascii "deterministic-"
  capBytes := 1000
  capEffectiveBytes := 700
  coldStart := false

/-- Where the disk is full from the `BEGIN` on, and each failure rolls back, nothing is changed. -/
theorem oneTrack_unchanged :
    AllOrNothing oneTrack (none :: List.replicate 7 (some ⟨.other 13, true⟩)) :=
  (manifest_all_or_nothing oneTrack (by decide) _).mpr (by decide)

/-- An `INSERT` that fails for itself: the manifest is committed without its track, and 0 is
returned. -/
theorem manifest_written_in_part :
    ¬ AllOrNothing oneTrack [none, none, some ⟨.other 10, false⟩] := by
  intro hall
  have hfits : oneTrack.Fits (Db.ofTracks [([97], 100)]) := by
    constructor
    · decide
    · decide +kernel
  obtain ⟨ok, w, rest, hrun, -, hwritten, -⟩ := hall Tree.empty (Db.ofTracks [([97], 100)]) hfits
  have hok : ((writeManifestToDb oneTrack).run
      ((Machine.mk Tree.empty (Db.ofTracks [([97], 100)])).start ())
        (replies [none, none, some ⟨.other 10, false⟩])).value? = some true := by decide +kernel
  have hrow : ((writeManifestToDb oneTrack).run
      ((Machine.mk Tree.empty (Db.ofTracks [([97], 100)])).start ())
        (replies [none, none, some ⟨.other 10, false⟩])).state.conn.committed.manifestCurrent.get?
          [97] = none := by decide +kernel
  rw [hrun] at hok hrow
  have hin := ((hwritten (Option.some.inj hok)).tracks [97] ⟨ascii "loved", 100⟩).mpr
    ⟨by decide +kernel, ⟨[97], 100, [ascii "loved"]⟩, List.mem_singleton.mpr rfl, rfl,
      by decide +kernel⟩
  have hrow' : w.conn.committed.manifestCurrent.get? [97] = none := hrow
  rw [hrow'] at hin
  cases hin

end Nocturne
