import Nocturne.Db
import Nocturne.Lib.Proc

/-!
# The system around a command

A command of the daemon works on the file tree, on one database connection and on its own
statistics. Each system call and each SQL statement is one call of the process, so that it
may fail or be the last thing the process sees. A connection has at most one open
transaction; what is not committed is gone when the process ends.
-/

namespace Nocturne

open Lib

/-- The SQL statements, by what they are for, with the key they are bound to. A `RELEASE`
says whether it follows a `ROLLBACK TO`, and the look at a pin's `ts` what it is compared
with. -/
inductive Stmt where
  | begin
  | commit
  | rollback
  | savepoint
  | release (undone : Bool)
  | rollbackTo
  | lookupByPath (path : Path)
  | lookupBySha (sha : Sha)
  | insertTrack (sha : Sha)
  | updateTrack (sha : Sha)
  | updateTrackPath (sha : Sha)
  | markSeen (sha : Sha)
  | deleteTrack (sha : Sha)
  | deleteUnseen
  | collectTranscodes
  | blacklisted (sha : Sha)
  | putScanMeta
  | deleteManifest
  | insertManifest (sha : Sha)
  | putManifestMeta (key : Text)
  | loadManifest
  | loadResident
  | trackPath (sha : Sha)
  | trackSize (sha : Sha)
  | transcodePath (sha : Sha)
  | upsertResidency (sha : Sha)
  | updateTranscodePath (sha : Sha)
  | residentPaths
  | references
  | selectOffset (relpath : Path)
  | upsertOffset (relpath : Path)
  | insertPlay
  | upsertLike
  | upsertPin
  | pinTs (sha : Sha) (ts : Int)
  | clearPin (sha : Sha)
  | putUnsync (sha : Sha)
  | dropUnsync (sha : Sha)
  | putBlacklist (sha : Sha)
  | libraryRoot
  | allTracks
  | residentTracks
  deriving DecidableEq, Repr

/-- What a process asks of its environment. -/
inductive Call where
  | sql (stmt : Stmt)
  | stat (path : Path)
  | lstat (path : Path)
  | hash (path : Path)
  | link (old new : Path)
  | unlink (path : Path)
  | rename (old new : Path)
  | mkdir (path : Path)
  | rmdir (path : Path)
  | openDir (path : Path)
  | openFile (path : Path)
  | create (path : Path)
  | write (path : Path)
  | fsync (path : Path)
  | transcode (src dst : Path)
  deriving DecidableEq, Repr

/-- How a call fails. A failed statement may take the open transaction with it. -/
structure Fault where
  errno : Errno
  rollsBack : Bool
  deriving DecidableEq, Repr

/-- An open transaction: its working state, the states at its open savepoints, innermost
first, and whether the outermost savepoint opened it. -/
structure Txn where
  work : Db
  saves : List Db
  implicit : Bool

/-- A database connection. -/
structure Conn where
  committed : Db
  txn : Option Txn

namespace Conn

/-- What the statements of the connection see. -/
def view (c : Conn) : Db :=
  match c.txn with
  | some t => t.work
  | none => c.committed

/-- A statement's effect: in the open transaction, or committed at once. -/
def setView (c : Conn) (db : Db) : Conn :=
  match c.txn with
  | some t => { c with txn := some { t with work := db } }
  | none => { c with committed := db }

/-- The transaction that a failing statement took with it is gone. -/
def failed (c : Conn) (f : Fault) : Conn := if f.rollsBack then { c with txn := none } else c

/-- Writing back what is seen changes nothing. -/
@[simp] theorem setView_view (c : Conn) : c.setView c.view = c := by
  obtain ⟨committed, txn⟩ := c
  cases txn <;> rfl

/-- The last write counts. -/
@[simp] theorem setView_setView (c : Conn) (db db' : Db) :
    (c.setView db).setView db' = c.setView db' := by
  unfold setView
  cases c.txn <;> rfl

/-- A write behind a write, where the connection is known by an equation. -/
theorem setView_of {c c' : Conn} {db : Db} (h : c' = c.setView db) (db' : Db) :
    c'.setView db' = c.setView db' := by
  rw [h, setView_setView]

/-- What is written is seen. -/
@[simp] theorem view_setView (c : Conn) (db : Db) : (c.setView db).view = db := by
  unfold setView view
  cases c.txn <;> rfl

end Conn

/-- A running command: the file tree, its connection and its own data `out`. -/
structure World (ω : Type) where
  fs : Tree
  conn : Conn
  out : ω

/-- Code of the daemon. -/
abbrev Sys (ω : Type) := Proc (World ω) Call Fault

/-- What is left between two commands: the files and the committed database. -/
structure Machine where
  fs : Tree
  db : Db

variable {ω α : Type}

/-- A command opens a connection of its own, with nothing in progress. -/
def Machine.start (m : Machine) (out : ω) : World ω := ⟨m.fs, ⟨m.db, none⟩, out⟩

/-- Closing a connection, or dying, drops what is not committed. -/
def World.stop (w : World ω) : Machine := ⟨w.fs, w.conn.committed⟩

/-! ### SQL -/

/-- How `sqlite3_step` ends: `SQLITE_DONE`, a constraint violation, another error. -/
inductive StepRc where
  | done
  | constraint
  | error
  deriving DecidableEq, Repr

/-- A `SELECT`; `none` on failure. -/
def query (stmt : Stmt) (f : Db → α) : Sys ω (Option α) :=
  Proc.ask (.sql stmt) fun w fault ↦
    match fault with
    | none => (some (f w.conn.view), w)
    | some e => (none, { w with conn := w.conn.failed e })

/-- A statement that writes; `f` refuses where a constraint does. -/
def exec (stmt : Stmt) (f : Db → Option Db) : Sys ω StepRc :=
  Proc.ask (.sql stmt) fun w fault ↦
    match fault with
    | some e => (.error, { w with conn := w.conn.failed e })
    | none =>
      match f w.conn.view with
      | some db => (.done, { w with conn := w.conn.setView db })
      | none => (.constraint, w)

/-- A statement whose number of changes the caller reads (`sqlite3_changes`); `none` on
failure. -/
def execChanges (stmt : Stmt) (f : Db → Db × Nat) : Sys ω (Option Nat) :=
  Proc.ask (.sql stmt) fun w fault ↦
    match fault with
    | some e => (none, { w with conn := w.conn.failed e })
    | none => (some (f w.conn.view).2, { w with conn := w.conn.setView (f w.conn.view).1 })

/-- A transaction statement: `f` is partial where the statement has no meaning. -/
def execTxn (stmt : Stmt) (f : Conn → Option Conn) : Sys ω Bool :=
  Proc.ask (.sql stmt) fun w fault ↦
    match fault with
    | some e => (false, { w with conn := w.conn.failed e })
    | none =>
      match f w.conn with
      | some c => (true, { w with conn := c })
      | none => (false, w)

/-- `BEGIN IMMEDIATE`: refused inside a transaction. -/
def Conn.begin (c : Conn) : Option Conn :=
  match c.txn with
  | some _ => none
  | none => some { c with txn := some ⟨c.committed, [], false⟩ }

/-- `COMMIT`, open savepoints included. -/
def Conn.commit (c : Conn) : Option Conn := c.txn.map fun t ↦ ⟨t.work, none⟩

/-- `ROLLBACK`. -/
def Conn.rollback (c : Conn) : Option Conn := c.txn.map fun _ ↦ { c with txn := none }

/-- `SAVEPOINT`. -/
def Conn.savepoint (c : Conn) : Conn :=
  match c.txn with
  | some t => { c with txn := some { t with saves := t.work :: t.saves } }
  | none => { c with txn := some ⟨c.committed, [c.committed], true⟩ }

/-- `RELEASE` of the innermost savepoint: it commits a transaction that a savepoint opened. -/
def Conn.release (c : Conn) : Option Conn :=
  match c.txn with
  | none => none
  | some t =>
    match t.saves with
    | [] => none
    | [_] => some (if t.implicit then ⟨t.work, none⟩ else { c with txn := some { t with saves := [] } })
    | _ :: s => some { c with txn := some { t with saves := s } }

/-- `ROLLBACK TO` the innermost savepoint, which stays open. -/
def Conn.rollbackTo (c : Conn) : Option Conn :=
  match c.txn with
  | none => none
  | some t =>
    match t.saves with
    | [] => none
    | db :: s => some { c with txn := some { t with work := db, saves := db :: s } }

/-- `db_begin`, `db.c:182–186`. -/
def dbBegin : Sys ω Bool := execTxn .begin Conn.begin

/-- `db_commit`, `db.c:188–192`. -/
def dbCommit : Sys ω Bool := execTxn .commit Conn.commit

/-- `db_rollback`, `db.c:194–198`. -/
def dbRollback : Sys ω Bool := execTxn .rollback Conn.rollback

/-! ### System calls -/

/-- A system call that changes the tree. -/
def sysCall (call : Call) (f : Tree → Except Errno Tree) : Sys ω (Except Errno Unit) :=
  Proc.ask call fun w fault ↦
    match fault with
    | some e => (.error e.errno, w)
    | none =>
      match f w.fs with
      | .ok fs => (.ok (), { w with fs := fs })
      | .error e => (.error e, w)

/-- A system call that reads the tree. -/
def sysRead (call : Call) (f : Tree → Except Errno α) : Sys ω (Except Errno α) :=
  Proc.ask call fun w fault ↦
    match fault with
    | some e => (.error e.errno, w)
    | none => (f w.fs, w)

/-- `unlink(2)`. -/
def sysUnlink (path : Path) : Sys ω (Except Errno Unit) :=
  sysCall (.unlink path) fun fs ↦ fs.unlink path

/-- Change the command's own data. -/
def tally (f : ω → ω) : Sys ω Unit := Proc.modify fun w ↦ { w with out := f w.out }

/-! ### Runs without incident -/

section Eval

variable (w : World ω)

/-- A `SELECT` that goes through gives what the connection sees. -/
@[simp] theorem eval_query (stmt : Stmt) (f : Db → α) :
    (query stmt f).eval w = (some (f w.conn.view), w) := (rfl)

/-- A statement that goes through writes, unless a constraint refuses it. -/
@[simp] theorem eval_exec (stmt : Stmt) (f : Db → Option Db) :
    (exec stmt f).eval w = match f w.conn.view with
      | some db => (.done, { w with conn := w.conn.setView db })
      | none => (.constraint, w) := (rfl)

/-- A counted statement that goes through writes, and gives its number of changes. -/
@[simp] theorem eval_execChanges (stmt : Stmt) (f : Db → Db × Nat) :
    (execChanges stmt f).eval w =
      (some (f w.conn.view).2, { w with conn := w.conn.setView (f w.conn.view).1 }) := (rfl)

/-- A system call that goes through changes the tree as the tree allows. -/
@[simp] theorem eval_sysCall (call : Call) (f : Tree → Except Errno Tree) :
    (sysCall call f).eval w = match f w.fs with
      | .ok fs => (.ok (), { w with fs := fs })
      | .error e => (.error e, w) := (rfl)

/-- A reading call leaves the world alone. -/
@[simp] theorem eval_sysRead (call : Call) (f : Tree → Except Errno α) :
    (sysRead call f).eval w = (f w.fs, w) := (rfl)

@[simp] theorem eval_tally (f : ω → ω) :
    (tally f).eval w = ((), { w with out := f w.out }) := (rfl)

/-- A transaction statement that goes through does what it can in the state of the connection. -/
@[simp] theorem eval_execTxn (stmt : Stmt) (f : Conn → Option Conn) :
    (execTxn stmt f).eval w = match f w.conn with
      | some c => (true, { w with conn := c })
      | none => (false, w) := (rfl)

@[simp] theorem steps_query (stmt : Stmt) (f : Db → α) : (query stmt f).steps w = [w] := (rfl)

@[simp] theorem steps_exec (stmt : Stmt) (f : Db → Option Db) :
    (exec stmt f).steps w = [w] := (rfl)

@[simp] theorem steps_execChanges (stmt : Stmt) (f : Db → Db × Nat) :
    (execChanges stmt f).steps w = [w] := (rfl)

@[simp] theorem steps_execTxn (stmt : Stmt) (f : Conn → Option Conn) :
    (execTxn stmt f).steps w = [w] := (rfl)

@[simp] theorem steps_sysCall (call : Call) (f : Tree → Except Errno Tree) :
    (sysCall call f).steps w = [w] := (rfl)

@[simp] theorem steps_sysRead (call : Call) (f : Tree → Except Errno α) :
    (sysRead call f).steps w = [w] := (rfl)

@[simp] theorem steps_tally (f : ω → ω) : (tally f).steps w = [] := (rfl)

@[simp] theorem wp_tally {A : World ω → Call → Reply Fault → Prop} {C : World ω → Prop}
    (f : ω → ω) (Q : Unit → World ω → Prop) :
    (tally f).wp A Q C w = Q () { w with out := f w.out } := (rfl)

end Eval

end Nocturne
