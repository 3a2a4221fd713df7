import Mathlib.Logic.Function.Iterate
import Nocturne.Lib.Steps
import Nocturne.Schema.Tables
import Nocturne.World

/-!
# The migrations

`migrations_apply` of `migrations.c` brings a database file to the newest version: each script of
`schema/` that is behind its `user_version` runs in a transaction of its own. Of a `CREATE TABLE`
the names of the columns are kept. A run may fail at any call and die at any call; the next one goes
on where it stopped.
-/

namespace Nocturne.Schema

open Lib Proc Lib.Steps

/-! ### Scripts -/

/-- `struct migration_entry`, `migrations.c:41–45`. -/
structure MigrationEntry where
  version : Int
  sql : List Ddl
  deriving DecidableEq, Repr

/-- `CREATE TABLE IF NOT EXISTS`. -/
private def table (name : String) (columns : List String) : Ddl :=
  .createTable true (ascii name) (columns.map ascii)

private def index (name : String) (columns : List String) : Ddl :=
  .createIndex (ascii name) (columns.map ascii)

private def column (name column : String) (dflt : Cell) : Ddl :=
  .addColumn (ascii name) (ascii column) dflt

/-- `schema/0001_init.sql`. -/
def init : List Ddl :=
  [table "tracks" ["sha256", "path", "mtime_ns", "size_bytes", "format", "title", "artist", "album",
      "album_artist", "track_number", "disc_number", "year", "genre", "duration_ms", "tags_status",
      "tag_warning", "date_added", "last_seen_at"],
    index "tracks" ["path"], index "tracks" ["album_artist", "album"],
    table "scan_meta" ["library_root", "last_scan_at", "files_seen", "files_added", "files_updated",
      "files_removed"],
    table "app_meta" ["key", "value"], .userVersion 1]

/-- `schema/0002_resolver.sql`. -/
def resolver : List Ddl :=
  [table "plays" ["id", "sha256", "played_at", "played_ms", "is_skip", "src"],
    index "plays" ["sha256", "played_at"], index "plays" ["src"],
    table "likes" ["sha256", "liked", "updated_at"],
    table "pins" ["unit", "id", "pinned", "updated_at"],
    table "manifest_current" ["sha256", "buckets_csv", "size_bytes"],
    table "manifest_meta" ["key", "value"], .userVersion 2]

/-- `schema/0003_residency.sql`. -/
def residency : List Ddl :=
  [table "residency_state" ["sha256", "location", "updated_at"],
    index "residency_state" ["location"], .userVersion 3]

/-- `schema/0004_ingest.sql`: the likes of before are given up. -/
def ingest : List Ddl :=
  [column "plays" "ts" (.int 0), column "plays" "event_kind" (.text (ascii "play")),
    column "plays" "source_path" (.text []), index "plays" ["ts"],
    table "ingest_offsets" ["path", "offset", "last_event_ts", "updated_at"],
    .dropTable (ascii "likes"),
    .createTable false (ascii "likes") (["unit", "id", "liked", "ts"].map ascii),
    index "likes" ["unit"], column "pins" "ts" (.int 0), .userVersion 4]

/-- `schema/0005_transcode.sql`. -/
def transcode : List Ddl :=
  [column "residency_state" "transcode_path" .null,
    column "residency_state" "transcode_size_bytes" .null,
    column "residency_state" "transcode_format" .null, .userVersion 5]

/-- `schema/0006_weekly_discovery.sql`. -/
def weeklyDiscovery : List Ddl :=
  [table "weekly_discovery_picks" ["sha256", "week_start", "reason", "picked_at"],
    index "weekly_discovery_picks" ["week_start"], .userVersion 6]

/-- `schema/0007_unsync_delete.sql`. -/
def unsyncDelete : List Ddl :=
  [table "unsync_overrides" ["sha256", "until", "added_at"],
    table "track_blacklist" ["sha256", "reason", "added_at"], .userVersion 7]

/-- `schema/0008_orphan_cleanup.sql`. -/
def orphanCleanup : List Ddl :=
  [.createTrigger (ascii "trg_tracks_after_delete_cleanup") tracksTable,
    .orphans (ascii "pins") (ascii "id") true, .orphans (ascii "likes") (ascii "id") true,
    .orphans (ascii "unsync_overrides") (ascii "sha256") false, .userVersion 8]

/-- `schema/0009_transcode_loudness.sql`. -/
def transcodeLoudness : List Ddl :=
  [column "residency_state" "transcode_gain_db" .null,
    column "residency_state" "transcode_lufs" .null, .userVersion 9]

/-- `MIGRATIONS`, `migrations.c:49–59`. -/
def migrations : List MigrationEntry :=
  [⟨1, init⟩, ⟨2, resolver⟩, ⟨3, residency⟩, ⟨4, ingest⟩, ⟨5, transcode⟩, ⟨6, weeklyDiscovery⟩,
    ⟨7, unsyncDelete⟩, ⟨8, orphanCleanup⟩, ⟨9, transcodeLoudness⟩]

/-! ### The runner -/

/-- The connection: what is committed, and the working state of an open transaction. -/
structure SqlConn where
  committed : SqlDb
  work : Option SqlDb

/-- What the runner asks for. -/
inductive MigrationCall where
  | readUserVersion
  | malloc (version : Int)
  | begin
  | ddl (d : Ddl)
  | commit
  | rollback

/-- The runner's code. -/
abbrev Migrating := Proc SqlConn MigrationCall Fault

namespace SqlConn

/-- What the statements of the connection see. -/
def view (c : SqlConn) : SqlDb := c.work.getD c.committed

/-- A statement's effect: in the open transaction, or committed at once. -/
def setView (c : SqlConn) (db : SqlDb) : SqlConn :=
  match c.work with
  | some _ => { c with work := some db }
  | none => { c with committed := db }

/-- A failing statement may take the transaction with it. -/
def failed (c : SqlConn) (f : Fault) : SqlConn := if f.rollsBack then { c with work := none } else c

/-- `BEGIN IMMEDIATE`. -/
def begin (c : SqlConn) : Option SqlConn :=
  match c.work with
  | some _ => none
  | none => some { c with work := some c.committed }

/-- `COMMIT`. -/
def commit (c : SqlConn) : Option SqlConn := c.work.map fun db ↦ ⟨db, none⟩

/-- `ROLLBACK`. -/
def rollback (c : SqlConn) : Option SqlConn := c.work.map fun _ ↦ { c with work := none }

end SqlConn

/-- `sqlite3_exec` of one statement: `SQLITE_OK`, or not. -/
def sqliteExec (call : MigrationCall) (f : SqlConn → Option SqlConn) : Migrating Bool :=
  Proc.ask call fun c fault ↦
    match fault with
    | some e => (false, c.failed e)
    | none =>
      match f c with
      | some c' => (true, c')
      | none => (false, c)

/-- `read_user_version`, `migrations.c:74–86`. -/
def readUserVersion : Migrating Int :=
  Proc.ask .readUserVersion fun c fault ↦
    match fault with
    | some e => (-1, c.failed e)
    | none => (c.view.userVersion, c)

/-- `sqlite3_exec` of a script stops at the first statement that fails. -/
def execScript : List Ddl → Migrating Bool
  | [] => return true
  | d :: ds => do
    if ← sqliteExec (.ddl d) fun c ↦ (d.exec c.view).map c.setView then execScript ds
    else return false

/-- One migration, `migrations.c:101–137`: the version that is then there, or `none` for −1. -/
def applyOne (m : MigrationEntry) : Migrating (Option Int) := do
  if ← sqliteExec (.malloc m.version) some then
    if ← sqliteExec .begin SqlConn.begin then
      if ← execScript m.sql then
        if ← sqliteExec .commit SqlConn.commit then
          let newVersion ← readUserVersion
          return if newVersion = m.version then some newVersion else none
        else return none
      else
        let _ ← sqliteExec .rollback SqlConn.rollback
        return none
    else return none
  else return none

/-- The loop of `migrations_apply`, `migrations.c:97–138`. -/
def applyFrom (current : Int) : List MigrationEntry → Migrating Int
  | [] => return 0
  | m :: ms => do
    if m.version ≤ current then applyFrom current ms
    else
      match ← applyOne m with
      | some newVersion => applyFrom newVersion ms
      | none => return -1

/-- `migrations_apply`, `migrations.c:88–141`. -/
def migrationsApply : Migrating Int := do
  let current ← readUserVersion
  if current < 0 then return -1 else applyFrom current migrations

/-- What a run leaves in the file: the connection is closed, or dies. -/
def migrated (db : SqlDb) (answers : List (Reply Fault)) : SqlDb :=
  (migrationsApply.run ⟨db, none⟩ answers).state.committed

/-! ### Versions -/

/-- The layout of a version. -/
def layoutAt (n : Nat) : Layout :=
  (((migrations.take n).flatMap MigrationEntry.sql).foldlM Ddl.layout []).getD []

/-- The file is at a version, and its tables have the columns of it. -/
structure Laid (n : Nat) (db : SqlDb) : Prop where
  version : db.userVersion = n
  layout : Describes (layoutAt n) db

/-- The file after the migration that is next. -/
def nextVersion (db : SqlDb) : SqlDb :=
  match migrations[db.userVersion.toNat]? with
  | some m => (m.sql.foldlM Ddl.exec db).getD db
  | none => db

variable {n : Nat} {db db' : SqlDb} {l l' : Layout} {ds : List Ddl} {d : Ddl}

theorem laid_fresh : Laid 0 SqlDb.fresh := ⟨rfl, describes_fresh⟩

theorem run_of_layout (h : Describes l db) (hl : ds.foldlM Ddl.layout l = some l') :
    ∃ db', ds.foldlM Ddl.exec db = some db' ∧ Describes l' db' := by
  induction ds generalizing l db with
  | nil =>
    cases hl
    exact ⟨db, rfl, h⟩
  | cons d ds ih =>
    rw [List.foldlM_cons] at hl
    obtain ⟨l₁, hd, hrest⟩ := Option.bind_eq_some_iff.mp hl
    obtain ⟨db₁, hexec, h₁⟩ := exec_of_layout h hd
    obtain ⟨db', hrun, h'⟩ := ih h₁ hrest
    refine ⟨db', ?_, h'⟩
    rw [List.foldlM_cons, hexec]
    exact hrun

/-- Every script leads from the layout of one version to that of the next, and sets it last. -/
theorem migrations_step (hn : n < 9) : ∃ m, migrations[n]? = some m ∧ m.version = (n : Int) + 1 ∧
    m.sql.getLast? = some (.userVersion m.version) ∧
    m.sql.foldlM Ddl.layout (layoutAt n) = some (layoutAt (n + 1)) := by
  have hall : ∀ i : Fin 9, ∃ m ∈ migrations[i.val]?, m.version = (i.val : Int) + 1 ∧
      m.sql.getLast? = some (.userVersion m.version) ∧
      m.sql.foldlM Ddl.layout (layoutAt i.val) = some (layoutAt (i.val + 1)) := by
    decide +kernel
  obtain ⟨m, hm, h⟩ := hall ⟨n, hn⟩
  exact ⟨m, hm, h⟩

/-- The last statement of a script sets the version. -/
theorem userVersion_run (h : ds.foldlM Ddl.exec db = some db') {v : Int}
    (hlast : ds.getLast? = some (.userVersion v)) : db'.userVersion = v := by
  obtain ⟨front, rfl⟩ := List.getLast?_eq_some_iff.mp hlast
  rw [List.foldlM_append] at h
  obtain ⟨db₁, -, hset⟩ := Option.bind_eq_some_iff.mp h
  cases hset
  rfl

/-- From a version, the next migration goes through. -/
theorem next_of_laid (h : Laid n db) (hn : n < 9) : ∃ m, migrations[n]? = some m ∧
    m.version = (n : Int) + 1 ∧ m.sql.foldlM Ddl.exec db = some (nextVersion db) ∧
    Laid (n + 1) (nextVersion db) := by
  obtain ⟨m, hm, hversion, hlast, hlayout⟩ := migrations_step hn
  obtain ⟨db', hrun, hlaid⟩ := run_of_layout h.layout hlayout
  have hnext : nextVersion db = db' := by
    unfold nextVersion
    rw [h.version, Int.toNat_natCast, hm]
    dsimp only
    rw [hrun]
    rfl
  rw [hnext]
  refine ⟨m, hm, hversion, hrun, ?_, hlaid⟩
  rw [userVersion_run hrun hlast, hversion]
  exact (Int.natCast_succ n).symm

theorem laid_iterate (h : Laid n db) {k : Nat} (hk : n + k ≤ 9) :
    Laid (n + k) (nextVersion^[k] db) := by
  induction k with
  | zero => exact h
  | succ k ih =>
    rw [Function.iterate_succ_apply']
    obtain ⟨-, -, -, -, hnext⟩ := next_of_laid (ih (by omega)) (by omega)
    exact hnext

/-! ### Runs -/

section Runs

variable {A : SqlConn → MigrationCall → Reply Fault → Prop}

/-- A statement outside a transaction, or in one, leaves what is committed. -/
theorem wp_sqliteExec {call : MigrationCall} {f : SqlConn → Option SqlConn} {c : SqlConn}
    {Q : Bool → SqlConn → Prop} {C : SqlConn → Prop} (hdie : C c)
    (hok : ∀ c', f c = some c' → Q true c') (hnone : f c = none → Q false c)
    (hfail : ∀ e, A c call (.fail e) → Q false (c.failed e)) :
    wp A (sqliteExec call f) Q C c := by
  refine (wp_ask _ _).mpr ⟨fun _ ↦ hdie, fun _ ↦ ?_, fun e he ↦ hfail e he⟩
  dsimp only
  cases hf : f c with
  | none => exact hnone hf
  | some c' => exact hok c' hf

theorem wp_readUserVersion {c : SqlConn} {Q : Int → SqlConn → Prop} {C : SqlConn → Prop}
    (hdie : C c) (hok : Q c.view.userVersion c)
    (hfail : ∀ e, A c .readUserVersion (.fail e) → Q (-1) (c.failed e)) :
    wp A readUserVersion Q C c :=
  (wp_ask _ _).mpr ⟨fun _ ↦ hdie, fun _ ↦ hok, hfail⟩

/-- Some call has failed. -/
def Failing (A : SqlConn → MigrationCall → Reply Fault → Prop) : Prop :=
  ∃ c call e, A c call (.fail e)

/-- A script in a transaction changes only its working state. -/
theorem wp_execScript {work done : SqlDb} {c : SqlConn} (hwork : c.work = some work)
    (hrun : ds.foldlM Ddl.exec work = some done) :
    wp A (execScript ds)
      (fun ok c' ↦ c'.committed = c.committed ∧
        (ok = true ∧ c'.work = some done ∨ ok = false ∧ Failing A))
      (fun c' ↦ c'.committed = c.committed) c := by
  induction ds generalizing work c with
  | nil =>
    cases hrun
    exact ⟨rfl, Or.inl ⟨rfl, hwork⟩⟩
  | cons d ds ih =>
    rw [List.foldlM_cons] at hrun
    obtain ⟨db₁, hd, hrest⟩ := Option.bind_eq_some_iff.mp hrun
    have hview : c.view = work := by rw [SqlConn.view, hwork]; rfl
    have hset : c.setView db₁ = { c with work := some db₁ } := by rw [SqlConn.setView, hwork]
    rw [execScript, wp_bind]
    refine wp_sqliteExec rfl ?_ ?_ ?_
    · intro c' hc'
      rw [hview, hd] at hc'
      cases hc'
      rw [if_pos rfl, hset]
      exact ih (c := { c with work := some db₁ }) rfl hrest
    · intro hnone
      rw [hview, hd] at hnone
      cases hnone
    · intro e he
      rw [if_neg Bool.false_ne_true]
      refine ⟨?_, Or.inr ⟨rfl, _, _, e, he⟩⟩
      unfold SqlConn.failed
      split <;> rfl

/-- The file is somewhere on its way from version `n` to the newest. -/
def OnTheWay (n : Nat) (db db' : SqlDb) : Prop := ∃ k, n + k ≤ 9 ∧ db' = nextVersion^[k] db

theorem OnTheWay.refl (hn : n ≤ 9) : OnTheWay n db db := ⟨0, hn, rfl⟩

theorem OnTheWay.next (h : OnTheWay (n + 1) (nextVersion db) db') : OnTheWay n db db' := by
  obtain ⟨k, hk, heq⟩ := h
  exact ⟨k + 1, by omega, heq⟩

/-- One migration: the file is as before or at the next version, and it is the next version that is
reported. -/
theorem wp_applyOne (h : Laid n db) (hn : n < 9) {m : MigrationEntry}
    (hm : migrations[n]? = some m) :
    wp A (applyOne m)
      (fun r c ↦ (r = some ((n + 1 : Nat) : Int) ∧ c = ⟨nextVersion db, none⟩) ∨
        (r = none ∧ OnTheWay n db c.committed ∧ Failing A))
      (fun c ↦ OnTheWay n db c.committed) ⟨db, none⟩ := by
  obtain ⟨m', hm', hversion, hrun, hnext⟩ := next_of_laid h hn
  rw [hm] at hm'
  cases hm'
  have hhere : OnTheWay n db db := .refl (by omega)
  have hthere : OnTheWay n db (nextVersion db) := ⟨1, hn, rfl⟩
  have giveUp : ∀ {c : SqlConn} {call : MigrationCall} {e : Fault}, A c call (.fail e) →
      ∀ {c' : SqlConn}, OnTheWay n db c'.committed →
        wp A (pure none : Migrating (Option Int))
          (fun r c ↦ (r = some ((n + 1 : Nat) : Int) ∧ c = ⟨nextVersion db, none⟩) ∨
            (r = none ∧ OnTheWay n db c.committed ∧ Failing A))
          (fun c ↦ OnTheWay n db c.committed) c' := by
    intro c call e he c' hc'
    exact Or.inr ⟨rfl, hc', c, call, e, he⟩
  have stays : ∀ (c : SqlConn) (e : Fault), (c.failed e).committed = c.committed := by
    intro c e
    unfold SqlConn.failed
    split <;> rfl
  unfold applyOne
  rw [wp_bind]
  apply wp_sqliteExec hhere
  · rintro _ ⟨⟩
    rw [if_pos rfl, wp_bind]
    apply wp_sqliteExec hhere
    · rintro _ ⟨⟩
      rw [if_pos rfl, wp_bind]
      apply wp_mono (wp_execScript rfl hrun)
      · rintro ok c ⟨hcommitted, ⟨rfl, hwork⟩ | ⟨rfl, hfailing⟩⟩
        · rw [if_pos rfl, wp_bind]
          have hc : OnTheWay n db c.committed := hcommitted ▸ hhere
          apply wp_sqliteExec hc
          · intro c' hc'
            rw [SqlConn.commit, hwork] at hc'
            cases hc'
            rw [if_pos rfl, wp_bind]
            apply wp_readUserVersion hthere
            · show wp A (pure (if (nextVersion db).userVersion = m.version then _ else _)) _ _ _
              rw [hnext.version, hversion, if_pos (Int.natCast_succ n)]
              exact Or.inl ⟨congrArg some hnext.version, rfl⟩
            · intro e he
              have hne : (-1 : Int) ≠ m.version := by omega
              rw [if_neg hne]
              exact giveUp he ((stays _ e).symm ▸ hthere)
          · intro hnone
            rw [SqlConn.commit, hwork] at hnone
            cases hnone
          · intro e he
            rw [if_neg Bool.false_ne_true]
            exact giveUp he (stays c e ▸ hc)
        · rw [if_neg Bool.false_ne_true, wp_bind]
          have hc : OnTheWay n db c.committed := hcommitted ▸ hhere
          apply wp_sqliteExec hc
          · intro c' hc'
            obtain ⟨work, -, rfl⟩ := Option.map_eq_some_iff.mp hc'
            exact Or.inr ⟨rfl, hc, hfailing⟩
          · exact fun _ ↦ Or.inr ⟨rfl, hc, hfailing⟩
          · exact fun e he ↦ giveUp he (stays c e ▸ hc)
      · exact fun c hc ↦ hc ▸ hhere
    · intro hnone
      cases hnone
    · intro e he
      rw [if_neg Bool.false_ne_true]
      exact giveUp he ((stays _ e).symm ▸ hhere)
  · intro hnone
    cases hnone
  · intro e he
    rw [if_neg Bool.false_ne_true]
    exact giveUp he ((stays _ e).symm ▸ hhere)

theorem drop_migrations {i : Nat} (hi : i < 9) : ∃ m, migrations[i]? = some m ∧
    m.version = ((i + 1 : Nat) : Int) ∧ migrations.drop i = m :: migrations.drop (i + 1) := by
  obtain ⟨m, hm, hversion, -⟩ := migrations_step hi
  obtain ⟨hlt, hget⟩ := List.getElem?_eq_some_iff.mp hm
  exact ⟨m, hm, hversion, hget ▸ List.drop_eq_getElem_cons hlt⟩

/-- The loop, from the script at `i`: those of the version and before are passed over. -/
theorem wp_applyFrom {i : Nat} (h : Laid n db) (hi : i ≤ n) (hn : n ≤ 9) :
    wp A (applyFrom n (migrations.drop i))
      (fun rc c ↦ OnTheWay n db c.committed ∧ (rc = 0 → c = ⟨nextVersion^[9 - n] db, none⟩) ∧
        (rc ≠ 0 → Failing A))
      (fun c ↦ OnTheWay n db c.committed) ⟨db, none⟩ := by
  generalize hleft : 9 - i = left
  induction left generalizing i n db with
  | zero =>
    obtain rfl : i = 9 := by omega
    obtain rfl : n = 9 := by omega
    exact ⟨.refl hn, fun _ ↦ rfl, fun hrc ↦ absurd rfl hrc⟩
  | succ left ih =>
    obtain ⟨m, hm, hversion, hdrop⟩ := drop_migrations (i := i) (by omega)
    rw [hdrop, applyFrom]
    by_cases hdone : m.version ≤ n
    · rw [if_pos hdone]
      apply ih h _ hn (by omega)
      omega
    · rw [if_neg hdone, wp_bind]
      obtain rfl : i = n := by omega
      obtain ⟨-, -, -, -, hnext⟩ := next_of_laid h (by omega)
      apply wp_mono (wp_applyOne h (by omega) hm)
      · rintro r c (⟨rfl, rfl⟩ | ⟨rfl, hway, hfailing⟩)
        · apply wp_mono (ih hnext (Nat.le_refl _) (by omega) (by omega))
          · intro rc c ⟨hway, hok, hbad⟩
            refine ⟨hway.next, ?_, hbad⟩
            intro hrc
            have hrest : 9 - i = 9 - (i + 1) + 1 := by omega
            rw [hok hrc, hrest, Function.iterate_succ_apply]
          · exact fun c ↦ OnTheWay.next
        · refine ⟨hway, ?_, fun _ ↦ hfailing⟩
          intro hrc
          cases hrc
      · exact fun c hc ↦ hc

theorem wp_migrationsApply (h : Laid n db) (hn : n ≤ 9) :
    wp A migrationsApply
      (fun rc c ↦ OnTheWay n db c.committed ∧ (rc = 0 → c = ⟨nextVersion^[9 - n] db, none⟩) ∧
        (rc ≠ 0 → Failing A))
      (fun c ↦ OnTheWay n db c.committed) ⟨db, none⟩ := by
  unfold migrationsApply
  rw [wp_bind]
  apply wp_readUserVersion (.refl hn)
  · have hpos : ¬ db.userVersion < 0 := by
      rw [h.version]
      omega
    show wp A (if db.userVersion < 0 then _ else applyFrom db.userVersion migrations) _ _ _
    rw [if_neg hpos, h.version]
    exact wp_applyFrom h (Nat.zero_le n) hn
  · intro e he
    refine ⟨?_, ?_, fun _ ↦ ⟨_, _, e, he⟩⟩
    · dsimp only [SqlConn.failed]
      split <;> exact .refl hn
    · intro hrc
      cases hrc

end Runs

/-! ### Histories -/

theorem migrated_onTheWay (h : Laid n db) (hn : n ≤ 9) (answers : List (Reply Fault)) :
    OnTheWay n db (migrated db answers) := by
  have hrun := run_of_wp (wp_migrationsApply (A := fun _ _ _ ↦ True) h hn)
    (obeys_of_forall (fun _ _ _ ↦ trivial) _ _ answers)
  unfold migrated
  obtain ⟨rc, c, rest, heq, hway, -⟩ | ⟨c, heq, hway⟩ := hrun
  · rw [heq]
    exact hway
  · rw [heq]
    exact hway

/-- However many runs have failed or died. -/
theorem after_onTheWay (h : Laid n db) (hn : n ≤ 9) (runs : List (List (Reply Fault))) :
    OnTheWay n db (after migrated db runs) := by
  induction runs generalizing n db with
  | nil => exact .refl hn
  | cons answers runs ih =>
    obtain ⟨k, hk, heq⟩ := migrated_onTheWay h hn answers
    have hlaid := laid_iterate h hk
    rw [← heq] at hlaid
    obtain ⟨j, hj, hend⟩ := ih hlaid hk
    refine ⟨j + k, by omega, ?_⟩
    rw [Function.iterate_add_apply, ← heq]
    exact hend

/-- Whatever has happened to the runs before, the file is at one version, with the tables of it,
and the next run without incident makes of it what one run would have made of the first file. -/
theorem migrations_resume (h : Laid n db) (hn : n ≤ 9) (runs : List (List (Reply Fault))) :
    ∃ k, n + k ≤ 9 ∧ after migrated db runs = nextVersion^[k] db ∧
      Laid (n + k) (after migrated db runs) ∧
      migrationsApply.eval ⟨after migrated db runs, none⟩ = (0, ⟨nextVersion^[9 - n] db, none⟩) := by
  obtain ⟨k, hk, heq⟩ := after_onTheWay h hn runs
  have hlaid := laid_iterate h hk
  refine ⟨k, hk, heq, heq ▸ hlaid, ?_⟩
  obtain ⟨-, hok, hbad⟩ := wp_calm.mp (wp_migrationsApply (A := Calm) hlaid hk)
  have hrc : (migrationsApply.eval ⟨nextVersion^[k] db, none⟩).1 = 0 := by
    by_contra hne
    obtain ⟨_, _, _, he⟩ := hbad hne
    cases he
  have hadd : 9 - n = 9 - (n + k) + k := by omega
  rw [heq, hadd, Function.iterate_add_apply]
  exact Prod.ext hrc (hok hrc)

/-- A new file whose first run dies in the second migration and whose second run fails there. -/
theorem migrations_resume_fresh :
    let runs := [List.replicate 16 .ok ++ [.die], List.replicate 9 .ok ++ [.fail ⟨.other 28, true⟩]]
    ∃ k, 0 + k ≤ 9 ∧ after migrated SqlDb.fresh runs = nextVersion^[k] SqlDb.fresh ∧
      Laid (0 + k) (after migrated SqlDb.fresh runs) ∧
      migrationsApply.eval ⟨after migrated SqlDb.fresh runs, none⟩ =
        (0, ⟨nextVersion^[9 - 0] SqlDb.fresh, none⟩) :=
  migrations_resume laid_fresh (by decide) _

/-! ### Rows -/

/-- The statements of the next `k` migrations. -/
def scripts (n k : Nat) : List Ddl := ((migrations.drop n).take k).flatMap MigrationEntry.sql

theorem iterate_run (h : Laid n db) {k : Nat} (hk : n + k ≤ 9) :
    (scripts n k).foldlM Ddl.exec db = some (nextVersion^[k] db) := by
  induction k generalizing n db with
  | zero => rfl
  | succ k ih =>
    obtain ⟨m, hm, -, hdrop⟩ := drop_migrations (i := n) (by omega)
    obtain ⟨m', hm', -, hrun, hnext⟩ := next_of_laid h (by omega)
    rw [hm] at hm'
    cases hm'
    have hscripts : scripts n (k + 1) = m.sql ++ scripts (n + 1) k := by
      simp only [scripts, hdrop, List.take_succ_cons, List.flatMap_cons]
    rw [hscripts, List.foldlM_append, hrun]
    exact ih hnext (by omega)

/-- From version `n` on, a statement takes no rows but the likes of before version 4 and the
orphans. -/
def gentle (n : Nat) (d : Ddl) : Bool :=
  match d with
  | .dropTable name => name == ascii "likes" && n < 4
  | .orphans name key units => name != tracksTable && orphanCleanup.contains d &&
      (name == ascii "likes" && n < 4 || (orphanColumns key units).all fun column ↦
        (((layoutAt n).lookup name).map (·.contains column)).getD true)
  | _ => true

theorem gentle_of_mem {k : Nat} (hn : n ≤ 9) (hd : d ∈ scripts n k) : gentle n d = true := by
  have hall : ∀ i : Fin 10, ((migrations.drop i.val).flatMap MigrationEntry.sql).all (gentle i.val) =
      true := by
    decide +kernel
  refine List.all_eq_true.mp (hall ⟨n, Nat.lt_succ_of_le hn⟩) d ?_
  obtain ⟨m, hm, hmem⟩ := List.mem_flatMap.mp hd
  exact List.mem_flatMap.mpr ⟨m, List.mem_of_mem_take hm, hmem⟩

/-- However many runs have failed or died, a table has its rows, each with the defaults of the columns
that the migrations so far have added, but for the orphans of `pins`, `likes` and
`unsync_overrides`. Only the likes of before version 4 are given up. -/
theorem upgrade_keeps (h : Laid n db) (hn : n ≤ 9) (runs : List (List (Reply Fault))) {name : Text}
    {t tracks : SqlTable} (ht : db.tables.get? name = some t)
    (htracks : db.tables.get? tracksTable = some tracks) (hlikes : name = ascii "likes" → 4 ≤ n) :
    ∃ k t', (after migrated db runs).userVersion = (n + k : Nat) ∧
      (after migrated db runs).tables.get? name = some t' ∧
      Keeps (addedColumns name (scripts n k)) (fun row ↦ ∀ key units,
        .orphans name key units ∈ orphanCleanup → hasTrack t tracks key units row = true) t t' := by
  obtain ⟨k, hk, heq⟩ := after_onTheWay h hn runs
  have hversion := (laid_iterate h hk).version
  have hspares : Spares name (scripts n k) := by
    refine ⟨?_, ?_, ?_⟩
    · intro hmem
      have hgentle := gentle_of_mem hn hmem
      simp only [gentle, Bool.and_eq_true, beq_iff_eq, decide_eq_true_eq] at hgentle
      have := hlikes hgentle.1
      omega
    · intro hmem
      have hgentle := gentle_of_mem hn hmem
      simp only [gentle, Bool.and_eq_true, beq_iff_eq] at hgentle
      exact absurd hgentle.1 (by decide +kernel)
    · intro key units hmem
      have hgentle := gentle_of_mem hn hmem
      simp [gentle] at hgentle
  have horphans : ∀ key units, .orphans name key units ∈ scripts n k →
      .orphans name key units ∈ orphanCleanup ∧
        ∀ column ∈ orphanColumns key units, column ∈ t.columns := by
    intro key units hmem
    have hgentle := gentle_of_mem hn hmem
    have hlook : (layoutAt n).lookup name = some t.columns := by
      rw [← h.layout name, ht]
      rfl
    simp only [gentle, hlook, Bool.and_eq_true, Bool.or_eq_true, beq_iff_eq, decide_eq_true_eq,
      List.contains_iff_mem, List.all_eq_true, Option.map_some, Option.getD_some] at hgentle
    refine ⟨hgentle.1.2, hgentle.2.resolve_left fun ⟨hname, hlt⟩ ↦ ?_⟩
    have := hlikes hname
    omega
  have hsha : ascii "sha256" ∈ tracks.columns := by
    have hlook : (layoutAt n).lookup tracksTable = some tracks.columns := by
      rw [← h.layout tracksTable, htracks]
      rfl
    have hall : ∀ i : Fin 10, ∀ cs ∈ (layoutAt i.val).lookup tracksTable, ascii "sha256" ∈ cs := by
      decide +kernel
    exact hall ⟨n, Nat.lt_succ_of_le hn⟩ _ hlook
  obtain ⟨t', ht', hkeeps⟩ := keeps_run (iterate_run h hk) hspares ht htracks hsha
    fun key units hmem ↦ (horphans key units hmem).2
  rw [heq]
  refine ⟨k, t', hversion, ht', hkeeps.mono ?_⟩
  intro row hrow key units hmem
  exact hrow key units (horphans key units hmem).1

/-- A track. -/
def sampleTracks : SqlTable where
  columns := ((layoutAt 2).lookup tracksTable).getD []
  rows := [.text [97] :: List.replicate 17 .null]
  width := by decide +kernel

/-- A pin of that track, and one of a track that is gone. -/
def samplePins : SqlTable where
  columns := ((layoutAt 2).lookup (ascii "pins")).getD []
  rows := [[.text (ascii "track"), .text [97], .int 1, .int 5],
    [.text (ascii "track"), .text [98], .int 1, .int 5]]
  width := by decide +kernel

/-- A file of version 2 with them. -/
def sample : SqlDb where
  userVersion := 2
  tables := ((nextVersion^[2] SqlDb.fresh).tables.put tracksTable sampleTracks).put (ascii "pins")
    samplePins
  triggers := []

theorem laid_sample : Laid 2 sample := by
  have hbase : Laid 2 (nextVersion^[2] SqlDb.fresh) := laid_iterate laid_fresh (k := 2) (by decide)
  have htracks : (layoutAt 2).lookup tracksTable = some sampleTracks.columns := by decide +kernel
  have hpins : ((tracksTable, sampleTracks.columns) :: layoutAt 2).lookup (ascii "pins") =
      some samplePins.columns := by decide +kernel
  refine ⟨rfl, fun other ↦ ?_⟩
  rw [← lookup_cons_self_eq htracks, ← lookup_cons_self_eq hpins]
  exact (@Describes.put _ _ tracksTable hbase.layout sampleTracks).put samplePins other

theorem upgrade_keeps_pins :
    let runs := [List.replicate 30 .ok ++ [.die], []]
    ∃ k t', (after migrated sample runs).userVersion = (2 + k : Nat) ∧
      (after migrated sample runs).tables.get? (ascii "pins") = some t' ∧
      Keeps (addedColumns (ascii "pins") (scripts 2 k)) (fun row ↦ ∀ key units,
        .orphans (ascii "pins") key units ∈ orphanCleanup →
          hasTrack samplePins sampleTracks key units row = true) samplePins t' :=
  upgrade_keeps laid_sample (by decide) _ (Table.get?_put_self _ _ _)
    ((Table.get?_put_ne _ _ (by decide +kernel)).trans (Table.get?_put_self _ _ _))
    (fun h ↦ absurd h (by decide +kernel))

end Nocturne.Schema
