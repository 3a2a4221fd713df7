import Nocturne.Migrate.Turns

/-!
# Running a migration again

A migration that is cut short, or whose updates of rows fail, leaves each flat track in one of the
standings. The next run completes the tracks that are recoverable, and no others. A track whose
file is gone from its old path is lost to it, since `link` then fails with `ENOENT`, and so is one
beside whose file a copy has been left.
-/

namespace Nocturne

open Lib Proc

variable {A : World MigrateStats → Call → Reply Fault → Prop} {root : Path}
  {T : FlatTrack → Prop} {t : FlatTrack} {job : MigrateJob} {w w' : World MigrateStats}
  {m m₀ : Machine}

/-! ### The library -/

/-- A row of the library whose path is flat, with what its file holds. -/
def IsFlat (root : Path) (m : Machine) (t : FlatTrack) : Prop :=
  m.rowPath t.sha = some t.cur ∧ classifyPath root t.cur = .flat ∧ Holds m.fs t.cur t.content

/-- A library before its migration. The archive may hold files already, also at the places that
the migration wants. -/
structure FlatLibrary (root : Path) (m : Machine) : Prop where
  base : m.fs.node? root = some .dir
  files : ∀ {sha cur}, m.rowPath sha = some cur → classifyPath root cur = .flat →
    ∃ i, m.fs.node? cur = some (.file i)
  leaves : ∀ {p q i}, m.fs.node? p = some (.file i) → DirOf q p → m.fs.node? q = none
  places : ∀ {sha cur}, m.rowPath sha = some cur → classifyPath root cur = .flat →
    ∀ link, m.fs.node? (computeArchivePath root cur) ≠ some (.symlink link)
  dirs : ∀ {sha cur}, m.rowPath sha = some cur → classifyPath root cur = .flat →
    ∀ q, DirOf (computeArchivePath root cur) q →
      m.fs.node? q = none ∨ m.fs.node? q = some .dir

theorem FlatLibrary.apart (h : FlatLibrary root m) : TracksApart root (IsFlat root m) where
  flat ht := ht.2.1
  sha {t t'} ht ht' he := by
    have hcur : t.cur = t'.cur := by
      have hrow := ht.1
      rw [he, ht'.1] at hrow
      exact (Option.some.inj hrow).symm
    obtain ⟨i, hi, hc⟩ := ht.2.2
    obtain ⟨j, hj, hc'⟩ := ht'.2.2
    rw [hcur, hj] at hi
    cases hi
    cases t
    cases t'
    simp_all
  cur {t t'} ht ht' he := by
    have hrow := ht.1
    rw [he] at hrow
    have hsha := rowPath_inj hrow ht'.1
    obtain ⟨i, hi, hc⟩ := ht.2.2
    obtain ⟨j, hj, hc'⟩ := ht'.2.2
    rw [he, hj] at hi
    cases hi
    cases t
    cases t'
    simp_all
  below {t t'} ht ht' hdir := by
    obtain ⟨i, hi, -⟩ := ht.2.2
    obtain ⟨j, hj, -⟩ := ht'.2.2
    rw [h.leaves hi hdir] at hj
    cases hj
  above {t t'} ht ht' hdir := by
    obtain ⟨i, hi, -⟩ := ht.2.2
    rcases h.dirs ht'.1 ht'.2.1 t.cur hdir with hnone | hdir
    · rw [hnone] at hi
      cases hi
    · rw [hdir] at hi
      cases hi

theorem FlatLibrary.midway (h : FlatLibrary root m) : Midway root (IsFlat root m) m where
  base := h.base
  standing {t} ht := by
    obtain ⟨i, hi, hc⟩ := ht.2.2
    cases hn : m.fs.node? (t.goal root) with
    | none => exact .pending ht.1 ⟨i, hi, hc⟩ hn
    | some n =>
      by_cases hsame : n = .file i
      · rw [hsame] at hn
        exact .linked i ht.1 hi hn hc
      · refine .torn i n ht.1 hi hc hn hsame fun link hlink ↦ ?_
        rw [hlink] at hn
        exact h.places ht.1 ht.2.1 link hn
  rows {sha row} hget hflat := by
    have hrow : m.rowPath sha = some row.path := by
      unfold Machine.rowPath
      rw [hget]
      rfl
    obtain ⟨i, hi⟩ := h.files hrow hflat
    exact ⟨⟨sha, row.path, (m.fs.data i).content⟩, ⟨hrow, hflat, i, hi, rfl⟩, rfl, rfl⟩

/-! ### The loop -/

/-- A run with the rows `rest` still to come. -/
structure Pending (root : Path) (T : FlatTrack → Prop) (rest : List (Sha × Path))
    (w : World MigrateStats) : Prop where
  idle : w.conn.txn = none
  midway : Midway root T w.stop
  nodup : (rest.map Prod.fst).Nodup
  rows : ∀ x ∈ rest, w.stop.rowPath x.1 = some x.2

theorem Pending.start (h : Midway root T m) : Pending root T m.db.allTracks (m.start {}) where
  idle := rfl
  midway := h
  nodup := nodup_allTracks m.db
  rows _ hx := mem_allTracks.mp hx

/-- The counters do not matter. -/
theorem Pending.congr {rest : List (Sha × Path)} (h : Pending root T rest w)
    (hstop : w'.stop = w.stop) (hconn : w'.conn = w.conn) : Pending root T rest w' where
  idle := by rw [hconn, h.idle]
  midway := by
    rw [hstop]
    exact h.midway
  nodup := h.nodup
  rows x hx := by
    rw [hstop]
    exact h.rows x hx

theorem Pending.tail {rest : List (Sha × Path)} {x : Sha × Path}
    (h : Pending root T (x :: rest) w) : Pending root T rest w :=
  ⟨h.idle, h.midway, (List.nodup_cons.mp h.nodup).2, fun y hy ↦ h.rows y (.tail _ hy)⟩

/-- The turn of a flat row. -/
theorem Pending.step {rest : List (Sha × Path)} {x : Sha × Path} (hT : TracksApart root T)
    (ht : T t) (hx : t.sha = x.1) (h : Pending root T (x :: rest) w) (hm : MidTurn root t w w') :
    Pending root T rest w' where
  idle := hm.1.idle
  midway := hT.midway_turn ht hm.1.turn h.midway hm.2
  nodup := (List.nodup_cons.mp h.nodup).2
  rows y hy := by
    have hne : y.1 ≠ t.sha := by
      intro he
      apply (List.nodup_cons.mp h.nodup).1
      rw [← hx, ← he]
      exact List.mem_map_of_mem hy
    rw [hm.1.turn.rowPath hne]
    exact h.rows y (.tail _ hy)

/-- The track of a flat row. -/
theorem Pending.track {rest : List (Sha × Path)} {x : Sha × Path} (h : Pending root T (x :: rest) w)
    (hflat : classifyPath root x.2 = .flat) : ∃ t, T t ∧ t.sha = x.1 ∧ t.cur = x.2 := by
  have hrow := h.rows x (.head _)
  unfold Machine.rowPath at hrow
  obtain ⟨row, hget, hpath⟩ := Option.map_eq_some_iff.mp hrow
  rw [← hpath] at hflat ⊢
  exact h.midway.rows hget hflat

/-- One row, by the turn of its track. -/
theorem wp_migrateRow {Q : World MigrateStats → Prop} {rest : List (Sha × Path)} {x : Sha × Path}
    (hA : FilesCalm A) (hT : TracksApart root T) (hroot : job.libraryRoot = root)
    (h : Pending root T (x :: rest) w)
    (hpass : (classifyPath root x.2 = .flat → job.apply = false) →
      ∀ w', w'.stop = w.stop → w'.conn = w.conn → w'.out.errors = w.out.errors → Q w')
    (hturn : ∀ t w₁ w', T t → t.sha = x.1 → t.cur = x.2 → w₁.stop = w.stop → w₁.conn = w.conn →
      w₁.out.errors = w.out.errors → TurnDone A root t w₁ w' → Q w') :
    wp A (migrateRow job x) (fun _ ↦ Q) (fun w' ↦ Midway root T w'.stop) w := by
  have pass : classifyPath root x.2 ≠ .flat → ∀ w', w'.stop = w.stop → w'.conn = w.conn →
      w'.out.errors = w.out.errors → Q w' :=
    fun hnot ↦ hpass fun hflat ↦ absurd hflat hnot
  unfold migrateRow
  rw [hroot]
  cases hkind : classifyPath root x.2 with
  | outside => exact pass (by rw [hkind]; simp) _ rfl rfl rfl
  | archived => exact pass (by rw [hkind]; simp) _ rfl rfl rfl
  | resident => exact pass (by rw [hkind]; simp) _ rfl rfl rfl
  | flat =>
    dsimp only
    rw [wp_bind, wp_tally]
    by_cases happly : job.apply = true
    · rw [if_pos happly]
      obtain ⟨t, ht, hsha, hcur⟩ := h.track hkind
      have hrow : w.stop.rowPath t.sha = some t.cur := by
        rw [hsha, hcur]
        exact h.rows x (.head _)
      rw [← hsha, ← hcur]
      let w₁ : World MigrateStats := { w with out := { w.out with planned := w.out.planned + 1 } }
      apply wp_mono (wp_migrateOne (w := w₁) hA hT ht h.idle hroot hrow (h.midway.standing ht))
      · exact fun _ w' hw' ↦ hturn t w₁ w' ht hsha hcur rfl rfl rfl hw'
      · exact fun w' hw' ↦ hT.midway_turn ht hw'.1.turn h.midway hw'.2
    · rw [if_neg happly]
      exact hpass (fun _ ↦ by simpa using happly) _ rfl rfl rfl

/-- A run, by its loop. -/
theorem wp_migrateRun {Q : Bool → World MigrateStats → Prop} {C : World MigrateStats → Prop}
    (hA : FilesCalm A) (hroot : job.libraryRoot = root)
    (hbase : w.fs.node? root = some .dir) (hidle : w.conn.txn = none) (hC : C w)
    (hquery : ∀ e, ¬ A w (.sql .allTracks) (.fail e))
    (hloop : wp A (Proc.each (migrateRow job) w.stop.db.allTracks) (fun _ ↦ Q true) C w) :
    wp A (migrateRun job) Q C w := by
  have hstat : w.fs.stat? root = some .dir := Fs.stat?_of_node hbase fun _ he ↦ by cases he
  have hview : w.conn.view = w.stop.db := by
    unfold Conn.view World.stop
    rw [hidle]
  unfold migrateRun
  rw [hroot, wp_bind]
  refine (wp_ask _ _).mpr ⟨fun _ ↦ hC, fun _ ↦ ?_, fun e he ↦ (by cases hA.sql he)⟩
  dsimp only
  have hdir : (Except.ok (w.fs.stat? root) : Except Errno (Option (Node Name))).toOption.join =
      some .dir := by
    rw [hstat]
    rfl
  rw [if_pos hdir, wp_bind]
  refine (wp_ask _ _).mpr ⟨fun _ ↦ hC, fun _ ↦ ?_, fun e he ↦ absurd he (hquery e)⟩
  dsimp only
  rw [hview, wp_bind]
  exact hloop

/-! ### The run that is cut short -/

/-- Which answers an interrupted run may get. -/
def interrupts : Call → Reply Fault → Bool
  | .sql (.updateTrackPath _), _ => true
  | _, .fail _ => false
  | _, _ => true

/-- The process may be killed at any call, and the updates of `tracks.path` may fail. -/
def Interrupted (_ : World MigrateStats) (call : Call) (reply : Reply Fault) : Prop :=
  interrupts call reply = true

instance (w : World MigrateStats) (call : Call) (reply : Reply Fault) :
    Decidable (Interrupted w call reply) := inferInstanceAs (Decidable (_ = true))

theorem filesCalm_interrupted : FilesCalm Interrupted where
  sql {_ call fault} h := by
    cases call with
    | sql stmt => rfl
    | _ => cases h

theorem filesCalm_calm : @FilesCalm MigrateStats Calm where
  sql h := by cases h

/-- Wherever an interrupted run ends, each flat track is in one of the standings. -/
theorem midway_interrupted (h : FlatLibrary root m) (hroot : job.libraryRoot = root)
    {answers : List (Reply Fault)} (hrun : (migrateRun job).Obeys Interrupted (m.start {}) answers) :
    Midway root (IsFlat root m) ((migrateRun job).run (m.start {}) answers).state.stop := by
  have hT := h.apart
  have hwp : wp Interrupted (migrateRun job) (fun _ w ↦ Midway root (IsFlat root m) w.stop)
      (fun w ↦ Midway root (IsFlat root m) w.stop) (m.start {}) := by
    apply wp_migrateRun filesCalm_interrupted hroot h.base rfl h.midway
    · exact fun _ he ↦ (by cases he)
    · apply wp_mono (wp_each_rest (I := Pending root (IsFlat root m)) _ (.start h.midway))
      · exact fun _ _ hw ↦ hw.midway
      · exact fun _ hw ↦ hw
      · intro x rest w hw
        apply wp_migrateRow filesCalm_interrupted hT hroot hw
        · exact fun _ w' hstop hconn _ ↦ hw.tail.congr hstop hconn
        · intro t w₁ w' ht hsha hcur hstop hconn _ hs
          exact (hw.congr hstop hconn).step hT ht hsha hs.mid
  rcases run_of_wp hwp hrun with ⟨_, _, _, he, hend⟩ | ⟨_, he, hend⟩
  · rw [he]
    exact hend
  · rw [he]
    exact hend

/-! ### The next run -/

/-- What the next run has done so far, from `m₀`. -/
structure Healing (root : Path) (T : FlatTrack → Prop) (m₀ : Machine) (rest : List (Sha × Path))
    (w : World MigrateStats) : Prop where
  pending : Pending root T rest w
  same : ∀ {t}, T t → (Recoverable root w.stop t ↔ Recoverable root m₀ t)
  left : ∀ {t}, T t → w.stop.rowPath t.sha = some t.cur → Recoverable root w.stop t →
    (t.sha, t.cur) ∈ rest
  errors : (∀ t, T t → Recoverable root m₀ t) → w.out.errors = 0

theorem Healing.start (h : Midway root T m) : Healing root T m m.db.allTracks (m.start {}) where
  pending := .start h
  same _ := Iff.rfl
  left _ hrow _ := mem_allTracks.mpr hrow
  errors _ := rfl

theorem Healing.congr {rest : List (Sha × Path)} (h : Healing root T m₀ rest w)
    (hstop : w'.stop = w.stop) (hconn : w'.conn = w.conn) (herrors : w'.out.errors = w.out.errors) :
    Healing root T m₀ rest w' where
  pending := h.pending.congr hstop hconn
  same ht := by
    rw [hstop]
    exact h.same ht
  left ht := by
    rw [hstop]
    exact h.left ht
  errors hall := by
    rw [herrors]
    exact h.errors hall

/-- A row that is not flat has no turn. -/
theorem Healing.tail {rest : List (Sha × Path)} {x : Sha × Path} (hT : TracksApart root T)
    (h : Healing root T m₀ (x :: rest) w) (hx : classifyPath root x.2 ≠ .flat) :
    Healing root T m₀ rest w where
  pending := h.pending.tail
  same := h.same
  left {t} ht hrow hrec := by
    rcases List.mem_cons.mp (h.left ht hrow hrec) with he | hmem
    · rw [← he] at hx
      exact absurd (hT.flat ht) hx
    · exact hmem
  errors := h.errors

/-- A track can be completed exactly when it is free, as long as its row names its old path. -/
theorem recoverable_iff_free (hne : t.goal root ≠ t.cur) (hrow : m.rowPath t.sha = some t.cur) :
    Recoverable root m t ↔ Free root m.fs t ∧ ¬ m.Claimed t.sha (t.goal root) := by
  apply or_iff_right
  rw [hrow]
  exact fun he ↦ hne (Option.some.inj he).symm

/-- A calm turn completes a track if anything can. -/
theorem TurnDone.moved (h : TurnDone Calm root t w w') (hrec : Recoverable root w'.stop t) :
    (Free root w.fs t ∧ ¬ w.stop.Claimed t.sha (t.goal root)) ∧ Migrated root w'.stop t := by
  have hfree : Free root w.fs t ∧ ¬ w.stop.Claimed t.sha (t.goal root) := by
    by_contra hnot
    exact h.lost hnot hrec
  exact ⟨hfree, (h.healed (fun _ _ _ he ↦ by cases he) hfree.1 hfree.2).1⟩

theorem Healing.step {rest : List (Sha × Path)} {x : Sha × Path} (hT : TracksApart root T)
    (ht : T t) (hsha : t.sha = x.1) (hcur : t.cur = x.2) (h : Healing root T m₀ (x :: rest) w)
    (hs : TurnDone Calm root t w w') : Healing root T m₀ rest w' := by
  have hne := hT.goal_ne_cur ht ht
  have hstanding := h.pending.midway.standing ht
  have hrow : w.stop.rowPath t.sha = some t.cur := by
    rw [hsha, hcur]
    exact h.pending.rows x (.head _)
  have hiff := recoverable_iff_free hne hrow
  have hcalm : ∀ (w : World MigrateStats) (call : Call) (e : Fault), ¬ Calm w call (.fail e) :=
    fun _ _ _ he ↦ by cases he
  refine ⟨h.pending.step hT ht hsha hs.mid, fun {t'} ht' ↦ ?_, fun {t'} ht' hrow' hrec ↦ ?_,
    fun hall ↦ ?_⟩
  · by_cases he : t' = t
    · rw [he, ← h.same ht, hiff]
      constructor
      · exact fun hrec ↦ (hs.moved hrec).1
      · exact fun hfree ↦ (hs.healed hcalm hfree.1 hfree.2).1.recoverable
    · rw [hT.recoverable_kept ht ht' he hs.mid.1.turn hstanding hs.mid.2]
      exact h.same ht'
  · by_cases he : t' = t
    · rw [he] at hrow' hrec
      have hmoved := (hs.moved hrec).2.row
      rw [hrow'] at hmoved
      exact absurd (Option.some.inj hmoved).symm hne
    · rw [hT.recoverable_kept ht ht' he hs.mid.1.turn hstanding hs.mid.2] at hrec
      rw [hs.mid.1.turn.rowPath (hT.sha_ne ht ht' he)] at hrow'
      rcases List.mem_cons.mp (h.left ht' hrow' hrec) with hx | hmem
      · rw [← hx] at hsha
        exact absurd hsha.symm (hT.sha_ne ht ht' he)
      · exact hmem
  · have hfree := hiff.mp ((h.same ht).mpr (hall t ht))
    rw [(hs.healed hcalm hfree.1 hfree.2).2]
    exact h.errors hall

/-- The second run has completed the tracks: their rows name the places in the archive that hold
what the tracks held, it has counted no error, and another run would change nothing. -/
structure Healed (T : FlatTrack → Prop) (job : MigrateJob) (m : Machine) : Prop where
  finished : ((migrateRun job).eval (m.start {})).1 = true
  moved : ∀ t, T t → Migrated job.libraryRoot ((migrateRun job).eval (m.start {})).2.stop t
  errors : ((migrateRun job).eval (m.start {})).2.out.errors = 0
  again : ∀ next : MigrateJob, next.libraryRoot = job.libraryRoot →
    ((migrateRun next).eval (((migrateRun job).eval (m.start {})).2.stop.start {})).2.stop =
      ((migrateRun job).eval (m.start {})).2.stop

/-- The next run, from any point at which another one stopped. -/
theorem healing_eval (hT : TracksApart root T) (h : Midway root T m) (happly : job.apply = true)
    (hroot : job.libraryRoot = root) :
    ((migrateRun job).eval (m.start {})).1 = true ∧
      Healing root T m [] ((migrateRun job).eval (m.start {})).2 := by
  have hwp : wp Calm (migrateRun job) (fun ok w ↦ ok = true ∧ Healing root T m [] w)
      (fun _ ↦ True) (m.start {}) := by
    apply wp_migrateRun filesCalm_calm hroot h.base rfl trivial
    · exact fun _ he ↦ (by cases he)
    · apply wp_mono (wp_each_rest (I := Healing root T m) (C := fun _ ↦ True) _ (.start h))
      · exact fun _ _ hw ↦ ⟨rfl, hw⟩
      · exact fun _ _ ↦ trivial
      · intro x rest w hw
        apply wp_mono (wp_migrateRow filesCalm_calm hT hroot hw.pending _ _)
          (fun _ _ h ↦ h) fun _ _ ↦ trivial
        · intro hnot w' hstop hconn herrors
          apply (hw.tail hT _).congr hstop hconn herrors
          intro hflat
          rw [happly] at hnot
          cases hnot hflat
        · intro t w₁ w' ht hsha hcur hstop hconn herrors hs
          exact (hw.congr hstop hconn herrors).step hT ht hsha hcur hs
  exact wp_calm.mp hwp

/-- A library without a flat row is left alone. -/
theorem eval_migrateRun_settled (hroot : job.libraryRoot = root)
    (h : ∀ sha cur, m.rowPath sha = some cur → classifyPath root cur ≠ .flat) :
    ((migrateRun job).eval (m.start {})).2.stop = m := by
  have hrow : ∀ (x : Sha × Path) (w : World MigrateStats), classifyPath root x.2 ≠ .flat →
      ((migrateRow job x).eval w).2.stop = w.stop := by
    intro x w hx
    unfold migrateRow
    rw [hroot]
    cases hkind : classifyPath root x.2 with
    | flat => exact absurd hkind hx
    | outside => rfl
    | archived => rfl
    | resident => rfl
  have heach : ∀ (xs : List (Sha × Path)) (w : World MigrateStats),
      (∀ x ∈ xs, classifyPath root x.2 ≠ .flat) →
      ((Proc.each (migrateRow job) xs).eval w).2.stop = w.stop := by
    intro xs w hxs
    induction xs generalizing w with
    | nil => rfl
    | cons x xs ih =>
      rw [Proc.each, eval_bind, ih _ fun y hy ↦ hxs y (.tail _ hy), hrow x w (hxs x (.head _))]
  unfold migrateRun
  rw [eval_bind, eval_sysRead]
  split
  · rw [eval_bind, eval_query]
    dsimp only
    rw [eval_bind, eval_pure]
    apply heach
    intro x hx
    exact h x.1 x.2 (mem_allTracks.mp hx)
  · rfl

/-- **Which interruptions heal.** After a run that was cut short at any call, or whose updates of
rows failed, the next one completes the migration exactly when every flat track is recoverable in
the state that it finds. -/
theorem healed_iff_recoverable (first next : MigrateJob) (m : Machine)
    (answers : List (Reply Fault)) (hlibrary : FlatLibrary next.libraryRoot m)
    (hroot : first.libraryRoot = next.libraryRoot) (happly : next.apply = true)
    (hrun : (migrateRun first).Obeys Interrupted (m.start {}) answers) :
    Healed (IsFlat next.libraryRoot m) next
        ((migrateRun first).run (m.start {}) answers).state.stop ↔
      ∀ t, IsFlat next.libraryRoot m t → Recoverable next.libraryRoot
        ((migrateRun first).run (m.start {}) answers).state.stop t := by
  have hT := hlibrary.apart
  have hmid := midway_interrupted hlibrary hroot hrun
  generalize ((migrateRun first).run (m.start {}) answers).state.stop = m₁ at hmid ⊢
  obtain ⟨hfinished, hend⟩ := healing_eval hT hmid happly rfl
  constructor
  · intro h t ht
    exact (hend.same ht).mp (h.moved t ht).recoverable
  · intro hall
    have hmoved : ∀ t, IsFlat next.libraryRoot m t → Migrated next.libraryRoot
        ((migrateRun next).eval (m₁.start {})).2.stop t := by
      intro t ht
      have hstanding := hend.pending.midway.standing ht
      have hrec := (hend.same ht).mpr (hall t ht)
      apply hstanding.moved_of_row (hT.goal_ne_cur ht ht)
      apply hstanding.rowPath.resolve_left
      intro hrow
      exact absurd (hend.left ht hrow hrec) List.not_mem_nil
    refine ⟨hfinished, hmoved, hend.errors hall, fun again hagain ↦ ?_⟩
    apply eval_migrateRun_settled hagain
    intro sha cur hrow hflat
    have hsome := hrow
    unfold Machine.rowPath at hsome
    obtain ⟨row, hget, hpath⟩ := Option.map_eq_some_iff.mp hsome
    rw [← hpath] at hflat
    obtain ⟨t, ht, hsha, hcur⟩ := hend.pending.midway.rows hget hflat
    have hgoal := (hmoved t ht).row
    rw [hsha, hrow, ← hpath, ← hcur] at hgoal
    exact hT.goal_ne_cur ht ht (Option.some.inj hgoal).symm

/-! ### One flat track -/

/-- The library `/lib` with one flat track. -/
def oneFlat : Machine where
  fs := (Tree.empty.addDir [ascii "lib"]).addFile [ascii "lib", ascii "a.flac"] ⟨.plain [7], 0, 1⟩
  db := { Db.empty with
    tracks := (UniqueTable.empty.insert? (ascii "5f") {
      path := [ascii "lib", ascii "a.flac"]
      mtimeNs := 0
      sizeBytes := 1
      format := none
      title := none
      artist := none
      album := none
      albumArtist := none
      trackNumber := none
      discNumber := none
      year := none
      genre := none
      durationMs := none
      tagsStatus := ascii "ok"
      tagWarning := none
      dateAdded := ascii "2026-01-01T00:00:00Z"
      lastSeenAt := ascii "2026-01-01T00:00:00Z" }).getD .empty }

/-- Its track. -/
def oneFlatTrack : FlatTrack := ⟨ascii "5f", [ascii "lib", ascii "a.flac"], .plain [7]⟩

/-- `migrate --apply` on it. -/
def oneFlatJob : MigrateJob := ⟨[ascii "lib"], true, ascii "2026-01-02T00:00:00Z", 1⟩

theorem oneFlat_rowPath {sha : Sha} {cur : Path} (h : oneFlat.rowPath sha = some cur) :
    sha = ascii "5f" ∧ cur = [ascii "lib", ascii "a.flac"] := by
  have hrows : oneFlat.db.allTracks = [(ascii "5f", [ascii "lib", ascii "a.flac"])] := by
    decide +kernel
  have hmem := (@mem_allTracks oneFlat (sha, cur)).mpr h
  rw [hrows, List.mem_singleton] at hmem
  exact Prod.mk.inj hmem

theorem oneFlat_node {p : Path} {n : Node Name} (h : oneFlat.fs.node? p = some n) :
    (p, n) = ([ascii "lib", ascii "a.flac"], .file 0) ∨ (p, n) = ([ascii "lib"], .dir) := by
  have hrows : oneFlat.fs.nodes.rows =
      [([ascii "lib", ascii "a.flac"], .file 0), ([ascii "lib"], .dir)] := by decide +kernel
  have hmem := Table.mem_rows.mpr h
  rw [hrows] at hmem
  simpa using hmem

theorem oneFlat_library : FlatLibrary oneFlatJob.libraryRoot oneFlat where
  base := by decide +kernel
  files {sha cur} hrow _ := by
    rw [(oneFlat_rowPath hrow).2]
    exact ⟨0, by decide +kernel⟩
  leaves {p q i} hp hq := by
    cases hn : oneFlat.fs.node? q with
    | none => rfl
    | some n =>
      unfold DirOf at hq
      rcases oneFlat_node hp with hp | hp
      · rw [(Prod.mk.inj hp).1] at hq
        rcases oneFlat_node hn with hn | hn
        · rw [(Prod.mk.inj hn).1] at hq
          exact absurd hq (by decide +kernel)
        · rw [(Prod.mk.inj hn).1] at hq
          exact absurd hq (by decide +kernel)
      · cases (Prod.mk.inj hp).2
  places {sha cur} hrow _ link := by
    rw [(oneFlat_rowPath hrow).2]
    intro h
    rcases oneFlat_node h with h | h
    · cases (Prod.mk.inj h).2
    · cases (Prod.mk.inj h).2
  dirs {sha cur} hrow _ q hq := by
    rw [(oneFlat_rowPath hrow).2] at hq
    cases hn : oneFlat.fs.node? q with
    | none => exact Or.inl rfl
    | some n =>
      rcases oneFlat_node hn with h | h
      · unfold DirOf at hq
        rw [(Prod.mk.inj h).1] at hq
        exact absurd hq (by decide +kernel)
      · rw [(Prod.mk.inj h).2]
        exact Or.inr rfl

theorem oneFlat_isFlat : IsFlat oneFlatJob.libraryRoot oneFlat oneFlatTrack :=
  ⟨by decide +kernel, by decide +kernel, 0, by decide +kernel, by decide +kernel⟩

/-- The process is killed after the link: the next run unlinks the source and updates the row. -/
theorem killed_after_link_heals : Healed (IsFlat oneFlatJob.libraryRoot oneFlat) oneFlatJob
    ((migrateRun oneFlatJob).run (oneFlat.start {})
      [.ok, .ok, .ok, .ok, .ok, .die]).state.stop := by
  apply (healed_iff_recoverable oneFlatJob oneFlatJob oneFlat _ oneFlat_library rfl rfl _).mpr
  · intro t ht
    obtain ⟨hsha, hcur⟩ := oneFlat_rowPath ht.1
    right
    refine ⟨⟨0, ?_, Or.inr ?_⟩, ?_⟩
    · rw [hcur]
      decide +kernel
    · unfold FlatTrack.goal
      rw [hcur]
      decide +kernel
    · rintro ⟨sha, hne, hrow⟩
      have hmem := (@mem_allTracks _ (sha, _)).mpr hrow
      have hrows : ((migrateRun oneFlatJob).run (oneFlat.start {})
          [.ok, .ok, .ok, .ok, .ok, .die]).state.stop.db.allTracks =
            [(ascii "5f", [ascii "lib", ascii "a.flac"])] := by decide +kernel
      rw [hrows, List.mem_singleton] at hmem
      exact hne ((Prod.mk.inj hmem).1.trans hsha.symm)
  · decide +kernel

/-- The process is killed after the `unlink`: the row keeps naming a path at which nothing is, and
`link` fails there in every run from now on. -/
theorem killed_before_update_lost : FlatLibrary oneFlatJob.libraryRoot oneFlat ∧
    (migrateRun oneFlatJob).Obeys Interrupted (oneFlat.start {})
      [.ok, .ok, .ok, .ok, .ok, .ok, .die] ∧
    ¬ Healed (IsFlat oneFlatJob.libraryRoot oneFlat) oneFlatJob
      ((migrateRun oneFlatJob).run (oneFlat.start {})
        [.ok, .ok, .ok, .ok, .ok, .ok, .die]).state.stop := by
  refine ⟨oneFlat_library, by decide +kernel, fun h ↦ ?_⟩
  have hrow := (h.moved oneFlatTrack oneFlat_isFlat).row
  exact absurd hrow (by decide +kernel)

end Nocturne
