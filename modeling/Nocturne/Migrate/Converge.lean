import Nocturne.Migrate.Encode

/-!
# Running a migration to transcodes again

A run that is killed leaves each resident track in one of the stages. The next run takes up the
tracks that have no transcode yet. It takes one that is there for a finished track, also where the
encoder was killed with it or where the rows are not written, and it does not select a track whose
path is written and whose residency is not.
-/

namespace Nocturne

open Lib Proc

variable {A : World TranscodeMigrateStats → Call → Reply Fault → Prop} {root : Path} {ext : Text}
  {T : ResidentTrack → Prop} {t : ResidentTrack} {job : TranscodeMigrateJob}
  {w w' : World TranscodeMigrateStats} {m m₀ : Machine}

/-! ### The library -/

/-- A row of the library that the migration selects, with what its file holds. -/
def IsResident (root : Path) (m : Machine) (t : ResidentTrack) : Prop :=
  m.rowPath t.sha = some (t.cur root) ∧ isLikeResident (t.cur root) = true ∧
    Holds m.fs (t.cur root) t.content

/-- A library of originals under `resident/`, at which a migration to transcodes can go through.
Each row names a file there; what is above the files and the archive paths are directories; the
archive can take each original or has it, and no other row names its place there; and the paths of
the transcodes are open, and neither those of one another nor of an original. -/
structure ResidentLibrary (root : Path) (ext : Text) (m : Machine) : Prop where
  rows : ∀ {sha cur}, m.rowPath sha = some cur → isLikeResident cur = true →
    ∃ rest, rest ≠ [] ∧ cur = root ++ residentSeg :: rest ∧
      isLikeResident (root ++ archiveSeg :: rest) = false
  files : ∀ {sha cur}, m.rowPath sha = some cur → isLikeResident cur = true →
    ∃ i, m.fs.node? cur = some (.file i)
  closed : ∀ {p q}, m.fs.node? p ≠ none → DirOf p q → q = [] ∨ m.fs.node? q = some .dir
  dirs : ∀ {sha rest}, m.rowPath sha = some (root ++ residentSeg :: rest) → rest ≠ [] →
    ∀ q, DirOf (root ++ archiveSeg :: rest) q → m.fs.node? q = none ∨ m.fs.node? q = some .dir
  archive : ∀ {t}, IsResident root m t → ArchiveOpen root m.fs t
  unclaimed : ∀ {t}, IsResident root m t → ∀ s, m.rowPath s ≠ some (t.archive root)
  output : ∀ {t}, IsResident root m t → OutputOpen root ext m.fs t
  distinct : ∀ {t t'}, IsResident root m t → IsResident root m t' →
    t.transcode root ext = t'.transcode root ext → t.cur root = t'.cur root
  spared : ∀ {t t'}, IsResident root m t → IsResident root m t' →
    t.transcode root ext ≠ t'.cur root

theorem ResidentLibrary.rest (h : ResidentLibrary root ext m) (ht : IsResident root m t) :
    t.rest ≠ [] ∧ isLikeResident (t.archive root) = false := by
  obtain ⟨rest, hrest, hcur, hplain⟩ := h.rows ht.1 ht.2.1
  have he : t.rest = rest := List.tail_eq_of_cons_eq (List.append_cancel_left hcur)
  rw [← he] at hrest hplain
  exact ⟨hrest, hplain⟩

namespace ResidentLibrary

variable {t' : ResidentTrack}

/-- Two rows with one path are one. -/
theorem eq_of_cur (ht : IsResident root m t) (ht' : IsResident root m t')
    (he : t.cur root = t'.cur root) : t = t' := by
  have hrow := ht'.1
  rw [← he] at hrow
  have hsha := rowPath_inj ht.1 hrow
  have hrest : t.rest = t'.rest := List.tail_eq_of_cons_eq (List.append_cancel_left he)
  obtain ⟨i, hi, hc⟩ := ht.2.2
  obtain ⟨j, hj, hc'⟩ := ht'.2.2
  rw [he, hj] at hi
  cases hi
  cases t
  cases t'
  simp_all

/-- A file that a row names is above no other. -/
theorem not_above_cur (h : ResidentLibrary root ext m) (ht' : IsResident root m t') {p : Path}
    (hp : p ≠ []) (hdir : DirOf (t'.cur root) p) : m.fs.node? p = some .dir := by
  obtain ⟨i, hi, -⟩ := ht'.2.2
  have hsome : m.fs.node? (t'.cur root) ≠ none := by
    rw [hi]
    exact Option.some_ne_none _
  exact (h.closed hsome hdir).resolve_left hp

theorem above_transcode (hp : DirOf (t.transcode root ext) p) : DirOf (t.cur root) p := by
  unfold DirOf ResidentTrack.transcode at *
  rw [(dropLast_pathWithExt (by unfold ResidentTrack.cur; simp)).1] at hp
  exact hp

end ResidentLibrary

/-- The paths of two tracks are neither the same nor above one another. -/
theorem ResidentLibrary.apart (h : ResidentLibrary root ext m) :
    ResidentApart root ext (IsResident root m) where
  rest ht := (h.rest ht).1
  plain ht := (h.rest ht).2
  sha {t t'} ht ht' he := by
    apply eq_of_cur ht ht'
    have hrow := ht.1
    rw [he, ht'.1] at hrow
    exact (Option.some.inj hrow).symm
  inj {t t'} ht ht' he := by
    apply eq_of_cur ht ht'
    unfold ResidentTrack.cur
    rw [he]
  transcode {t t'} ht ht' he := eq_of_cur ht ht' (h.distinct ht ht' he)
  own {t t'} ht ht' := h.spared ht ht'
  above {t t'} ht ht' p hp habove := by
    obtain ⟨i, hi, -⟩ := ht.2.2
    have hrest := h.rest ht
    have hrest' := h.rest ht'
    rcases habove with hdir | hdir
    · rcases hp with rfl | rfl | rfl
      · rcases h.dirs ht'.1 hrest'.1 _ hdir with hnone | hdir
        · rw [hi] at hnone
          cases hnone
        · rw [hi] at hdir
          cases hdir
      · -- the old paths would be above one another too
        have hcur : DirOf (t'.cur root) (t.cur root) := by
          unfold DirOf ResidentTrack.archive at hdir
          unfold DirOf ResidentTrack.cur
          rw [List.dropLast_append_of_ne_nil (by simp), List.dropLast_cons_of_ne_nil hrest'.1,
            List.prefix_append_right_inj, List.cons_prefix_cons] at hdir ⊢
          exact ⟨rfl, hdir.2⟩
        have hnode := h.not_above_cur ht' (by unfold ResidentTrack.cur; simp) hcur
        rw [hi] at hnode
        cases hnode
      · -- what is in the archive does not go through `resident/`
        have hlike : isLikeResident (t.transcode root ext) = true := by
          unfold ResidentTrack.transcode
          rw [isLikeResident_pathWithExt (by unfold ResidentTrack.cur; simp)]
          exact ht.2.1
        have hplain := hrest'.2
        unfold isLikeResident at hlike hplain
        obtain ⟨seg, hseg, hlower⟩ := List.any_eq_true.mp hlike
        have hmem := hdir.subset (List.mem_of_mem_dropLast hseg)
        rw [List.any_eq_false] at hplain
        exact hplain seg hmem hlower
    · have hcur := above_transcode hdir
      rcases hp with rfl | rfl | rfl
      · have hnode := h.not_above_cur ht' (by unfold ResidentTrack.cur; simp) hcur
        rw [hi] at hnode
        cases hnode
      · have hnode := h.not_above_cur ht' (by unfold ResidentTrack.archive; simp) hcur
        rcases h.archive ht with ⟨hnone, -⟩ | ⟨k, hk, -⟩
        · rw [hnone] at hnode
          cases hnode
        · rw [hk] at hnode
          cases hnode
      · have hne : t.transcode root ext ≠ [] :=
          (dropLast_pathWithExt (by unfold ResidentTrack.cur; simp)).2
        have hnode := h.not_above_cur ht' hne hcur
        rcases h.output ht with hnone | ⟨-, k, hk, -⟩
        · rw [hnone] at hnode
          cases hnode
        · rw [hk] at hnode
          cases hnode

/-- A library whose migration has not begun is underway. -/
theorem ResidentLibrary.underway (h : ResidentLibrary root ext m) :
    Underway root ext (IsResident root m) m where
  stage {t} ht := by
    obtain ⟨i, hi, hc⟩ := ht.2.2
    exact .pending i ht.1 hi hc (h.archive ht) (h.output ht)
  rows {sha cur} hrow hlike := by
    obtain ⟨rest, hrest, rfl, -⟩ := h.rows hrow hlike
    obtain ⟨i, hi⟩ := h.files hrow hlike
    exact ⟨⟨sha, rest, (m.fs.data i).content⟩, ⟨hrow, hlike, i, hi, rfl⟩, rfl, rfl⟩
  unclaimed ht := by
    rintro ⟨s, -, hrow⟩
    exact h.unclaimed ht s hrow

/-! ### The loop -/

theorem mem_residentTracks {x : Sha × Path} :
    x ∈ m.db.residentTracks ↔ m.rowPath x.1 = some x.2 ∧ isLikeResident x.2 = true := by
  unfold Db.residentTracks
  rw [List.mem_filter, mem_allTracks]

/-- A run with the rows `rest` still to come. -/
structure Awaiting (root : Path) (ext : Text) (T : ResidentTrack → Prop) (rest : List (Sha × Path))
    (w : World TranscodeMigrateStats) : Prop where
  idle : w.conn.txn = none
  underway : Underway root ext T w.stop
  nodup : (rest.map Prod.fst).Nodup
  rows : ∀ x ∈ rest, w.stop.rowPath x.1 = some x.2 ∧ isLikeResident x.2 = true

theorem Awaiting.start (h : Underway root ext T m) :
    Awaiting root ext T m.db.residentTracks (m.start {}) where
  idle := rfl
  underway := h
  nodup := (nodup_allTracks m.db).sublist (List.filter_sublist.map _)
  rows _ hx := mem_residentTracks.mp hx

/-- The track of the next row. -/
theorem Awaiting.track {rest : List (Sha × Path)} {x : Sha × Path}
    (h : Awaiting root ext T (x :: rest) w) : ∃ t, T t ∧ t.sha = x.1 ∧ t.cur root = x.2 := by
  obtain ⟨hrow, hlike⟩ := h.rows x (.head _)
  exact h.underway.rows hrow hlike

theorem Awaiting.step {rest : List (Sha × Path)} {x : Sha × Path}
    (hT : ResidentApart root ext T) (ht : T t) (hx : t.sha = x.1)
    (h : Awaiting root ext T (x :: rest) w) (hm : MidStage root ext t w w') :
    Awaiting root ext T rest w' where
  idle := hm.1.idle
  underway := hT.underway_turn ht hm.1.turn h.underway hm.2
  nodup := (List.nodup_cons.mp h.nodup).2
  rows y hy := by
    have hne : y.1 ≠ t.sha := by
      intro he
      apply (List.nodup_cons.mp h.nodup).1
      rw [← hx, ← he]
      exact List.mem_map_of_mem hy
    rw [hm.1.turn.rowPath hne]
    exact h.rows y (.tail _ hy)

/-- One row, by the turn of its track. -/
theorem wp_residentRow {Q : World TranscodeMigrateStats → Prop} {rest : List (Sha × Path)}
    {x : Sha × Path} (hA : Unfailing A) (hT : ResidentApart root ext T)
    (hext : transcodeDstExt job.cfg = some ext) (hcodec : codecForFormat job.cfg ≠ none)
    (happly : job.apply = true) (h : Awaiting root ext T (x :: rest) w)
    (hturn : ∀ t w', T t → t.sha = x.1 → t.cur root = x.2 → TurnEnd root ext t w w' → Q w') :
    wp A (transcodeMigrateOne job x) (fun _ ↦ Q) (fun w' ↦ Underway root ext T w'.stop) w := by
  obtain ⟨t, ht, hsha, hcur⟩ := h.track
  have hrow : w.stop.rowPath t.sha = some (t.cur root) := by
    rw [hsha, hcur]
    exact (h.rows x (.head _)).1
  have hx : x = (t.sha, t.cur root) := Prod.ext hsha.symm hcur.symm
  rw [hx]
  apply wp_mono (wp_transcodeMigrateOne hA hT ht h.idle (h.underway.stage ht)
    (h.underway.unclaimed ht) hext hcodec happly hrow)
  · exact fun _ w' hw' ↦ hturn t w' ht hsha hcur hw'
  · exact fun w' hw' ↦ hT.underway_turn ht hw'.1.turn h.underway hw'.2

/-- A run, by its loop. -/
theorem wp_transcodeMigrateRun {Q : Bool → World TranscodeMigrateStats → Prop}
    {C : World TranscodeMigrateStats → Prop} (hA : Unfailing A) (hidle : w.conn.txn = none)
    (hC : C w)
    (hloop : wp A (Proc.each (transcodeMigrateOne job) w.stop.db.residentTracks)
      (fun _ ↦ Q true) C w) :
    wp A (transcodeMigrateRun job) Q C w := by
  unfold transcodeMigrateRun
  rw [wp_bind]
  refine (wp_ask _ _).mpr ⟨fun _ ↦ hC, fun _ ↦ ?_, fun e he ↦ absurd he (hA _ _ _)⟩
  dsimp only
  rw [view_of_idle hidle, wp_bind]
  exact hloop

/-! ### The run that is killed -/

/-- The process may be killed at any call; the calls before that go through. -/
def Killed (_ : World TranscodeMigrateStats) (_ : Call) (reply : Reply Fault) : Prop :=
  reply = .ok ∨ reply = .die

instance (w : World TranscodeMigrateStats) (call : Call) (reply : Reply Fault) :
    Decidable (Killed w call reply) := inferInstanceAs (Decidable (_ ∨ _))

theorem unfailing_killed : Unfailing Killed := by
  intro w call fault h
  rcases h with h | h
  · cases h
  · cases h

theorem unfailing_calm : Unfailing Calm := by
  intro w call fault h
  cases h

/-- Wherever a run is killed, each resident track is in one of the stages. -/
theorem underway_killed (h : ResidentLibrary root ext m) (hext : transcodeDstExt job.cfg = some ext)
    (hcodec : codecForFormat job.cfg ≠ none) (happly : job.apply = true)
    {answers : List (Reply Fault)}
    (hrun : (transcodeMigrateRun job).Obeys Killed (m.start {}) answers) :
    Underway root ext (IsResident root m)
      ((transcodeMigrateRun job).run (m.start {}) answers).state.stop := by
  have hT := h.apart
  have hwp : wp Killed (transcodeMigrateRun job)
      (fun _ w ↦ Underway root ext (IsResident root m) w.stop)
      (fun w ↦ Underway root ext (IsResident root m) w.stop) (m.start {}) := by
    apply wp_transcodeMigrateRun unfailing_killed rfl h.underway
    apply wp_mono (wp_each_rest (I := Awaiting root ext (IsResident root m)) _
      (.start h.underway))
    · exact fun _ _ hw ↦ hw.underway
    · exact fun _ hw ↦ hw
    · intro x rest w hw
      apply wp_residentRow unfailing_killed hT hext hcodec happly hw
      intro t w' ht hsha _ hend
      exact hw.step hT ht hsha hend.mid
  rcases run_of_wp hwp hrun with ⟨_, _, _, he, hend⟩ | ⟨_, he, hend⟩
  · rw [he]
    exact hend
  · rw [he]
    exact hend

/-! ### The next run -/

/-- What the next run has done so far, from `m₀`. -/
structure Converging (root : Path) (ext : Text) (T : ResidentTrack → Prop) (m₀ : Machine)
    (rest : List (Sha × Path)) (w : World TranscodeMigrateStats) : Prop where
  awaiting : Awaiting root ext T rest w
  same : ∀ {t}, T t → (Resumable root ext w.stop t ↔ Resumable root ext m₀ t)
  left : ∀ {t}, T t → w.stop.rowPath t.sha = some (t.cur root) → Resumable root ext w.stop t →
    (t.sha, t.cur root) ∈ rest

theorem Converging.start (hT : ResidentApart root ext T) (h : Underway root ext T m) :
    Converging root ext T m m.db.residentTracks (m.start {}) where
  awaiting := .start h
  same _ := Iff.rfl
  left ht hrow _ := mem_residentTracks.mpr ⟨hrow, hT.isLike_cur ht⟩

theorem Converging.step {rest : List (Sha × Path)} {x : Sha × Path}
    (hT : ResidentApart root ext T) (ht : T t) (hsha : t.sha = x.1) (hcur : t.cur root = x.2)
    (h : Converging root ext T m₀ (x :: rest) w) (hs : TurnEnd root ext t w w') :
    Converging root ext T m₀ rest w' := by
  have hrow : w.stop.rowPath t.sha = some (t.cur root) := by
    rw [hsha, hcur]
    exact (h.awaiting.rows x (.head _)).1
  refine ⟨h.awaiting.step hT ht hsha hs.mid, fun {t'} ht' ↦ ?_, fun {t'} ht' hrow' hres ↦ ?_⟩
  · by_cases he : t' = t
    · rw [he, ← h.same ht]
      by_cases hbefore : Resumable root ext w.stop t
      · have hout := ((resumable_iff hrow).mp hbefore).2
        exact iff_of_true (hs.done hout).resumable hbefore
      · rw [hs.left hbefore]
    · rw [hT.resumable_kept ht ht' he hs.mid.1.turn]
      exact h.same ht'
  · by_cases he : t' = t
    · rw [he] at hrow' hres
      by_cases hbefore : Resumable root ext w.stop t
      · have hnew := (hs.done ((resumable_iff hrow).mp hbefore).2).row
        rw [hrow'] at hnew
        exact absurd (Option.some.inj hnew) (cur_ne_archive t)
      · rw [hs.left hbefore] at hres
        exact absurd hres hbefore
    · rw [hT.resumable_kept ht ht' he hs.mid.1.turn] at hres
      rw [hs.mid.1.turn.rowPath (hT.sha_ne ht ht' he)] at hrow'
      rcases List.mem_cons.mp (h.left ht' hrow' hres) with hx | hmem
      · rw [← hx] at hsha
        exact absurd hsha.symm (hT.sha_ne ht ht' he)
      · exact hmem

/-- At the end of the run a track is migrated if the run could take it up. -/
theorem Converging.transcoded (h : Converging root ext T m₀ [] w) (ht : T t)
    (hres : Resumable root ext m₀ t) : Transcoded root ext w.stop t := by
  have hend := (h.same ht).mpr hres
  rcases hend with ⟨hrow, hresidency⟩ | ⟨hrow, hrest⟩
  · exact (h.awaiting.underway.stage ht).transcoded hrow hresidency
  · exact absurd (h.left ht hrow (Or.inr ⟨hrow, hrest⟩)) List.not_mem_nil

/-- The next run, from any point at which another one was killed. -/
theorem converging_eval (hT : ResidentApart root ext T) (h : Underway root ext T m)
    (hext : transcodeDstExt job.cfg = some ext) (hcodec : codecForFormat job.cfg ≠ none)
    (happly : job.apply = true) :
    ((transcodeMigrateRun job).eval (m.start {})).1 = true ∧
      Converging root ext T m [] ((transcodeMigrateRun job).eval (m.start {})).2 := by
  have hwp : wp Calm (transcodeMigrateRun job)
      (fun ok w ↦ ok = true ∧ Converging root ext T m [] w) (fun _ ↦ True) (m.start {}) := by
    apply wp_transcodeMigrateRun unfailing_calm rfl trivial
    apply wp_mono (wp_each_rest (I := Converging root ext T m) (C := fun _ ↦ True) _ (.start hT h))
    · exact fun _ _ hw ↦ ⟨rfl, hw⟩
    · exact fun _ _ ↦ trivial
    · intro x rest w hw
      apply wp_mono (wp_residentRow unfailing_calm hT hext hcodec happly hw.awaiting _)
        (fun _ _ h ↦ h) fun _ _ ↦ trivial
      intro t w' ht hsha hcur hend
      exact hw.step hT ht hsha hcur hend
  exact wp_calm.mp hwp

/-- The second run has completed the migration: of every track, the original is in the archive, its
whole transcode is there, and both rows name them. -/
structure Converged (root : Path) (ext : Text) (T : ResidentTrack → Prop)
    (job : TranscodeMigrateJob) (m : Machine) : Prop where
  finished : ((transcodeMigrateRun job).eval (m.start {})).1 = true
  transcoded : ∀ t, T t →
    Transcoded root ext ((transcodeMigrateRun job).eval (m.start {})).2.stop t

/-- **Which kills are recovered from.** After a run that was killed at any call, the next one
completes the migration exactly when it can resume every resident track in the state that it
finds. -/
theorem converged_iff_resumable (first next : TranscodeMigrateJob) (m : Machine)
    (answers : List (Reply Fault)) (hlibrary : ResidentLibrary root ext m)
    (hext : transcodeDstExt next.cfg = some ext) (hcodec : codecForFormat next.cfg ≠ none)
    (hcfg : first.cfg = next.cfg) (hfirst : first.apply = true) (happly : next.apply = true)
    (hrun : (transcodeMigrateRun first).Obeys Killed (m.start {}) answers) :
    Converged root ext (IsResident root m) next
        ((transcodeMigrateRun first).run (m.start {}) answers).state.stop ↔
      ∀ t, IsResident root m t → Resumable root ext
        ((transcodeMigrateRun first).run (m.start {}) answers).state.stop t := by
  have hT := hlibrary.apart
  have hunder : Underway root ext (IsResident root m)
      ((transcodeMigrateRun first).run (m.start {}) answers).state.stop := by
    apply underway_killed hlibrary _ _ hfirst hrun
    · rw [hcfg, hext]
    · rw [hcfg]
      exact hcodec
  generalize ((transcodeMigrateRun first).run (m.start {}) answers).state.stop = m₁ at hunder ⊢
  obtain ⟨hfinished, hend⟩ := converging_eval hT hunder hext hcodec happly
  constructor
  · intro h t ht
    exact (hend.same ht).mp (h.transcoded t ht).resumable
  · intro hall
    exact ⟨hfinished, fun t ht ↦ hend.transcoded ht (hall t ht)⟩

/-! ### One resident track -/

/-- The path of its original. -/
def oneOriginal : Path := [ascii "lib", ascii "resident", ascii "a.flac"]

/-- The library `/lib` with one track under `resident/`. -/
def oneResident : Machine where
  fs := ((Tree.empty.addDir [ascii "lib"]).addDir [ascii "lib", ascii "resident"]).addFile
    oneOriginal ⟨.plain [7], 0, 1⟩
  db := { Db.empty with
    tracks := (UniqueTable.empty.insert? (ascii "5f") {
      path := oneOriginal
      mtimeNs := 0
      sizeBytes := 1
      format := none
      title := none
      artist := none
      album := none
      albumArtist := none
      trackNumber := none
      discNumber := none
      year := none
      genre := none
      durationMs := none
      tagsStatus := ascii "ok"
      tagWarning := none
      dateAdded := ascii "2026-01-01T00:00:00Z"
      lastSeenAt := ascii "2026-01-01T00:00:00Z" }).getD .empty }

/-- Its track. -/
def oneResidentTrack : ResidentTrack := ⟨ascii "5f", [ascii "a.flac"], .plain [7]⟩

/-- `transcode-migrate --apply` to Opus. -/
def oneResidentJob : TranscodeMigrateJob :=
  ⟨⟨true, some (ascii "opus")⟩, true, ascii "2026-01-02T00:00:00Z", 1⟩

theorem oneResident_rowPath {sha : Sha} {cur : Path} (h : oneResident.rowPath sha = some cur) :
    sha = ascii "5f" ∧ cur = oneOriginal := by
  have hrows : oneResident.db.allTracks = [(ascii "5f", oneOriginal)] := by decide +kernel
  have hmem := (@mem_allTracks oneResident (sha, cur)).mpr h
  rw [hrows, List.mem_singleton] at hmem
  exact Prod.mk.inj hmem

theorem oneResident_rest {sha : Sha} {rest : Path}
    (h : oneResident.rowPath sha = some ([ascii "lib"] ++ residentSeg :: rest)) :
    rest = [ascii "a.flac"] := by
  have hcur := (oneResident_rowPath h).2
  exact List.tail_eq_of_cons_eq (List.append_cancel_left
    (hcur : _ = [ascii "lib"] ++ residentSeg :: [ascii "a.flac"]))

theorem oneResident_node {p : Path} {n : Node Name} (h : oneResident.fs.node? p = some n) :
    (p, n) = (oneOriginal, .file 0) ∨ (p, n) = ([ascii "lib", ascii "resident"], .dir) ∨
      (p, n) = ([ascii "lib"], .dir) := by
  have hrows : oneResident.fs.nodes.rows = [(oneOriginal, .file 0),
      ([ascii "lib", ascii "resident"], .dir), ([ascii "lib"], .dir)] := by decide +kernel
  have hmem := Table.mem_rows.mpr h
  rw [hrows] at hmem
  simpa using hmem

/-- The directories above each of its paths are there. -/
theorem oneResident_closed {p q : Path} (hp : oneResident.fs.node? p ≠ none) (hq : DirOf p q) :
    q = [] ∨ oneResident.fs.node? q = some .dir := by
  have hall : ∀ p ∈ [oneOriginal, [ascii "lib", ascii "resident"], [ascii "lib"]],
      ∀ q ∈ p.dropLast.inits, q = [] ∨ oneResident.fs.node? q = some .dir := by decide +kernel
  obtain ⟨n, hn⟩ := Option.ne_none_iff_exists'.mp hp
  apply hall p _ q ((List.mem_inits _ _).mpr hq)
  rcases oneResident_node hn with h | h | h
  · rw [(Prod.mk.inj h).1]
    simp
  · rw [(Prod.mk.inj h).1]
    simp
  · rw [(Prod.mk.inj h).1]
    simp

theorem oneResident_track {t : ResidentTrack} (h : IsResident [ascii "lib"] oneResident t) :
    t.sha = ascii "5f" ∧ t.rest = [ascii "a.flac"] :=
  ⟨(oneResident_rowPath h.1).1, oneResident_rest h.1⟩

theorem oneResident_library : ResidentLibrary [ascii "lib"] (ascii ".opus") oneResident where
  rows {sha cur} hrow _ := by
    rw [(oneResident_rowPath hrow).2]
    exact ⟨[ascii "a.flac"], by decide, by decide, by decide +kernel⟩
  files {sha cur} hrow _ := by
    rw [(oneResident_rowPath hrow).2]
    exact ⟨0, by decide +kernel⟩
  closed := oneResident_closed
  dirs {sha rest} hrow _ q hq := by
    have hall : ∀ q ∈ ([ascii "lib"] ++ archiveSeg :: [ascii "a.flac"]).dropLast.inits,
        oneResident.fs.node? q = none ∨ oneResident.fs.node? q = some .dir := by decide +kernel
    rw [oneResident_rest hrow] at hq
    exact hall q ((List.mem_inits _ _).mpr hq)
  archive ht := by
    left
    unfold ResidentTrack.archive
    rw [(oneResident_track ht).2]
    exact ⟨by decide +kernel, rfl⟩
  unclaimed ht s hs := by
    have hne := (oneResident_rowPath hs).2
    unfold ResidentTrack.archive at hne
    rw [(oneResident_track ht).2] at hne
    exact absurd hne (by decide)
  output ht := by
    left
    unfold ResidentTrack.transcode ResidentTrack.cur
    rw [(oneResident_track ht).2]
    decide +kernel
  distinct {t t'} ht ht' _ := by
    unfold ResidentTrack.cur
    rw [(oneResident_track ht).2, (oneResident_track ht').2]
  spared {t t'} ht ht' := by
    unfold ResidentTrack.transcode ResidentTrack.cur
    rw [(oneResident_track ht).2, (oneResident_track ht').2]
    decide +kernel

theorem oneResident_isResident : IsResident [ascii "lib"] oneResident oneResidentTrack :=
  ⟨by decide +kernel, by decide +kernel, 0, by decide +kernel, by decide +kernel⟩

/-- The process is killed before the encoder opens its output: the next run encodes, unlinks the
old name and writes the rows. -/
theorem killed_before_encoder_converges :
    Converged [ascii "lib"] (ascii ".opus") (IsResident [ascii "lib"] oneResident) oneResidentJob
      ((transcodeMigrateRun oneResidentJob).run (oneResident.start {})
        [.ok, .ok, .ok, .ok, .ok, .ok, .ok, .ok, .ok, .die]).state.stop := by
  apply (converged_iff_resumable oneResidentJob oneResidentJob oneResident _ oneResident_library
    rfl (by decide) rfl rfl rfl _).mpr
  · intro t ht
    obtain ⟨hsha, hrest⟩ := oneResident_track ht
    right
    unfold OutputOpen ResidentTrack.transcode ResidentTrack.cur
    rw [hsha, hrest]
    exact ⟨by decide +kernel, by decide +kernel, Or.inl (by decide +kernel)⟩
  · decide +kernel

/-- The process is killed in the encoder: what it has written is taken for the transcode, and the
row keeps naming the old path in every run from now on. -/
theorem killed_in_encoder_adopted :
    ResidentLibrary [ascii "lib"] (ascii ".opus") oneResident ∧
    (transcodeMigrateRun oneResidentJob).Obeys Killed (oneResident.start {})
      [.ok, .ok, .ok, .ok, .ok, .ok, .ok, .ok, .ok, .ok, .die] ∧
    ¬ Converged [ascii "lib"] (ascii ".opus") (IsResident [ascii "lib"] oneResident)
      oneResidentJob ((transcodeMigrateRun oneResidentJob).run (oneResident.start {})
        [.ok, .ok, .ok, .ok, .ok, .ok, .ok, .ok, .ok, .ok, .die]).state.stop := by
  refine ⟨oneResident_library, by decide +kernel, fun h ↦ ?_⟩
  have hrow := (h.transcoded oneResidentTrack oneResident_isResident).row
  exact absurd hrow (by decide +kernel)

end Nocturne
