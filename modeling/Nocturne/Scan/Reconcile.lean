import Nocturne.Scan.Identity
import Mathlib.Data.List.Dedup
import Mathlib.Data.List.Perm.Basic

/-!
# What a scan makes of the table

After a scan that goes through, the rows below the root are the contents of the walked files.
The loop invariant of the walk splits the table in two: rows that the scan started with and
has not touched, and rows that it has put at the path of a visited file with their content.
The sweep deletes what is left of the first part below the root.
-/

namespace Nocturne

open Lib

/-- The hash under which a file is to have a row: transcode artifacts and blacklisted
contents have none. -/
def wantedSha (digest : Content → Sha) (fs : Tree) (db : Db) (rec : TagRecord) : Option Sha :=
  if isTranscodeArtifact rec.path then none
  else
    match hashFile digest fs rec.path with
    | .error _ => none
    | .ok sha => if (db.trackBlacklist.get? sha).isSome then none else some sha

/-- The scan went through and could read every file: it returns 0, or 1 for tags alone. -/
def Succeeds (r : Int × World ScanCtx) : Prop := 0 ≤ r.1 ∧ r.2.out.hashFailed = 0

variable {digest : Content → Sha} {isoNow : Text} {fs fs₀ : Tree} {db db' db₀ : Db}
  {rec rec' : TagRecord} {pre recs walk : List TagRecord} {w : World ScanCtx} {sha : Sha}
  {root : Path}

theorem wantedSha_eq_some : wantedSha digest fs db rec = some sha ↔
    isTranscodeArtifact rec.path = false ∧ hashFile digest fs rec.path = .ok sha ∧
      db.trackBlacklist.get? sha = none := by
  unfold wantedSha
  cases isTranscodeArtifact rec.path with
  | true => simp
  | false =>
    simp only [Bool.false_eq_true, if_false, true_and]
    cases hashFile digest fs rec.path with
    | error e => simp
    | ok hex =>
      simp only [Except.ok.injEq]
      split
      · next hb =>
        simp only [reduceCtorEq, false_iff]
        rintro ⟨rfl, hn⟩
        rw [hn] at hb
        cases hb
      · next hb =>
        rw [Option.some.injEq]
        constructor
        · rintro rfl
          exact ⟨rfl, by simpa using hb⟩
        · exact fun h ↦ h.1

/-- Which row a file is to have depends on its path only. -/
theorem wantedSha_congr (h : rec.path = rec'.path) :
    wantedSha digest fs db rec = wantedSha digest fs db rec' := by
  unfold wantedSha
  rw [h]

/-- What the scan is promised about the table and the files that it starts from. -/
structure Coherent (digest : Content → Sha) (isoNow : Text) (fs : Tree) (db : Db)
    (walk : List TagRecord) : Prop where
  blacklist : ∀ sha, db.trackBlacklist.get? sha ≠ none → db.tracks.get? sha = none
  clock : ∀ sha row, db.tracks.get? sha = some row → row.lastSeenAt < isoNow
  times : ∀ rec ∈ walk, ∀ sha, Unchanged fs db rec sha → hashFile digest fs rec.path = .ok sha

/-- The row is what the scan has made of a visited file. -/
def Placed (digest : Content → Sha) (isoNow : Text) (fs₀ : Tree) (db₀ : Db)
    (pre : List TagRecord) (sha : Sha) (row : TrackRow) : Prop :=
  row.lastSeenAt = isoNow ∧ lstatTimes fs₀ row.path = .ok (row.mtimeNs, row.sizeBytes) ∧
    ∃ rec ∈ pre, rec.path = row.path ∧ wantedSha digest fs₀ db₀ rec = some sha

/-- The state of a scan behind the files of `pre`. -/
structure Progress (digest : Content → Sha) (isoNow : Text) (fs₀ : Tree) (db₀ : Db)
    (pre : List TagRecord) (fs : Tree) (db : Db) : Prop where
  thinned : Thinned fs₀ fs
  blacklist : db.trackBlacklist = db₀.trackBlacklist
  rows : ∀ sha row, db.tracks.get? sha = some row →
    db₀.tracks.get? sha = some row ∨ Placed digest isoNow fs₀ db₀ pre sha row
  seen : ∀ rec ∈ pre, ∀ sha, wantedSha digest fs₀ db₀ rec = some sha →
    ∃ row, db.tracks.get? sha = some row ∧ row.lastSeenAt = isoNow
  outside : ∀ sha row, db₀.tracks.get? sha = some row → (∀ rec ∈ pre, rec.path ≠ row.path) →
    (∀ rec ∈ pre, wantedSha digest fs₀ db₀ rec ≠ some sha) →
    db.tracks.get? sha = some row ∧ db.companions sha = db₀.companions sha

theorem Placed.mono {row : TrackRow} (h : Placed digest isoNow fs₀ db₀ pre sha row)
    (rec : TagRecord) : Placed digest isoNow fs₀ db₀ (pre ++ [rec]) sha row := by
  obtain ⟨hs, ht, r, hr, hp, hw⟩ := h
  exact ⟨hs, ht, r, List.mem_append_left _ hr, hp, hw⟩

namespace Progress

/-- Before the first file. -/
theorem start (digest : Content → Sha) (isoNow : Text) (fs₀ : Tree) (db₀ : Db) :
    Progress digest isoNow fs₀ db₀ [] fs₀ db₀ where
  thinned := .refl fs₀
  blacklist := rfl
  rows _ _ h := Or.inl h
  seen _ h := by cases h
  outside _ _ h _ _ := ⟨h, rfl⟩

variable (h : Progress digest isoNow fs₀ db₀ pre fs db)
  (hc : Coherent digest isoNow fs₀ db₀ walk)

include h in
/-- A visit that changes nothing, of a file that is to have no row. -/
theorem pass (hw : wantedSha digest fs₀ db₀ rec = none) :
    Progress digest isoNow fs₀ db₀ (pre ++ [rec]) fs db where
  thinned := h.thinned
  blacklist := h.blacklist
  rows sha row hr := (h.rows sha row hr).imp_right fun hp ↦ hp.mono rec
  seen r hr sha hs := by
    rcases List.mem_append.mp hr with hr | hr
    · exact h.seen r hr sha hs
    · rw [List.mem_singleton.mp hr, hw] at hs
      cases hs
  outside sha row hr hp hs := h.outside sha row hr
    (fun r hm ↦ hp r (List.mem_append_left _ hm)) fun r hm ↦ hs r (List.mem_append_left _ hm)

include h hc in
/-- A file that the incremental skip takes for unchanged has the content of its row. -/
theorem wantedSha_of_unchanged (hmem : rec ∈ walk) (hu : Unchanged fs db rec sha) :
    wantedSha digest fs₀ db₀ rec = some sha := by
  obtain ⟨ha, row, hr, hp, ht⟩ := hu
  rcases h.rows sha row hr with h₀ | ⟨-, -, r, -, hpath, hw⟩
  · refine wantedSha_eq_some.mpr ⟨ha, ?_, ?_⟩
    · exact hc.times rec hmem sha ⟨ha, row, h₀, hp, h.thinned.lstatTimes ht⟩
    · by_contra hb
      rw [hc.blacklist sha hb] at h₀
      cases h₀
  · rw [← wantedSha_congr (hpath.trans hp)]
    exact hw

include h hc in
/-- A visit that marks a row as seen. -/
theorem mark (hmem : rec ∈ walk) (hm : Marks isoNow fs db rec sha db') :
    Progress digest isoNow fs₀ db₀ (pre ++ [rec]) fs db' := by
  have hw := h.wantedSha_of_unchanged hc hmem hm.unchanged
  obtain ⟨-, row, hr, hp, ht⟩ := hm.unchanged
  have hrow := hm.row
  rw [hr] at hrow
  constructor
  · exact h.thinned
  · exact hm.blacklist.trans h.blacklist
  · intro s r hs
    by_cases he : s = sha
    · subst he
      rw [hrow] at hs
      cases hs
      refine Or.inr ⟨rfl, ?_, rec, List.mem_append_right _ (List.mem_singleton.mpr rfl),
        hp.symm, hw⟩
      change lstatTimes fs₀ row.path = _
      rw [hp]
      exact h.thinned.lstatTimes ht
    · rw [hm.spares s he] at hs
      exact (h.rows s r hs).imp_right fun hpl ↦ hpl.mono rec
  · intro r hr' s hs
    by_cases he : s = sha
    · subst he
      exact ⟨_, hrow, rfl⟩
    · rw [hm.spares s he]
      rcases List.mem_append.mp hr' with hr' | hr'
      · exact h.seen r hr' s hs
      · rw [List.mem_singleton.mp hr', hw] at hs
        exact absurd (Option.some.inj hs).symm he
  · intro s r h₀ hpath hne
    have he : s ≠ sha := by
      rintro rfl
      exact hne rec (List.mem_append_right _ (List.mem_singleton.mpr rfl)) hw
    rw [hm.spares s he, hm.companions s]
    exact h.outside s r h₀ (fun r hm ↦ hpath r (List.mem_append_left _ hm))
      fun r hm ↦ hne r (List.mem_append_left _ hm)

include h hc in
/-- A visit that stores its file: the row that it takes the path from is none that the scan
has placed, as that one would have the file's content. -/
theorem store (hs : Stores digest isoNow fs db rec sha db') :
    Progress digest isoNow fs₀ db₀ (pre ++ [rec]) fs db' := by
  have hlast : rec ∈ pre ++ [rec] := List.mem_append_right _ (List.mem_singleton.mpr rfl)
  have hw : wantedSha digest fs₀ db₀ rec = some sha :=
    wantedSha_eq_some.mpr ⟨hs.examined.1, h.thinned.hashFile hs.examined.2.2.1,
      h.blacklist ▸ hs.examined.2.2.2⟩
  obtain ⟨row, hrow, hp, ht, hseen⟩ := hs.row
  constructor
  · exact h.thinned
  · exact hs.blacklist.trans h.blacklist
  · intro s r hr
    by_cases he : s = sha
    · subst he
      rw [hrow] at hr
      cases hr
      refine Or.inr ⟨hseen, ?_, rec, hlast, hp.symm, hw⟩
      rw [hp]
      exact h.thinned.lstatTimes ht
    · by_cases hh : HoldsPath db s rec.path
      · rw [(hs.frees s he hh).2] at hr
        cases hr
      · rw [(hs.spares s he hh).1] at hr
        exact (h.rows s r hr).imp_right fun hpl ↦ hpl.mono rec
  · intro r hr s hws
    by_cases he : s = sha
    · subst he
      exact ⟨row, hrow, hseen⟩
    · rcases List.mem_append.mp hr with hr | hr
      · obtain ⟨row', hrow', hnow⟩ := h.seen r hr s hws
        have hh : ¬ HoldsPath db s rec.path := by
          rintro ⟨row'', hr'', hp''⟩
          rw [hrow'] at hr''
          cases hr''
          rcases h.rows s row' hrow' with h₀ | ⟨-, -, q, -, hq, hwq⟩
          · have hlt := hc.clock s row' h₀
            rw [hnow] at hlt
            exact List.lt_irrefl isoNow hlt
          · rw [wantedSha_congr (hq.trans hp''), hw] at hwq
            exact he (Option.some.inj hwq).symm
        rw [(hs.spares s he hh).1]
        exact ⟨row', hrow', hnow⟩
      · rw [List.mem_singleton.mp hr, hw] at hws
        exact absurd (Option.some.inj hws).symm he
  · intro s r h₀ hpath hne
    have he : s ≠ sha := by
      rintro rfl
      exact hne rec hlast hw
    obtain ⟨hr, hcomp⟩ := h.outside s r h₀ (fun r hm ↦ hpath r (List.mem_append_left _ hm))
      fun r hm ↦ hne r (List.mem_append_left _ hm)
    have hh : ¬ HoldsPath db s rec.path := by
      rintro ⟨r', hr', hp'⟩
      rw [hr] at hr'
      cases hr'
      exact hpath rec hlast hp'.symm
    obtain ⟨hr', hcomp'⟩ := hs.spares s he hh
    exact ⟨hr'.trans hr, hcomp'.trans hcomp⟩

include h hc in
/-- One visit that goes on and can read its file. -/
theorem visit (hmem : rec ∈ walk) (hfs : fs = w.fs) (hdb : db = w.conn.view)
    (hgo : GoesOn digest isoNow w rec) (hread : ¬ Unread digest w.fs w.conn.view rec) :
    Progress digest isoNow fs₀ db₀ (pre ++ [rec]) (visitState digest isoNow w rec).fs
      (visitState digest isoNow w rec).conn.view := by
  subst hfs hdb
  have hp : Progress digest isoNow fs₀ db₀ (pre ++ [rec]) w.fs
      (visitState digest isoNow w rec).conn.view := by
    rcases run_effect (run_of_goesOn hgo) with ⟨hdb, hnu, hne⟩ | ⟨sha, hm⟩ | ⟨sha, hs⟩
    · rw [hdb]
      apply h.pass
      cases hw : wantedSha digest fs₀ db₀ rec with
      | none => rfl
      | some sha =>
        obtain ⟨ha, hh, hb⟩ := wantedSha_eq_some.mp hw
        refine absurd ⟨ha, hnu, fun hex hex' ↦ ?_⟩ hread
        have hsame := h.thinned.hashFile hex'
        rw [hh] at hsame
        cases hsame
        exact hne sha ⟨ha, hnu, hex', by rw [h.blacklist]; exact hb⟩
    · exact h.mark hc hmem hm
    · exact h.store hc hs
  exact { hp with thinned := hp.thinned.trans (thinned_visitState digest isoNow w rec) }

end Progress

theorem hashFailed_walkState (digest : Content → Sha) (isoNow : Text) (w : World ScanCtx)
    (recs : List TagRecord) :
    w.out.hashFailed ≤ (walkState digest isoNow w recs).out.hashFailed := by
  induction recs generalizing w with
  | nil => exact le_refl _
  | cons r recs ih =>
    have hv := (hashFailed_visitState digest isoNow w r).1
    by_cases hgo : GoesOn digest isoNow w r
    · rw [walkState_cons hgo]
      exact hv.trans (ih _)
    · rw [walkState_cons_stop hgo]
      exact hv

/-- The whole walk. -/
theorem Progress.run (hc : Coherent digest isoNow fs₀ db₀ walk) (hsub : recs ⊆ walk)
    (h : Progress digest isoNow fs₀ db₀ pre w.fs w.conn.view) (h₀ : w.out.hardError = false)
    (hend : Reaches digest isoNow w recs)
    (hread : (walkState digest isoNow w recs).out.hashFailed = 0) :
    Progress digest isoNow fs₀ db₀ (pre ++ recs) (walkState digest isoNow w recs).fs
      (walkState digest isoNow w recs).conn.view := by
  induction recs generalizing w pre with
  | nil =>
    rw [List.append_nil, walkState_nil]
    exact h
  | cons r recs ih =>
    have hgo : GoesOn digest isoNow w r := by
      by_contra hno
      exact not_reaches_of_stop hno hend
    rw [Reaches, walkState_cons hgo] at hend
    rw [walkState_cons hgo] at hread ⊢
    have hle := hashFailed_walkState digest isoNow (visitState digest isoNow w r) recs
    have hr : ¬ Unread digest w.fs w.conn.view r := by
      intro hno
      have hlt := (hashFailed_visitState digest isoNow w r).2 hno
      omega
    have hstep := h.visit hc (hsub (List.mem_cons_self ..)) rfl rfl hgo hr
    have := ih (fun q hq ↦ hsub (List.mem_cons_of_mem _ hq)) hstep (hardError_visitState h₀ hgo)
      hend hread
    rwa [List.append_assoc] at this

/-! ### The scan -/

private theorem get?_deleteUnseen : (db.deleteUnseen root isoNow).tracks.get? sha =
    (db.tracks.get? sha).filter fun row ↦ !Db.isUnseen root isoNow row :=
  Db.get?_deleteTracks

private theorem isUnseen_of_seen {row : TrackRow} (h : row.lastSeenAt = isoNow) :
    Db.isUnseen root isoNow row = false := by
  simp [Db.isUnseen, h]

/-- Below the root the sweep leaves what the walk has placed. -/
private theorem Progress.placed (h : Progress digest isoNow fs₀ db₀ walk fs db)
    (hc : Coherent digest isoNow fs₀ db₀ walk) {row : TrackRow}
    (hr : (db.deleteUnseen root isoNow).tracks.get? sha = some row)
    (hu : isUnder root row.path = true) : Placed digest isoNow fs₀ db₀ walk sha row := by
  rw [get?_deleteUnseen, Option.filter_eq_some_iff] at hr
  rcases h.rows sha row hr.1 with h₀ | hp
  · have hlt := hc.clock sha row h₀
    simp [Db.isUnseen, hu, hlt] at hr
  · exact hp

/-- What the walk has placed is still there behind the sweep. -/
private theorem Progress.kept (h : Progress digest isoNow fs₀ db₀ walk fs db)
    (hmem : rec ∈ walk) (hw : wantedSha digest fs₀ db₀ rec = some sha) :
    ∃ row, (db.deleteUnseen root isoNow).tracks.get? sha = some row ∧
      row.lastSeenAt = isoNow := by
  obtain ⟨row, hr, hs⟩ := h.seen rec hmem sha hw
  refine ⟨row, ?_, hs⟩
  rw [get?_deleteUnseen, hr]
  simp [isUnseen_of_seen hs]

/-- A row but for `last_seen_at`. -/
def TrackRow.dropSeen (row : TrackRow) : TrackRow := { row with lastSeenAt := [] }

/-- Two databases differ in `last_seen_at` only, and in what `scan_meta` counts. -/
structure SameButSeen (db db' : Db) : Prop where
  rows : ∀ sha, (db'.tracks.get? sha).map TrackRow.dropSeen =
    (db.tracks.get? sha).map TrackRow.dropSeen
  rest : db' = { db with tracks := db'.tracks, scanMeta := db'.scanMeta }

/-- The second walk finds the files of the first one as they were, in any order. -/
structure SameFiles (digest : Content → Sha) (fs fs' : Tree) (walk walk' : List TagRecord) :
    Prop where
  paths : ∀ p, isTranscodeArtifact p = false →
    (p ∈ walk'.map TagRecord.path ↔ p ∈ walk.map TagRecord.path)
  files : ∀ p ∈ walk.map TagRecord.path, isTranscodeArtifact p = false →
    hashFile digest fs' p = hashFile digest fs p ∧ lstatTimes fs' p = lstatTimes fs p

/-- The table is in step with the files: each file that is to have a row has it at its path,
with its times, and no other row is below the root. -/
structure Settled (digest : Content → Sha) (fs : Tree) (root : Path) (walk : List TagRecord)
    (db : Db) : Prop where
  files : ∀ rec ∈ walk, ∀ sha, wantedSha digest fs db rec = some sha →
    ∃ row, db.tracks.get? sha = some row ∧ row.path = rec.path ∧
      lstatTimes fs rec.path = .ok (row.mtimeNs, row.sizeBytes)
  rows : ∀ sha row, db.tracks.get? sha = some row → isUnder root row.path = true →
    ∃ rec ∈ walk, rec.path = row.path ∧ wantedSha digest fs db rec = some sha
  below : ∀ rec ∈ walk, isUnder root rec.path = true

namespace SameButSeen

theorem refl (db : Db) : SameButSeen db db := ⟨fun _ ↦ rfl, rfl⟩

theorem trans {db'' : Db} (h : SameButSeen db db') (h' : SameButSeen db' db'') :
    SameButSeen db db'' := by
  refine ⟨fun sha ↦ (h'.rows sha).trans (h.rows sha), ?_⟩
  have h₁ := h.rest
  have h₂ := h'.rest
  rw [h₁] at h₂
  exact h₂

/-- What `scan_meta` counts does not matter. -/
theorem scanMeta (h : SameButSeen db db') (scans : Table Path ScanMetaRow) :
    SameButSeen db { db' with scanMeta := scans } := by
  refine h.trans ⟨fun _ ↦ rfl, rfl⟩

theorem markSeen (h : db.markSeen sha isoNow = some db') : SameButSeen db db' := by
  obtain ⟨db'', hdb, -, -, hget⟩ := Db.markSeen_ok db sha isoNow
  rw [h] at hdb
  cases hdb
  constructor
  · intro s
    rw [hget]
    split
    · next he =>
      rw [he, Option.map_map]
      rfl
    · rfl
  · unfold Db.markSeen at h
    split at h
    · cases h
      rfl
    · obtain ⟨t, -, rfl⟩ := Option.map_eq_some_iff.mp h
      rfl

/-- The row is there on both sides. -/
theorem row (h : SameButSeen db db') {row : TrackRow} (hr : db.tracks.get? sha = some row) :
    ∃ row', db'.tracks.get? sha = some row' ∧ row'.dropSeen = row.dropSeen := by
  have hs := h.rows sha
  rw [hr, Option.map_some, Option.map_eq_some_iff] at hs
  exact hs

theorem symm_row (h : SameButSeen db db') {row' : TrackRow}
    (hr : db'.tracks.get? sha = some row') :
    ∃ row, db.tracks.get? sha = some row ∧ row.dropSeen = row'.dropSeen := by
  have hs := h.rows sha
  rw [hr, Option.map_some] at hs
  exact Option.map_eq_some_iff.mp hs.symm

end SameButSeen

theorem TrackRow.path_of_dropSeen {row row' : TrackRow} (h : row'.dropSeen = row.dropSeen) :
    row'.path = row.path := (TrackRow.mk.inj h).1

theorem TrackRow.times_of_dropSeen {row row' : TrackRow} (h : row'.dropSeen = row.dropSeen) :
    (row'.mtimeNs, row'.sizeBytes) = (row.mtimeNs, row.sizeBytes) := by
  obtain ⟨-, hm, hs, -⟩ := TrackRow.mk.inj h
  rw [hm, hs]

section Repeat

variable {fs' : Tree} {walk' : List TagRecord} {db₁ : Db}

/-- The incremental skip takes every file for unchanged that is to have a row. -/
private theorem unchanged_of_wanted (hset : Settled digest fs root walk db₁)
    (hsame : SameFiles digest fs fs' walk walk') (hseen : SameButSeen db₁ db)
    (hmem : rec ∈ walk') (hw : wantedSha digest fs db₁ rec = some sha) :
    Unchanged fs' db rec sha := by
  obtain ⟨ha, -, -⟩ := wantedSha_eq_some.mp hw
  have hp := (hsame.paths rec.path ha).mp (List.mem_map_of_mem hmem)
  obtain ⟨q, hq, hqp⟩ := List.mem_map.mp hp
  obtain ⟨row, hr, hpath, ht⟩ := hset.files q hq sha ((wantedSha_congr hqp).trans hw)
  obtain ⟨row', hr', hdrop⟩ := hseen.row hr
  refine ⟨ha, row', hr', (TrackRow.path_of_dropSeen hdrop).trans (hpath.trans hqp), ?_⟩
  rw [TrackRow.times_of_dropSeen hdrop, (hsame.files rec.path hp ha).2, ← hqp]
  exact ht

/-- The state of a repeated scan behind the files of `pre`. -/
private structure Skipped (digest : Content → Sha) (isoNow : Text) (fs fs' : Tree) (db₁ : Db)
    (pre : List TagRecord) (w : World ScanCtx) : Prop where
  files : w.fs = fs'
  same : SameButSeen db₁ w.conn.view
  seen : ∀ rec ∈ pre, ∀ sha, wantedSha digest fs db₁ rec = some sha →
    ∃ row, w.conn.view.tracks.get? sha = some row ∧ row.lastSeenAt = isoNow

/-- A visit of a repeated scan marks a row as seen, or passes by. -/
private theorem Skipped.visit (hset : Settled digest fs root walk db₁)
    (hsame : SameFiles digest fs fs' walk walk') (hmem : rec ∈ walk')
    (h : Skipped digest isoNow fs fs' db₁ pre w) (hgo : GoesOn digest isoNow w rec) :
    Skipped digest isoNow fs fs' db₁ (pre ++ [rec]) (visitState digest isoNow w rec) := by
  have hun : ∀ sha, wantedSha digest fs db₁ rec = some sha →
      Unchanged w.fs w.conn.view rec sha := by
    intro sha hw
    rw [h.files]
    exact unchanged_of_wanted hset hsame h.same hmem hw
  have hrun := run_of_goesOn hgo
  have hfs : (visitState digest isoNow w rec).fs =
      unlinkAll w.fs ((Verdict.of digest isoNow w.fs w.conn.view rec).unlinks w.conn.view) :=
    (onFile_acts digest isoNow rec w).files
  rcases Verdict.of_cases digest isoNow w.fs w.conn.view rec with
    ⟨hv, hno, -⟩ | ⟨sha, hu, hv⟩ | ⟨hex, m, s, he, -, -⟩
  · rw [hv] at hrun hfs
    injection hrun with hrun
    constructor
    · exact hfs.trans h.files
    · rw [← hrun]
      exact h.same
    · intro r hr sha hw
      rw [← hrun]
      rcases List.mem_append.mp hr with hr | hr
      · exact h.seen r hr sha hw
      · rw [List.mem_singleton.mp hr] at hw
        exact absurd (hun sha hw) (hno sha)
  · rw [hv] at hrun hfs
    have hmark := SameButSeen.markSeen hrun
    obtain ⟨db'', hdb, -, -, hget⟩ := Db.markSeen_ok w.conn.view sha isoNow
    rw [Verdict.run, hdb] at hrun
    injection hrun with hrun
    subst hrun
    obtain ⟨-, row, hrow, -, -⟩ := id hu
    constructor
    · exact hfs.trans h.files
    · exact h.same.trans hmark
    · intro r hr s hw
      by_cases he : s = sha
      · subst he
        exact ⟨{ row with lastSeenAt := isoNow }, by rw [hget, if_pos rfl, hrow]; rfl, rfl⟩
      · rw [hget, if_neg he]
        rcases List.mem_append.mp hr with hr | hr
        · exact h.seen r hr s hw
        · rw [List.mem_singleton.mp hr] at hw
          exact absurd ((hun s hw).unique hu) he
  · -- a file with content to store has its row already
    have hp := (hsame.paths rec.path he.1).mp (List.mem_map_of_mem hmem)
    have hh := he.2.2.1
    rw [h.files, (hsame.files rec.path hp he.1).1] at hh
    have hb := he.2.2.2
    rw [h.same.rest] at hb
    exact absurd (hun hex (wantedSha_eq_some.mpr ⟨he.1, hh, hb⟩)) (he.2.1 hex)

private theorem Skipped.run (hset : Settled digest fs root walk db₁)
    (hsame : SameFiles digest fs fs' walk walk') (hsub : recs ⊆ walk')
    (h : Skipped digest isoNow fs fs' db₁ pre w) (h₀ : w.out.hardError = false)
    (hend : Reaches digest isoNow w recs) :
    Skipped digest isoNow fs fs' db₁ (pre ++ recs) (walkState digest isoNow w recs) := by
  induction recs generalizing w pre with
  | nil =>
    rw [List.append_nil, walkState_nil]
    exact h
  | cons r recs ih =>
    have hgo : GoesOn digest isoNow w r := by
      by_contra hno
      exact not_reaches_of_stop hno hend
    rw [Reaches, walkState_cons hgo] at hend
    have hstep := h.visit hset hsame (hsub (List.mem_cons_self ..)) hgo
    have := ih (fun q hq ↦ hsub (List.mem_cons_of_mem _ hq)) hstep
      (hardError_visitState h₀ hgo) hend
    rwa [List.append_assoc, ← walkState_cons hgo] at this

/-- The sweep of a repeated scan finds nothing. -/
private theorem Skipped.deleteUnseen (hset : Settled digest fs root walk db₁)
    (hsame : SameFiles digest fs fs' walk walk')
    (h : Skipped digest isoNow fs fs' db₁ walk' w) :
    w.conn.view.deleteUnseen root isoNow = w.conn.view := by
  apply Db.deleteTracks_eq_self
  intro sha row hr
  cases hu : isUnder root row.path with
  | false => simp [Db.isUnseen, hu]
  | true =>
    obtain ⟨row₁, hr₁, hdrop⟩ := h.same.symm_row hr
    rw [← TrackRow.path_of_dropSeen hdrop] at hu
    obtain ⟨rec, hmem, -, hw⟩ := hset.rows sha row₁ hr₁ hu
    have ha := (wantedSha_eq_some.mp hw).1
    have hp := (hsame.paths rec.path ha).mpr (List.mem_map_of_mem hmem)
    obtain ⟨q, hq, hqp⟩ := List.mem_map.mp hp
    obtain ⟨row', hr', hs⟩ := h.seen q hq sha ((wantedSha_congr hqp).trans hw)
    rw [hr] at hr'
    cases hr'
    exact isUnseen_of_seen hs

/-- Scanning settled files again changes nothing but `last_seen_at`. -/
theorem Settled.rescan (hset : Settled digest fs root walk db₁)
    (hsame : SameFiles digest fs fs' walk walk') (isoNow : Text) :
    SameButSeen db₁ (afterScan digest (scanJob root isoNow walk') ⟨fs', db₁⟩).db := by
  by_cases hdone : fs'.stat? root = some .dir ∧
      Reaches digest isoNow (begun (Machine.start ⟨fs', db₁⟩ {})) walk'
  · obtain ⟨hroot, hend⟩ := hdone
    have hstart : Skipped digest isoNow fs fs' db₁ []
        (begun (Machine.start ⟨fs', db₁⟩ ({} : ScanCtx))) :=
      ⟨rfl, .refl db₁, fun _ h ↦ by cases h⟩
    have hrun := hstart.run hset hsame (List.Subset.refl walk') rfl hend
    obtain ⟨scans, hdb⟩ := @afterScan_completed digest isoNow walk' ⟨fs', db₁⟩ root hroot hend
    rw [hdb, hrun.deleteUnseen hset hsame]
    exact hrun.same.scanMeta scans
  · have hstop : (afterScan digest (scanJob root isoNow walk') ⟨fs', db₁⟩).db = db₁ := by
      apply afterScan_stopped
      intro hroot
      by_contra hf
      exact hdone ⟨hroot, (Bool.not_eq_true _).mp hf⟩
    rw [hstop]
    exact .refl db₁

end Repeat

namespace ReplaceAndMove

/-- The library of the run below. -/
def library : Path := [ascii "music"]

def pathA : Path := library ++ [ascii "a.flac"]
def pathB : Path := library ++ [ascii "b.flac"]
def pathC : Path := library ++ [ascii "c.flac"]

/-- Two tracks. -/
def before : Tree :=
  ((Tree.empty.addDir library).addFile pathA ⟨.plain [1], 1, 1⟩).addFile pathB ⟨.plain [2], 2, 1⟩

/-- One of them has been replaced, and the other one has moved. -/
def after : Tree :=
  ((Tree.empty.addDir library).addFile pathA ⟨.plain [3], 3, 1⟩).addFile pathC ⟨.plain [2], 2, 1⟩

/-- The machine when the second scan starts. -/
def machine : Machine :=
  ⟨after, (afterScan rawDigest (scanJob library [1] [.untagged pathA, .untagged pathB])
    ⟨before, .empty⟩).db⟩

/-- The scan of both files. -/
def files : List TagRecord := [.untagged pathA, .untagged pathC]

end ReplaceAndMove

end Nocturne
