import Nocturne.Scan.Run

/-!
# What the visit of one file does

`Verdict` names the branch that `on_file` takes and `Verdict.run` its effect on the
database. The run of `on_file` is described by them once and for all: its result, the
database it leaves, and the databases that it passes through on the way.
-/

namespace Nocturne

open Lib

/-- The branches of `on_file`. -/
inductive Verdict where
  | pass
  | seen (sha : Sha)
  | update (sha : Sha) (row : TrackRow)
  | replace (old sha : Sha) (row : TrackRow)
  | insert (sha : Sha) (row : TrackRow)

namespace Verdict

/-- The branch of `storeTrack`. -/
def store (db : Db) (hex : Sha) (row : TrackRow) (existing : Option Sha) : Verdict :=
  if (db.tracks.get? hex).isSome then .update hex row
  else
    match existing with
    | some old => .replace old hex row
    | none => .insert hex row

/-- The branch of `hashAndStore`. -/
def hashed (digest : Content → Sha) (isoNow : Text) (fs : Tree) (db : Db) (rec : TagRecord)
    (mtimeNs sizeBytes : Int) (existing : Option Sha) : Verdict :=
  match hashFile digest fs rec.path with
  | .error _ => .pass
  | .ok hex =>
    if (db.trackBlacklist.get? hex).isSome then .pass
    else store db hex (trackRowOf rec mtimeNs sizeBytes isoNow) existing

/-- The branch of `on_file`. -/
def of (digest : Content → Sha) (isoNow : Text) (fs : Tree) (db : Db) (rec : TagRecord) :
    Verdict :=
  if isTranscodeArtifact rec.path then .pass
  else
    match lstatTimes fs rec.path with
    | .error _ => .pass
    | .ok (mtimeNs, sizeBytes) =>
      match db.lookupByPath rec.path with
      | none => hashed digest isoNow fs db rec mtimeNs sizeBytes none
      | some (sha, mtime, size) =>
        if mtime = mtimeNs ∧ size = sizeBytes then .seen sha
        else hashed digest isoNow fs db rec mtimeNs sizeBytes (some sha)

/-- The database after a visit; `none` when a constraint stops the scan. -/
def run (isoNow : Text) (db : Db) : Verdict → Option Db
  | pass => some db
  | seen sha => db.markSeen sha isoNow
  | update sha row => db.updateTrack sha row
  | replace old sha row => (db.deleteTrack old).insertTrack sha row
  | insert sha row => db.insertTrack sha row

/-- The databases that a visit shows between its statements. -/
def Passes (db : Db) (v : Verdict) (db' : Db) : Prop :=
  db' = db ∨ ∃ old sha row, v = .replace old sha row ∧ db' = db.deleteTrack old

/-- The transcodes that a visit unlinks. -/
def unlinks (db : Db) : Verdict → List Path
  | replace old _ _ => db.transcodesOf [old]
  | _ => []

end Verdict

/-! ### The parts of `on_file` -/

section Spec

variable {ω : Type}

/-- The files that `unlink` removes from a list of paths. -/
def unlinkAll (fs : Tree) (xs : List Path) : Tree :=
  xs.foldl (fun fs x ↦ (fs.unlink x).toOption.getD fs) fs

theorem eval_unlinkTranscodes (xs : List Path) (w : World ω) :
    (unlinkTranscodes xs).eval w = ((), { w with fs := unlinkAll w.fs xs }) := by
  induction xs generalizing w with
  | nil => rfl
  | cons x xs ih =>
    have hx : (sysUnlink x : Sys ω _).eval w =
        ((sysUnlink x : Sys ω _).eval w |>.1,
          { w with fs := (w.fs.unlink x).toOption.getD w.fs }) := by
      simp only [sysUnlink, eval_sysCall]
      cases w.fs.unlink x <;> rfl
    simp only [unlinkTranscodes, Proc.each, bind_pure_comp, Proc.eval_bind, Proc.eval_map] at ih ⊢
    rw [hx, ih]
    rfl

/-- Unlinking leaves the connection alone all along. -/
theorem steps_unlinkTranscodes {xs : List Path} {w t : World ω}
    (h : t ∈ (unlinkTranscodes xs).steps w) : t.conn = w.conn := by
  induction xs generalizing w with
  | nil => cases h
  | cons x xs ih =>
    have hw : ((sysUnlink x : Sys ω _).eval w).2.conn = w.conn := by
      simp only [sysUnlink, eval_sysCall]
      split <;> rfl
    simp only [unlinkTranscodes, Proc.each, bind_pure_comp, Proc.steps_bind, Proc.eval_map,
      Proc.steps_map, List.mem_append] at h ih
    rcases h with h | h
    · simp only [sysUnlink, steps_sysCall, List.mem_singleton] at h
      rw [h]
    · rw [← hw]
      exact ih h

@[simp] theorem eval_trackRepoInsert (sha : Sha) (row : TrackRow) (w : World ω) :
    (trackRepoInsert sha row).eval w =
      match w.conn.view.insertTrack sha row with
      | some db => (true, { w with conn := w.conn.setView db })
      | none => (false, w) := by
  simp only [trackRepoInsert, bind_pure_comp, Proc.eval_map, eval_exec]
  cases w.conn.view.insertTrack sha row <;> rfl

@[simp] theorem eval_trackRepoUpdate (sha : Sha) (row : TrackRow) (w : World ω) :
    (trackRepoUpdate sha row).eval w =
      match w.conn.view.updateTrack sha row with
      | some db => (true, { w with conn := w.conn.setView db })
      | none => (false, w) := by
  simp only [trackRepoUpdate, bind_pure_comp, Proc.eval_map, eval_exec]
  cases w.conn.view.updateTrack sha row <;> rfl

@[simp] theorem eval_trackRepoMarkSeen (sha : Sha) (isoNow : Text) (w : World ω) :
    (trackRepoMarkSeen sha isoNow).eval w =
      match w.conn.view.markSeen sha isoNow with
      | some db => (true, { w with conn := w.conn.setView db })
      | none => (false, w) := by
  simp only [trackRepoMarkSeen, bind_pure_comp, Proc.eval_map, eval_exec]
  cases w.conn.view.markSeen sha isoNow <;> rfl

@[simp] theorem eval_trackRepoDelete (sha : Sha) (w : World ω) :
    (trackRepoDelete sha).eval w =
      (true, { w with
        fs := unlinkAll w.fs (w.conn.view.transcodesOf [sha])
        conn := w.conn.setView (w.conn.view.deleteTrack sha) }) := by
  simp only [trackRepoDelete, Proc.eval_bind, eval_query, eval_exec]
  simp [eval_unlinkTranscodes]

end Spec

/-- A part of a visit acts as its verdict says: it goes on with the verdict's database, or
gives up where there is none, and shows only the databases that the verdict passes. -/
structure Acts {α : Type} (p : Sys ScanCtx α) (goOn giveUp : α) (isoNow : Text) (v : Verdict)
    (w : World ScanCtx) : Prop where
  goes : ∀ db, v.run isoNow w.conn.view = some db →
    (p.eval w).1 = goOn ∧ (p.eval w).2.conn = w.conn.setView db
  stops : v.run isoNow w.conn.view = none → (p.eval w).1 = giveUp ∧
    ∃ db, v.Passes w.conn.view db ∧ (p.eval w).2.conn = w.conn.setView db
  shows : ∀ t ∈ p.steps w, ∃ db, v.Passes w.conn.view db ∧ t.conn = w.conn.setView db
  deletes : ∀ old sha row, v = .replace old sha row →
    ∃ t ∈ p.steps w, t.conn = w.conn.setView (w.conn.view.deleteTrack old)
  files : (p.eval w).2.fs = unlinkAll w.fs (v.unlinks w.conn.view)

namespace Acts

variable {α : Type} {p : Sys ScanCtx α} {goOn giveUp : α} {isoNow : Text} {v : Verdict}
  {w : World ScanCtx}

/-- Nothing happens. -/
theorem of_pass (hv : (p.eval w).1 = goOn) (hc : (p.eval w).2.conn = w.conn)
    (hf : (p.eval w).2.fs = w.fs) (hs : ∀ t ∈ p.steps w, t.conn = w.conn) :
    Acts p goOn giveUp isoNow .pass w where
  goes db h := by
    cases h
    exact ⟨hv, by rw [hc, Conn.setView_view]⟩
  stops h := by cases h
  shows t ht := ⟨w.conn.view, Or.inl rfl, by rw [hs t ht, Conn.setView_view]⟩
  deletes _ _ _ h := by cases h
  files := hf

end Acts

variable {digest : Content → Sha} {isoNow : Text} {rec : TagRecord} {w : World ScanCtx}
  {hex : Sha} {row : TrackRow} {existing : Option Sha}

/-- A statement of one row, without a deletion before it. -/
private theorem acts_of_exec {α : Type} {p : Sys ScanCtx α} {goOn giveUp : α} {v : Verdict}
    (hv : ∀ old sha row, v ≠ .replace old sha row)
    (h : (p.eval w).2.fs = w.fs ∧ match v.run isoNow w.conn.view with
      | some db => (p.eval w).1 = goOn ∧ (p.eval w).2.conn = w.conn.setView db
      | none => (p.eval w).1 = giveUp ∧ (p.eval w).2.conn = w.conn)
    (hs : ∀ t ∈ p.steps w, t.conn = w.conn) : Acts p goOn giveUp isoNow v w where
  goes db hdb := by
    rw [hdb] at h
    exact h.2
  stops hn := by
    rw [hn] at h
    exact ⟨h.2.1, w.conn.view, Or.inl rfl, by rw [h.2.2, Conn.setView_view]⟩
  shows t ht := ⟨w.conn.view, Or.inl rfl, by rw [hs t ht, Conn.setView_view]⟩
  deletes old sha row he := absurd he (hv old sha row)
  files := by
    rw [h.1]
    cases v with
    | replace old sha row => exact absurd rfl (hv old sha row)
    | pass => rfl
    | seen sha => rfl
    | update sha row => rfl
    | insert sha row => rfl

theorem storeTrack_acts (isoNow : Text) (hex : Sha) (row : TrackRow) (existing : Option Sha)
    (w : World ScanCtx) :
    Acts (storeTrack hex row existing) true false isoNow
      (.store w.conn.view hex row existing) w := by
  unfold Verdict.store
  cases hh : (w.conn.view.tracks.get? hex).isSome with
  | true =>
    rw [if_pos rfl]
    refine acts_of_exec (by simp) ?_ ?_
    · simp only [storeTrack, trackRepoLookupBySha256, Proc.eval_bind, eval_query, hh,
        eval_trackRepoUpdate, Verdict.run]
      cases w.conn.view.updateTrack hex row with
      | none => exact ⟨rfl, rfl, rfl⟩
      | some db => exact ⟨rfl, rfl, rfl⟩
    · intro t ht
      simp [storeTrack, trackRepoLookupBySha256, trackRepoUpdate, hh] at ht
      rw [ht]
  | false =>
    rw [if_neg (by simp)]
    cases existing with
    | none =>
      refine acts_of_exec (by simp) ?_ ?_
      · simp only [storeTrack, trackRepoLookupBySha256, Proc.eval_bind, eval_query, hh,
          eval_trackRepoInsert, Verdict.run]
        cases w.conn.view.insertTrack hex row with
        | none => exact ⟨rfl, rfl, rfl⟩
        | some db => exact ⟨rfl, rfl, rfl⟩
      · intro t ht
        simp [storeTrack, trackRepoLookupBySha256, trackRepoInsert, hh] at ht
        rw [ht]
    | some old =>
      have hd := eval_trackRepoDelete old w
      have hs : ∀ t ∈ (trackRepoDelete old).steps w, t.conn = w.conn ∨
          t.conn = w.conn.setView (w.conn.view.deleteTrack old) := by
        intro t ht
        simp only [trackRepoDelete, Proc.steps_bind, steps_query, eval_query, steps_exec,
          eval_exec, beq_self_eq_true, if_true, List.cons_append, List.nil_append,
          Proc.steps_pure, List.append_nil, List.mem_cons] at ht
        rcases ht with rfl | rfl | ht
        · exact Or.inl rfl
        · exact Or.inl rfl
        · exact Or.inr (steps_unlinkTranscodes ht)
      have hsteps : (storeTrack hex row (some old)).steps w =
          w :: ((trackRepoDelete old).steps w ++ [((trackRepoDelete old).eval w).2]) := by
        simp [storeTrack, trackRepoLookupBySha256, trackRepoInsert, hh]
      constructor
      · intro db hdb
        simp only [Verdict.run] at hdb
        simp [storeTrack, trackRepoLookupBySha256, hh, hdb]
      · intro hn
        simp only [Verdict.run] at hn
        refine ⟨?_, w.conn.view.deleteTrack old, Or.inr ⟨old, hex, row, rfl, rfl⟩, ?_⟩
        · simp [storeTrack, trackRepoLookupBySha256, hh, hn]
        · simp [storeTrack, trackRepoLookupBySha256, hh, hn]
      · intro t ht
        rw [hsteps, List.mem_cons, List.mem_append, List.mem_singleton] at ht
        have hpass : (Verdict.replace old hex row).Passes w.conn.view
            (w.conn.view.deleteTrack old) := Or.inr ⟨old, hex, row, rfl, rfl⟩
        rcases ht with rfl | ht | rfl
        · exact ⟨t.conn.view, Or.inl rfl, by rw [Conn.setView_view]⟩
        · rcases hs t ht with hc | hc
          · exact ⟨w.conn.view, Or.inl rfl, by rw [hc, Conn.setView_view]⟩
          · exact ⟨_, hpass, hc⟩
        · exact ⟨_, hpass, by rw [hd]⟩
      · intro old' sha' row' he
        cases he
        refine ⟨((trackRepoDelete old).eval w).2, ?_, by rw [hd]⟩
        rw [hsteps]
        simp
      · simp only [Verdict.unlinks]
        cases hi : (w.conn.view.deleteTrack old).insertTrack hex row with
        | none => simp [storeTrack, trackRepoLookupBySha256, hh, hi]
        | some db => simp [storeTrack, trackRepoLookupBySha256, hh, hi]

/-- What comes before a part without touching database or files, and what reads its value,
does not matter. -/
theorem Acts.lift {α β : Type} {p : Sys ScanCtx α} {q : Sys ScanCtx β} {goOn giveUp : α}
    {v : Verdict} {w' : World ScanCtx} (ts : List (World ScanCtx)) (f : α → β)
    (h : Acts p goOn giveUp isoNow v w') (hc : w'.conn = w.conn) (hf : w'.fs = w.fs)
    (hval : (q.eval w).1 = f (p.eval w').1)
    (hconn : (q.eval w).2.conn = (p.eval w').2.conn) (hfs : (q.eval w).2.fs = (p.eval w').2.fs)
    (hsteps : q.steps w = ts ++ p.steps w') (hts : ∀ t ∈ ts, t.conn = w.conn) :
    Acts q (f goOn) (f giveUp) isoNow v w where
  goes db hdb := by
    obtain ⟨h₁, h₂⟩ := h.goes db (by rw [hc]; exact hdb)
    exact ⟨by rw [hval, h₁], by rw [hconn, h₂, hc]⟩
  stops hn := by
    obtain ⟨h₁, db, hp, h₂⟩ := h.stops (by rw [hc]; exact hn)
    rw [hc] at hp h₂
    exact ⟨by rw [hval, h₁], db, hp, by rw [hconn, h₂]⟩
  shows t ht := by
    rw [hsteps, List.mem_append] at ht
    rcases ht with ht | ht
    · exact ⟨w.conn.view, Or.inl rfl, by rw [hts t ht, Conn.setView_view]⟩
    · have hs := h.shows t ht
      rw [hc] at hs
      exact hs
  deletes old sha row he := by
    obtain ⟨t, ht, htc⟩ := h.deletes old sha row he
    rw [hc] at htc
    exact ⟨t, by rw [hsteps]; exact List.mem_append_right _ ht, htc⟩
  files := by rw [hfs, h.files, hf, hc]

@[simp] theorem eval_hashAudioPayload (path : Path) :
    (hashAudioPayload digest path).eval w = (hashFile digest w.fs path, w) := by
  simp only [hashAudioPayload, Proc.eval_bind, eval_sysRead]
  cases hh : hashFile digest w.fs path with
  | error e => cases e <;> simp [hh]
  | ok hex => rfl

theorem steps_hashAudioPayload {path : Path} {t : World ScanCtx}
    (h : t ∈ (hashAudioPayload digest path).steps w) : t = w := by
  simp only [hashAudioPayload, Proc.steps_bind, eval_sysRead, steps_sysRead, List.mem_append,
    List.mem_singleton] at h
  rcases h with h | h
  · exact h
  · split at h
    · simpa using h
    · simp at h

/-- A failing digest, a blacklisted hash, or else the row goes to `storeTrack`. -/
theorem hashAndStore_acts (digest : Content → Sha) (isoNow : Text) (rec : TagRecord)
    (w : World ScanCtx) (mtimeNs sizeBytes : Int) (existing : Option Sha) :
    Acts (hashAndStore digest isoNow rec mtimeNs sizeBytes existing) .continue .stop isoNow
      (.hashed digest isoNow w.fs w.conn.view rec mtimeNs sizeBytes existing) w := by
  unfold Verdict.hashed
  cases hh : hashFile digest w.fs rec.path with
  | error e =>
    apply Acts.of_pass
    · simp [hashAndStore, hh]
    · simp [hashAndStore, hh]
    · simp [hashAndStore, hh]
    · intro t ht
      simp only [hashAndStore, Proc.steps_bind, eval_hashAudioPayload, hh, List.mem_append] at ht
      rcases ht with ht | ht
      · rw [steps_hashAudioPayload ht]
      · simp at ht
  | ok hex =>
    cases hb : (w.conn.view.trackBlacklist.get? hex).isSome with
    | true =>
      simp only [hb, if_true]
      apply Acts.of_pass
      · simp [hashAndStore, hh, hb]
      · simp [hashAndStore, hh, hb]
      · simp [hashAndStore, hh, hb]
      · intro t ht
        simp [hashAndStore, hh, hb] at ht
        rcases ht with ht | rfl
        · rw [steps_hashAudioPayload ht]
        · rfl
    | false =>
      simp only [hb, Bool.false_eq_true, if_false]
      let w' : World ScanCtx := { w with out := { w.out with tagParseFailed :=
        w.out.tagParseFailed + if rec.tagReadFailed then 1 else 0 } }
      have heval : (hashAndStore digest isoNow rec mtimeNs sizeBytes existing).eval w =
          (if ((storeTrack hex (trackRowOf rec mtimeNs sizeBytes isoNow) existing).eval w').1
            then return .continue else hardStop).eval
            ((storeTrack hex (trackRowOf rec mtimeNs sizeBytes isoNow) existing).eval w').2 := by
        simp [hashAndStore, hh, hb, w']
      let f : Bool → WalkResult := fun b ↦ if b = true then .continue else .stop
      have hstore := storeTrack_acts isoNow hex (trackRowOf rec mtimeNs sizeBytes isoNow)
        existing w'
      refine Acts.lift ((hashAudioPayload digest rec.path).steps w ++ [w]) f hstore
        rfl rfl ?_ ?_ ?_ ?_ ?_
      · rw [heval]
        split <;> simp [hardStop, f, *]
      · rw [heval]
        split <;> simp [hardStop]
      · rw [heval]
        split <;> simp [hardStop]
      · simp [hashAndStore, hh, hb, w']
        intro h
        simp [hardStop]
      · intro t ht
        rcases List.mem_append.mp ht with ht | ht
        · rw [steps_hashAudioPayload ht]
        · rw [List.mem_singleton.mp ht]

/-- `on_file` acts as its verdict says. -/
theorem onFile_acts (digest : Content → Sha) (isoNow : Text) (rec : TagRecord)
    (w : World ScanCtx) :
    Acts (onFile digest isoNow rec) .continue .stop isoNow
      (.of digest isoNow w.fs w.conn.view rec) w := by
  unfold Verdict.of
  cases ha : isTranscodeArtifact rec.path with
  | true =>
    simp only [if_true]
    apply Acts.of_pass <;> simp [onFile, ha]
  | false =>
    simp only [Bool.false_eq_true, if_false]
    let w' : World ScanCtx := { w with out := { w.out with filesSeen := w.out.filesSeen + 1 } }
    cases hl : lstatTimes w.fs rec.path with
    | error e =>
      apply Acts.of_pass
      · simp [onFile, ha, hl]
      · simp [onFile, ha, hl]
      · simp [onFile, ha, hl]
      · intro t ht
        simp [onFile, ha, hl] at ht
        rw [ht]
    | ok times =>
      obtain ⟨mtimeNs, sizeBytes⟩ := times
      cases hp : w.conn.view.lookupByPath rec.path with
      | none =>
        have hstore := hashAndStore_acts digest isoNow rec w' mtimeNs sizeBytes none
        refine Acts.lift [w', w'] id hstore rfl rfl ?_ ?_ ?_ ?_ ?_
        · simp [onFile, ha, hl, hp, trackRepoLookupByPath, w']
        · simp [onFile, ha, hl, hp, trackRepoLookupByPath, w']
        · simp [onFile, ha, hl, hp, trackRepoLookupByPath, w']
        · simp [onFile, ha, hl, hp, trackRepoLookupByPath, w']
        · intro t ht
          simp only [List.mem_cons, List.not_mem_nil, or_false, or_self] at ht
          rw [ht]
      | some found =>
        obtain ⟨sha, mtime, size⟩ := found
        by_cases hs : mtime = mtimeNs ∧ size = sizeBytes
        · simp only [hs, and_self, if_true]
          obtain ⟨db, hdb, -⟩ := Db.markSeen_ok w.conn.view sha isoNow
          refine acts_of_exec (by simp) ?_ ?_
          · simp [onFile, ha, hl, hp, trackRepoLookupByPath, hs, hdb, Verdict.run]
          · intro t ht
            simp [onFile, ha, hl, hp, trackRepoLookupByPath, hs, hdb, trackRepoMarkSeen] at ht
            rw [ht]
        · simp only [hs, if_false]
          have hstore := hashAndStore_acts digest isoNow rec w' mtimeNs sizeBytes (some sha)
          refine Acts.lift [w', w'] id hstore rfl rfl ?_ ?_ ?_ ?_ ?_
          · simp [onFile, ha, hl, hp, trackRepoLookupByPath, hs, w']
          · simp [onFile, ha, hl, hp, trackRepoLookupByPath, hs, w']
          · simp [onFile, ha, hl, hp, trackRepoLookupByPath, hs, w']
          · simp [onFile, ha, hl, hp, trackRepoLookupByPath, hs, w']
          · intro t ht
            simp only [List.mem_cons, List.not_mem_nil, or_false, or_self] at ht
            rw [ht]

private theorem hardError_storeTrack :
    ((storeTrack hex row existing).eval w).2.out.hardError = w.out.hardError := by
  simp only [storeTrack, trackRepoLookupBySha256, Proc.eval_bind, eval_query]
  cases (w.conn.view.tracks.get? hex).isSome with
  | true =>
    simp only [Proc.eval_bind, eval_trackRepoUpdate, eval_tally, Proc.eval_pure]
    split <;> rfl
  | false =>
    cases existing with
    | none =>
      simp only [Proc.eval_bind, eval_trackRepoInsert, eval_tally, Proc.eval_pure]
      split <;> rfl
    | some old =>
      simp only [Proc.eval_bind, eval_trackRepoDelete, eval_trackRepoInsert, eval_tally,
        Proc.eval_pure, if_true]
      split <;> rfl

private theorem hardError_hashAndStore {mtimeNs sizeBytes : Int} :
    ((hashAndStore digest isoNow rec mtimeNs sizeBytes existing).eval w).2.out.hardError =
      (w.out.hardError ||
        ((hashAndStore digest isoNow rec mtimeNs sizeBytes existing).eval w).1 == .stop) := by
  simp only [hashAndStore, Proc.eval_bind, eval_hashAudioPayload]
  cases hashFile digest w.fs rec.path with
  | error e => simp
  | ok hex =>
    simp only [Proc.eval_bind, eval_query, Proc.eval_ite]
    split
    · simp
    · simp only [eval_tally]
      generalize hq : (storeTrack hex _ existing).eval _ = q
      have hh : q.2.out.hardError = w.out.hardError := by rw [← hq, hardError_storeTrack]
      cases q.1 with
      | true => simp [hh]
      | false => simp [hardStop]

/-- The flag is raised exactly by a visit that stops the walk. -/
theorem hardError_onFile :
    ((onFile digest isoNow rec).eval w).2.out.hardError =
      (w.out.hardError || ((onFile digest isoNow rec).eval w).1 == .stop) := by
  simp only [onFile, Proc.eval_ite]
  split
  · simp
  · simp only [Proc.eval_bind, eval_tally, eval_sysRead]
    cases lstatTimes w.fs rec.path with
    | error e => simp
    | ok times =>
      simp only [trackRepoLookupByPath, Proc.eval_bind, eval_query]
      split
      · simp [hardStop]
      · exact hardError_hashAndStore
      · simp only [Proc.eval_ite]
        split
        · simp only [Proc.eval_bind, Proc.eval_ite]
          split
          · simp only [eval_trackRepoMarkSeen, eval_tally, Proc.eval_pure]
            split <;> simp
          · simp only [eval_trackRepoMarkSeen]
            split <;> simp [hardStop]
        · exact hardError_hashAndStore
/-! ### When a visit takes which branch -/

section Branches

variable {fs : Tree} {db : Db}

/-- The lookup by path finds the row that holds the path. -/
theorem lookupByPath_eq_some {path : Path} {sha : Sha} {mtime size : Int} :
    db.lookupByPath path = some (sha, mtime, size) ↔
      ∃ row, db.tracks.get? sha = some row ∧ row.path = path ∧ row.mtimeNs = mtime ∧
        row.sizeBytes = size := by
  unfold Db.lookupByPath
  rw [Option.map_eq_some_iff]
  constructor
  · rintro ⟨⟨s, row⟩, hf, he⟩
    cases he
    obtain ⟨hg, hp⟩ := UniqueTable.find?_eq_some.mp hf
    exact ⟨row, hg, hp, rfl, rfl⟩
  · rintro ⟨row, hg, hp, rfl, rfl⟩
    exact ⟨(sha, row), UniqueTable.find?_eq_some.mpr ⟨hg, hp⟩, rfl⟩

/-- The incremental skip: the row that holds the file's path has its mtime and its size. -/
def Unchanged (fs : Tree) (db : Db) (rec : TagRecord) (sha : Sha) : Prop :=
  isTranscodeArtifact rec.path = false ∧ ∃ row, db.tracks.get? sha = some row ∧
    row.path = rec.path ∧ lstatTimes fs rec.path = .ok (row.mtimeNs, row.sizeBytes)

/-- The visit gets as far as storing the file under its hash. -/
def Examined (digest : Content → Sha) (fs : Tree) (db : Db) (rec : TagRecord) (hex : Sha) :
    Prop :=
  isTranscodeArtifact rec.path = false ∧ (∀ sha, ¬ Unchanged fs db rec sha) ∧
    hashFile digest fs rec.path = .ok hex ∧ db.trackBlacklist.get? hex = none

/-- A row holds a path. -/
def HoldsPath (db : Db) (sha : Sha) (path : Path) : Prop :=
  ∃ row, db.tracks.get? sha = some row ∧ row.path = path

theorem HoldsPath.unique {sha sha' : Sha} {path : Path} (h : HoldsPath db sha path)
    (h' : HoldsPath db sha' path) : sha = sha' := by
  obtain ⟨row, hr, hp⟩ := h
  obtain ⟨row', hr', hp'⟩ := h'
  exact (UniqueTable.eq_of_key hr hr' (hp.trans hp'.symm)).1

/-- One row at most is unchanged at the path of a file. -/
theorem Unchanged.unique {sha sha' : Sha} (h : Unchanged fs db rec sha)
    (h' : Unchanged fs db rec sha') : sha = sha' := by
  obtain ⟨-, row, hr, hp, -⟩ := h
  obtain ⟨-, row', hr', hp', -⟩ := h'
  exact HoldsPath.unique ⟨row, hr, hp⟩ ⟨row', hr', hp'⟩

theorem holder_eq_some {sha : Sha} {path : Path} :
    (db.tracks.find? path).map Prod.fst = some sha ↔ HoldsPath db sha path := by
  rw [Option.map_eq_some_iff]
  constructor
  · rintro ⟨⟨s, row⟩, hf, rfl⟩
    obtain ⟨hg, hp⟩ := UniqueTable.find?_eq_some.mp hf
    exact ⟨row, hg, hp⟩
  · rintro ⟨row, hg, hp⟩
    exact ⟨(sha, row), UniqueTable.find?_eq_some.mpr ⟨hg, hp⟩, rfl⟩

theorem holder_eq_none {path : Path} :
    (db.tracks.find? path).map Prod.fst = none ↔ ∀ sha, ¬ HoldsPath db sha path := by
  constructor
  · intro h sha hs
    rw [holder_eq_some.mpr hs] at h
    cases h
  · intro h
    cases hf : (db.tracks.find? path).map Prod.fst with
    | none => rfl
    | some sha => exact absurd (holder_eq_some.mp hf) (h sha)

/-- Where lookup finds no row of the file's mtime and size, the file is not unchanged. -/
private theorem not_unchanged_of_lookup {m s : Int}
    (hl : lstatTimes fs rec.path = .ok (m, s))
    (hp : ∀ sha mtime size, db.lookupByPath rec.path = some (sha, mtime, size) →
      ¬ (mtime = m ∧ size = s)) (sha : Sha) : ¬ Unchanged fs db rec sha := by
  rintro ⟨-, row, hr, hpath, ht⟩
  rw [hl] at ht
  injection ht with ht
  injection ht with hm hs
  exact hp sha _ _ (lookupByPath_eq_some.mpr ⟨row, hr, hpath, rfl, rfl⟩) ⟨hm.symm, hs.symm⟩

/-- The hashed part of a visit: it passes by, or stores the file. -/
private theorem hashed_cases (digest : Content → Sha) (isoNow : Text) (m s : Int)
    (ha : isTranscodeArtifact rec.path = false)
    (hu : ∀ sha, ¬ Unchanged fs db rec sha) :
    (Verdict.hashed digest isoNow fs db rec m s ((db.tracks.find? rec.path).map Prod.fst) =
        .pass ∧ ∀ hex, ¬ Examined digest fs db rec hex) ∨
      ∃ hex, Examined digest fs db rec hex ∧
        Verdict.hashed digest isoNow fs db rec m s ((db.tracks.find? rec.path).map Prod.fst) =
          .store db hex (trackRowOf rec m s isoNow) ((db.tracks.find? rec.path).map Prod.fst) := by
  unfold Verdict.hashed
  cases hh : hashFile digest fs rec.path with
  | error e =>
    refine Or.inl ⟨rfl, ?_⟩
    rintro hex ⟨-, -, h, -⟩
    rw [hh] at h
    cases h
  | ok hex =>
    cases hb : db.trackBlacklist.get? hex with
    | some b =>
      refine Or.inl ⟨by simp [hb], ?_⟩
      rintro hex' ⟨-, -, h, hb'⟩
      rw [hh] at h
      cases h
      rw [hb] at hb'
      cases hb'
    | none => exact Or.inr ⟨hex, ⟨ha, hu, hh, hb⟩, by simp [hb]⟩

/-- A visit passes by, marks an unchanged row as seen, or stores the file under its hash. -/
theorem Verdict.of_cases (digest : Content → Sha) (isoNow : Text) (fs : Tree) (db : Db)
    (rec : TagRecord) :
    (Verdict.of digest isoNow fs db rec = .pass ∧ (∀ sha, ¬ Unchanged fs db rec sha) ∧
        ∀ hex, ¬ Examined digest fs db rec hex) ∨
      (∃ sha, Unchanged fs db rec sha ∧ Verdict.of digest isoNow fs db rec = .seen sha) ∨
      ∃ hex m s, Examined digest fs db rec hex ∧ lstatTimes fs rec.path = .ok (m, s) ∧
        Verdict.of digest isoNow fs db rec =
          .store db hex (trackRowOf rec m s isoNow) ((db.tracks.find? rec.path).map Prod.fst) := by
  unfold Verdict.of
  cases ha : isTranscodeArtifact rec.path with
  | true =>
    refine Or.inl ⟨rfl, ?_, ?_⟩
    · rintro sha ⟨h, -⟩
      rw [ha] at h
      cases h
    · rintro hex ⟨h, -⟩
      rw [ha] at h
      cases h
  | false =>
    simp only [Bool.false_eq_true, if_false]
    cases hl : lstatTimes fs rec.path with
    | error e =>
      refine Or.inl ⟨rfl, ?_, ?_⟩
      · rintro sha ⟨-, row, -, -, ht⟩
        rw [hl] at ht
        cases ht
      · rintro hex ⟨-, -, hh, -⟩
        unfold lstatTimes at hl
        unfold hashFile at hh
        cases hn : fs.node? rec.path with
        | none =>
          rw [hn] at hh
          cases hh
        | some n =>
          rw [hn] at hl
          cases n <;> cases hl
    | ok times =>
      obtain ⟨m, s⟩ := times
      simp only
      cases hp : db.lookupByPath rec.path with
      | none =>
        have hu : ∀ sha, ¬ Unchanged fs db rec sha :=
          not_unchanged_of_lookup hl (by simp [hp])
        have hf : (db.tracks.find? rec.path).map Prod.fst = none := by
          rw [Db.find?_lookupByPath.mp hp]
          rfl
        have hc := hashed_cases digest isoNow m s ha hu
        rw [hf] at hc
        rw [hf]
        rcases hc with hc | ⟨hex, he, hc⟩
        · exact Or.inl ⟨hc.1, hu, hc.2⟩
        · exact Or.inr (Or.inr ⟨hex, m, s, he, rfl, hc⟩)
      | some found =>
        obtain ⟨sha, mtime, size⟩ := found
        obtain ⟨row, hr, hpath, rfl, rfl⟩ := lookupByPath_eq_some.mp hp
        simp only
        split
        · next hs =>
          refine Or.inr (Or.inl ⟨sha, ⟨ha, row, hr, hpath, ?_⟩, rfl⟩)
          rw [hl, hs.1, hs.2]
        · next hs =>
          have hu : ∀ sha, ¬ Unchanged fs db rec sha := not_unchanged_of_lookup hl (by
            intro sha' mtime' size' h'
            rw [hp] at h'
            cases h'
            exact hs)
          have hf : (db.tracks.find? rec.path).map Prod.fst = some sha :=
            holder_eq_some.mpr ⟨row, hr, hpath⟩
          have hc := hashed_cases digest isoNow m s ha hu
          rw [hf] at hc
          rw [hf]
          rcases hc with hc | ⟨hex, he, hc⟩
          · exact Or.inl ⟨hc.1, hu, hc.2⟩
          · exact Or.inr (Or.inr ⟨hex, m, s, he, rfl, hc⟩)

end Branches

end Nocturne
