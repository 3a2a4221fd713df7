import Mathlib.Data.Finset.Basic
import Nocturne.Base
import Nocturne.Lib.Steps
import Nocturne.Lib.Table

/-!
# Residency on the phone

`ManifestReconciler` marks the tracks that the manifest declares and whose files are there. It
writes in several statements and keeps the set that it wrote last, so that a pass that finds the
same set writes nothing. Passes run as coroutines: between any two calls of the database another
one may go on, and any call may fail.
-/

namespace Nocturne

open Lib

/-! ### The verification -/

/-- The columns of `tracks` on the phone that the reconciler reads or writes. -/
structure PhoneTrack where
  path : Text
  sizeBytes : Int
  isResident : Bool
  deriving DecidableEq, Repr

/-- `String.removePrefix`; `none` where the prefix is not there. -/
def removePrefix (start text : Text) : Option Text :=
  if start.isPrefixOf text then some (text.drop start.length) else none

/-- `ResidencyResolver.relPath`, `ResidencyResolver.kt:59–63`. -/
def relPath (trackPath : Text) : Text :=
  match removePrefix (ascii "resident/") trackPath with
  | some rest => rest
  | none => (removePrefix (ascii "archive/") trackPath).getD trackPath

/-- The file of a track is there in full, `ResidencyResolver.kt:43–49`. -/
def isPresent (track : PhoneTrack) (actualSize : Option Int) : Bool :=
  match actualSize with
  | none => false
  | some size => if 0 < track.sizeBytes then decide (track.sizeBytes ≤ size) else decide (0 < size)

/-- `ResidencyResolver.verify`, `ResidencyResolver.kt:34–51`, with the sizes of the files by their
paths in the music tree. -/
def verify (declared : List (Text × PhoneTrack)) (disk : Table Text Int) : List Text :=
  (declared.filter fun r ↦ isPresent r.2 (disk.get? (relPath r.2.path))).map Prod.fst

/-- The rest of `chunked`, with a chunk that is not full. -/
def chunkedRest {α : Type} (size : Nat) : List α → List α → List (List α)
  | chunk, [] => if chunk.isEmpty then [] else [chunk]
  | chunk, x :: xs =>
    if chunk.length + 1 < size then chunkedRest size (chunk ++ [x]) xs
    else (chunk ++ [x]) :: chunkedRest size [] xs

/-- `Iterable.chunked(CHUNK)`. -/
def chunked {α : Type} (xs : List α) : List (List α) := chunkedRest 500 [] xs

/-! ### Passes -/

/-- Where a coroutine stands: the catalog is imported and the cache not yet invalidated; the rows of
the declared ids are looked up; they are all there; a verified set is to be applied; all residency
is about to be cleared; the verified ids are being marked. -/
inductive Stage where
  | imported
  | looking (todo : List (List Text)) (found : List (Text × PhoneTrack))
  | verified (ids : List Text)
  | clearing (ids : List Text)
  | setting (ids : List Text) (todo : List (List Text))
  deriving DecidableEq, Repr

/-- The table `tracks`, the fields of `ManifestReconciler`, and the coroutines. -/
structure Residency where
  tracks : Table Text PhoneTrack
  declaredIds : List Text
  appliedIds : Option (Finset Text)
  passes : Table Nat Stage

/-- What a coroutine does next; `ok` says whether the call goes through. -/
inductive ResidencyStep where
  /-- `CatalogImporter.importAll`: one transaction, with the ids of the manifest. -/
  | importAll (pid : Nat) (catalog : List (Text × Text × Int)) (residentIds : List Text)
  /-- The end of the import, with `invalidateResidencyCache` if it is reported as a success. -/
  | endImport (pid : Nat) (ok : Bool)
  /-- `invalidateResidencyCache`, from elsewhere. -/
  | invalidate
  /-- `reconcile` up to the lookup: the ids of the manifest, if it can be read, and whether the
  music tree is set. -/
  | reconcile (pid : Nat) (manifest : Option (List Text)) (music : Bool)
  /-- `reverify` up to the lookup. -/
  | reverify (pid : Nat) (music : Bool)
  /-- `TrackDao.byIds` for one chunk. -/
  | byIds (pid : Nat) (ok : Bool)
  /-- The probes of the files. -/
  | probe (pid : Nat) (disk : Table Text Int)
  /-- The test of `applyResidency` whether the set is unchanged. -/
  | compare (pid : Nat)
  /-- `TrackDao.clearAllResident`. -/
  | clearAllResident (pid : Nat) (ok : Bool)
  /-- `TrackDao.setResidentFor` for one chunk. -/
  | setResidentFor (pid : Nat) (ok : Bool)
  /-- The end of `applyResidency`. -/
  | apply (pid : Nat)

/-- The coroutine writes. -/
def Stage.writes : Stage → Bool
  | setting _ _ => true
  | _ => false

/-- The coroutine neither writes nor has an import to end. -/
def Stage.settled : Stage → Bool
  | setting _ _ | imported => false
  | _ => true

namespace Residency

/-- A process that has just started, on what an earlier one left in the database. -/
def start (tracks : Table Text PhoneTrack) : Residency := ⟨tracks, [], none, .empty⟩

/-- A coroutine goes on. -/
def proceed (s : Residency) (pid : Nat) (pass : Stage) : Residency :=
  { s with passes := s.passes.put pid pass }

/-- A coroutine ends. -/
def finish (s : Residency) (pid : Nat) : Residency := { s with passes := s.passes.drop pid }

/-- `UPDATE tracks SET isResident = 1 WHERE id IN (…)`. -/
def mark (tracks : Table Text PhoneTrack) (ids : List Text) : Table Text PhoneTrack :=
  ids.foldl (fun tracks id ↦
    match tracks.get? id with
    | some row => tracks.put id { row with isResident := true }
    | none => tracks) tracks

/-- `UPDATE tracks SET isResident = 0`. -/
def unmarkAll (tracks : Table Text PhoneTrack) : Table Text PhoneTrack :=
  tracks.mapRows fun row ↦ { row with isResident := false }

/-- The rows of a catalog, with the residency of a manifest. -/
def imported (catalog : List (Text × Text × Int)) (residentIds : List Text) :
    Table Text PhoneTrack :=
  catalog.foldl (fun tracks t ↦ tracks.put t.1 ⟨t.2.1, t.2.2, residentIds.contains t.1⟩) .empty

/-- What `verifyAgainstDisk` begins with, `ManifestReconciler.kt:126–142`. -/
def verifyAgainstDisk (residentIds : List Text) (music : Bool) : Stage :=
  if residentIds.isEmpty then .verified []
  else if music then .looking (chunked residentIds) []
  else .verified residentIds

/-- One step. A step of a coroutine that is not at that point does nothing. -/
def step (s : Residency) : ResidencyStep → Residency
  | .importAll pid catalog residentIds =>
    match s.passes.get? pid with
    | none => { s.proceed pid .imported with tracks := imported catalog residentIds }
    | some _ => s
  | .endImport pid ok =>
    match s.passes.get? pid with
    | some .imported => if ok then { s.finish pid with appliedIds := none } else s.finish pid
    | _ => s
  | .invalidate => { s with appliedIds := none }
  | .reconcile pid manifest music =>
    match s.passes.get? pid, manifest with
    | none, some ids => { s.proceed pid (verifyAgainstDisk ids music) with declaredIds := ids }
    | _, _ => s
  | .reverify pid music =>
    match s.passes.get? pid with
    | none =>
      if s.declaredIds.isEmpty || !music then s
      else s.proceed pid (verifyAgainstDisk s.declaredIds music)
    | some _ => s
  | .byIds pid ok =>
    match s.passes.get? pid with
    | some (.looking (batch :: todo) found) =>
      if ok then
        s.proceed pid (.looking todo (found ++ s.tracks.rows.filter fun r ↦ batch.contains r.1))
      else s.finish pid
    | _ => s
  | .probe pid disk =>
    match s.passes.get? pid with
    | some (.looking [] found) => s.proceed pid (.verified (verify found disk))
    | _ => s
  | .compare pid =>
    match s.passes.get? pid with
    | some (.verified ids) =>
      if s.appliedIds = some ids.toFinset then s.finish pid else s.proceed pid (.clearing ids)
    | _ => s
  | .clearAllResident pid ok =>
    match s.passes.get? pid with
    | some (.clearing ids) =>
      if ok then { s.proceed pid (.setting ids (chunked ids)) with tracks := unmarkAll s.tracks }
      else s.finish pid
    | _ => s
  | .setResidentFor pid ok =>
    match s.passes.get? pid with
    | some (.setting ids (batch :: todo)) =>
      if ok then { s.proceed pid (.setting ids todo) with tracks := mark s.tracks batch }
      else s.finish pid
    | _ => s
  | .apply pid =>
    match s.passes.get? pid with
    | some (.setting ids []) => { s.finish pid with appliedIds := some ids.toFinset }
    | _ => s

/-- The set with which a pass completes at a step. -/
def completes (s : Residency) : ResidencyStep → Option (Finset Text)
  | .compare pid =>
    match s.passes.get? pid with
    | some (.verified ids) => if s.appliedIds = some ids.toFinset then some ids.toFinset else none
    | _ => none
  | .apply pid =>
    match s.passes.get? pid with
    | some (.setting ids []) => some ids.toFinset
    | _ => none
  | _ => none

/-- The tracks that are resident in the database. -/
def residents (s : Residency) : Finset Text :=
  ((s.tracks.rows.filter fun r ↦ r.2.isResident).map Prod.fst).toFinset

/-! ### The properties -/

/-- No pass is in flight. -/
def Quiet (s : Residency) : Prop := ∀ pid, s.passes.get? pid = none

/-- A pass that completes leaves the database with its set. -/
def Completed (s : Residency) (a : ResidencyStep) : Prop :=
  ∀ ids, s.completes a = some ids → (s.step a).residents = ids

/-- The kept set is none, or what the database has. -/
def truthful (s : Residency) : Bool :=
  match s.appliedIds with
  | none => true
  | some ids => decide (s.residents = ids)

/-- A pass is marking its ids. -/
def writing (s : Residency) : Bool := s.passes.rows.any fun r ↦ r.2.writes

/-- An import has not invalidated the kept set yet. -/
def importing (s : Residency) : Bool := s.passes.rows.any fun r ↦ r.2 == .imported

/-- What keeps the passes apart. No pass begins to clear, no import is committed and no pass skips
its writes while another one is marking its ids; no pass skips them before an import has invalidated
the kept set; each verified id has a row; and a call fails between the clearing and the end, or at
the end of an import, only where the kept set is none or what the database has then. -/
def orderly (s : Residency) : ResidencyStep → Bool
  | .importAll _ _ _ => !s.writing
  | .endImport pid ok =>
    match s.passes.get? pid with
    | some .imported => ok || s.truthful
    | _ => true
  | .compare pid =>
    match s.passes.get? pid with
    | some (.verified ids) =>
      if s.appliedIds = some ids.toFinset then !s.writing && !s.importing else true
    | _ => true
  | .clearAllResident pid ok =>
    match s.passes.get? pid with
    | some (.clearing ids) =>
      !ok || !s.writing && ids.all fun id ↦ (s.tracks.get? id).isSome
    | _ => true
  | .setResidentFor pid ok =>
    match s.passes.get? pid with
    | some (.setting _ (_ :: _)) => ok || s.truthful
    | _ => true
  | _ => true

/-- What the steps keep where they are orderly. -/
structure Tracked (s : Residency) : Prop where
  cached : (∀ pid pass, s.passes.get? pid = some pass → pass.settled = true) → s.truthful = true
  marked : ∀ pid ids todo, s.passes.get? pid = some (.setting ids todo) →
    (∃ done, done ++ todo.flatten = ids ∧ ∀ id, id ∈ s.residents ↔ id ∈ done) ∧
      ∀ id ∈ ids, (s.tracks.get? id).isSome
  alone : ∀ pid pid' pass pass', s.passes.get? pid = some pass → s.passes.get? pid' = some pass' →
    pass.writes = true → pass'.writes = true → pid = pid'

section Tracked

variable {s : Residency} {pid : Nat} {pass : Stage} {ids : List Text}

/-! ### Chunks and rows -/

theorem flatten_chunkedRest {α : Type} (size : Nat) (chunk xs : List α) :
    (chunkedRest size chunk xs).flatten = chunk ++ xs := by
  induction xs generalizing chunk with
  | nil =>
    rw [chunkedRest]
    split
    · next h => rw [List.isEmpty_iff.mp h]; rfl
    · simp
  | cons x xs ih =>
    rw [chunkedRest]
    split
    · rw [ih, List.append_assoc]
      rfl
    · rw [List.flatten_cons, ih, List.append_assoc]
      rfl

theorem flatten_chunked {α : Type} (xs : List α) : (chunked xs).flatten = xs :=
  flatten_chunkedRest 500 [] xs

theorem mem_residents {id : Text} : id ∈ s.residents ↔
    ∃ row, s.tracks.get? id = some row ∧ row.isResident = true := by
  unfold residents
  rw [List.mem_toFinset, List.mem_map]
  constructor
  · rintro ⟨r, hr, rfl⟩
    obtain ⟨hr, hres⟩ := List.mem_filter.mp hr
    exact ⟨r.2, Table.mem_rows.mp hr, hres⟩
  · rintro ⟨row, hrow, hres⟩
    exact ⟨(id, row), List.mem_filter.mpr ⟨Table.mem_rows.mpr hrow, hres⟩, rfl⟩

theorem get?_mark (tracks : Table Text PhoneTrack) (ids : List Text) (id : Text) :
    (mark tracks ids).get? id =
      (tracks.get? id).map fun row ↦
        { row with isResident := row.isResident || decide (id ∈ ids) } := by
  induction ids generalizing tracks with
  | nil =>
    show tracks.get? id = _
    cases tracks.get? id <;> simp
  | cons x ids ih =>
    rw [mark, List.foldl_cons]
    show (mark _ ids).get? id = _
    rw [ih]
    cases hx : tracks.get? x with
    | none =>
      dsimp only
      by_cases he : id = x
      · rw [he, hx]
        rfl
      · simp [he]
    | some row =>
      dsimp only
      rw [Table.get?_put]
      by_cases he : id = x
      · rw [if_pos he, he, hx]
        simp
      · rw [if_neg he]
        simp [he]

/-- A statement adds the ids that have rows. -/
theorem mem_residents_mark {batch : List Text} {id : Text}
    (hrows : ∀ id ∈ batch, (s.tracks.get? id).isSome) :
    id ∈ residents { s with tracks := mark s.tracks batch } ↔ id ∈ s.residents ∨ id ∈ batch := by
  rw [mem_residents, mem_residents]
  dsimp only
  rw [get?_mark]
  constructor
  · rintro ⟨row, hrow, hres⟩
    obtain ⟨old, hold, rfl⟩ := Option.map_eq_some_iff.mp hrow
    rw [Bool.or_eq_true, decide_eq_true_iff] at hres
    rcases hres with hres | hin
    · exact Or.inl ⟨old, hold, hres⟩
    · exact Or.inr hin
  · rintro (⟨row, hrow, hres⟩ | hin)
    · rw [hrow]
      exact ⟨_, rfl, by simp [hres]⟩
    · obtain ⟨row, hrow⟩ := Option.isSome_iff_exists.mp (hrows id hin)
      rw [hrow]
      exact ⟨_, rfl, by simp [hin]⟩

theorem not_mem_residents_unmarkAll (s : Residency) (id : Text) :
    id ∉ residents { s with tracks := unmarkAll s.tracks } := by
  rw [mem_residents]
  rintro ⟨row, hrow, hres⟩
  rw [unmarkAll, Table.get?_mapRows] at hrow
  obtain ⟨old, -, rfl⟩ := Option.map_eq_some_iff.mp hrow
  cases hres

/-! ### Passes that do not write -/

theorem truthful_iff : s.truthful = true ↔ ∀ ids, s.appliedIds = some ids → s.residents = ids := by
  unfold truthful
  cases s.appliedIds with
  | none => simp
  | some ids => simp

theorem writing_eq_false : s.writing = false ↔
    ∀ pid pass, s.passes.get? pid = some pass → pass.writes = false := by
  unfold writing
  rw [List.any_eq_false]
  constructor
  · exact fun hall pid pass hp ↦ by simpa using hall (pid, pass) (Table.mem_rows.mpr hp)
  · exact fun hall r hr ↦ by simpa using hall r.1 r.2 (Table.mem_rows.mp hr)

theorem importing_eq_false : s.importing = false ↔
    ∀ pid pass, s.passes.get? pid = some pass → pass ≠ .imported := by
  unfold importing
  rw [List.any_eq_false]
  constructor
  · exact fun hall pid pass hp ↦ by simpa using hall (pid, pass) (Table.mem_rows.mpr hp)
  · exact fun hall r hr ↦ by simpa using hall r.1 r.2 (Table.mem_rows.mp hr)

theorem settled_iff : pass.settled = true ↔ pass.writes = false ∧ pass ≠ .imported := by
  cases pass <;> simp [Stage.settled, Stage.writes]

/-- The declared ids do not matter. -/
theorem Tracked.of_eq {s' : Residency} (h : s.Tracked) (htracks : s'.tracks = s.tracks)
    (happlied : s'.appliedIds = s.appliedIds) (hpasses : s'.passes = s.passes) : s'.Tracked := by
  have hsame : s' = { s with declaredIds := s'.declaredIds } := by
    cases s'
    simp only at htracks happlied hpasses
    rw [htracks, happlied, hpasses]
  rw [hsame]
  exact ⟨h.cached, h.marked, h.alone⟩

/-- A settled pass goes on to a settled point. -/
theorem Tracked.proceed (h : s.Tracked)
    (hold : ∀ pass, s.passes.get? pid = some pass → pass.settled = true)
    (hnew : pass.settled = true) : (s.proceed pid pass).Tracked := by
  have hget : ∀ pid' pass', (s.proceed pid pass).passes.get? pid' = some pass' →
      pass'.settled = false → s.passes.get? pid' = some pass' := by
    intro pid' pass' hp hsettled
    rw [Residency.proceed, Table.get?_put] at hp
    split at hp
    · cases hp
      rw [hnew] at hsettled
      cases hsettled
    · exact hp
  constructor
  · intro hall
    apply h.cached
    intro pid' pass' hp
    by_cases he : pid' = pid
    · rw [he] at hp
      exact hold pass' hp
    · apply hall pid' pass'
      rw [Residency.proceed, Table.get?_put_ne _ _ he]
      exact hp
  · exact fun pid' ids todo hp ↦ h.marked pid' ids todo (hget _ _ hp rfl)
  · intro pid₁ pid₂ pass₁ pass₂ hp₁ hp₂ hw₁ hw₂
    have hs : ∀ {pass : Stage}, pass.writes = true → pass.settled = false := by
      intro pass hw
      cases pass <;> simp [Stage.writes, Stage.settled] at hw ⊢
    exact h.alone pid₁ pid₂ pass₁ pass₂ (hget _ _ hp₁ (hs hw₁)) (hget _ _ hp₂ (hs hw₂)) hw₁ hw₂

/-- A pass ends: a settled one, or one that leaves the kept set true. -/
theorem Tracked.finish (h : s.Tracked)
    (hold : (∀ pass, s.passes.get? pid = some pass → pass.settled = true) ∨ s.truthful = true) :
    (s.finish pid).Tracked := by
  have hget : ∀ pid' pass', (s.finish pid).passes.get? pid' = some pass' →
      s.passes.get? pid' = some pass' := by
    intro pid' pass' hp
    rw [Residency.finish, Table.get?_drop] at hp
    split at hp
    · cases hp
    · exact hp
  constructor
  · intro hall
    rcases hold with hold | htrue
    · apply h.cached
      intro pid' pass' hp
      by_cases he : pid' = pid
      · rw [he] at hp
        exact hold pass' hp
      · apply hall pid' pass'
        rw [Residency.finish, Table.get?_drop_ne _ he]
        exact hp
    · exact htrue
  · exact fun pid' ids todo hp ↦ h.marked pid' ids todo (hget _ _ hp)
  · exact fun pid₁ pid₂ pass₁ pass₂ hp₁ hp₂ ↦
      h.alone pid₁ pid₂ pass₁ pass₂ (hget _ _ hp₁) (hget _ _ hp₂)

/-- The kept set may be dropped. -/
theorem Tracked.invalidate (h : s.Tracked) : Tracked { s with appliedIds := none } :=
  ⟨fun _ ↦ rfl, h.marked, h.alone⟩

/-! ### Passes that write -/

theorem settled_of_writes_eq_false (hwrites : pass.writes = false) (hne : pass ≠ .imported) :
    pass.settled = true := settled_iff.mpr ⟨hwrites, hne⟩

/-- An import while no pass writes. -/
theorem tracked_importAll (hw : s.writing = false) (tracks : Table Text PhoneTrack) :
    Tracked { s.proceed pid .imported with tracks := tracks } := by
  have hnone : ∀ pid' pass', (s.proceed pid .imported).passes.get? pid' = some pass' →
      pass'.writes = false := by
    intro pid' pass' hp
    rw [Residency.proceed, Table.get?_put] at hp
    split at hp
    · cases hp
      rfl
    · exact writing_eq_false.mp hw pid' pass' hp
  constructor
  · intro hall
    cases hall pid .imported (Table.get?_put_self _ _ _)
  · intro pid' ids todo hp
    cases hnone pid' _ hp
  · intro pid₁ pid₂ pass₁ pass₂ hp₁ _ hw₁ _
    rw [hnone pid₁ pass₁ hp₁] at hw₁
    cases hw₁

/-- A pass that marks its ids. -/
theorem tracked_setting {todo : List (List Text)} {tracks : Table Text PhoneTrack}
    (hothers : ∀ pid' pass', s.passes.get? pid' = some pass' → pass'.writes = true → pid' = pid)
    (hmarked : ∃ done, done ++ todo.flatten = ids ∧
      ∀ id, id ∈ residents { s with tracks := tracks } ↔ id ∈ done)
    (hrows : ∀ id ∈ ids, (tracks.get? id).isSome) :
    Tracked { s.proceed pid (.setting ids todo) with tracks := tracks } := by
  have hpid : ∀ pid' pass', (s.proceed pid (.setting ids todo)).passes.get? pid' = some pass' →
      pass'.writes = true → pid' = pid := by
    intro pid' pass' hp hw
    rw [Residency.proceed, Table.get?_put] at hp
    split at hp
    · next he => exact he
    · exact hothers pid' pass' hp hw
  constructor
  · intro hall
    cases hall pid (.setting ids todo) (Table.get?_put_self _ _ _)
  · intro pid' ids' todo' hp
    have he := hpid pid' _ hp rfl
    rw [he] at hp
    cases (Table.get?_put_self s.passes pid (Stage.setting ids todo)).symm.trans hp
    exact ⟨hmarked, hrows⟩
  · intro pid₁ pid₂ pass₁ pass₂ hp₁ hp₂ hw₁ hw₂
    rw [hpid pid₁ pass₁ hp₁ hw₁, hpid pid₂ pass₂ hp₂ hw₂]

/-- Nothing is marked when a pass has cleared. -/
theorem tracked_clear (hw : s.writing = false)
    (hrows : ∀ id ∈ ids, (s.tracks.get? id).isSome) :
    Tracked { s.proceed pid (.setting ids (chunked ids)) with tracks := unmarkAll s.tracks } := by
  apply tracked_setting
  · intro pid' pass' hp hwrites
    rw [writing_eq_false.mp hw pid' pass' hp] at hwrites
    cases hwrites
  · refine ⟨[], flatten_chunked ids, fun id ↦ ?_⟩
    simp [not_mem_residents_unmarkAll s id]
  · intro id hid
    rw [unmarkAll, Table.get?_mapRows, Option.isSome_map]
    exact hrows id hid

/-- A chunk is marked. -/
theorem Tracked.set (h : s.Tracked) {batch : List Text} {todo : List (List Text)}
    (hp : s.passes.get? pid = some (.setting ids (batch :: todo))) :
    Tracked { s.proceed pid (.setting ids todo) with tracks := mark s.tracks batch } := by
  obtain ⟨⟨done, hdone, hmem⟩, hrows⟩ := h.marked pid ids _ hp
  rw [List.flatten_cons] at hdone
  have hbatch : ∀ id ∈ batch, (s.tracks.get? id).isSome := by
    intro id hid
    apply hrows
    rw [← hdone]
    exact List.mem_append_right _ (List.mem_append_left _ hid)
  apply tracked_setting
  · exact fun pid' pass' hp' hw ↦ h.alone pid' pid pass' _ hp' hp hw rfl
  · refine ⟨done ++ batch, by rw [List.append_assoc, hdone], fun id ↦ ?_⟩
    rw [mem_residents_mark hbatch, hmem, List.mem_append]
  · intro id hid
    rw [get?_mark, Option.isSome_map]
    exact hrows id hid

/-- A pass that has marked all its ids leaves the database with them. -/
theorem Tracked.residents_eq (h : s.Tracked) (hp : s.passes.get? pid = some (.setting ids [])) :
    s.residents = ids.toFinset := by
  obtain ⟨⟨done, hdone, hmem⟩, -⟩ := h.marked pid ids [] hp
  rw [List.flatten_nil, List.append_nil] at hdone
  ext id
  rw [hmem, hdone, List.mem_toFinset]

theorem Tracked.apply (h : s.Tracked) (hp : s.passes.get? pid = some (.setting ids [])) :
    Tracked { s.finish pid with appliedIds := some ids.toFinset } := by
  have hget : ∀ pid' pass', (s.finish pid).passes.get? pid' = some pass' →
      pass'.writes = false := by
    intro pid' pass' hp'
    rw [Residency.finish, Table.get?_drop] at hp'
    split at hp'
    · cases hp'
    · next hne =>
      by_contra hw
      exact hne (h.alone pid' pid pass' _ hp' hp (by simpa using hw) rfl)
  constructor
  · exact fun _ ↦ decide_eq_true (h.residents_eq hp)
  · intro pid' ids' todo' hp'
    cases hget pid' _ hp'
  · intro pid₁ pid₂ pass₁ pass₂ hp₁ _ hw₁ _
    rw [hget pid₁ pass₁ hp₁] at hw₁
    cases hw₁

/-! ### Steps -/

theorem settled_verifyAgainstDisk (ids : List Text) (music : Bool) :
    (verifyAgainstDisk ids music).settled = true := by
  unfold verifyAgainstDisk
  repeat' split
  all_goals rfl

/-- A settled pass at its point. -/
theorem settled_of_eq (hp : s.passes.get? pid = some pass) (hsettled : pass.settled = true) :
    ∀ pass', s.passes.get? pid = some pass' → pass'.settled = true := by
  intro pass' hp'
  rw [hp] at hp'
  cases hp'
  exact hsettled

theorem settled_of_none (hp : s.passes.get? pid = none) :
    ∀ pass', s.passes.get? pid = some pass' → pass'.settled = true := by
  intro pass' hp'
  rw [hp] at hp'
  cases hp'

/-- An orderly step keeps track. -/
theorem Tracked.step (h : s.Tracked) (a : ResidencyStep) (ha : s.orderly a = true) :
    (s.step a).Tracked := by
  cases a with
  | importAll pid catalog residentIds =>
    have hw : s.writing = false := by simpa [orderly] using ha
    dsimp only [Residency.step]
    split
    · exact tracked_importAll hw _
    · exact h
  | endImport pid ok =>
    dsimp only [Residency.step]
    split
    · next hp =>
      rw [orderly, hp] at ha
      cases ok with
      | true => exact h.invalidate.finish (Or.inr rfl)
      | false => exact h.finish (Or.inr (by simpa using ha))
    · exact h
  | invalidate => exact h.invalidate
  | reconcile pid manifest music =>
    dsimp only [Residency.step]
    split
    · next _ ids hp =>
      exact (h.proceed (settled_of_none hp) (settled_verifyAgainstDisk _ music)).of_eq rfl rfl rfl
    · exact h
  | reverify pid music =>
    dsimp only [Residency.step]
    split
    · next hp =>
      split
      · exact h
      · exact h.proceed (settled_of_none hp) (settled_verifyAgainstDisk _ music)
    · exact h
  | byIds pid ok =>
    dsimp only [Residency.step]
    split
    · next hp =>
      split
      · exact h.proceed (settled_of_eq hp rfl) rfl
      · exact h.finish (Or.inl (settled_of_eq hp rfl))
    · exact h
  | probe pid disk =>
    dsimp only [Residency.step]
    split
    · next hp => exact h.proceed (settled_of_eq hp rfl) rfl
    · exact h
  | compare pid =>
    dsimp only [Residency.step]
    split
    · next hp =>
      split
      · exact h.finish (Or.inl (settled_of_eq hp rfl))
      · exact h.proceed (settled_of_eq hp rfl) rfl
    · exact h
  | clearAllResident pid ok =>
    dsimp only [Residency.step]
    split
    · next ids hp =>
      rw [orderly, hp] at ha
      cases ok with
      | true =>
        have hclear : s.writing = false ∧ ∀ id ∈ ids, (s.tracks.get? id).isSome := by
          simpa using ha
        exact tracked_clear hclear.1 hclear.2
      | false => exact h.finish (Or.inl (settled_of_eq hp rfl))
    · exact h
  | setResidentFor pid ok =>
    dsimp only [Residency.step]
    split
    · next ids batch todo hp =>
      rw [orderly, hp] at ha
      cases ok with
      | true => exact h.set hp
      | false => exact h.finish (Or.inr (by simpa using ha))
    · exact h
  | apply pid =>
    dsimp only [Residency.step]
    split
    · next ids hp => exact h.apply hp
    · exact h

/-- A pass that completes leaves the database with its set. -/
theorem Tracked.completed (h : s.Tracked) (a : ResidencyStep) (ha : s.orderly a = true) :
    s.Completed a := by
  intro set hset
  cases a with
  | compare pid =>
    dsimp only [completes] at hset
    split at hset
    · next ids hp =>
      split at hset
      · next hsame =>
        cases hset
        rw [orderly, hp] at ha
        have hquiet : s.writing = false ∧ s.importing = false := by simpa [hsame] using ha
        have htrue := h.cached fun pid' pass' hp' ↦ settled_of_writes_eq_false
          (writing_eq_false.mp hquiet.1 pid' pass' hp') (importing_eq_false.mp hquiet.2 pid' pass' hp')
        rw [Residency.step, hp]
        dsimp only
        rw [if_pos hsame]
        exact truthful_iff.mp htrue _ hsame
      · cases hset
    · cases hset
  | apply pid =>
    dsimp only [completes] at hset
    split at hset
    · next ids hp =>
      cases hset
      rw [Residency.step, hp]
      exact h.residents_eq hp
    · cases hset
  | _ => cases hset

end Tracked

/-! Two tracks whose files are there. -/

/-- Their files. -/
def twoFiles : Table Text Int :=
  (Table.empty.put (ascii "a.opus") 100).put (ascii "b.opus") 50

/-- A pass over the declared ids up to the comparison. -/
def lookUp (pid : Nat) : List ResidencyStep := [.byIds pid true, .probe pid twoFiles, .compare pid]

end Residency

end Nocturne
