import Nocturne.Lib.Steps
import Nocturne.Phone.Import
import Nocturne.Phone.Residency

/-!
# Albums with a resident track

The importer writes into each album row whether one of its tracks is resident, and the browser dims
albums by it. The reconciler changes the residency of tracks and leaves the album rows alone.
-/

namespace Nocturne

open Lib Lib.Groups Lib.Steps

/-- The four tables and the fields of `ManifestReconciler`. -/
structure Browser where
  db : Library
  declaredIds : List Text
  appliedIds : Option (Finset Text)

/-- A call; `failsAt` says which of its writes fails. -/
inductive BrowserStep where
  | importAll (catalog : CatalogJson) (manifest : Option ManifestJson) (failsAt : Option Nat)
  | invalidate
  /-- The ids of the manifest, if it can be read, the files in the music tree, if it is set, and
  whether the rows of the declared ids can be read. -/
  | reconcile (manifest : Option (List Text)) (music : Option (Table Text Int)) (readable : Bool)
      (failsAt : Option Nat)
  | reverify (music : Option (Table Text Int)) (readable : Bool) (failsAt : Option Nat)
  /-- The process ends and starts again. -/
  | restart

namespace Browser

/-- A fresh installation. -/
def start : Browser := ⟨.empty, [], none⟩

/-- What `verify` reads of a row. -/
def phoneTrack (row : TrackEntity) : PhoneTrack := ⟨row.path, row.sizeBytes, row.isResident⟩

/-- `verifyAgainstDisk`, `ManifestReconciler.kt:126–146`. -/
def verifyAgainstDisk (tracks : Table Text TrackEntity) (residentIds : List Text)
    (music : Option (Table Text Int)) : List Text :=
  if residentIds.isEmpty then []
  else
    match music with
    | none => residentIds
    | some disk =>
      verify ((chunked residentIds).flatMap fun batch ↦
        (tracks.rows.filter fun r ↦ batch.contains r.1).map fun r ↦ (r.1, phoneTrack r.2)) disk

/-- The `UPDATE`s of `applyResidency`. -/
inductive Write where
  | clearAllResident
  | setResidentFor (batch : List Text)

/-- An `UPDATE` that goes through. -/
def exec (tracks : Table Text TrackEntity) : Write → Table Text TrackEntity
  | .clearAllResident => tracks.update fun _ row ↦ { row with isResident := false }
  | .setResidentFor batch =>
    tracks.update fun id row ↦ if batch.contains id then { row with isResident := true } else row

/-- What `applyResidency` writes. -/
def writes (verifiedIds : List Text) : List Write :=
  .clearAllResident :: (chunked verifiedIds).map .setResidentFor

/-- The writes that go through before one fails. -/
def completed (failsAt : Option Nat) (script : List Write) : List Write :=
  match failsAt with
  | none => script
  | some n => script.take n

/-- `applyResidency`, `ManifestReconciler.kt:148–161`. -/
def applyResidency (s : Browser) (verifiedIds : List Text) (failsAt : Option Nat) : Browser :=
  if s.appliedIds = some verifiedIds.toFinset then s
  else
    let done := completed failsAt (writes verifiedIds)
    { s with
      db := { s.db with tracks := done.foldl exec s.db.tracks }
      appliedIds :=
        if done.length = (writes verifiedIds).length then some verifiedIds.toFinset
        else s.appliedIds }

/-- A pass over declared ids; what it throws is caught. -/
def pass (s : Browser) (ids : List Text) (music : Option (Table Text Int)) (readable : Bool)
    (failsAt : Option Nat) : Browser :=
  if readable then s.applyResidency (verifyAgainstDisk s.db.tracks ids music) failsAt else s

/-- One call. -/
def step (k : KotlinText) (s : Browser) : BrowserStep → Browser
  | .importAll catalog manifest failsAt =>
    { s with db := (Import.importAll k s.db catalog manifest failsAt).1 }
  | .invalidate => { s with appliedIds := none }
  | .reconcile (some ids) music readable failsAt =>
    pass { s with declaredIds := ids } ids music readable failsAt
  | .reconcile none _ _ _ => s
  | .reverify music readable failsAt =>
    if s.declaredIds.isEmpty || music.isNone then s
    else s.pass s.declaredIds music readable failsAt
  | .restart => { s with declaredIds := [], appliedIds := none }

/-! ### The flag and what keeps it -/

/-- An album row says whether a track of it is resident. -/
def AlbumsAgree (s : Browser) : Prop :=
  ∀ id a, s.db.albums.get? id = some a → (a.hasResident = true ↔
    ∃ trackId row, s.db.tracks.get? trackId = some row ∧ row.albumId = id ∧ row.isResident = true)

/-- The ids that a write marks. -/
def Write.marked : Write → List Text
  | .clearAllResident => []
  | .setResidentFor batch => batch

/-- The tracks marked are of the same albums as those that are resident. -/
def SameAlbums (s : Browser) (ids : List Text) : Prop :=
  ∀ id a, s.db.albums.get? id = some a →
    ((∃ trackId row, s.db.tracks.get? trackId = some row ∧ row.albumId = id ∧ trackId ∈ ids) ↔
      ∃ trackId row, s.db.tracks.get? trackId = some row ∧ row.albumId = id ∧
        row.isResident = true)

/-- A pass writes nothing, or marks tracks of the same albums. -/
def PassKeeps (s : Browser) (ids : List Text) (music : Option (Table Text Int)) (readable : Bool)
    (failsAt : Option Nat) : Prop :=
  let verifiedIds := verifyAgainstDisk s.db.tracks ids music
  let done := completed failsAt (writes verifiedIds)
  readable = true → s.appliedIds ≠ some verifiedIds.toFinset → done ≠ [] →
    s.SameAlbums (done.flatMap Write.marked)

/-- The row that `tracks` keeps of an id is the last one. -/
def lastWith (tracks : List CatalogTrackJson) (id : Text) : Option CatalogTrackJson :=
  tracks.reverse.find? fun t ↦ t.id = id

/-- An import that is committed does not replace, by a later row with the same id, the only resident
track of an album. -/
def ImportKeeps (k : KotlinText) (catalog : CatalogJson) (manifest : Option ManifestJson)
    (failsAt : Option Nat) : Prop :=
  catalog.v = 1 → (∀ m, manifest = some m → m.v = 1) →
  (∀ n, failsAt = some n →
    (Import.script k (Import.manifestIds manifest) catalog.tracks).length ≤ n) →
  ∀ t ∈ catalog.tracks, t.id ∈ Import.manifestIds manifest →
    ∃ t', lastWith catalog.tracks t'.id = some t' ∧ t'.id ∈ Import.manifestIds manifest ∧
      Import.albumId k t' = Import.albumId k t

/-- What keeps the flag of each album true. -/
def Keeps (k : KotlinText) (s : Browser) : BrowserStep → Prop
  | .importAll catalog manifest failsAt => ImportKeeps k catalog manifest failsAt
  | .reconcile (some ids) music readable failsAt => s.PassKeeps ids music readable failsAt
  | .reverify music readable failsAt =>
    s.declaredIds ≠ [] → music ≠ none → s.PassKeeps s.declaredIds music readable failsAt
  | _ => True

section Passes

variable {s : Browser} {ids : List Text}

/-! ### Passes -/

theorem get?_exec_batches (tracks : Table Text TrackEntity) (batches : List (List Text))
    (id : Text) : ((batches.map Write.setResidentFor).foldl exec tracks).get? id =
      (tracks.get? id).map fun row ↦
        { row with isResident := row.isResident || decide (id ∈ batches.flatten) } := by
  induction batches generalizing tracks with
  | nil =>
    show tracks.get? id = _
    cases tracks.get? id <;> simp
  | cons batch batches ih =>
    rw [List.map_cons, List.foldl_cons, ih, exec, Table.get?_update, Option.map_map]
    congr 1
    funext row
    by_cases hin : id ∈ batch
    · simp [hin]
    · simp [hin]

/-- After the clearing, what is marked is resident and nothing else. -/
theorem get?_exec_writes (tracks : Table Text TrackEntity) (batches : List (List Text))
    (id : Text) :
    ((Write.clearAllResident :: batches.map Write.setResidentFor).foldl exec tracks).get? id =
      (tracks.get? id).map fun row ↦ { row with isResident := decide (id ∈ batches.flatten) } := by
  rw [List.foldl_cons, get?_exec_batches, exec, Table.get?_update, Option.map_map]
  congr 1

/-- The writes of a pass that fails begin with the clearing, if they begin. -/
theorem completed_writes (ids : List Text) (failsAt : Option Nat) : completed failsAt (writes ids) = [] ∨
    ∃ batches : List (List Text), completed failsAt (writes ids) =
      .clearAllResident :: batches.map Write.setResidentFor := by
  unfold completed writes
  cases failsAt with
  | none => exact Or.inr ⟨chunked ids, rfl⟩
  | some n =>
    cases n with
    | zero => exact Or.inl rfl
    | succ n => exact Or.inr ⟨(chunked ids).take n, by simp⟩

theorem marked_batches (batches : List (List Text)) :
    (Write.clearAllResident :: batches.map Write.setResidentFor).flatMap Write.marked =
      batches.flatten := by
  rw [List.flatMap_cons, List.flatMap_map]
  exact List.flatMap_id'

/-- A pass keeps the flags exactly where it marks tracks of the same albums. -/
theorem pass_keeps_iff {music : Option (Table Text Int)} {readable : Bool}
    {failsAt : Option Nat} (h : s.AlbumsAgree) :
    (s.pass ids music readable failsAt).AlbumsAgree ↔ s.PassKeeps ids music readable failsAt := by
  unfold pass PassKeeps
  cases readable with
  | false => exact iff_of_true h fun hr ↦ by cases hr
  | true =>
    dsimp only
    rw [if_pos rfl, applyResidency]
    by_cases happlied : s.appliedIds = some (verifyAgainstDisk s.db.tracks ids music).toFinset
    · rw [if_pos happlied]
      exact iff_of_true h fun _ hne ↦ absurd happlied hne
    rw [if_neg happlied]
    rcases completed_writes (verifyAgainstDisk s.db.tracks ids music) failsAt with
      hnone | ⟨batches, hdone⟩
    · rw [hnone]
      exact iff_of_true h fun _ _ hne ↦ absurd rfl hne
    rw [hdone, marked_batches]
    have hresident : ∀ id, (∃ trackId row,
        ((Write.clearAllResident :: batches.map Write.setResidentFor).foldl exec
          s.db.tracks).get? trackId = some row ∧ row.albumId = id ∧ row.isResident = true) ↔
        ∃ trackId row, s.db.tracks.get? trackId = some row ∧ row.albumId = id ∧
          trackId ∈ batches.flatten := by
      intro id
      constructor
      · rintro ⟨trackId, row, hrow, hid, hres⟩
        rw [get?_exec_writes, Option.map_eq_some_iff] at hrow
        obtain ⟨old, hold, rfl⟩ := hrow
        exact ⟨trackId, old, hold, hid, of_decide_eq_true hres⟩
      · rintro ⟨trackId, row, hrow, hid, hin⟩
        refine ⟨trackId, { row with isResident := true }, ?_, hid, rfl⟩
        rw [get?_exec_writes, hrow]
        simp only [Option.map_some, hin, decide_true]
    constructor
    · intro hafter _ _ _ id a ha
      rw [← hresident id, ← h id a ha]
      exact (hafter id a ha).symm
    · intro hkeeps id a ha
      have hsame := hkeeps rfl happlied (by simp) id a ha
      rw [h id a ha, ← hsame]
      exact (hresident id).symm

end Passes

section Imports

variable {k : KotlinText} {residentIds : List Text} {tracks : List CatalogTrackJson}

/-! ### Imports -/

theorem get?_rebuilt (trackId : Text) (row : TrackEntity) :
    (Import.rebuilt k residentIds tracks).tracks.get? trackId = some row ↔
      ∃ t, lastWith tracks trackId = some t ∧ trackEntity k residentIds t = row := by
  show (fill TrackEntity.id .empty (tracks.map (trackEntity k residentIds))).get? trackId =
    some row ↔ _
  rw [get?_fill, Table.get?_empty, Option.or_none, ← List.map_reverse, List.find?_map,
    Option.map_eq_some_iff]
  rfl

/-- The album rows are the accumulators. -/
theorem albums_rebuilt (id : Text) : (Import.rebuilt k residentIds tracks).albums.get? id =
    (collect (fun t ↦ some (Import.albumId k t)) (Import.newAlbum k)
      (Import.addToAlbum residentIds) tracks).get? id := by
  show (fill AlbumEntity.id .empty
    ((Import.Loop.run k residentIds tracks).albums.rows.map fun r ↦ r.2)).get? id = _
  rw [Import.albums_run, get?_fill_rows (f := fun a ↦ a) fun id a h ↦ (Import.album_holds h).1]
  exact Option.map_id'

theorem hasResident_rebuilt {id : Text} {a : AlbumEntity}
    (h : (Import.rebuilt k residentIds tracks).albums.get? id = some a) :
    a.hasResident = true ↔
      ∃ t ∈ tracks, Import.albumId k t = id ∧ t.id ∈ residentIds := by
  rw [albums_rebuilt] at h
  rw [(Import.album_holds h).2.2.2, List.any_map, List.any_eq_true]
  constructor
  · rintro ⟨t, ht, hres⟩
    obtain ⟨hin, hkey⟩ := mem_group.mp ht
    exact ⟨t, hin, Option.some.inj hkey, of_decide_eq_true hres⟩
  · rintro ⟨t, hin, hkey, hres⟩
    exact ⟨t, mem_group.mpr ⟨hin, congrArg some hkey⟩, decide_eq_true hres⟩

theorem lastWith_eq_some {id : Text} {t : CatalogTrackJson} (h : lastWith tracks id = some t) :
    t ∈ tracks ∧ t.id = id :=
  ⟨List.mem_reverse.mp (List.mem_of_find?_eq_some h), by simpa using List.find?_some h⟩

theorem withTransaction_eq (db : Library) (script : List Statement) (failsAt : Option Nat) :
    (withTransaction db script failsAt).getD db =
      if ∀ n, failsAt = some n → script.length ≤ n then script.foldl Library.exec db else db := by
  unfold withTransaction
  cases failsAt with
  | none => rw [if_pos fun n hn ↦ by cases hn]; rfl
  | some n =>
    dsimp only
    by_cases hn : n < script.length
    · have hnot : ¬ ∀ m, some n = some m → script.length ≤ m :=
        fun hall ↦ absurd (hall n rfl) (Nat.not_le.mpr hn)
      rw [if_pos hn, if_neg hnot]
      rfl
    · have hall : ∀ m, some n = some m → script.length ≤ m :=
        fun m hm ↦ by cases hm; exact Nat.not_lt.mp hn
      rw [if_neg hn, if_pos hall]
      rfl

variable (k residentIds) in
/-- Each track has an album row. -/
theorem album_of_track {t : CatalogTrackJson} (h : t ∈ tracks) :
    ∃ a, (Import.rebuilt k residentIds tracks).albums.get? (Import.albumId k t) =
      some a := by
  rw [albums_rebuilt]
  apply Option.ne_none_iff_exists'.mp
  intro hnone
  have hmem : t ∈ group (fun t ↦ some (Import.albumId k t)) (Import.albumId k t) tracks :=
    mem_group.mpr ⟨h, rfl⟩
  rw [get?_collect_eq_none.mp hnone] at hmem
  cases hmem

/-- An import keeps the flags exactly where no later row takes an album its resident tracks. -/
theorem import_keeps_iff {s : Browser} {catalog : CatalogJson} {manifest : Option ManifestJson}
    {failsAt : Option Nat} (h : s.AlbumsAgree) :
    (s.step k (.importAll catalog manifest failsAt)).AlbumsAgree ↔
      ImportKeeps k catalog manifest failsAt := by
  by_cases hv : catalog.v = 1
  swap
  · have hsame : (Import.importAll k s.db catalog manifest failsAt).1 = s.db := by
      rw [Import.importAll, if_pos hv]
    rw [step, hsame]
    exact iff_of_true h fun hv' ↦ absurd hv' hv
  by_cases hm : ∀ m, manifest = some m → m.v = 1
  swap
  · have hsame : (Import.importAll k s.db catalog manifest failsAt).1 = s.db := by
      rw [Import.importAll, if_neg (not_not.mpr hv)]
      cases manifest with
      | none => exact absurd (fun m hm' ↦ by cases hm') hm
      | some m =>
        have hmv : m.v ≠ 1 := fun he ↦ hm fun m' hm' ↦ by cases hm'; exact he
        rw [Import.residentIdsOf, if_neg hmv]
    rw [step, hsame]
    exact iff_of_true h fun _ hm' ↦ absurd hm' hm
  rw [step, Import.tables_importAll hv hm, withTransaction_eq]
  by_cases hcommit : ∀ n, failsAt = some n →
      (Import.script k (Import.manifestIds manifest) catalog.tracks).length ≤ n
  swap
  · rw [if_neg hcommit]
    exact iff_of_true h fun _ _ hc ↦ absurd hc hcommit
  rw [if_pos hcommit, Import.exec_script]
  constructor
  · intro hagree _ _ _ t ht hres
    obtain ⟨a, ha⟩ := album_of_track k (Import.manifestIds manifest) ht
    obtain ⟨trackId, row, hrow, hid, hrowres⟩ :=
      (hagree _ a ha).mp ((hasResident_rebuilt ha).mpr ⟨t, ht, rfl, hres⟩)
    obtain ⟨t', hlast, rfl⟩ := (get?_rebuilt trackId row).mp hrow
    refine ⟨t', ?_, of_decide_eq_true hrowres, hid⟩
    rw [(lastWith_eq_some hlast).2]
    exact hlast
  · intro hkeeps id a ha
    rw [hasResident_rebuilt ha]
    constructor
    · rintro ⟨t, ht, rfl, hres⟩
      obtain ⟨t', hlast, hres', hid⟩ := hkeeps hv hm hcommit t ht hres
      exact ⟨t'.id, _, (get?_rebuilt _ _).mpr ⟨t', hlast, rfl⟩, hid,
        decide_eq_true hres'⟩
    · rintro ⟨trackId, row, hrow, hid, hres⟩
      obtain ⟨t, hlast, rfl⟩ := (get?_rebuilt trackId row).mp hrow
      exact ⟨t, (lastWith_eq_some hlast).1, hid, of_decide_eq_true hres⟩

end Imports

/-- One call keeps the flags exactly under its condition. -/
theorem step_keeps_iff (k : KotlinText) (s : Browser) (a : BrowserStep) (h : s.AlbumsAgree) :
    (s.step k a).AlbumsAgree ↔ s.Keeps k a := by
  cases a with
  | importAll catalog manifest failsAt => exact import_keeps_iff h
  | invalidate => exact iff_of_true h trivial
  | restart => exact iff_of_true h trivial
  | reconcile manifest music readable failsAt =>
    cases manifest with
    | none => exact iff_of_true h trivial
    | some ids =>
      exact pass_keeps_iff (s := { s with declaredIds := ids }) h
  | reverify music readable failsAt =>
    rw [step, Keeps]
    by_cases hnone : (s.declaredIds.isEmpty || music.isNone) = true
    · rw [if_pos hnone]
      rw [Bool.or_eq_true, List.isEmpty_iff, Option.isNone_iff_eq_none] at hnone
      refine iff_of_true h fun hids hmusic ↦ ?_
      rcases hnone with hids' | hmusic'
      · exact absurd hids' hids
      · exact absurd hmusic' hmusic
    · rw [if_neg hnone, pass_keeps_iff h]
      rw [Bool.or_eq_true, List.isEmpty_iff, Option.isNone_iff_eq_none, not_or] at hnone
      exact ⟨fun hkeeps _ _ ↦ hkeeps, fun hkeeps ↦ hkeeps hnone.1 hnone.2⟩

/-- From a fresh installation on, the album rows say which albums have a resident track exactly along
the runs in which every pass marks tracks of the same albums as before and no import replaces the
resident tracks of an album. -/
theorem albums_agree_iff (k : KotlinText) (run : List BrowserStep) :
    Always (step k) AlbumsAgree start run ↔ Meets (step k) (Keeps k) start run :=
  always_iff_meets (step_keeps_iff k) fun _ _ h ↦ by cases h

/-- A track arrives after the import. -/
def arrival : List BrowserStep :=
  [.importAll ⟨1, [], [Import.sampleTrack (ascii "a") 1]⟩ none none,
    .reconcile (some [ascii "a"]) (some (Table.empty.put (ascii "a") 1)) true none]

/-- Its album stays dimmed. -/
theorem album_stays_dimmed : ¬ Always (step Import.plainText) AlbumsAgree start arrival := by
  intro h
  have hlast := h.last (Import.plainText.sha256Hex (ascii "X y")) _ rfl
  have hflag := hlast.mpr ⟨ascii "a", _, rfl, rfl, rfl⟩
  revert hflag
  decide

end Browser

end Nocturne
