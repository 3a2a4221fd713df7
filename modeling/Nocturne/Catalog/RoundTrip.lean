import Nocturne.Catalog.Columns

/-!
# The catalog through the desktop and back

`catalog_emit`, then `catalog_import` into a fresh database with the same library root. Each emitted
row comes back exactly when its columns do, and no two rows are shown with one path.
-/

namespace Nocturne

open Lib Lib.JsonTree

variable {jsonLoads : Text → Option JsonTree} {jsonDumps : JsonTree → Text} {root : Option Text}
  {sha : Sha} {row : TrackColumns} {t : CatalogTables} {db : Db} {now : Int}

/-- An imported row that says what the emitted one did. -/
structure SameTrack (row : TrackColumns) (r : TrackRow) : Prop where
  path : r.path = splitPath row.path
  mtimeNs : r.mtimeNs = row.mtimeNs.toInt
  sizeBytes : r.sizeBytes = row.sizeBytes.toInt
  format : r.format = row.format
  title : r.title = row.title
  artist : r.artist = row.artist
  album : r.album = row.album
  albumArtist : r.albumArtist = row.albumArtist
  genre : r.genre = row.genre
  durationMs : r.durationMs = row.durationMs.map Int64.toInt
  trackNumber : numeric r.trackNumber = numeric row.trackNumber
  discNumber : numeric r.discNumber = numeric row.discNumber
  year : numeric r.year = numeric row.year

/-- A database with one row for each emitted one, under its hash, and no others. -/
structure RoundTrips (t : CatalogTables) (db : Db) : Prop where
  rows : ∀ sha, (db.tracks.get? sha).isSome ↔ ∃ row, (sha, row) ∈ t.select
  same : ∀ {sha row r}, (sha, row) ∈ t.select → db.tracks.get? sha = some r → SameTrack row r

/-- The columns of an emitted row that have to come back. -/
structure KeptColumns (jsonLoads : Text → Option JsonTree) (jsonDumps : JsonTree → Text)
    (root : Option Text) (row : TrackColumns) : Prop where
  path : KeptPath row.path root
  format : ∀ s, row.format = some s → KeptText s
  title : ∀ s, row.title = some s → KeptText s
  artist : ∀ s, row.artist = some s → KeptValues jsonLoads jsonDumps s
  album : ∀ s, row.album = some s → KeptText s
  albumArtist : ∀ s, row.albumArtist = some s → KeptValues jsonLoads jsonDumps s
  genre : ∀ s, row.genre = some s → KeptValues jsonLoads jsonDumps s
  duration : ∀ n, row.durationMs = some n → 0 ≤ n.toInt
  track : ∀ n, numeric row.trackNumber = some n → FitsShort n
  disc : ∀ n, numeric row.discNumber = some n → FitsShort n
  year : ∀ n, numeric row.year = some n → FitsShort n

/-- An emitted row that comes back: its object also has an id, a path and a date, in UTF-8. -/
structure KeptRow (jsonLoads : Text → Option JsonTree) (jsonDumps : JsonTree → Text)
    (root : Option Text) (sha : Sha) (row : TrackColumns) : Prop where
  sha : KeptText sha
  rel : utf8Valid (makeRelative (columnText row.path) root) = true
  dateAdded : utf8Valid (columnText row.dateAdded) = true
  columns : KeptColumns jsonLoads jsonDumps root row

/-! ### One row -/

/-- What an object is imported as. -/
structure ImportsAs (jsonLoads : Text → Option JsonTree) (jsonDumps : JsonTree → Text)
    (root : Option Text) (sha : Sha) (row : TrackColumns) (id : Sha) (r : TrackRow) : Prop where
  id : id = columnText sha ∧ utf8Valid (columnText sha) = true
  rel : utf8Valid (makeRelative (columnText row.path) root) = true
  restored : restoredRow jsonDumps root (makeRelative (columnText row.path) root)
    (trackObject jsonLoads root sha row) = some r

/-- A row that is imported has its date in UTF-8. -/
theorem ImportsAs.dateAdded {id : Sha} {r : TrackRow}
    (h : ImportsAs jsonLoads jsonDumps root sha row id r) :
    utf8Valid (columnText row.dateAdded) = true := by
  have hrestored := h.restored
  unfold restoredRow at hrestored
  obtain ⟨date, hdate, -⟩ := Option.map_eq_some_iff.mp hrestored
  rw [jsonStrOrNull_column ((lookup_trackObject 14 rfl).trans (sorted_jsonString _))] at hdate
  exact hdate.1

/-- A row that is imported has an id without NUL, in UTF-8. -/
theorem ImportsAs.id_eq {id : Sha} {r : TrackRow}
    (h : ImportsAs jsonLoads jsonDumps root sha row id r) : 0 ∉ id ∧ utf8Valid id = true := by
  rw [h.id.1]
  exact ⟨zero_notMem_columnText sha, h.id.2⟩

/-- Which columns come back in an imported row, whose date may be that of an earlier one. -/
theorem ImportsAs.same_iff {id : Sha} {r : TrackRow} (hloads : QuotesStrings jsonLoads)
    (hdumps : PrintsText jsonDumps) (hroot : ∀ s, root = some s → 0 ∉ s)
    (h : ImportsAs jsonLoads jsonDumps root sha row id r) (date : Text) :
    SameTrack row { r with dateAdded := date } ↔ KeptColumns jsonLoads jsonDumps root row := by
  have hmem {key : Text} {v : Option JsonTree} (i : Nat)
      (h : (trackMembers jsonLoads root sha row)[i]? = some (key, v)) := lookup_trackObject i h
  have hrestored := h.restored
  unfold restoredRow at hrestored
  obtain ⟨_, -, rfl⟩ := Option.map_eq_some_iff.mp hrestored
  have hpath := @path_back root row.path hroot
  have htitle := text_back ((hmem 2 rfl).trans (sorted_text _))
  have hartist := values_back hloads hdumps (hmem 3 rfl)
  have halbum := text_back ((hmem 4 rfl).trans (sorted_text _))
  have halbumArtist := values_back hloads hdumps (hmem 5 rfl)
  have htrack := numeric_back ((hmem 6 rfl).trans (sorted_asJsonTrackInt _))
  have hdisc := numeric_back ((hmem 7 rfl).trans (sorted_asJsonTrackInt _))
  have hyear := numeric_back ((hmem 8 rfl).trans (sorted_asJsonTrackInt _))
  have hgenre := values_back hloads hdumps (hmem 9 rfl)
  have hduration := duration_back ((hmem 10 rfl).trans (sorted_duration _))
  have hsize := long_back (hmem 11 rfl)
  have hformat := text_back ((hmem 12 rfl).trans (sorted_text _))
  have hmtime := long_back (hmem 13 rfl)
  constructor
  · intro h
    exact ⟨hpath.mp h.path, hformat.mp h.format, htitle.mp h.title, hartist.mp h.artist,
      halbum.mp h.album, halbumArtist.mp h.albumArtist, hgenre.mp h.genre,
      hduration.mp h.durationMs, htrack.mp h.trackNumber, hdisc.mp h.discNumber,
      hyear.mp h.year⟩
  · intro h
    exact ⟨hpath.mpr h.path, hmtime, hsize, hformat.mpr h.format, htitle.mpr h.title,
      hartist.mpr h.artist, halbum.mpr h.album, halbumArtist.mpr h.albumArtist,
      hgenre.mpr h.genre, hduration.mpr h.duration, htrack.mpr h.track, hdisc.mpr h.disc,
      hyear.mpr h.year⟩

/-- A row that comes back is imported under its hash. -/
theorem KeptRow.importsAs (h : KeptRow jsonLoads jsonDumps root sha row) :
    ∃ r, ImportsAs jsonLoads jsonDumps root sha row sha r := by
  have hdate : jsonStrOrNull (trackObject jsonLoads root sha row) (ascii "date_added") =
      some (columnText row.dateAdded) :=
    (jsonStrOrNull_column ((lookup_trackObject 14 rfl).trans (sorted_jsonString _))).mpr
      ⟨h.dateAdded, rfl⟩
  have hsha := columnText_of_notMem h.sha.1
  have hvalid : utf8Valid (columnText sha) = true := by
    rw [hsha]
    exact h.sha.2
  obtain ⟨r, hr⟩ : ∃ r, restoredRow jsonDumps root (makeRelative (columnText row.path) root)
      (trackObject jsonLoads root sha row) = some r := by
    unfold restoredRow
    rw [hdate]
    exact ⟨_, rfl⟩
  exact ⟨r, ⟨hsha.symm, hvalid⟩, h.rel, hr⟩

/-! ### The import as a function of the database -/

/-- The database after `track_repo_upsert`, where that succeeds. -/
def Db.upsertTrack (db : Db) (sha : Sha) (row : Option TrackRow) : Option Db :=
  row.bind fun row ↦
    if (db.tracks.get? sha).isSome then db.updateTrack sha row else db.insertTrack sha row

/-- What the import of one track makes of the database. -/
def importStep (jsonDumps : JsonTree → Text) (root : Option Text) (db : Db) : JsonTree → Db
  | .object t =>
    match jsonStrOrNull t (ascii "id"), jsonStrOrNull t (ascii "path") with
    | some sha, some rel => (db.upsertTrack sha (restoredRow jsonDumps root rel t)).getD db
    | _, _ => db
  | _ => db

/-- An upsert that goes through stores the row, where its constraints allow it. -/
theorem eval_trackRepoUpsert {w : World Nat} (hconn : w.conn = ⟨db, none⟩) (row : Option TrackRow) :
    ((trackRepoUpsert sha row).eval w).2.conn = ⟨(db.upsertTrack sha row).getD db, none⟩ := by
  have hview : w.conn.view = db := by
    rw [hconn]
    rfl
  unfold trackRepoUpsert trackRepoLookupBySha256 Db.upsertTrack
  rw [Proc.eval_bind, eval_query, hview]
  by_cases hsome : (db.tracks.get? sha).isSome = true
  · simp only [hsome, if_true]
    rw [Proc.eval_bind, eval_exec, hview]
    cases row.bind fun row ↦ db.updateTrack sha row with
    | none => exact hconn
    | some db' =>
      show w.conn.setView db' = _
      rw [hconn]
      rfl
  · rw [Bool.not_eq_true] at hsome
    simp only [hsome, Bool.false_eq_true, if_false]
    rw [Proc.eval_bind, eval_exec, hview]
    cases row.bind fun row ↦ db.insertTrack sha row with
    | none => exact hconn
    | some db' =>
      show w.conn.setView db' = _
      rw [hconn]
      rfl

/-- One object of the catalog, when every statement goes through. -/
theorem eval_importTrack {w : World Nat} (hconn : w.conn = ⟨db, none⟩) (v : JsonTree) :
    ((importTrack jsonDumps root v).eval w).2.conn = ⟨importStep jsonDumps root db v, none⟩ := by
  unfold importTrack importStep
  cases v with
  | object t =>
    dsimp only
    cases jsonStrOrNull t (ascii "id") with
    | none => exact hconn
    | some sha =>
      cases jsonStrOrNull t (ascii "path") with
      | none => exact hconn
      | some rel =>
        dsimp only
        have hup := @eval_trackRepoUpsert sha db w hconn (restoredRow jsonDumps root rel t)
        rw [Proc.eval_bind]
        generalize (trackRepoUpsert sha (restoredRow jsonDumps root rel t)).eval w = r at hup ⊢
        obtain ⟨ok, w'⟩ := r
        cases ok with
        | true => exact hup
        | false => exact hup
  | _ => exact hconn

/-- All objects of the catalog, when every statement goes through. -/
theorem eval_each_importTrack {w : World Nat} (hconn : w.conn = ⟨db, none⟩) (vs : List JsonTree) :
    ((Proc.each (importTrack jsonDumps root) vs).eval w).2.conn =
      ⟨vs.foldl (importStep jsonDumps root) db, none⟩ := by
  induction vs generalizing w db with
  | nil => exact hconn
  | cons v vs ih =>
    rw [Proc.each, Proc.eval_bind, List.foldl_cons]
    exact ih (eval_importTrack hconn v)

/-- The importer comes to the objects that the emitter has written. -/
theorem catalogTracks_emit :
    catalogTracks (catalogEmit jsonLoads now t) = some (trackObjects jsonLoads t) := by
  obtain ⟨o, hemit, hv, -, htracks⟩ := @catalogEmit_members jsonLoads now t
  rw [hemit]
  simp only [catalogTracks, hv, htracks]

/-- What the import of an emitted catalog leaves in the database. -/
theorem eval_catalogImport (m : Machine)
    (hroot : loadLibraryRoot m.db.catalogTables = loadLibraryRoot t) :
    ((catalogImport jsonDumps (catalogEmit jsonLoads now t)).eval (m.start 0)).2.stop.db =
      (trackObjects jsonLoads t).foldl (importStep jsonDumps (loadLibraryRoot t)) m.db := by
  have hread : ((libraryRootOf).eval (m.start 0)) = (loadLibraryRoot t, m.start 0) := by
    rw [← hroot]
    rfl
  unfold catalogImport
  rw [catalogTracks_emit]
  dsimp only
  rw [Proc.eval_bind, hread]
  dsimp only
  rw [Proc.eval_bind]
  have heach := @eval_each_importTrack jsonDumps (loadLibraryRoot t) m.db (m.start 0) rfl
    (trackObjects jsonLoads t)
  exact congrArg Conn.committed heach

/-! ### Where the imported rows come from -/

/-- What an object changes of the rows: it is imported under one hash, or not at all. -/
theorem importStep_cases (x : Sha × TrackColumns) :
    importStep jsonDumps root db (.object (trackObject jsonLoads root x.1 x.2)) = db ∨
      ∃ id r date, ImportsAs jsonLoads jsonDumps root x.1 x.2 id r ∧
        ∀ s, (importStep jsonDumps root db
          (.object (trackObject jsonLoads root x.1 x.2))).tracks.get? s =
            if s = id then some { r with dateAdded := date } else db.tracks.get? s := by
  have hrelative := jsonStrOrNull_string
    ((@lookup_trackObject jsonLoads root x.1 x.2 (ascii "path") _ 1 rfl).trans
      (sorted_jsonString _))
  unfold importStep
  dsimp only
  cases hid : jsonStrOrNull (trackObject jsonLoads root x.1 x.2) (ascii "id") with
  | none => exact Or.inl rfl
  | some id =>
    rw [hrelative]
    by_cases hrel : utf8Valid (makeRelative (columnText x.2.path) root) = true
    · rw [if_pos hrel]
      dsimp only
      cases hrestored : restoredRow jsonDumps root (makeRelative (columnText x.2.path) root)
          (trackObject jsonLoads root x.1 x.2) with
      | none => exact Or.inl rfl
      | some r =>
        have hcolumn := (jsonStrOrNull_column ((lookup_trackObject 0 rfl).trans
          (sorted_jsonString _))).mp hid
        have himports : ImportsAs jsonLoads jsonDumps root x.1 x.2 id r :=
          ⟨⟨hcolumn.2.symm, hcolumn.1⟩, hrel, hrestored⟩
        unfold Db.upsertTrack
        rw [Option.bind_some]
        cases hold : db.tracks.get? id with
        | none =>
          rw [Option.isSome_none, if_neg Bool.false_ne_true]
          unfold Db.insertTrack
          cases hins : db.tracks.insert? id r with
          | none => exact Or.inl rfl
          | some tracks =>
            exact Or.inr ⟨id, r, r.dateAdded, himports, fun s ↦ UniqueTable.get?_insert? hins⟩
        | some old =>
          rw [Option.isSome_some, if_pos rfl]
          unfold Db.updateTrack
          rw [hold]
          dsimp only
          cases hrep : db.tracks.replace? id { r with dateAdded := old.dateAdded } with
          | none => exact Or.inl rfl
          | some tracks =>
            refine Or.inr ⟨id, r, old.dateAdded, himports, fun s ↦ ?_⟩
            exact UniqueTable.get?_replace? hrep (by rw [hold]; exact Option.some_ne_none _)
    · rw [if_neg hrel]
      exact Or.inl rfl

/-- Each row of the database was imported from one of the emitted rows. -/
def Sourced (jsonLoads : Text → Option JsonTree) (jsonDumps : JsonTree → Text)
    (root : Option Text) (rows : List (Sha × TrackColumns)) (db : Db) : Prop :=
  ∀ id r, db.tracks.get? id = some r → ∃ x ∈ rows, ∃ r₀ date,
    ImportsAs jsonLoads jsonDumps root x.1 x.2 id r₀ ∧ r = { r₀ with dateAdded := date }

/-- A row that is stored comes from a row of the catalog. -/
theorem Sourced.step {rows : List (Sha × TrackColumns)} {x : Sha × TrackColumns} (hx : x ∈ rows)
    (h : Sourced jsonLoads jsonDumps root rows db) : Sourced jsonLoads jsonDumps root rows
      (importStep jsonDumps root db (.object (trackObject jsonLoads root x.1 x.2))) := by
  rcases @importStep_cases jsonLoads jsonDumps root db x with hsame | ⟨id, r, date, himports, hget⟩
  · rw [hsame]
    exact h
  · intro s r' hr'
    rw [hget] at hr'
    by_cases hs : s = id
    · rw [if_pos hs] at hr'
      rw [hs]
      exact ⟨x, hx, r, date, himports, (Option.some.inj hr').symm⟩
    · rw [if_neg hs] at hr'
      exact h s r' hr'

/-- The emitted rows, imported one after the other. -/
def importRows (jsonLoads : Text → Option JsonTree) (jsonDumps : JsonTree → Text)
    (root : Option Text) (rows : List (Sha × TrackColumns)) (db : Db) : Db :=
  (rows.map fun x ↦ JsonTree.object (trackObject jsonLoads root x.1 x.2)).foldl
    (importStep jsonDumps root) db

theorem importRows_cons (x : Sha × TrackColumns) (rows : List (Sha × TrackColumns)) :
    importRows jsonLoads jsonDumps root (x :: rows) db =
      importRows jsonLoads jsonDumps root rows
        (importStep jsonDumps root db (.object (trackObject jsonLoads root x.1 x.2))) := rfl

/-- All rows that are stored come from rows of the catalog. -/
theorem sourced_importRows {rows xs : List (Sha × TrackColumns)} (hxs : ∀ x ∈ xs, x ∈ rows)
    (h : Sourced jsonLoads jsonDumps root rows db) :
    Sourced jsonLoads jsonDumps root rows (importRows jsonLoads jsonDumps root xs db) := by
  induction xs generalizing db with
  | nil => exact h
  | cons x xs ih =>
    rw [importRows_cons]
    exact ih (fun y hy ↦ hxs y (.tail _ hy)) (h.step (hxs x (.head _)))

/-! ### Rows that come back -/

/-- The object of a row that comes back is inserted where its hash and its path are free. -/
theorem importStep_kept {x : Sha × TrackColumns} {r : TrackRow}
    (h : ImportsAs jsonLoads jsonDumps root x.1 x.2 x.1 r) (hfree : db.tracks.get? x.1 = none)
    (hpath : ∀ s r', db.tracks.get? s = some r' → r'.path ≠ r.path) (s : Sha) :
    (importStep jsonDumps root db (.object (trackObject jsonLoads root x.1 x.2))).tracks.get? s =
      if s = x.1 then some r else db.tracks.get? s := by
  have hid : jsonStrOrNull (trackObject jsonLoads root x.1 x.2) (ascii "id") = some x.1 :=
    (jsonStrOrNull_column ((lookup_trackObject 0 rfl).trans (sorted_jsonString _))).mpr
      ⟨h.id.2, h.id.1.symm⟩
  have hrelative := jsonStrOrNull_string
    ((@lookup_trackObject jsonLoads root x.1 x.2 (ascii "path") _ 1 rfl).trans
      (sorted_jsonString _))
  rw [if_pos h.rel] at hrelative
  have hinsert : (db.tracks.insert? x.1 r).isSome :=
    UniqueTable.insert?_isSome.mpr ⟨hfree, UniqueTable.find?_eq_none.mpr hpath⟩
  obtain ⟨tracks, htracks⟩ := Option.isSome_iff_exists.mp hinsert
  unfold importStep
  dsimp only
  rw [hid, hrelative]
  dsimp only
  unfold Db.upsertTrack Db.insertTrack
  rw [h.restored, Option.bind_some, hfree, Option.isSome_none, if_neg Bool.false_ne_true, htracks]
  exact UniqueTable.get?_insert? htracks

/-- Rows that come back, with paths of their own, are all imported. -/
theorem importRows_kept {rows : List (Sha × TrackColumns)} (hloads : QuotesStrings jsonLoads)
    (hdumps : PrintsText jsonDumps) (hroot : ∀ s, root = some s → 0 ∉ s)
    (hkept : ∀ x ∈ rows, KeptRow jsonLoads jsonDumps root x.1 x.2)
    (hkeys : (rows.map Prod.fst).Nodup) (hpaths : (rows.map fun x ↦ x.2.path).Nodup)
    (hfree : ∀ x ∈ rows, db.tracks.get? x.1 = none)
    (hown : ∀ x ∈ rows, ∀ s r, db.tracks.get? s = some r → r.path ≠ splitPath x.2.path) (s : Sha)
    (r : TrackRow) :
    (importRows jsonLoads jsonDumps root rows db).tracks.get? s = some r ↔
      db.tracks.get? s = some r ∨
        ∃ x ∈ rows, x.1 = s ∧ ImportsAs jsonLoads jsonDumps root x.1 x.2 s r := by
  induction rows generalizing db with
  | nil => simp [importRows]
  | cons x rows ih =>
    rw [List.map_cons, List.nodup_cons] at hkeys hpaths
    have hx := hkept x (.head _)
    obtain ⟨r₀, himports⟩ := hx.importsAs
    have hsame := (himports.same_iff hloads hdumps hroot r₀.dateAdded).mpr hx.columns
    have hr₀ : r₀.path = splitPath x.2.path := hsame.path
    have hget := importStep_kept himports (hfree x (.head _)) (by
      rw [hr₀]
      exact hown x (.head _))
    have hne : ∀ y ∈ rows, y.1 ≠ x.1 := by
      intro y hy he
      apply hkeys.1
      rw [← he]
      exact List.mem_map_of_mem hy
    rw [importRows_cons, ih (fun y hy ↦ hkept y (.tail _ hy)) hkeys.2 hpaths.2]
    · rw [hget]
      by_cases hs : s = x.1
      · rw [if_pos hs, hs]
        constructor
        · rintro (hr | ⟨y, hy, he, -⟩)
          · cases hr
            exact Or.inr ⟨x, .head _, rfl, himports⟩
          · exact absurd he (hne y hy)
        · rintro (hr | ⟨y, hy, he, hr⟩)
          · rw [hfree x (.head _)] at hr
            cases hr
          · left
            rcases List.mem_cons.mp hy with rfl | hy
            · have hrestored := hr.restored
              rw [himports.restored] at hrestored
              exact hrestored
            · exact absurd he (hne y hy)
      · rw [if_neg hs]
        constructor
        · rintro (hr | ⟨y, hy, he, hr⟩)
          · exact Or.inl hr
          · exact Or.inr ⟨y, .tail _ hy, he, hr⟩
        · rintro (hr | ⟨y, hy, he, hr⟩)
          · exact Or.inl hr
          · rcases List.mem_cons.mp hy with rfl | hy
            · exact absurd he.symm hs
            · exact Or.inr ⟨y, hy, he, hr⟩
    · intro y hy
      rw [hget, if_neg (hne y hy)]
      exact hfree y (.tail _ hy)
    · intro y hy s' r' hr'
      rw [hget] at hr'
      by_cases hs : s' = x.1
      · rw [if_pos hs] at hr'
        cases hr'
        rw [hr₀]
        intro he
        apply hpaths.1
        rw [splitPath_injective he]
        exact List.mem_map_of_mem hy
      · rw [if_neg hs] at hr'
        exact hown y (.tail _ hy) s' r' hr'

/-! ### The round trip -/

/-- Each track is shown once. -/
theorem nodup_select : (t.select.map Prod.fst).Nodup := by
  have hperm : (t.select.map Prod.fst).Perm (t.tracks.rows.map Prod.fst) := by
    have hsorted := (List.mergeSort_perm
      (t.tracks.rows.map fun r ↦ (r.1, r.2.shown (t.residencyState.get? r.1)))
      fun a b ↦ decide (a.1 ≤ b.1)).map Prod.fst
    rw [List.map_map] at hsorted
    exact hsorted
  exact hperm.nodup_iff.mpr (Table.nodup_keys _)

/-- A track is shown in one way. -/
theorem eq_of_mem_select {x y : Sha × TrackColumns} (hx : x ∈ t.select) (hy : y ∈ t.select)
    (h : x.1 = y.1) : x = y := by
  obtain ⟨row, hrow, hx₂⟩ := mem_select.mp hx
  obtain ⟨row', hrow', hy₂⟩ := mem_select.mp hy
  rw [← h, hrow] at hrow'
  cases hrow'
  exact Prod.ext h (by rw [hx₂, hy₂, h])

/-- The root that is loaded has no NUL. -/
theorem zero_notMem_root : ∀ s, loadLibraryRoot t = some s → 0 ∉ s := by
  intro s h
  unfold loadLibraryRoot at h
  obtain ⟨r, -, rfl⟩ := Option.map_eq_some_iff.mp h
  exact zero_notMem_columnText r.1

/-- No two emitted rows are shown with one path. -/
def PathsDiffer (t : CatalogTables) : Prop :=
  ∀ x ∈ t.select, ∀ y ∈ t.select, x.2.path = y.2.path → x.1 = y.1

/-- Where the shown paths differ, no path is shown twice. -/
theorem PathsDiffer.nodup (h : PathsDiffer t) : (t.select.map fun x ↦ x.2.path).Nodup := by
  have hkeys := @nodup_select t
  rw [List.Nodup, List.pairwise_map] at hkeys ⊢
  exact hkeys.imp_of_mem fun hx hy hne he ↦ hne (h _ hx _ hy he)

/-- **What comes back.** An emitted catalog is imported into a fresh database with each of its rows
as it was shown exactly when each row has the columns for it, and no two have one path. -/
theorem catalog_round_trips_iff (jsonLoads : Text → Option JsonTree) (jsonDumps : JsonTree → Text)
    (now : Int) (t : CatalogTables) (fresh : Machine) (hloads : QuotesStrings jsonLoads)
    (hdumps : PrintsText jsonDumps) (hfresh : fresh.db.tracks = .empty)
    (hroot : loadLibraryRoot fresh.db.catalogTables = loadLibraryRoot t) :
    RoundTrips t ((catalogImport jsonDumps (catalogEmit jsonLoads now t)).eval
        (fresh.start 0)).2.stop.db ↔
      (∀ x ∈ t.select, KeptRow jsonLoads jsonDumps (loadLibraryRoot t) x.1 x.2) ∧
        PathsDiffer t := by
  have hnone : ∀ s, fresh.db.tracks.get? s = none := by
    intro s
    rw [hfresh]
    rfl
  have heval : ((catalogImport jsonDumps (catalogEmit jsonLoads now t)).eval
      (fresh.start 0)).2.stop.db =
        importRows jsonLoads jsonDumps (loadLibraryRoot t) t.select fresh.db :=
    eval_catalogImport fresh hroot
  rw [heval]
  constructor
  · intro h
    have hsourced : Sourced jsonLoads jsonDumps (loadLibraryRoot t) t.select
        (importRows jsonLoads jsonDumps (loadLibraryRoot t) t.select fresh.db) := by
      apply sourced_importRows fun _ hx ↦ hx
      intro s r hr
      rw [hnone] at hr
      cases hr
    -- each emitted row is imported, from itself
    have hown : ∀ x ∈ t.select, ∃ r, ∃ date,
        (importRows jsonLoads jsonDumps (loadLibraryRoot t) t.select fresh.db).tracks.get? x.1 =
          some { r with dateAdded := date } ∧
        ImportsAs jsonLoads jsonDumps (loadLibraryRoot t) x.1 x.2 x.1 r := by
      intro x hx
      obtain ⟨r, hr⟩ := Option.isSome_iff_exists.mp ((h.rows x.1).mpr ⟨x.2, hx⟩)
      obtain ⟨y, hy, r₀, date, himports, rfl⟩ := hsourced x.1 r hr
      have hyx : y.1 = x.1 := by
        obtain ⟨ry, hry⟩ := Option.isSome_iff_exists.mp ((h.rows y.1).mpr ⟨y.2, hy⟩)
        obtain ⟨_, _, _, _, hy', -⟩ := hsourced y.1 ry hry
        rw [himports.id.1]
        exact (columnText_of_notMem hy'.id_eq.1).symm
      rw [eq_of_mem_select hy hx hyx] at himports
      exact ⟨r₀, date, hr, himports⟩
    constructor
    · intro x hx
      obtain ⟨r, date, hr, himports⟩ := hown x hx
      exact ⟨himports.id_eq, himports.rel, himports.dateAdded,
        (himports.same_iff hloads hdumps zero_notMem_root date).mp (h.same hx hr)⟩
    · intro x hx y hy he
      obtain ⟨r, _, hr, -⟩ := hown x hx
      obtain ⟨r', _, hr', -⟩ := hown y hy
      apply (UniqueTable.eq_of_key hr hr' _).1
      rw [(h.same hx hr).path, (h.same hy hr').path, he]
  · rintro ⟨hkept, hpaths⟩
    have hget := importRows_kept hloads hdumps zero_notMem_root hkept nodup_select hpaths.nodup
      (fun x _ ↦ hnone x.1) fun x _ s r hr ↦ by rw [hnone] at hr; cases hr
    constructor
    · intro s
      constructor
      · intro hs
        obtain ⟨r, hr⟩ := Option.isSome_iff_exists.mp hs
        rcases (hget s r).mp hr with hold | ⟨x, hx, rfl, -⟩
        · rw [hnone] at hold
          cases hold
        · exact ⟨x.2, hx⟩
      · rintro ⟨row, hrow⟩
        obtain ⟨r, himports⟩ := (hkept (s, row) hrow).importsAs
        rw [(hget s r).mpr (Or.inr ⟨(s, row), hrow, rfl, himports⟩)]
        rfl
    · intro s row r hrow hr
      rcases (hget s r).mp hr with hold | ⟨x, hx, he, himports⟩
      · rw [hnone] at hold
        cases hold
      · have hsame : x.2 = row := congrArg Prod.snd (eq_of_mem_select hx hrow he)
        rw [← hsame]
        exact (himports.same_iff hloads hdumps zero_notMem_root r.dateAdded).mpr
          (hkept x hx).columns

/-! ### Two libraries -/

/-- A database without tracks that has scanned `/music`. -/
def freshMusic : Machine where
  fs := Tree.empty
  db := { Db.empty with
    scanMeta := Table.empty.put [ascii "music"] ⟨ascii "2026-01-01T00:00:00Z", 0, 0, 0, 0⟩ }

/-- A track at a path, with its artists. -/
def musicTrack (path : Text) (artist : Option Text) : TrackColumns where
  path := path
  mtimeNs := 0
  sizeBytes := 4096
  format := some (ascii "flac")
  title := none
  artist := artist
  album := none
  albumArtist := none
  trackNumber := some (ascii "5/12")
  discNumber := none
  year := none
  genre := none
  durationMs := some 180000
  dateAdded := ascii "2026-01-01T00:00:00Z"

/-- The tables of `/music` with that track, and with its transcode. -/
def musicTables (row : TrackColumns) (transcodePath : Option Text) : CatalogTables where
  tracks := Table.empty.put (ascii "5f") row
  residencyState := Table.empty.put (ascii "5f") ⟨transcodePath, some 1024, some (ascii "opus")⟩
  scanMeta := [(ascii "/music", ascii "2026-01-01T00:00:00Z")]

/-- The root of the tables below. -/
theorem root_musicTables (row : TrackColumns) (transcodePath : Option Text) :
    loadLibraryRoot (musicTables row transcodePath) = some (ascii "/music") := by
  simp only [loadLibraryRoot, musicTables, List.mergeSort_singleton]
  decide

/-- The row that the tables below show. -/
theorem select_musicTables (row : TrackColumns) (transcodePath : Option Text) :
    (musicTables row transcodePath).select =
      [(ascii "5f", row.shown (some ⟨transcodePath, some 1024, some (ascii "opus")⟩))] :=
  List.mergeSort_singleton _

theorem root_freshMusic : loadLibraryRoot freshMusic.db.catalogTables = some (ascii "/music") := by
  have hscan : freshMusic.db.catalogTables.scanMeta =
      [(ascii "/music", ascii "2026-01-01T00:00:00Z")] := by decide +kernel
  unfold loadLibraryRoot
  rw [hscan, List.mergeSort_singleton]
  decide

/-- Two artists as the JSON library prints them. -/
def artistsXY : Text := ascii "[\"X\", \"Y\"]"

/-- The parser of the JSON library on that text. -/
def loadsXY (s : Text) : Option JsonTree :=
  if s = artistsXY then some (.array [.string (ascii "X"), .string (ascii "Y")]) else none

/-- The reader below takes what the emitter quotes. -/
theorem quotesStrings_loadsXY : QuotesStrings loadsXY := by
  intro s x h
  unfold loadsXY at h
  split at h
  · cases h
  · cases h

/-- The artists below are kept. -/
theorem keptValues_artistsXY : KeptValues loadsXY (fun _ ↦ artistsXY) artistsXY := by
  have hparse : tryParseJsonStrArray loadsXY artistsXY =
      some [.string (ascii "X"), .string (ascii "Y")] := by
    unfold tryParseJsonStrArray loadsXY
    rw [if_pos (by decide), if_pos rfl]
  unfold KeptValues
  rw [hparse]
  exact ⟨by decide, by decide, by decide, rfl⟩

/-- The printer below gives texts. -/
theorem printsText_artistsXY : PrintsText fun _ ↦ artistsXY := by
  intro _
  show 0 ∉ artistsXY
  decide

/-- The row below is kept. -/
theorem keptRow_musicTrack : KeptRow loadsXY (fun _ ↦ artistsXY) (some (ascii "/music"))
    (ascii "5f") ((musicTrack (ascii "/music/archive/a.flac") (some artistsXY)).shown
      (some ⟨some (ascii "/music/resident/a.opus"), some 1024, some (ascii "opus")⟩)) where
  sha := ⟨by decide, by decide +kernel⟩
  rel := by decide +kernel
  dateAdded := by decide +kernel
  columns := by
    have htrack : numeric (some (ascii "5/12")) = some 5 := by decide +kernel
    refine ⟨⟨by decide +kernel, by decide +kernel, ?_⟩, ?_, ?_, ?_, ?_, ?_, ?_, ?_, ?_, ?_, ?_⟩
    · show if (ascii "/music").head? = some 47 then _ else _
      rw [if_pos (by decide)]
      exact Or.inl ⟨ascii "resident/a.opus", by decide, by decide⟩
    · rintro s ⟨⟩
      exact ⟨by decide, by decide +kernel⟩
    · rintro s ⟨⟩
    · rintro s ⟨⟩
      exact keptValues_artistsXY
    · rintro s ⟨⟩
    · rintro s ⟨⟩
    · rintro s ⟨⟩
    · rintro n ⟨⟩
      decide
    · intro n hn
      have h5 := htrack.symm.trans hn
      cases h5
      exact ⟨by decide, by decide⟩
    · rintro n ⟨⟩
    · rintro n ⟨⟩

/-- A track with two artists and a transcode comes back as it was shown. -/
theorem two_artists_round_trip :
    RoundTrips (musicTables (musicTrack (ascii "/music/archive/a.flac") (some artistsXY))
        (some (ascii "/music/resident/a.opus")))
      ((catalogImport (fun _ ↦ artistsXY) (catalogEmit loadsXY 0
        (musicTables (musicTrack (ascii "/music/archive/a.flac") (some artistsXY))
          (some (ascii "/music/resident/a.opus"))))).eval (freshMusic.start 0)).2.stop.db := by
  apply (catalog_round_trips_iff loadsXY _ 0 _ freshMusic quotesStrings_loadsXY
    printsText_artistsXY rfl (root_freshMusic.trans (root_musicTables _ _).symm)).mpr
  constructor
  · intro x hx
    rw [select_musicTables, List.mem_singleton] at hx
    rw [hx, root_musicTables]
    exact keptRow_musicTrack
  · intro x hx y hy _
    rw [select_musicTables, List.mem_singleton] at hx hy
    rw [hx, hy]

/-- A track beside the library root, whose path starts with the name of the root, comes back below
it. -/
theorem sibling_path_moved : ¬ RoundTrips (musicTables (musicTrack (ascii "/music2/a.flac") none) none)
    ((catalogImport (fun _ ↦ []) (catalogEmit (fun _ ↦ none) 0
      (musicTables (musicTrack (ascii "/music2/a.flac") none) none))).eval
        (freshMusic.start 0)).2.stop.db := by
  intro h
  have hmem : (ascii "5f", musicTrack (ascii "/music2/a.flac") none) ∈
      (musicTables (musicTrack (ascii "/music2/a.flac") none) none).select := by
    rw [select_musicTables]
    exact .head _
  obtain ⟨r, hr⟩ := Option.isSome_iff_exists.mp ((h.rows _).mpr ⟨_, hmem⟩)
  have hpath := (h.same hmem hr).path
  have hmoved : (((catalogImport (fun _ ↦ []) (catalogEmit (fun _ ↦ none) 0
      (musicTables (musicTrack (ascii "/music2/a.flac") none) none))).eval
        (freshMusic.start 0)).2.stop.db.tracks.get? (ascii "5f")).map TrackRow.path =
          some [ascii "music", ascii "2", ascii "a.flac"] := by
    decide +kernel
  rw [hr, Option.map_some, hpath] at hmoved
  exact absurd hmoved (by decide +kernel)

end Nocturne
