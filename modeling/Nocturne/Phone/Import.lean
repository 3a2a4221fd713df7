import Mathlib.Algebra.BigOperators.Group.List.Basic
import Mathlib.Algebra.Group.Int.Defs
import Mathlib.Data.Finset.Card
import Nocturne.Catalog.Import
import Nocturne.Lib.Groups

/-!
# The catalog import of the phone

`CatalogImporter` rebuilds the four tables of the browser from a catalog. One loop makes the track
rows, hands them to Room in batches, and adds each track up in the accumulators of its album, its
artist and its genre. All statements are in one transaction.
-/

namespace Nocturne

open Lib Lib.Groups

/-- `ManifestJson`, with the ids of its entries. -/
structure ManifestJson where
  v : Int
  resident : List Text

/-! ### The tables -/

/-- `AlbumEntity`; `AlbumAccum` has the same fields. -/
structure AlbumEntity where
  id : Text
  title : Text
  albumArtist : List Text
  albumArtistId : Text
  year : Option Int
  trackCount : Nat
  totalSizeBytes : Int
  hasResident : Bool
  deriving DecidableEq, Repr

/-- `ArtistEntity`. -/
structure ArtistEntity where
  id : Text
  name : Text
  albumCount : Nat
  trackCount : Nat
  deriving DecidableEq, Repr

/-- `GenreEntity`; `GenreAccum` has the same fields. -/
structure GenreEntity where
  id : Text
  name : Text
  trackCount : Nat
  deriving DecidableEq, Repr

/-- The four tables. -/
structure Library where
  tracks : Table Text TrackEntity
  albums : Table Text AlbumEntity
  artists : Table Text ArtistEntity
  genres : Table Text GenreEntity

/-- The tables of a fresh installation. -/
def Library.empty : Library := ⟨.empty, .empty, .empty, .empty⟩

/-- What the import asks Room for. -/
inductive Statement where
  | deleteTracks
  | deleteAlbums
  | deleteArtists
  | deleteGenres
  | insertTracks (rows : List TrackEntity)
  | insertAlbums (rows : List AlbumEntity)
  | insertArtists (rows : List ArtistEntity)
  | insertGenres (rows : List GenreEntity)

/-- A statement that goes through; each insert replaces on conflict. -/
def Library.exec (db : Library) : Statement → Library
  | .deleteTracks => { db with tracks := .empty }
  | .deleteAlbums => { db with albums := .empty }
  | .deleteArtists => { db with artists := .empty }
  | .deleteGenres => { db with genres := .empty }
  | .insertTracks rows => { db with tracks := insertAll db.tracks rows }
  | .insertAlbums rows => { db with albums := fill AlbumEntity.id db.albums rows }
  | .insertArtists rows => { db with artists := fill ArtistEntity.id db.artists rows }
  | .insertGenres rows => { db with genres := fill GenreEntity.id db.genres rows }

/-- `withTransaction`: where the statement number `failsAt` fails nothing is kept. -/
def withTransaction (db : Library) (script : List Statement) (failsAt : Option Nat) :
    Option Library :=
  match failsAt with
  | some n => if n < script.length then none else some (script.foldl Library.exec db)
  | none => some (script.foldl Library.exec db)

namespace Import

/-! ### The loop -/

variable (k : KotlinText) (residentIds : List Text)

/-- `albumArtistGroup`, `CatalogImporter.kt:103–107`. -/
def albumArtistGroup (t : CatalogTrackJson) : Text :=
  k.trim (((t.albumArtist.find? fun s ↦ !k.isBlank s).or
    (t.artist.find? fun s ↦ !k.isBlank s)).getD (ascii "Unknown Artist"))

/-- `albumTitle`, `CatalogImporter.kt:108`. -/
def albumTitle (t : CatalogTrackJson) : Text := k.trim (t.album.getD (ascii "Unknown Album"))

/-- `albumId`, `CatalogImporter.kt:110`. -/
def albumId (t : CatalogTrackJson) : Text :=
  k.sha256Hex (albumArtistGroup k t ++ ascii " " ++ k.lowercase (albumTitle k t))

/-- `artistId`, `CatalogImporter.kt:111`. -/
def artistId (t : CatalogTrackJson) : Text := k.sha256Hex (k.lowercase (albumArtistGroup k t))

/-- `firstGenre`, `CatalogImporter.kt:112`. -/
def firstGenre (t : CatalogTrackJson) : Option Text :=
  (t.genre.find? fun s ↦ !k.isBlank s).map k.trim

/-- `genreId`, `CatalogImporter.kt:113`. -/
def genreId (t : CatalogTrackJson) : Option Text :=
  (firstGenre k t).map fun genre ↦ k.sha256Hex (k.lowercase genre)

/-- A sum in the arithmetic of `Long`. -/
def wrapLong (n : Int) : Int := n.bmod (2 ^ 64)

/-- The accumulator that a track begins, `CatalogImporter.kt:150–158`. -/
def newAlbum (t : CatalogTrackJson) : AlbumEntity where
  id := albumId k t
  title := albumTitle k t
  albumArtist := if t.albumArtist.isEmpty then [albumArtistGroup k t] else t.albumArtist
  albumArtistId := artistId k t
  year := t.year
  trackCount := 0
  totalSizeBytes := 0
  hasResident := false

/-- A track is added to its album, `CatalogImporter.kt:158–163`. -/
def addToAlbum (a : AlbumEntity) (t : CatalogTrackJson) : AlbumEntity :=
  { a with
    trackCount := a.trackCount + 1
    totalSizeBytes := wrapLong (a.totalSizeBytes + t.sizeBytes)
    hasResident := a.hasResident || decide (t.id ∈ residentIds)
    year := a.year.or t.year }

/-- `ArtistAccum`. -/
structure ArtistAccum where
  id : Text
  name : Text
  trackCount : Nat
  albumIds : Finset Text

/-- The accumulator that a track begins, `CatalogImporter.kt:164–166`. -/
def newArtist (t : CatalogTrackJson) : ArtistAccum :=
  ⟨artistId k t, albumArtistGroup k t, 0, ∅⟩

/-- A track is added to its artist, `CatalogImporter.kt:166–169`. -/
def addToArtist (a : ArtistAccum) (t : CatalogTrackJson) : ArtistAccum :=
  { a with trackCount := a.trackCount + 1, albumIds := insert (albumId k t) a.albumIds }

/-- The accumulator that a track with a genre begins, `CatalogImporter.kt:171–173`. -/
def newGenre (t : CatalogTrackJson) : GenreEntity :=
  ⟨(genreId k t).getD [], (firstGenre k t).getD [], 0⟩

/-- A track is added to its genre, `CatalogImporter.kt:173–175`. -/
def addToGenre (g : GenreEntity) (_ : CatalogTrackJson) : GenreEntity :=
  { g with trackCount := g.trackCount + 1 }

/-- Where the loop stands: the rows not handed over yet, the batches handed over, and the
accumulators. -/
structure Loop where
  batch : List TrackEntity
  batches : List (List TrackEntity)
  albums : Table Text AlbumEntity
  artists : Table Text ArtistAccum
  genres : Table Text GenreEntity

/-- The loop before the first track. -/
def Loop.start : Loop := ⟨[], [], .empty, .empty, .empty⟩

/-- One iteration, `CatalogImporter.kt:102–184`. -/
def Loop.next (s : Loop) (t : CatalogTrackJson) : Loop :=
  let batch := s.batch ++ [trackEntity k residentIds t]
  let full := batchSize ≤ batch.length
  { batch := if full then [] else batch
    batches := if full then s.batches ++ [batch] else s.batches
    albums := enterOne (fun t ↦ some (albumId k t)) (newAlbum k) (addToAlbum residentIds)
      s.albums t
    artists := enterOne (fun t ↦ some (artistId k t)) (newArtist k) (addToArtist k)
      s.artists t
    genres := enterOne (genreId k) (newGenre k) addToGenre s.genres t }

/-- The loop over all tracks. -/
def Loop.run (tracks : List CatalogTrackJson) : Loop :=
  tracks.foldl (Loop.next k residentIds) .start

/-- The batches with what is left at the end, `CatalogImporter.kt:185–190`. -/
def Loop.allBatches (s : Loop) : List (List TrackEntity) :=
  if s.batch.isEmpty then s.batches else s.batches ++ [s.batch]

/-- `ArtistEntity` of an accumulator, `CatalogImporter.kt:208–215`. -/
def ArtistAccum.entity (a : ArtistAccum) : ArtistEntity :=
  ⟨a.id, a.name, a.albumIds.card, a.trackCount⟩

/-- The statements of the transaction, `CatalogImporter.kt:87–221`. -/
def script (tracks : List CatalogTrackJson) : List Statement :=
  let s := Loop.run k residentIds tracks
  [.deleteTracks, .deleteAlbums, .deleteArtists, .deleteGenres] ++
    s.allBatches.map .insertTracks ++
      [.insertAlbums (s.albums.rows.map Prod.snd),
        .insertArtists (s.artists.rows.map fun r ↦ r.2.entity),
        .insertGenres (s.genres.rows.map Prod.snd)]

/-- `ImportResult` without its duration. -/
structure ImportResult where
  tracksImported : Nat
  albumsImported : Nat
  artistsImported : Nat
  genresImported : Nat
  residentMarked : Int
  deriving DecidableEq, Repr

/-- The ids of a manifest, or that its schema is not supported, `CatalogImporter.kt:74–84`. -/
def residentIdsOf : Option ManifestJson → Option (List Text)
  | some m => if m.v = 1 then some m.resident else none
  | none => some []

/-- `importAll`, `CatalogImporter.kt:57–246`; `none` where it throws. -/
def importAll (db : Library) (catalog : CatalogJson) (manifest : Option ManifestJson)
    (failsAt : Option Nat) : Library × Option ImportResult :=
  if catalog.v ≠ 1 then (db, none)
  else
    match residentIdsOf manifest with
    | none => (db, none)
    | some residentIds =>
      match withTransaction db (script k residentIds catalog.tracks) failsAt with
      | none => (db, none)
      | some db' =>
        let s := Loop.run k residentIds catalog.tracks
        (db', some ⟨catalog.tracks.length, s.albums.rows.length, s.artists.rows.length,
          s.genres.rows.length, if manifest.isSome then residentIds.toFinset.card else -1⟩)

/-! ### What the tables say -/

/-- The rows of `tracks` with a key. -/
def tracksOf (db : Library) (key : TrackEntity → Option Text) (id : Text) : List TrackEntity :=
  group key id (db.tracks.rows.map Prod.snd)

/-- A table has a row for each key of `tracks`, and no other, and each agrees with its tracks. -/
def Grouped {V : Type} (db : Library) (key : TrackEntity → Option Text) (table : Table Text V)
    (agrees : V → List TrackEntity → Prop) : Prop :=
  ∀ id, match table.get? id with
    | none => tracksOf db key id = []
    | some row => tracksOf db key id ≠ [] ∧ agrees row (tracksOf db key id)

/-- An album row against its tracks; `total` adds sizes up. -/
def AlbumAgrees (total : List Int → Int) (a : AlbumEntity) (rows : List TrackEntity) : Prop :=
  a.trackCount = rows.length ∧ a.totalSizeBytes = total (rows.map TrackEntity.sizeBytes) ∧
    a.hasResident = rows.any TrackEntity.isResident

/-- An artist row against its tracks. -/
def ArtistAgrees (a : ArtistEntity) (rows : List TrackEntity) : Prop :=
  a.trackCount = rows.length ∧ a.albumCount = (rows.map TrackEntity.albumId).toFinset.card

/-- A genre row against its tracks. -/
def GenreAgrees (g : GenreEntity) (rows : List TrackEntity) : Prop := g.trackCount = rows.length

/-- The four tables of a catalog. -/
structure Derived (total : List Int → Int) (tracks : List CatalogTrackJson) (db : Library) :
    Prop where
  rows : (db.tracks.rows.map Prod.snd).Perm (tracks.map (trackEntity k residentIds))
  resident : ∀ id row, db.tracks.get? id = some row → (row.isResident = true ↔ id ∈ residentIds)
  albums : Grouped db (fun row ↦ some row.albumId) db.albums (AlbumAgrees total)
  artists : Grouped db (fun row ↦ some row.albumArtistId) db.artists ArtistAgrees
  genres : Grouped db TrackEntity.genreId db.genres GenreAgrees

/-- The ids that a manifest names. -/
def manifestIds (manifest : Option ManifestJson) : List Text :=
  (manifest.map ManifestJson.resident).getD []

/-- An import derives the tables, a second one leaves them, and one that fails at a statement keeps
what there was. -/
def Imports (total : List Int → Int) (db : Library) (catalog : CatalogJson)
    (manifest : Option ManifestJson) : Prop :=
  let after := (importAll k db catalog manifest none).1
  Derived k (manifestIds manifest) total catalog.tracks after ∧
    (importAll k after catalog manifest none).1 = after ∧
    ∀ n < (script k (manifestIds manifest) catalog.tracks).length,
      (importAll k db catalog manifest (some n)).1 = db

/-- A sum of `Long`s. -/
def sumLong (sizes : List Int) : Int := wrapLong sizes.sum

section Loop

variable {k residentIds} {tracks : List CatalogTrackJson}

/-- The loop, one track further. -/
theorem run_concat (t : CatalogTrackJson) : Loop.run k residentIds (tracks ++ [t]) =
    (Loop.run k residentIds tracks).next k residentIds t := by
  unfold Loop.run
  rw [List.foldl_concat]

/-- The albums are collected by their ids. -/
theorem albums_run : (Loop.run k residentIds tracks).albums =
    collect (fun t ↦ some (albumId k t)) (newAlbum k) (addToAlbum residentIds) tracks := by
  induction tracks using List.reverseRecOn with
  | nil => rfl
  | append_singleton tracks t ih =>
    rw [run_concat, collect_concat, ← ih]
    rfl

/-- The artists are collected by their ids. -/
theorem artists_run : (Loop.run k residentIds tracks).artists =
    collect (fun t ↦ some (artistId k t)) (newArtist k) (addToArtist k) tracks := by
  induction tracks using List.reverseRecOn with
  | nil => rfl
  | append_singleton tracks t ih =>
    rw [run_concat, collect_concat, ← ih]
    rfl

/-- The genres are collected by their ids. -/
theorem genres_run : (Loop.run k residentIds tracks).genres =
    collect (genreId k) (newGenre k) addToGenre tracks := by
  induction tracks using List.reverseRecOn with
  | nil => rfl
  | append_singleton tracks t ih =>
    rw [run_concat, collect_concat, ← ih]
    rfl

/-- The batches and what is not handed over yet are the rows so far. -/
theorem batches_run : (Loop.run k residentIds tracks).batches.flatten ++
    (Loop.run k residentIds tracks).batch = tracks.map (trackEntity k residentIds) := by
  induction tracks using List.reverseRecOn with
  | nil => rfl
  | append_singleton tracks t ih =>
    rw [run_concat, List.map_append, ← ih, Loop.next]
    by_cases hfull : batchSize ≤ ((Loop.run k residentIds tracks).batch ++
        [trackEntity k residentIds t]).length
    · simp only [hfull, if_true, List.flatten_append, List.append_nil]
      simp
    · simp only [hfull, if_false]
      simp

/-- The batches have all tracks, in order. -/
theorem flatten_allBatches : (Loop.run k residentIds tracks).allBatches.flatten =
    tracks.map (trackEntity k residentIds) := by
  rw [← batches_run, Loop.allBatches]
  split
  · next h => rw [List.isEmpty_iff.mp h, List.append_nil]
  · simp

/-! ### The transaction -/

/-- The batches are inserted as one list would be. -/
theorem exec_batches (db : Library) (batches : List (List TrackEntity)) :
    (batches.map Statement.insertTracks).foldl Library.exec db =
      { db with tracks := fill TrackEntity.id db.tracks batches.flatten } := by
  induction batches generalizing db with
  | nil => rfl
  | cons batch batches ih =>
    rw [List.map_cons, List.foldl_cons, ih, List.flatten_cons, fill_append]
    rfl

variable (k residentIds tracks) in
/-- The tables after an import. -/
def rebuilt : Library :=
  let s := Loop.run k residentIds tracks
  ⟨fill TrackEntity.id .empty (tracks.map (trackEntity k residentIds)),
    fill AlbumEntity.id .empty (s.albums.rows.map Prod.snd),
    fill ArtistEntity.id .empty (s.artists.rows.map fun r ↦ r.2.entity),
    fill GenreEntity.id .empty (s.genres.rows.map Prod.snd)⟩

/-- The statements leave the tables rebuilt. -/
theorem exec_script (db : Library) :
    (script k residentIds tracks).foldl Library.exec db = rebuilt k residentIds tracks := by
  unfold script
  rw [List.foldl_append, List.foldl_append, exec_batches, flatten_allBatches]
  rfl

/-! ### Tables and accumulators -/

/-- The rows of `tracks` with a key are those of the catalog with it. -/
theorem tracksOf_rebuilt (hids : (tracks.map CatalogTrackJson.id).Nodup)
    {keyRow : TrackEntity → Option Text} {key : CatalogTrackJson → Option Text}
    (hkey : ∀ t, keyRow (trackEntity k residentIds t) = key t) (id : Text) :
    (tracksOf (rebuilt k residentIds tracks) keyRow id).Perm
      ((group key id tracks).map (trackEntity k residentIds)) := by
  have hrows : ((tracks.map (trackEntity k residentIds)).map TrackEntity.id).Nodup := by
    rw [List.map_map]
    exact hids
  have hgroup : (group key id tracks).map (trackEntity k residentIds) =
      group keyRow id (tracks.map (trackEntity k residentIds)) := by
    unfold group
    rw [List.filter_map]
    simp only [Function.comp_def, hkey]
  rw [hgroup]
  exact (perm_rows_fill hrows).filter _

/-- A table filled from accumulators is grouped where each accumulator agrees with its group. -/
theorem grouped_rebuilt {V W : Type} (hids : (tracks.map CatalogTrackJson.id).Nodup)
    {keyRow : TrackEntity → Option Text} {key : CatalogTrackJson → Option Text}
    (hkey : ∀ t, keyRow (trackEntity k residentIds t) = key t)
    {new : CatalogTrackJson → W} {add : W → CatalogTrackJson → W} {E : W → V}
    {idOf : V → Text} {agrees : V → List TrackEntity → Prop}
    (hperm : ∀ v rows rows', rows.Perm rows' → agrees v rows → agrees v rows')
    (hid : ∀ id w, (collect key new add tracks).get? id = some w → idOf (E w) = id)
    (hagrees : ∀ id w, (collect key new add tracks).get? id = some w →
      agrees (E w) ((group key id tracks).map (trackEntity k residentIds))) :
    Grouped (rebuilt k residentIds tracks) keyRow
      (fill idOf .empty ((collect key new add tracks).rows.map fun r ↦ E r.2)) agrees := by
  intro id
  have hrows := @tracksOf_rebuilt k residentIds tracks hids keyRow key hkey id
  rw [get?_fill_rows hid]
  cases hw : (collect key new add tracks).get? id with
  | none =>
    rw [get?_collect_eq_none.mp hw] at hrows
    exact hrows.eq_nil
  | some w =>
    refine ⟨fun hnil ↦ ?_, hperm _ _ _ hrows.symm (hagrees id w hw)⟩
    rw [hnil] at hrows
    have hgroup : group key id tracks = [] := by simpa using hrows.symm.eq_nil
    rw [get?_collect_eq_none.mpr hgroup] at hw
    cases hw

/-- Wrapping on the way does not matter. -/
theorem wrapLong_add (m n : Int) : wrapLong (wrapLong m + n) = wrapLong (m + n) := by
  unfold wrapLong
  rw [Int.bmod_add_bmod]

/-- A sum that wraps, one size further. -/
theorem sumLong_concat (sizes : List Int) (n : Int) :
    sumLong (sizes ++ [n]) = wrapLong (sumLong sizes + n) := by
  unfold sumLong
  rw [List.sum_append, List.sum_singleton, wrapLong_add]

/-- What the accumulator of an album holds. -/
theorem album_holds {key : Text} {a : AlbumEntity}
    (h : (collect (fun t ↦ some (albumId k t)) (newAlbum k) (addToAlbum residentIds)
      tracks).get? key = some a) :
    a.id = key ∧ AlbumAgrees sumLong a ((group (fun t ↦ some (albumId k t)) key tracks).map
      (trackEntity k residentIds)) := by
  refine collect_rule (P := fun ts a ↦ a.id = key ∧ AlbumAgrees sumLong a
    (ts.map (trackEntity k residentIds))) (fun t ht ↦ ?_) (fun ts a t _ ih ↦ ?_) h
  · refine ⟨Option.some.inj ht, rfl, ?_, ?_⟩
    · show wrapLong (0 + t.sizeBytes) = wrapLong [t.sizeBytes].sum
      rw [Int.zero_add, List.sum_singleton]
    · simp [addToAlbum, newAlbum, trackEntity]
  · obtain ⟨hid, hcount, hsize, hres⟩ := ih
    refine ⟨hid, ?_, ?_, ?_⟩
    · simp [addToAlbum, hcount]
    · rw [List.map_append, List.map_append]
      show wrapLong (a.totalSizeBytes + t.sizeBytes) = sumLong (_ ++ [t.sizeBytes])
      rw [sumLong_concat, hsize]
    · simp [addToAlbum, hres, trackEntity]

/-- What the accumulator of an artist holds. -/
theorem artist_holds {key : Text} {a : ArtistAccum}
    (h : (collect (fun t ↦ some (artistId k t)) (newArtist k) (addToArtist k)
      tracks).get? key = some a) :
    a.id = key ∧ ArtistAgrees a.entity ((group (fun t ↦ some (artistId k t)) key tracks).map
      (trackEntity k residentIds)) := by
  have hholds := collect_rule (P := fun ts (a : ArtistAccum) ↦ a.id = key ∧
    a.trackCount = ts.length ∧ a.albumIds = (ts.map (albumId k)).toFinset)
    (fun t ht ↦ ?_) (fun ts a t _ ih ↦ ?_) h
  · obtain ⟨hid, hcount, halbums⟩ := hholds
    refine ⟨hid, ?_, ?_⟩
    · show a.trackCount = _
      rw [hcount, List.length_map]
    · show a.albumIds.card = _
      rw [halbums, List.map_map]
      rfl
  · exact ⟨Option.some.inj ht, rfl, by simp [addToArtist, newArtist]⟩
  · obtain ⟨hid, hcount, halbums⟩ := ih
    refine ⟨hid, by simp [addToArtist, hcount], ?_⟩
    show insert (albumId k t) a.albumIds = _
    rw [halbums, List.map_append, List.toFinset_append]
    ext x
    simp

/-- What the accumulator of a genre holds. -/
theorem genre_holds {key : Text} {g : GenreEntity}
    (h : (collect (genreId k) (newGenre k) addToGenre tracks).get? key = some g) :
    g.id = key ∧ GenreAgrees g ((group (genreId k) key tracks).map
      (trackEntity k residentIds)) := by
  refine collect_rule (P := fun ts g ↦ g.id = key ∧ GenreAgrees g
    (ts.map (trackEntity k residentIds))) (fun t ht ↦ ?_) (fun ts g t _ ih ↦ ?_) h
  · refine ⟨?_, rfl⟩
    show (genreId k t).getD [] = key
    rw [ht]
    rfl
  · refine ⟨ih.1, ?_⟩
    have hcount : g.trackCount = _ := ih.2
    show g.trackCount + 1 = _
    rw [hcount]
    simp

/-- The tables after an import are those of the catalog. -/
theorem derived_rebuilt (hids : (tracks.map CatalogTrackJson.id).Nodup) :
    Derived k residentIds sumLong tracks (rebuilt k residentIds tracks) where
  rows := by
    apply perm_rows_fill
    rw [List.map_map]
    exact hids
  resident id row h := by
    have hrows : ((tracks.map (trackEntity k residentIds)).map TrackEntity.id).Nodup := by
      rw [List.map_map]
      exact hids
    obtain ⟨hrow, rfl⟩ := (get?_fill_eq_some hrows).mp h
    obtain ⟨t, -, rfl⟩ := List.mem_map.mp hrow
    exact decide_eq_true_iff
  albums := by
    show Grouped _ (fun row ↦ some row.albumId) (fill AlbumEntity.id .empty
      ((Loop.run k residentIds tracks).albums.rows.map fun r ↦ id r.2)) (AlbumAgrees sumLong)
    rw [albums_run]
    refine grouped_rebuilt (E := id) hids (fun _ ↦ rfl) ?_ (fun key a h ↦ (album_holds h).1)
      fun key a h ↦ (album_holds h).2
    intro a rows rows' hperm ⟨hcount, hsize, hres⟩
    refine ⟨hcount.trans hperm.length_eq, ?_, ?_⟩
    · rw [hsize, sumLong, sumLong, (hperm.map _).sum_eq]
    · rw [hres, hperm.any_eq]
  artists := by
    show Grouped _ (fun row ↦ some row.albumArtistId) (fill ArtistEntity.id .empty
      ((Loop.run k residentIds tracks).artists.rows.map fun r ↦ r.2.entity)) ArtistAgrees
    rw [artists_run]
    refine grouped_rebuilt (E := ArtistAccum.entity) hids (fun _ ↦ rfl) ?_
      (fun key a h ↦ (@artist_holds k residentIds tracks key a h).1)
      fun key a h ↦ (artist_holds h).2
    intro a rows rows' hperm ⟨hcount, halbums⟩
    refine ⟨hcount.trans hperm.length_eq, ?_⟩
    rw [halbums, List.toFinset_eq_of_perm _ _ (hperm.map _)]
  genres := by
    show Grouped _ TrackEntity.genreId (fill GenreEntity.id .empty
      ((Loop.run k residentIds tracks).genres.rows.map fun r ↦ id r.2)) GenreAgrees
    rw [genres_run]
    refine grouped_rebuilt (E := id) hids (fun _ ↦ rfl) ?_
      (fun key g h ↦ (@genre_holds k residentIds tracks key g h).1) fun key g h ↦ (genre_holds h).2
    exact fun g rows rows' hperm hcount ↦ Eq.trans hcount hperm.length_eq

end Loop

section Commit

variable {k}

/-- A manifest of version 1 gives its ids. -/
theorem residentIdsOf_eq {manifest : Option ManifestJson} (h : ∀ m, manifest = some m → m.v = 1) :
    residentIdsOf manifest = some (manifestIds manifest) := by
  cases manifest with
  | none => rfl
  | some m =>
    rw [residentIdsOf, if_pos (h m rfl)]
    rfl

/-- What an import of supported schemas leaves: everything or nothing. -/
theorem tables_importAll {db : Library} {catalog : CatalogJson} {manifest : Option ManifestJson}
    {failsAt : Option Nat} (hv : catalog.v = 1) (hm : ∀ m, manifest = some m → m.v = 1) :
    (importAll k db catalog manifest failsAt).1 =
      (withTransaction db (script k (manifestIds manifest) catalog.tracks) failsAt).getD db := by
  unfold importAll
  rw [if_neg (not_not.mpr hv), residentIdsOf_eq hm]
  dsimp only
  cases withTransaction db (script k (manifestIds manifest) catalog.tracks) failsAt <;> rfl

/-- An import that goes through leaves the tables rebuilt. -/
theorem tables_imported {db : Library} {catalog : CatalogJson} {manifest : Option ManifestJson}
    (hv : catalog.v = 1) (hm : ∀ m, manifest = some m → m.v = 1) :
    (importAll k db catalog manifest none).1 =
      rebuilt k (manifestIds manifest) catalog.tracks := by
  rw [tables_importAll hv hm]
  exact exec_script db

end Commit

/-- An import of supported schemas with distinct ids derives the tables, a second one leaves them,
and a failure at any statement keeps what there was. -/
theorem import_derives (db : Library) (catalog : CatalogJson) (manifest : Option ManifestJson)
    (hv : catalog.v = 1) (hm : ∀ m, manifest = some m → m.v = 1)
    (hids : (catalog.tracks.map CatalogTrackJson.id).Nodup) :
    Imports k sumLong db catalog manifest := by
  refine ⟨?_, ?_, fun n hn ↦ ?_⟩
  · rw [tables_imported hv hm]
    exact derived_rebuilt hids
  · rw [tables_imported hv hm, tables_imported hv hm]
  · rw [tables_importAll hv hm, withTransaction, if_pos hn]
    rfl

/-- The text functions on ASCII words that have no blanks around them, with the three digests that
the example needs. -/
def plainText : KotlinText where
  isBlank text := text.isEmpty
  trim text := text
  lowercase text := text.map lower
  accentFold text := ((text.map lower).reverse.dropWhile (· == 32)).reverse
  sha256Hex text :=
    if text = ascii "X y" then
      ascii "574b084b9a01f7dc7b97c189393e154b1e55f476e5acad4e6b2429bc8933abc0"
    else if text = ascii "x" then
      ascii "2d711642b726b04401627ca9fbac32f5c8530fb1903cc4db02258717921a4881"
    else if text = ascii "g" then
      ascii "cd0aa9856147b6c5b4ff2b7dfee5da20aa38253099ef1b4a64aced233c9afe29"
    else []

/-- A track of one album. -/
def sampleTrack (id : Text) (sizeBytes : Int) : CatalogTrackJson :=
  ⟨id, ascii "archive/" ++ id, some id, [], some (ascii "Y"), [ascii "X"], none, none, none,
    [ascii "g"], none, sizeBytes, ascii "flac", 0, []⟩

/-- Two tracks of one album. -/
theorem sample_imported : Imports plainText sumLong .empty
    ⟨1, [], [sampleTrack (ascii "a") 1, sampleTrack (ascii "b") 2]⟩ (some ⟨1, [ascii "a"]⟩) :=
  import_derives plainText .empty ⟨1, [], [sampleTrack (ascii "a") 1, sampleTrack (ascii "b") 2]⟩
    (some ⟨1, [ascii "a"]⟩) rfl (fun m hm ↦ by cases hm; rfl) (by decide)

/-- A manifest of another schema is refused, with the tables as they were; and the sizes of an album
are added up in 64 bits. -/
theorem refused_and_wrapped :
    ¬ Imports plainText List.sum .empty ⟨1, [], [sampleTrack (ascii "a") 1]⟩
        (some ⟨2, [ascii "a"]⟩) ∧
      ¬ Imports plainText List.sum .empty
        ⟨1, [], [sampleTrack (ascii "a") (2 ^ 62), sampleTrack (ascii "b") (2 ^ 62)]⟩ none := by
  constructor
  · intro h
    have hlen := h.1.rows.length_eq
    revert hlen
    decide
  · intro h
    have halbum := h.1.albums (plainText.sha256Hex (ascii "X y"))
    have hsize := halbum.2.2.1
    revert hsize
    decide

end Import

end Nocturne
