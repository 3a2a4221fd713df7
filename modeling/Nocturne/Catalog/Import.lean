import Mathlib.Data.List.Induction
import Nocturne.Catalog.Emit

/-!
# The catalog that the phone reads

`CatalogJson.kt` and the track rows of `CatalogImporter.kt`. The decoder follows its
documentation under `ignoreUnknownKeys = true; isLenient = false`: a member without a default has
to be there, `null` is no value of a type that is not nullable, and a number has to fit its type.
The albums, artists and genres that the importer derives are left out.
-/

namespace Nocturne

open Lib Lib.JsonTree

/-- `CatalogTrackJson`, `CatalogJson.kt:27–44`. -/
structure CatalogTrackJson where
  id : Text
  path : Text
  title : Option Text
  artist : List Text
  album : Option Text
  albumArtist : List Text
  track : Option Int
  disc : Option Int
  year : Option Int
  genre : List Text
  durationMs : Option Int
  sizeBytes : Int
  format : Text
  mtimeNs : Int
  dateAdded : Text
  deriving DecidableEq, Repr

/-- `CatalogJson`, `CatalogJson.kt:14–19`. -/
structure CatalogJson where
  v : Int
  generatedAt : Text
  tracks : List CatalogTrackJson
  deriving DecidableEq, Repr

/-- `String? = null`. -/
def stringOrNull (o : Members) (key : Text) : Option (Option Text) :=
  withDefault (nullable asString) none o key

/-- `List<String> = emptyList()`. -/
def strings (o : Members) (key : Text) : Option (List Text) := withDefault (asList asString) [] o key

/-- `Int? = null`. -/
def intOrNull (o : Members) (key : Text) : Option (Option Int) :=
  withDefault (nullable (asInteger 32)) none o key

/-- `CatalogTrackJson.serializer()`. -/
def decodeTrack : JsonTree → Option CatalogTrackJson
  | .object o => do
    let id ← required asString o (ascii "id")
    let path ← required asString o (ascii "path")
    let title ← stringOrNull o (ascii "title")
    let artist ← strings o (ascii "artist")
    let album ← stringOrNull o (ascii "album")
    let albumArtist ← strings o (ascii "album_artist")
    let track ← intOrNull o (ascii "track")
    let disc ← intOrNull o (ascii "disc")
    let year ← intOrNull o (ascii "year")
    let genre ← strings o (ascii "genre")
    let durationMs ← withDefault (nullable (asInteger 64)) none o (ascii "duration_ms")
    let sizeBytes ← required (asInteger 64) o (ascii "size_bytes")
    let format ← required asString o (ascii "format")
    let mtimeNs ← required (asInteger 64) o (ascii "mtime_ns")
    let dateAdded ← required asString o (ascii "date_added")
    return { id, path, title, artist, album, albumArtist, track, disc, year, genre, durationMs,
             sizeBytes, format, mtimeNs, dateAdded }
  | _ => none

/-- `CatalogJson.serializer()`. -/
def decodeCatalog : JsonTree → Option CatalogJson
  | .object o => do
    let v ← required (asInteger 32) o (ascii "v")
    let generatedAt ← required asString o (ascii "generated_at")
    let tracks ← required (asList decodeTrack) o (ascii "tracks")
    return { v, generatedAt, tracks }
  | _ => none

/-! ### Track rows -/

/-- The functions of the Kotlin library on strings that the importer uses, with `accentFold` of
`AccentFold.kt`. -/
structure KotlinText where
  isBlank : Text → Bool
  trim : Text → Text
  lowercase : Text → Text
  accentFold : Text → Text
  sha256Hex : Text → Text

/-- `TrackEntity`, `TrackEntity.kt:44–65`. -/
structure TrackEntity where
  id : Text
  title : Text
  artist : List Text
  albumArtist : List Text
  album : Text
  albumId : Text
  albumArtistId : Text
  genre : List Text
  genreId : Option Text
  trackNumber : Option Int
  discNumber : Option Int
  year : Option Int
  durationMs : Option Int
  sizeBytes : Int
  format : Text
  mtimeNs : Int
  dateAdded : Text
  path : Text
  isResident : Bool
  searchBlob : Text
  deriving DecidableEq, Repr

/-- The row of one track, `CatalogImporter.kt:103–147`. -/
def trackEntity (k : KotlinText) (residentIds : List Text) (t : CatalogTrackJson) : TrackEntity :=
  let notBlank := fun s ↦ !k.isBlank s
  let albumArtistGroup := k.trim
    (((t.albumArtist.find? notBlank).or (t.artist.find? notBlank)).getD (ascii "Unknown Artist"))
  let albumTitle := k.trim (t.album.getD (ascii "Unknown Album"))
  let resolvedTitle := k.trim (t.title.getD (ascii "Unknown Title"))
  let firstGenre := (t.genre.find? notBlank).map k.trim
  let spaced := fun words : List Text ↦ words.flatMap fun word ↦ word ++ ascii " "
  { id := t.id
    title := resolvedTitle
    artist := t.artist
    albumArtist := t.albumArtist
    album := albumTitle
    albumId := k.sha256Hex (albumArtistGroup ++ ascii " " ++ k.lowercase albumTitle)
    albumArtistId := k.sha256Hex (k.lowercase albumArtistGroup)
    genre := t.genre
    genreId := firstGenre.map fun g ↦ k.sha256Hex (k.lowercase g)
    trackNumber := t.track
    discNumber := t.disc
    year := t.year
    durationMs := t.durationMs
    sizeBytes := t.sizeBytes
    format := t.format
    mtimeNs := t.mtimeNs
    dateAdded := t.dateAdded
    path := t.path
    isResident := decide (t.id ∈ residentIds)
    searchBlob := k.accentFold (resolvedTitle ++ ascii " " ++ spaced t.artist ++ albumTitle ++
      ascii " " ++ spaced t.albumArtist ++ spaced t.genre) }

/-- `TrackDao.insertAll`, with `OnConflictStrategy.REPLACE`. -/
def insertAll (table : Table Text TrackEntity) (batch : List TrackEntity) :
    Table Text TrackEntity :=
  batch.foldl (fun table e ↦ table.put e.id e) table

/-- `BATCH_SIZE`. -/
def batchSize : Nat := 500

/-- The loop over the tracks, `CatalogImporter.kt:100–190`, with the batch that is not inserted
yet. -/
def insertTracks (k : KotlinText) (residentIds : List Text) :
    List CatalogTrackJson → List TrackEntity → Table Text TrackEntity → Table Text TrackEntity
  | [], batch, table => if batch.isEmpty then table else insertAll table batch
  | t :: ts, batch, table =>
    let batch := batch ++ [trackEntity k residentIds t]
    if batchSize ≤ batch.length then insertTracks k residentIds ts [] (insertAll table batch)
    else insertTracks k residentIds ts batch table

/-- `importAll`, `CatalogImporter.kt:57–250`: `none` when the decoder or a `require` throws, before
the transaction. The table is deleted first. -/
def importAll (k : KotlinText) (residentIds : List Text) (catalogIn : JsonTree) :
    Option (Table Text TrackEntity) :=
  (decodeCatalog catalogIn).bind fun catalog ↦
    if catalog.v = 1 then some (insertTracks k residentIds catalog.tracks [] .empty) else none

/-- The batches do not matter. -/
theorem insertTracks_eq (k : KotlinText) (residentIds : List Text) (ts : List CatalogTrackJson)
    (batch : List TrackEntity) (table : Table Text TrackEntity) :
    insertTracks k residentIds ts batch table =
      insertAll table (batch ++ ts.map (trackEntity k residentIds)) := by
  induction ts generalizing batch table with
  | nil =>
    unfold insertTracks
    rw [List.map_nil, List.append_nil]
    split
    · next h => rw [List.isEmpty_iff.mp h]; rfl
    · rfl
  | cons t ts ih =>
    rw [List.map_cons, List.append_cons batch _ (ts.map _)]
    unfold insertTracks
    dsimp only
    split
    · rw [ih, List.nil_append, insertAll, insertAll, insertAll, ← List.foldl_append]
    · exact ih _ _

theorem insertAll_concat (table : Table Text TrackEntity) (batch : List TrackEntity)
    (e : TrackEntity) : insertAll table (batch ++ [e]) = (insertAll table batch).put e.id e := by
  simp only [insertAll, List.foldl_append, List.foldl_cons, List.foldl_nil]

/-- Inserted rows are found under their ids, and no others. -/
theorem isSome_insertAll {table : Table Text TrackEntity} {batch : List TrackEntity} {id : Text} :
    ((insertAll table batch).get? id).isSome ↔
      (table.get? id).isSome ∨ id ∈ batch.map TrackEntity.id := by
  induction batch using List.reverseRecOn with
  | nil => simp [insertAll]
  | append_singleton batch e ih =>
    rw [insertAll_concat, Table.get?_put]
    by_cases h : id = e.id
    · simp [h]
    · simp only [h, if_false, ih, List.map_append, List.map_cons, List.map_nil, List.mem_append,
        List.mem_singleton, or_false]

/-- Every row stands under its own id. -/
theorem id_insertAll {batch : List TrackEntity} {id : Text} {e : TrackEntity}
    (h : (insertAll .empty batch).get? id = some e) : e.id = id := by
  induction batch using List.reverseRecOn with
  | nil => cases h
  | append_singleton batch e' ih =>
    rw [insertAll_concat, Table.get?_put] at h
    split at h
    · next he =>
      cases h
      exact he.symm
    · exact ih h

end Nocturne
