import Nocturne.Catalog.Emit
import Nocturne.Scan.Run

/-!
# The catalog that the desktop reads back

`catalog_import` of `catalog.c`: each track of a parsed catalog is put into `tracks`. The printer
of the JSON library is a parameter; a path text is split into its components.
-/

namespace Nocturne

open Lib

/-- The components of a path text. A relative path is marked, since rows hold absolute paths. -/
def splitPath (t : Text) : Path :=
  match t.splitOn 47 with
  | [] :: names => names
  | names => [47] :: names

/-- `json_str_or_null`, `catalog.c:215–221`. -/
def jsonStrOrNull (o : JsonTree.Members) (key : Text) : Option Text :=
  match o.lookup key with
  | some (.string s) => some s
  | _ => none

/-- `json_object_get`, `json_is_integer` and `json_integer_value`. -/
def jsonIntOrNull (o : JsonTree.Members) (key : Text) : Option Int :=
  match o.lookup key with
  | some (.integer n) => some n
  | _ => none

/-- `array_to_storage`, `catalog.c:226–238`. -/
def arrayToStorage (jsonDumps : JsonTree → Text) : Option JsonTree → Option Text
  | some (.array []) => none
  | some (.array [e]) => e.asString
  | some (.array es) => some (jsonDumps (.array es))
  | _ => none

/-- `%lld` into a buffer of sixteen bytes. -/
def shortDecimal (n : Int) : Text := (ascii (toString n)).take 15

/-- `catalog.c:284–289`: the absolute path in a buffer of 4096 bytes. -/
def absPath (libraryRoot : Option Text) (rel : Text) : Path :=
  let full :=
    match libraryRoot with
    | some root => if root.head? = some 47 then root ++ 47 :: rel else rel
    | none => rel
  splitPath (full.take 4095)

/-- The row of one track, `catalog.c:291–331`; `none` where the `NOT NULL` columns for the times
get no value. -/
def restoredRow (jsonDumps : JsonTree → Text) (libraryRoot : Option Text) (rel : Text)
    (t : JsonTree.Members) : Option TrackRow :=
  (jsonStrOrNull t (ascii "date_added")).map fun dateAdded ↦
    { path := absPath libraryRoot rel
      mtimeNs := (jsonIntOrNull t (ascii "mtime_ns")).getD 0
      sizeBytes := (jsonIntOrNull t (ascii "size_bytes")).getD 0
      format := jsonStrOrNull t (ascii "format")
      title := jsonStrOrNull t (ascii "title")
      artist := arrayToStorage jsonDumps (t.lookup (ascii "artist"))
      album := jsonStrOrNull t (ascii "album")
      albumArtist := arrayToStorage jsonDumps (t.lookup (ascii "album_artist"))
      trackNumber := (jsonIntOrNull t (ascii "track")).map shortDecimal
      discNumber := (jsonIntOrNull t (ascii "disc")).map shortDecimal
      year := (jsonIntOrNull t (ascii "year")).map shortDecimal
      genre := arrayToStorage jsonDumps (t.lookup (ascii "genre"))
      durationMs := (jsonIntOrNull t (ascii "duration_ms")).filter fun d ↦ decide (0 ≤ d)
      tagsStatus := ascii "ok"
      tagWarning := none
      dateAdded := dateAdded
      lastSeenAt := dateAdded }

/-- `track_repo_upsert`, `track_repo.c:197–204`. A row without its times is refused. -/
def trackRepoUpsert {ω : Type} (sha : Sha) (row : Option TrackRow) : Sys ω Bool := do
  match ← trackRepoLookupBySha256 sha with
  | none => return false
  | some true =>
    let rc ← exec (.updateTrack sha) fun db ↦ row.bind fun row ↦ db.updateTrack sha row
    return rc == .done
  | some false =>
    let rc ← exec (.insertTrack sha) fun db ↦ row.bind fun row ↦ db.insertTrack sha row
    return rc == .done

/-- One track of `catalog_import`: one without an id or a path is passed over. The state counts
what is imported. -/
def importTrack (jsonDumps : JsonTree → Text) (libraryRoot : Option Text) :
    JsonTree → Sys Nat Unit
  | .object t =>
    match jsonStrOrNull t (ascii "id"), jsonStrOrNull t (ascii "path") with
    | some sha, some rel => do
      if ← trackRepoUpsert sha (restoredRow jsonDumps libraryRoot rel t) then
        tally fun imported ↦ imported + 1
      else pure ()
    | _, _ => pure ()
  | _ => pure ()

/-- The tracks of a catalog with `v` 1. -/
def catalogTracks : JsonTree → Option (List JsonTree)
  | .object root =>
    match root.lookup (ascii "v"), root.lookup (ascii "tracks") with
    | some (.integer 1), some (.array tracks) => some tracks
    | _, _ => none
  | _ => none

/-- `load_library_root` on the database. A failing statement gives no root. -/
def libraryRootOf : Sys Nat (Option Text) := do
  let r ← query .libraryRoot fun db ↦ loadLibraryRoot db.catalogTables
  return r.join

/-- `catalog_import`, `catalog.c:240–341`, of a file that parses; `false` is −1. -/
def catalogImport (jsonDumps : JsonTree → Text) (catalog : JsonTree) : Sys Nat Bool := do
  match catalogTracks catalog with
  | none => return false
  | some tracks =>
    let libraryRoot ← libraryRootOf
    Proc.each (importTrack jsonDumps libraryRoot) tracks
    return true

end Nocturne
