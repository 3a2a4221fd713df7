import Mathlib.Data.List.DropRight
import Mathlib.Data.Rat.Defs
import Nocturne.Lib.Assoc
import Nocturne.Numbers

/-!
# The configuration

`config.c`: the file is read in pieces of at most 1023 bytes, each of them a blank line, a section
header or a `key = value`. Keys set the fields of the configuration, over its defaults; those of a
section `buckets.…` set the fields of a bucket, which is made where there is none.
-/

namespace Nocturne

open Lib

/-! ### Floating point -/

/-- What `strtod` gives: a value, the text behind it, and whether it sets `errno`. -/
structure Strtod (D : Type) where
  value : D
  rest : Text
  erange : Bool

/-- The type `double`: its constants, `strtod`, and the ratio that a value stands for. -/
structure Doubles (D : Type) where
  literal : ℚ → D
  strtod : Text → Strtod D
  ratio : D → ℚ

variable {D : Type}

/-! ### The data -/

/-- `struct bucket_config` without its name. -/
structure BucketOptions (D : Type) where
  count : Int
  source : Option Text
  weight : D
  windowDays : Int
  count_mem : 0 ≤ count ∧ count ≤ 1000000

/-- `struct nocturne_config` without its buckets. -/
structure Options (D : Type) where
  libraryRoot : Option Text
  syncMetaRoot : Option Text
  flacgetPath : Option Text
  capBytes : Int
  capEffectiveRatio : D
  hysteresisRatio : D
  coldStartPlayThreshold : Int
  randomSeed : UInt64
  syncthingDesktopName : Option Text
  syncthingPhoneName : Option Text
  syncthingPhoneSyncFiles : Option Text
  syncthingPhoneSyncMeta : Option Text
  syncthingDesktopDeviceId : Option Text
  syncthingPhoneDeviceId : Option Text
  transcodeEnabled : Bool
  transcodeFormat : Option Text
  transcodeBitrateKbps : Int
  transcodeLevelLufs : Int
  discoverExcludeAlbumSubstrings : Option Text
  discoverCount : Int
  listenbrainzUsername : Option Text
  listenbrainzUserToken : Option Text
  discoverCount_mem : 0 ≤ discoverCount ∧ discoverCount ≤ 1000

/-- `struct nocturne_config`. -/
structure NocturneConfig (D : Type) extends Options D where
  buckets : List (Text × BucketOptions D)
  distinct : (buckets.map Prod.fst).Nodup

/-! ### Defaults -/

/-- `DEFAULT_BUCKETS`, `config.c:39–47`. -/
def defaultBuckets (fl : Doubles D) : List (Text × BucketOptions D) :=
  [ (ascii "recent_adds", ⟨80, some (ascii "recent_adds_by_mtime"), fl.literal 1, 14, by decide⟩),
    (ascii "top_played", ⟨80, some (ascii "top_played_phone"), fl.literal 0.9, 90, by decide⟩),
    (ascii "recent_plays", ⟨60, some (ascii "recent_plays_phone"), fl.literal 0.85, 30, by decide⟩),
    (ascii "loved", ⟨100, some (ascii "loved"), fl.literal 1, 0, by decide⟩),
    (ascii "exploration", ⟨40, some (ascii "exploration_random"), fl.literal 0.5, 0, by decide⟩),
    (ascii "manual_pins", ⟨200, some (ascii "manual_pins"), fl.literal 1, 0, by decide⟩),
    (ascii "weekly_discovery",
      ⟨20, some (ascii "weekly_discovery_picks"), fl.literal 0.95, 0, by decide⟩) ]

/-- The names of the default buckets. -/
def defaultNames : List Text :=
  [ascii "recent_adds", ascii "top_played", ascii "recent_plays", ascii "loved",
    ascii "exploration", ascii "manual_pins", ascii "weekly_discovery"]

/-- `config_default`, `config.c:52–77`. -/
def configDefault (fl : Doubles D) : NocturneConfig D where
  libraryRoot := none
  syncMetaRoot := none
  flacgetPath := none
  capBytes := 12 * 1024 * 1024 * 1024
  capEffectiveRatio := fl.literal 0.7
  hysteresisRatio := fl.literal 0.1
  coldStartPlayThreshold := 10
  randomSeed := 0
  syncthingDesktopName := none
  syncthingPhoneName := none
  syncthingPhoneSyncFiles := none
  syncthingPhoneSyncMeta := none
  syncthingDesktopDeviceId := none
  syncthingPhoneDeviceId := none
  transcodeEnabled := false
  transcodeFormat := none
  transcodeBitrateKbps := 0
  transcodeLevelLufs := 0
  discoverExcludeAlbumSubstrings := none
  discoverCount := 0
  listenbrainzUsername := none
  listenbrainzUserToken := none
  discoverCount_mem := by decide
  buckets := defaultBuckets fl
  distinct := by
    show defaultNames.Nodup
    decide

/-- A bucket that a section adds: all zero, and no source. -/
def freshBucket (fl : Doubles D) : BucketOptions D := ⟨0, none, fl.literal 0, 0, by decide⟩

/-! ### Values -/

/-- `parse_ll`, `config.c:129–140`; a number that `long long` does not hold is invalid. -/
def parseLl (s : Text) : Option Int :=
  let (sign, rest) : Int × Text :=
    match s.dropWhile isSpace with
    | 45 :: rest => (-1, rest)
    | 43 :: rest => (1, rest)
    | rest => (1, rest)
  match rest.takeWhile isDigit with
  | [] => none
  | ds =>
    let v := sign * digitsValue 0 ds
    if v < -2 ^ 63 ∨ 2 ^ 63 ≤ v then none
    else if (rest.dropWhile isDigit).all isSpace then some v else none

/-- `parse_dbl`, `config.c:142–153`. -/
def parseDbl (fl : Doubles D) (s : Text) : Option D :=
  let r := fl.strtod s
  if s = [] ∨ r.erange ∨ r.rest = s then none
  else if r.rest.all isSpace then some r.value else none

/-- What stands between the quotes, `config.c:165–179`. -/
def unescape : Text → Text
  | 92 :: 110 :: s => 10 :: unescape s
  | 92 :: 116 :: s => 9 :: unescape s
  | 92 :: b :: s => b :: unescape s
  | b :: s => b :: unescape s
  | [] => []

/-- `parse_string`, `config.c:157–182`. -/
def parseString (s : Text) : Option Text :=
  if s.head? = some 34 ∧ 2 ≤ s.length ∧ s.getLast? = some 34 then some (unescape s.tail.dropLast)
  else none

/-! ### Keys -/

/-- What becomes of a key: it edits a value, or it is not known, or its own value is invalid. -/
inductive Edit (α : Type) where
  | set (f : α → α)
  | unknown
  | invalid

/-- A value that is needed, and what it sets. -/
def Edit.of {α β : Type} (set : β → α → α) : Option β → Edit α
  | some v => .set (set v)
  | none => .invalid

/-- How a key uses its value: as a string, an integer or a floating-point number. -/
inductive Setting (D : Type) where
  | str (set : Text → Options D → Options D)
  | ll (set : Int → Options D → Options D) (valid : Int → Bool)
  | dbl (set : D → Options D → Options D)

/-- Bring a number between two bounds. -/
def clamp (lo hi v : Int) : Int := if v < lo then lo else if hi < v then hi else v

theorem clamp_mem {lo hi : Int} (h : lo ≤ hi) (v : Int) : lo ≤ clamp lo hi v ∧ clamp lo hi v ≤ hi := by
  unfold clamp
  split
  · exact ⟨Int.le_refl lo, h⟩
  · split <;> omega

/-- A conversion to `int`. -/
def toInt (v : Int) : Int := v.bmod (2 ^ 32)

/-- The keys outside the buckets, `config.c:227–366`. -/
def settings : List ((Text × Text) × Setting D) :=
  [ ((ascii "library", ascii "path"), .str fun s c ↦ { c with libraryRoot := some s }),
    ((ascii "sync_meta", ascii "path"), .str fun s c ↦ { c with syncMetaRoot := some s }),
    ((ascii "download", ascii "flacget_path"), .str fun s c ↦ { c with flacgetPath := some s }),
    ((ascii "syncthing", ascii "desktop_name"),
      .str fun s c ↦ { c with syncthingDesktopName := some s }),
    ((ascii "syncthing", ascii "phone_name"),
      .str fun s c ↦ { c with syncthingPhoneName := some s }),
    ((ascii "syncthing", ascii "desktop_device_id"),
      .str fun s c ↦ { c with syncthingDesktopDeviceId := some s }),
    ((ascii "syncthing", ascii "phone_device_id"),
      .str fun s c ↦ { c with syncthingPhoneDeviceId := some s }),
    ((ascii "syncthing.phone", ascii "sync_files_path"),
      .str fun s c ↦ { c with syncthingPhoneSyncFiles := some s }),
    ((ascii "syncthing.phone", ascii "sync_meta_path"),
      .str fun s c ↦ { c with syncthingPhoneSyncMeta := some s }),
    ((ascii "cap", ascii "bytes"), .ll (fun v c ↦ { c with capBytes := v }) fun _ ↦ true),
    ((ascii "cap", ascii "effective_ratio"), .dbl fun v c ↦ { c with capEffectiveRatio := v }),
    ((ascii "resolver", ascii "hysteresis"), .dbl fun v c ↦ { c with hysteresisRatio := v }),
    ((ascii "resolver", ascii "cold_start_play_threshold"),
      .ll (fun v c ↦ { c with coldStartPlayThreshold := toInt v }) fun _ ↦ true),
    ((ascii "resolver", ascii "seed"),
      .ll (fun v c ↦ { c with randomSeed := UInt64.ofInt v }) fun _ ↦ true),
    ((ascii "transcode", ascii "enabled"),
      .ll (fun v c ↦ { c with transcodeEnabled := v != 0 }) fun _ ↦ true),
    ((ascii "transcode", ascii "format"), .str fun s c ↦ { c with transcodeFormat := some s }),
    ((ascii "transcode", ascii "bitrate_kbps"),
      .ll (fun v c ↦ { c with transcodeBitrateKbps := clamp 32 510 v }) fun _ ↦ true),
    ((ascii "transcode", ascii "level_lufs"),
      .ll (fun v c ↦ { c with transcodeLevelLufs := v }) fun v ↦
        v == 0 || (decide (-40 ≤ v) && decide (v ≤ -5))),
    ((ascii "discover", ascii "exclude_album_substrings"),
      .str fun s c ↦ { c with discoverExcludeAlbumSubstrings := some s }),
    ((ascii "discover", ascii "count"),
      .ll (fun v c ↦
        { c with
          discoverCount := clamp 1 1000 v
          discoverCount_mem := by
            have h := clamp_mem (by decide : (1 : Int) ≤ 1000) v
            omega }) fun _ ↦ true),
    ((ascii "listenbrainz", ascii "username"),
      .str fun s c ↦ { c with listenbrainzUsername := some s }),
    ((ascii "listenbrainz", ascii "user_token"),
      .str fun s c ↦ { c with listenbrainzUserToken := some s }) ]

/-- The edit of a key outside the buckets. -/
def settingEdit (fl : Doubles D) (sec key raw : Text) : Edit (Options D) :=
  match settings.lookup (sec, key) with
  | some (.str set) => .of set (parseString raw)
  | some (.ll set valid) => .of set ((parseLl raw).filter valid)
  | some (.dbl set) => .of set (parseDbl fl raw)
  | none => .unknown

/-- The edit of a key of a bucket, `config.c:371–395`. -/
def bucketEdit (fl : Doubles D) (key raw : Text) : Edit (BucketOptions D) :=
  if key = ascii "count" then
    .of (fun v b ↦ { b with count := clamp 0 1000000 v, count_mem := clamp_mem (by decide) v })
      (parseLl raw)
  else if key = ascii "weight" then .of (fun v b ↦ { b with weight := v }) (parseDbl fl raw)
  else if key = ascii "window_days" then
    .of (fun v b ↦ { b with windowDays := toInt v }) (parseLl raw)
  else if key = ascii "source" then
    .of (fun s b ↦ { b with source := some s }) (parseString raw)
  else .unknown

/-- A complaint on `stderr`. -/
def complaint (line : Nat) (text : Text) : Text :=
  ascii "config:" ++ decimalNat line ++ ascii ": " ++ text ++ [10]

/-- `find_or_add_bucket`, `config.c:184–200`, and an edit of the bucket. -/
def NocturneConfig.touchBucket (fl : Doubles D) (c : NocturneConfig D) (name : Text)
    (f : BucketOptions D → BucketOptions D) : NocturneConfig D where
  toOptions := c.toOptions
  buckets := touch (freshBucket fl) name f c.buckets
  distinct := nodup_touch c.distinct

/-- The sections of buckets begin so, and no other section does. -/
def bucketsDot : Text := ascii "buckets."

/-- `apply_kv`, `config.c:205–408`: the configuration and a warning, or the error. -/
def applyKv (fl : Doubles D) (c : NocturneConfig D) (sec key raw : Text) (line : Nat) :
    Except Text (NocturneConfig D × Option Text) :=
  let place := sec ++ ascii "." ++ key
  let unknown := complaint line (ascii "ignoring unknown key " ++ place)
  let invalid := complaint line (ascii "invalid value for " ++ place)
  if raw.head? = some 34 ∧ parseString raw = none then
    .error (complaint line (ascii "malformed string value for " ++ place))
  else if bucketsDot.isPrefixOf sec then
    match bucketEdit fl key raw with
    | .set f => .ok (c.touchBucket fl (sec.drop 8) f, none)
    -- the bucket is there from now on
    | .unknown => .ok (c.touchBucket fl (sec.drop 8) id, some unknown)
    | .invalid => .error invalid
  else
    match settingEdit fl sec key raw with
    | .set f => .ok ({ c with toOptions := f c.toOptions }, none)
    | .unknown => .ok (c, some unknown)
    | .invalid => .error invalid

/-! ### Lines -/

/-- `fgets` with a buffer of 1024 bytes, again and again; there is room for `room` more. -/
def fgetsLines (room : Nat) (buf : Text) : Text → List Text
  | [] => if buf.isEmpty then [] else [buf]
  | b :: bs =>
    if b = 10 ∨ room = 1 then (buf ++ [b]) :: fgetsLines 1023 [] bs
    else fgetsLines (room - 1) (buf ++ [b]) bs

/-- `strip_comment`, `config.c:119–126`. -/
def stripComment (prev : Option UInt8) (inStr : Bool) : Text → Text
  | [] => []
  | b :: bs =>
    if b = 34 ∧ prev ≠ some 92 then b :: stripComment (some b) (!inStr) bs
    else if !inStr ∧ (b = 35 ∨ b = 59) then []
    else b :: stripComment (some b) inStr bs

/-- `trim`, `config.c:107–115`. -/
def trim (s : Text) : Text := (s.dropWhile isSpace).rdropWhile isSpace

/-- A line as the loop of `config_load` takes it. -/
inductive Line where
  | blank
  | malformedHeader
  | longHeader
  | header (sec : Text)
  | noEquals
  | entry (key value : Text)
  deriving DecidableEq, Repr

/-- `config.c:427–457`; the C string ends at the first NUL. -/
def readLine (buf : Text) : Line :=
  let line := trim (stripComment none false (buf.takeWhile fun b ↦ b != 0))
  if line = [] then .blank
  else if line.head? = some 91 then
    if !line.contains 93 then .malformedHeader
    else
      let name := trim (line.tail.takeWhile fun b ↦ b != 93)
      if 128 ≤ name.length then .longHeader else .header name
  else if !line.contains 61 then .noEquals
  else .entry (trim (line.takeWhile fun b ↦ b != 61)) (trim (line.dropWhile fun b ↦ b != 61).tail)

/-- The lines of a text. -/
def readLines (text : Text) : List Line := (fgetsLines 1023 [] text).map readLine

/-- What the loop carries: the configuration, the section and the warnings. -/
structure Loading (D : Type) where
  config : NocturneConfig D
  sec : Text
  warnings : List Text

/-- One turn of the loop of `config_load`. -/
def loadLine (fl : Doubles D) (s : Loading D) (line : Nat) : Line → Except Text (Loading D)
  | .blank => .ok s
  | .malformedHeader => .error (complaint line (ascii "malformed section header"))
  | .longHeader => .error (complaint line (ascii "section name too long"))
  | .header sec => .ok { s with sec := sec }
  | .noEquals => .error (complaint line (ascii "expected key = value"))
  | .entry key value =>
    if s.sec = [] then
      .error (complaint line (ascii "key '" ++ key ++ ascii "' outside any [section]"))
    else
      match applyKv fl s.config s.sec key value line with
      | .ok (c, warning) => .ok { s with config := c, warnings := s.warnings ++ warning.toList }
      | .error e => .error e

/-- The loop, from a line on. -/
def loadLines (fl : Doubles D) (s : Loading D) (line : Nat) : List Line → Except Text (Loading D)
  | [] => .ok s
  | l :: ls =>
    match loadLine fl s line l with
    | .ok s => loadLines fl s (line + 1) ls
    | .error e => .error e

/-- What is at the path of the configuration; there may be no path. -/
inductive ConfigFile where
  | missing
  | unreadable (path strerror : Text)
  | text (bytes : Text)
  deriving DecidableEq, Repr

/-- `config_load`, `config.c:410–470`: the configuration with the warnings, or the error. -/
def configLoad (fl : Doubles D) : ConfigFile → Except Text (NocturneConfig D × List Text)
  | .missing => .ok (configDefault fl, [])
  | .unreadable path strerror =>
    .error (ascii "config_load: cannot open " ++ path ++ ascii ": " ++ strerror ++ [10])
  | .text bytes =>
    match loadLines fl ⟨configDefault fl, [], []⟩ 1 (readLines bytes) with
    | .ok s => .ok (s.config, s.warnings)
    | .error e => .error e

end Nocturne
