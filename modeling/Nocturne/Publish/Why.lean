import Nocturne.Printed
import Nocturne.Publish.Manifest

/-!
# Why a track is resident

`nocturned why` looks a track up in the published `manifest.json`, by its hash or by the beginning
of it, and prints the buckets that it is there for. It compares them with the row of
`manifest_current` and warns where they differ.
-/

namespace Nocturne

open Lib Lib.JsonTree

/-! ### The command -/

/-- `struct cli_args`, as far as the command reads it. -/
structure WhyArgs where
  trackId : Option Text
  manifestPathOverride : Option Text
  json : Bool

/-- What the command finds: the path of the configuration and its `sync_meta_root`, unless it cannot
be loaded; what Jansson reads of a file; and the database, unless it cannot be opened or queried. -/
structure WhyEnv where
  configPath : Text
  syncMetaRoot : Option (Option Text)
  loadFile : Text → Except Text JsonTree
  db : Option Db

/-- The exit code, and what is printed. -/
structure WhyResult where
  exit : Nat
  out : Text
  err : Text
  deriving DecidableEq, Repr

/-- A digit that `validate_track_id` takes. -/
def isHexDigit (c : UInt8) : Bool :=
  (48 ≤ c && c ≤ 57) || (97 ≤ c && c ≤ 102) || (65 ≤ c && c ≤ 70)

/-- `validate_track_id`, `why_cmd.c:51–81`: the code of the error, or the id in lower case. -/
def validateTrackId (trackId : Option Text) : Except Nat Text :=
  match trackId with
  | none | some [] => .error 4
  | some s =>
    if s.length < 8 then .error 1
    else if 64 < s.length then .error 2
    else if s.all isHexDigit then .ok (s.map lower)
    else .error 3

/-- What is said about an id that is not valid, `why_cmd.c:170–190`. -/
def trackIdError : Nat → Text
  | 1 => ascii "nocturned why: prefix must be at least 8 hex chars (or a full 64-char sha256)\n"
  | 2 => ascii "nocturned why: track-id too long (max 64 hex chars)\n"
  | 3 => ascii "nocturned why: track-id must be hex only (0-9, a-f)\n"
  | _ => ascii "nocturned why: missing track-id (usage: nocturned why <track-id>)\n"

/-- The argument of `--manifest`, unless it is empty. -/
def WhyArgs.override (args : WhyArgs) : Option Text := args.manifestPathOverride.filter (· ≠ [])

/-- The path of the manifest, `why_cmd.c:197–226`, with `default_manifest_path`. -/
def whyManifestPath (args : WhyArgs) (env : WhyEnv) : Except Text Text :=
  match args.override with
  | some path => .ok path
  | none =>
    match env.syncMetaRoot with
    | none =>
      .error (ascii "nocturned why: cannot load config from " ++ env.configPath ++ ascii "\n")
    | some none | some (some []) =>
      .error (ascii "nocturned why: sync_meta.path not set in config\n")
    | some (some root) => .ok (root ++ ascii "/manifest.json")

/-- What `buckets_csv_from_array` appends for an element: the comma depends on the index, not on
whether there was a string before. -/
def csvPiece : JsonTree × Nat → Text
  | (.string s, i) => (if i = 0 then [] else [44]) ++ columnText s
  | _ => []

/-- `buckets_csv_from_array`, `why_cmd.c:94–121`. -/
def bucketsCsvFromArray (elements : List JsonTree) : Text := elements.zipIdx.flatMap csvPiece

/-- The needle is the whole hash, or the beginning of it. -/
def hits (needle id : Text) : Bool :=
  if needle.length = 64 then id.length == 64 && id == needle else needle.isPrefixOf id

/-- The buckets of an entry, `why_cmd.c:293–298`. -/
def whyCsv (o : Members) : Text :=
  match o.lookup (ascii "buckets") with
  | some (.array elements) => bucketsCsvFromArray elements
  | _ => []

/-- An entry that matches: its id and its buckets, `why_cmd.c:270–303`. -/
def whyMatch (needle : Text) : JsonTree → Option (Text × Text)
  | .object o =>
    match o.lookup (ascii "id") with
    | some (.string id) =>
      if hits needle (columnText id) then some (columnText id, whyCsv o) else none
    | _ => none
  | _ => none

/-- `json_object_get` of the array of the residents. -/
def residentArray : JsonTree → Option (List JsonTree)
  | .object o =>
    match o.lookup (ascii "resident") with
    | some (.array entries) => some entries
    | _ => none
  | _ => none

/-- What is printed of the one match, `why_cmd.c:324–343`. -/
def whyOut (json : Bool) (id csv : Text) : Text :=
  if json then
    ascii "\x7b\"id\":\"" ++ id ++ ascii "\",\"buckets\":" ++ arrayText ((strtok csv).map quoted) ++
      ascii "\x7d\n"
  else id ++ ascii "  " ++ csv ++ ascii "\n"

/-- `lookup_manifest_current_csv`, `why_cmd.c:130–160`. -/
def lookupManifestCurrentCsv (db : Option Db) (id : Text) : Option Text :=
  (db.bind fun db ↦ db.manifestCurrent.get? id).map fun row ↦ columnText row.bucketsCsv

/-- The warning, `why_cmd.c:345–362`. -/
def divergence (args : WhyArgs) (env : WhyEnv) (id csv : Text) : Text :=
  match args.override, lookupManifestCurrentCsv env.db id with
  | none, some dbCsv =>
    if dbCsv ≠ csv then
      ascii "warning: manifest.json and manifest_current disagree for " ++ id ++
        ascii "; phone shows what's in manifest.json\n" ++
        ascii "    manifest.json     : " ++ csv ++ ascii "\n" ++
        ascii "    manifest_current  : " ++ dbCsv ++ ascii "\n"
    else []
  | _, _ => []

/-- What is said of several matches, of which five are named, `why_cmd.c:311–321`. -/
def ambiguous (found : List (Text × Text)) : Text :=
  ascii "nocturned why: ambiguous prefix: matches " ++ decimalNat found.length ++
    ascii " residents\n" ++
    (found.take 5).flatMap (fun f ↦ ascii "    " ++ f.1 ++ ascii "\n") ++
    if 5 < found.length then
      ascii "    ... and " ++ decimalNat (found.length - 5) ++ ascii " more\n"
    else []

/-- What comes of the matches, `why_cmd.c:305–364`. -/
def whyDecide (args : WhyArgs) (env : WhyEnv) (needle : Text) : List (Text × Text) → WhyResult
  | [] => ⟨1, [], ascii "nocturned why: track-id not in manifest: " ++ needle ++ ascii "\n"⟩
  | [(id, csv)] => ⟨0, whyOut args.json id csv, divergence args env id csv⟩
  | found => ⟨1, [], ambiguous found⟩

/-- `why_cmd_main`, `why_cmd.c:162–375`. -/
def whyCmdMain (args : WhyArgs) (env : WhyEnv) : WhyResult :=
  match validateTrackId args.trackId with
  | .error v => ⟨64, [], trackIdError v⟩
  | .ok needle =>
    match whyManifestPath args env with
    | .error message => ⟨1, [], message⟩
    | .ok path =>
      match env.loadFile path with
      | .error text =>
        ⟨1, [], ascii "nocturned why: cannot read " ++ path ++ ascii ": " ++
          (if text = [] then ascii "load failed" else text) ++ ascii "\n" ++
          ascii "nocturned why: hint " ++ [0xE2, 0x80, 0x94] ++
          ascii " run `nocturned publish` to (re)create it\n"⟩
      | .ok root =>
        match residentArray root with
        | none =>
          ⟨1, [], ascii "nocturned why: " ++ path ++
            ascii " has no 'resident' array (corrupt or v!=1?)\n"⟩
        | some entries => whyDecide args env needle (entries.filterMap (whyMatch needle))

/-! ### What the phone reads -/

/-- The strings of an entry are C strings, as Jansson makes them. -/
def ResidentEntry.CStrings (entry : ResidentEntry) : Prop :=
  0 ∉ entry.id ∧ ∀ b ∈ entry.buckets, 0 ∉ b

/-- What `why` prints of the buckets of an entry. -/
def ResidentEntry.csv (entry : ResidentEntry) : Text := [44].intercalate entry.buckets

/-- An entry of plain names: no byte of its id or of a bucket needs an escape in JSON, which `why`
does not write, and no bucket is empty or has a comma, where `why` cuts. -/
structure ResidentEntry.Plain (entry : ResidentEntry) : Prop where
  id : IsUnescaped entry.id
  buckets : ∀ b ∈ entry.buckets, IsUnescaped b ∧ b ≠ [] ∧ 44 ∉ b

/-- The answer about an entry: its id and its buckets with commas between them, or, of an entry of
plain names, a JSON document that says them. -/
structure Tells (json : Bool) (entry : ResidentEntry) (result : WhyResult) : Prop where
  exit : result.exit = 0
  text : json = false → result.out = entry.id ++ ascii "  " ++ entry.csv ++ ascii "\n"
  json : json = true → entry.Plain → JsonText.read result.out = some (.object
    [(ascii "id", .string entry.id), (ascii "buckets", .array (entry.buckets.map .string))])

section

variable {args : WhyArgs} {env : WhyEnv} {needle path : Text} {tree e : JsonTree}
  {entry : ResidentEntry} {entries : List ResidentEntry} {json : PublishedManifestJson}

/-- From the second index on, each string has a comma in front. -/
theorem csvPieces_tail (bs : List Text) (h : ∀ b ∈ bs, 0 ∉ b) (k : Nat) :
    ((bs.map JsonTree.string).zipIdx (k + 1)).flatMap csvPiece = bs.flatMap fun b ↦ 44 :: b := by
  induction bs generalizing k with
  | nil => rfl
  | cons b bs ih =>
    rw [List.forall_mem_cons] at h
    rw [List.map_cons, List.zipIdx_cons, List.flatMap_cons, List.flatMap_cons, ih h.2]
    simp [csvPiece, columnText_of_notMem h.1]

theorem intercalate_comma (b : Text) (bs : List Text) :
    [44].intercalate (b :: bs) = b ++ bs.flatMap fun b ↦ 44 :: b := by
  induction bs generalizing b with
  | nil => simp
  | cons b' bs ih => simp [List.intercalate_cons_cons, ih]

theorem bucketsCsvFromArray_strings (bs : List Text) (h : ∀ b ∈ bs, 0 ∉ b) :
    bucketsCsvFromArray (bs.map .string) = [44].intercalate bs := by
  cases bs with
  | nil => rfl
  | cons b bs =>
    rw [List.forall_mem_cons] at h
    have htail := csvPieces_tail bs h.2 0
    rw [intercalate_comma, bucketsCsvFromArray, List.map_cons, List.zipIdx_cons, List.flatMap_cons,
      htail]
    simp [csvPiece, columnText_of_notMem h.1]

theorem mapM_asString_eq {elements : List JsonTree} {bs : List Text}
    (h : elements.mapM asString = some bs) : elements = bs.map .string := by
  rw [mapM_eq_some] at h
  induction h with
  | nil => rfl
  | @cons e b elements bs he _ ih =>
    cases e <;> cases he
    rw [List.map_cons, ih]

/-- An entry that the phone decodes matches as its id says. -/
theorem whyMatch_of_decode (h : decodeResident e = some entry) (hc : entry.CStrings) :
    whyMatch needle e = if hits needle entry.id then some (entry.id, entry.csv) else none := by
  cases e with
  | object o =>
    simp only [decodeResident, required, strings, withDefault, Option.bind_eq_bind,
      Option.bind_eq_some_iff, Option.pure_def, Option.some.injEq] at h
    obtain ⟨id, ⟨v, hv, hid⟩, bs, hbs, rfl⟩ := h
    cases v <;> cases hid
    have hcsv : whyCsv o = [44].intercalate bs := by
      unfold whyCsv
      cases hlookup : o.lookup (ascii "buckets") with
      | none =>
        rw [hlookup] at hbs
        cases hbs
        rfl
      | some v =>
        rw [hlookup] at hbs
        cases v with
        | array elements =>
          obtain rfl := mapM_asString_eq hbs
          exact bucketsCsvFromArray_strings bs hc.2
        | _ => cases hbs
    simp only [whyMatch, hv, columnText_of_notMem hc.1, hcsv, ResidentEntry.csv]
  | _ => cases h

/-- The matches are those of the entries that the phone decodes. -/
theorem whyMatches_of_decode {vs : List JsonTree} (h : vs.mapM decodeResident = some entries)
    (hc : ∀ entry ∈ entries, entry.CStrings) : vs.filterMap (whyMatch needle) =
      (entries.filter fun entry ↦ hits needle entry.id).map fun entry ↦ (entry.id, entry.csv) := by
  rw [mapM_eq_some] at h
  induction h with
  | nil => rfl
  | @cons v entry vs entries hv _ ih =>
    rw [List.forall_mem_cons] at hc
    rw [List.filterMap_cons, whyMatch_of_decode hv hc.1, ih hc.2]
    by_cases hhit : hits needle entry.id = true
    · simp [hhit]
    · simp [hhit]

theorem residentArray_of_decode (h : decodeManifest tree = some json) :
    ∃ vs, residentArray tree = some vs ∧ vs.mapM decodeResident = some json.resident := by
  cases tree with
  | object o =>
    simp only [decodeManifest, required, Option.bind_eq_bind, Option.bind_eq_some_iff,
      Option.pure_def, Option.some.injEq] at h
    obtain ⟨-, -, -, -, -, -, -, -, resident, ⟨v, hv, hlist⟩, rfl⟩ := h
    cases v with
    | array vs => exact ⟨vs, by simp [residentArray, hv], hlist⟩
    | _ => cases hlist
  | _ => cases h

/-- `why` decides on the entries that the phone decodes. -/
theorem whyCmdMain_of_decode (hneedle : validateTrackId args.trackId = .ok needle)
    (hpath : whyManifestPath args env = .ok path) (hload : env.loadFile path = .ok tree)
    (h : decodeManifest tree = some json) (hc : ∀ entry ∈ json.resident, entry.CStrings) :
    whyCmdMain args env = whyDecide args env needle
      ((json.resident.filter fun entry ↦ hits needle entry.id).map fun entry ↦
        (entry.id, entry.csv)) := by
  obtain ⟨vs, hvs, hdecode⟩ := residentArray_of_decode h
  simp only [whyCmdMain, hneedle, hpath, hload, hvs, whyMatches_of_decode hdecode hc]

/-- What is printed as JSON is read back. -/
theorem read_whyOut (hplain : entry.Plain) :
    JsonText.read (whyOut true entry.id entry.csv) = some (.object
      [(ascii "id", .string entry.id), (ascii "buckets", .array (entry.buckets.map .string))]) := by
  have hcut : strtok entry.csv = entry.buckets :=
    Tokens.tokens_intercalate fun b hmem ↦ (hplain.buckets b hmem).2
  have hbuckets : JsonText.Reads (arrayText (entry.buckets.map quoted))
      (.array (entry.buckets.map .string)) :=
    reads_arrayText fun b hmem ↦ reads_plain (hplain.buckets b hmem).1
  have hkeys : IsUnescaped (ascii "id") ∧ IsUnescaped (ascii "buckets") ∧
      ascii "\x7b\"id\":\"" = [123, 34] ++ ascii "id" ++ [34, 58, 34] ∧
      ascii "\",\"buckets\":" = [34, 44, 34] ++ ascii "buckets" ++ [34, 58] ∧
      ascii "\x7d\n" = [125, 10] := by decide +kernel
  obtain ⟨hplainId, hplainBuckets, hopen, hmiddle, hclose⟩ := hkeys
  have hnone : JsonText.Blank [] := by simp [JsonText.Blank]
  have hobject := reads_members hnone hnone hnone
    (.cons (reads_memberText hnone hplainId (reads_plain hplain.id)).padded
      (.cons (reads_memberText hnone hplainBuckets hbuckets).padded .nil)) (by simp)
  have hnewline : JsonText.Blank [10] := by decide
  have hread := JsonText.read_of_reads hnone hobject hnewline
  rw [whyOut, if_pos rfl, hcut, hopen, hmiddle, hclose]
  simpa [memberText, quoted] using hread

/-- `why` and the phone agree about any manifest that the phone decodes: asked for an id that only
one of its entries has, or begins with, `why` tells the buckets of that entry, and otherwise it
fails and prints nothing. -/
theorem why_agrees (hneedle : validateTrackId args.trackId = .ok needle)
    (hpath : whyManifestPath args env = .ok path) (hload : env.loadFile path = .ok tree)
    (h : decodeManifest tree = some json) (hc : ∀ entry ∈ json.resident, entry.CStrings) :
    (∃ entry, (json.resident.filter fun entry ↦ hits needle entry.id) = [entry] ∧
        Tells args.json entry (whyCmdMain args env)) ∨
      ((json.resident.filter fun entry ↦ hits needle entry.id).length ≠ 1 ∧
        (whyCmdMain args env).exit = 1 ∧ (whyCmdMain args env).out = []) := by
  rw [whyCmdMain_of_decode hneedle hpath hload h hc]
  generalize (json.resident.filter fun entry ↦ hits needle entry.id) = found
  rcases found with _ | ⟨entry, _ | ⟨second, rest⟩⟩
  · exact Or.inr ⟨by simp, rfl, rfl⟩
  · refine Or.inl ⟨entry, rfl, rfl, fun hjson ↦ ?_, fun hjson hplain ↦ ?_⟩
    · simp [whyDecide, whyOut, hjson]
    · rw [List.map_singleton, whyDecide, hjson]
      exact read_whyOut hplain
  · exact Or.inr ⟨by simp, rfl, rfl⟩

/-! ### What was published -/

variable {m : Resolution} {db db' : Db} {now : Int} {t : ManifestTrack}

/-- The warning is given where the row has other buckets than the manifest. -/
theorem divergence_eq_nil {id csv : Text} : divergence args env id csv = [] ↔
    args.override.isSome ∨ ∀ later ∈ env.db, ∀ row ∈ later.manifestCurrent.get? id,
      columnText row.bucketsCsv = csv := by
  have hwarning : ascii "warning: manifest.json and manifest_current disagree for " ≠ [] := by
    decide +kernel
  unfold divergence lookupManifestCurrentCsv
  cases args.override with
  | some file => simp
  | none =>
    cases env.db with
    | none => simp
    | some later =>
      cases hrow : later.manifestCurrent.get? id with
      | none => simp [hrow]
      | some row =>
        by_cases hsame : columnText row.bucketsCsv = csv
        · simp [hrow, hsame]
        · simp [hrow, hsame, hwarning]

/-- The entries of a published resolution are C strings. -/
theorem cStrings_shown (now : Int) (hkept : m.Kept db) :
    ∀ entry ∈ (m.shown db now).resident, entry.CStrings := by
  intro entry hentry
  obtain ⟨t, ht, rfl⟩ := List.mem_map.mp hentry
  have hk := hkept.tracks t ht
  exact ⟨hk.sha.1, fun b hb ↦ (hk.bucket b hb).1.1⟩

/-- Of a resolution that was published, `why` tells the buckets of the track that it is asked for,
and warns exactly where the tables have come to hold other buckets for it; not, therefore, as long
as they are those that were published. -/
theorem why_published (hm : m.resident.Pairwise fun n n' ↦ n.sha256 < n'.sha256)
    (h : db.Manifested m db') (hkept : m.Kept db) (htree : loadManifestTree now db' = some tree)
    (hneedle : validateTrackId args.trackId = .ok needle)
    (hpath : whyManifestPath args env = .ok path) (hload : env.loadFile path = .ok tree) :
    (∃ t, ((m.published db).filter fun t ↦ hits needle t.sha256) = [t] ∧
        Tells args.json ⟨t.sha256, t.buckets⟩ (whyCmdMain args env) ∧
        ((whyCmdMain args env).err = [] ↔ args.override.isSome ∨ ∀ later ∈ env.db,
          ∀ row ∈ later.manifestCurrent.get? t.sha256,
            columnText row.bucketsCsv = bucketsToCsv t.buckets) ∧
        (env.db = some db' → (whyCmdMain args env).err = [])) ∨
      (((m.published db).filter fun t ↦ hits needle t.sha256).length ≠ 1 ∧
        (whyCmdMain args env).exit = 1 ∧ (whyCmdMain args env).out = []) := by
  have hdecode : decodeManifest tree = some (m.shown db now) := by
    have harrives := (manifest_arrives_iff hm h now).mpr hkept
    rwa [htree] at harrives
  have hc := cStrings_shown now hkept
  have hfound : ((m.shown db now).resident.filter fun entry ↦ hits needle entry.id) =
      ((m.published db).filter fun t ↦ hits needle t.sha256).map fun t ↦ ⟨t.sha256, t.buckets⟩ := by
    rw [Resolution.shown, List.filter_map]
    rfl
  have hmain := whyCmdMain_of_decode hneedle hpath hload hdecode hc
  rcases why_agrees hneedle hpath hload hdecode hc with ⟨entry, hone, htells⟩ | ⟨hnone, hrc, hout⟩
  · rw [hone] at hmain
    rw [hfound, List.map_eq_singleton_iff] at hone
    obtain ⟨t, ht, rfl⟩ := hone
    have hmem : t ∈ m.published db :=
      List.mem_of_mem_filter (ht ▸ List.mem_singleton_self t)
    have hquiet : (whyCmdMain args env).err = [] ↔ args.override.isSome ∨ ∀ later ∈ env.db,
        ∀ row ∈ later.manifestCurrent.get? t.sha256,
          columnText row.bucketsCsv = bucketsToCsv t.buckets := by
      rw [hmain, bucketsToCsv_eq_intercalate]
      exact divergence_eq_nil
    refine Or.inl ⟨t, ht, htells, hquiet, fun hdb ↦ hquiet.mpr (Or.inr ?_)⟩
    -- the row is the one that the resolver has written
    intro later hlater row hrow
    rw [hdb] at hlater
    cases hlater
    obtain ⟨-, u, hu, hsha, rfl⟩ := (h.tracks t.sha256 row).mp hrow
    have hnodup : (m.resident.map ManifestTrack.sha256).Nodup :=
      List.pairwise_map.mpr (hm.imp fun hlt ↦ ne_of_lt hlt)
    have hsame : u = t := List.inj_on_of_nodup_map hnodup hu (List.mem_of_mem_filter hmem) hsha
    subst hsame
    have hk := hkept.tracks u hmem
    have hzero : 0 ∉ bucketsToCsv u.buckets := by
      rw [bucketsToCsv_eq_intercalate, Tokens.mem_intercalate (by decide)]
      rintro ⟨b, hb, hin⟩
      exact (hk.bucket b hb).1.1 hin
    show columnText (bucketsCsv u.buckets) = bucketsToCsv u.buckets
    rw [bucketsCsv_eq_bucketsToCsv.mpr hk.room, columnText_of_notMem hzero]
  · rw [hfound, List.length_map] at hnone
    exact Or.inr ⟨hnone, hrc, hout⟩

end

namespace OneResident

def track : ManifestTrack := ⟨ascii "0123456789abcdef", 5, [ascii "loved", ascii "recent"]⟩

def m : Resolution where
  resident := [track]
  usedBytes := 5
  generatedAt := []
  capBytes := 10
  capEffectiveBytes := 9
  coldStart := false

/-- The tables as the resolver has written them. -/
def tables : Db :=
  { Db.empty with
    manifestCurrent := Table.empty.put track.sha256 ⟨bucketsCsv track.buckets, 5⟩
    manifestMeta := m.numbers.foldl (fun t n ↦ t.put n.1 n.2) .empty }

def tree : JsonTree :=
  .object (JsonTree.build (manifestMembers 0 (metaLong tables (ascii "cap_bytes") 0)
    (metaLong tables (ascii "used_bytes") 0) tables.prevLoad))

/-- Ten digits in upper case are enough. -/
def args : WhyArgs := ⟨some (ascii "0123456789AB"), none, true⟩

def env : WhyEnv := ⟨[], some (some (ascii "/meta")), fun _ ↦ .ok tree, some tables⟩

theorem manifested : Db.empty.Manifested m tables where
  tracks sha row := by
    rw [tables, Table.get?_put]
    by_cases hsha : sha = track.sha256
    · rw [if_pos hsha, Option.some.injEq]
      constructor
      · rintro rfl
        exact ⟨rfl, track, List.mem_singleton_self _, hsha.symm, rfl⟩
      · rintro ⟨-, t, ht, -, rfl⟩
        rw [List.mem_singleton.mp ht]
        rfl
    · rw [if_neg hsha]
      refine iff_of_false (by simp) ?_
      rintro ⟨-, t, ht, rfl, -⟩
      exact hsha (by rw [List.mem_singleton.mp ht])
  numbers := by decide +kernel

theorem sorted : m.resident.Pairwise fun n n' ↦ n.sha256 < n'.sha256 := List.pairwise_singleton _ _

theorem published : m.published Db.empty = [track] := rfl

theorem kept : m.Kept Db.empty where
  some := by simp [published]
  cap := by
    show FitsLong 10
    exact ⟨by decide, by decide⟩
  used := by
    show FitsLong 5
    exact ⟨by decide, by decide⟩
  tracks t ht := by
    rw [published, List.mem_singleton] at ht
    subst ht
    have hall : (0 ∉ track.sha256 ∧ utf8Valid track.sha256 = true) ∧
        (∀ b ∈ track.buckets, (0 ∉ b ∧ utf8Valid b = true) ∧ b ≠ [] ∧ 44 ∉ b) ∧
        (bucketsToCsv track.buckets).length ≤ 511 := by decide +kernel
    exact ⟨hall.1, hall.2.1, hall.2.2⟩

theorem loaded : loadManifestTree 0 tables = some tree := by
  unfold loadManifestTree manifestTree
  rw [if_neg]
  · rfl
  · rw [prevLoad_written sorted manifested, published]
    simp

theorem needle : validateTrackId args.trackId = .ok (ascii "0123456789ab") := by decide +kernel

theorem path : whyManifestPath args env = .ok (ascii "/meta" ++ ascii "/manifest.json") := rfl

theorem asked : ((m.published Db.empty).filter fun t ↦ hits (ascii "0123456789ab") t.sha256) =
    [track] := by
  decide +kernel

/-- The track is told, without a warning. -/
theorem told : (whyCmdMain args env).exit = 0 ∧ (whyCmdMain args env).err = [] := by
  have hload : env.loadFile (ascii "/meta" ++ ascii "/manifest.json") = .ok tree := rfl
  rcases why_published sorted manifested kept loaded needle path hload with
    ⟨t, -, htells, -, hquiet⟩ | ⟨hne, -⟩
  · exact ⟨htells.exit, hquiet rfl⟩
  · rw [asked] at hne
    exact absurd rfl hne

/-- The document that is printed names both buckets. -/
theorem agreed : JsonText.read (whyCmdMain args env).out = some (.object
    [(ascii "id", .string track.sha256),
      (ascii "buckets", .array [.string (ascii "loved"), .string (ascii "recent")])]) := by
  have hdecode : decodeManifest tree = some (m.shown Db.empty 0) := by
    have harrives := (manifest_arrives_iff sorted manifested 0).mpr kept
    rwa [loaded] at harrives
  have hentries : ((m.shown Db.empty 0).resident.filter fun entry ↦
      hits (ascii "0123456789ab") entry.id) = [⟨track.sha256, track.buckets⟩] := by
    decide +kernel
  have hload : env.loadFile (ascii "/meta" ++ ascii "/manifest.json") = .ok tree := rfl
  rcases why_agrees needle path hload hdecode (cStrings_shown 0 kept) with
    ⟨entry, hone, htells⟩ | ⟨hne, -⟩
  · rw [hentries] at hone
    cases hone
    exact htells.json rfl ⟨by decide +kernel, by decide +kernel⟩
  · rw [hentries] at hne
    exact absurd rfl hne

end OneResident

end Nocturne
