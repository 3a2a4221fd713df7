import Nocturne.Catalog.Emit
import Nocturne.Printed
import Nocturne.Tagcheck.Report
import Nocturne.Tagcheck.Walker

/-!
# The JSON report

`nocturne-tagcheck --json` collects the result of the check of each file that the walk hands over,
and prints one document in the end. `report_exact` says what a reader gets from that document.
-/

namespace Nocturne

open Lib Lib.JsonText

namespace Tagcheck

/-! ### The check with its explanations -/

/-- `canonical_field_name`, `check.c:32–47`. -/
def canonicalFieldName : CanonicalField → Text
  | .title => ascii "title"
  | .artist => ascii "artist"
  | .album => ascii "album"
  | .albumArtist => ascii "album_artist"
  | .trackNumber => ascii "track_number"
  | .discNumber => ascii "disc_number"
  | .year => ascii "year"
  | .genre => ascii "genre"

/-- `struct check_issue` with its explanation. -/
structure DetailedIssue where
  issue : CheckIssue
  detail : Text
  deriving DecidableEq, Repr

/-- Encoding and version, `check.c:143–154`. -/
def versionIssues (r : TagRecord) : List DetailedIssue :=
  match r.format with
  | .mp3 =>
    if r.id3Version ≠ 4 then
      [⟨⟨.fail, none, ascii "id3_not_v24"⟩,
        ascii "requires ID3v2.4 (got v2." ++ decimalNat r.id3Version ++ ascii " or none)"⟩]
    else []
  | .unknown =>
    [⟨⟨.fail, none, ascii "unknown_format"⟩, ascii "file format not recognised by extension"⟩]
  | _ => []

/-- A field that is missing, `check.c:163–165`. -/
def missingIssue (f : CanonicalField) : DetailedIssue :=
  ⟨⟨.fail, some f, ascii "missing_field"⟩, ascii "missing canonical field: " ++ canonicalFieldName f⟩

/-- The multi-value heuristic on one field, `check.c:169–187`. -/
def concatIssues (r : TagRecord) (f : CanonicalField) : List DetailedIssue :=
  match r.field f with
  | ⟨some value, true, false, _⟩ =>
    if looksConcatenated value then
      [⟨⟨.flag, some f, ascii "concat_multi_value"⟩, ascii "value '" ++ value.take 80 ++
        ascii "' looks concatenated; consider re-tagging as multi-value"⟩]
    else []
  | _ => []

/-- `struct check_result`. -/
structure CheckResult where
  record : TagRecord
  tagReadFailed : Bool
  anyFail : Bool
  anyFlag : Bool
  issues : List DetailedIssue
  deriving DecidableEq, Repr

/-- The issues that `check_canonical` pushes, `check.c:121–188`. -/
def detailedIssues (readError : TagRecord → Option Text) (r : TagRecord) : List DetailedIssue :=
  if r.tagReadFailed then
    [⟨⟨.fail, none, ascii "taglib_open_failed"⟩,
      ascii "taglib could not open file: " ++ (readError r).getD (ascii "(unknown)")⟩]
  else
    versionIssues r ++ (CanonicalField.all.filter fun f ↦ (r.field f).absent).map missingIssue ++
      concatIssues r .artist ++ concatIssues r .genre

/-- `check_canonical`, with the `read_error` of the records. -/
def checkResult (readError : TagRecord → Option Text) (r : TagRecord) : CheckResult :=
  let issues := detailedIssues readError r
  { record := r
    tagReadFailed := r.tagReadFailed
    anyFail := Nocturne.anyFail (issues.map DetailedIssue.issue)
    anyFlag := Nocturne.anyFlag (issues.map DetailedIssue.issue)
    issues }

/-! ### `report.c` -/

/-- `fmt_id`, `report.c:44–54`. -/
def fmtId : AudioFormat → Text
  | .mp3 => ascii "mp3"
  | .flac => ascii "flac"
  | .opus => ascii "opus"
  | .oggVorbis => ascii "ogg"
  | .mp4 => ascii "mp4"
  | .unknown => ascii "unknown"

/-- `severity_id`, `report.c:56–64`. -/
def severityId : CheckSeverity → Text
  | .fail => ascii "fail"
  | .flag => ascii "flag"
  | .ok => ascii "ok"

/-- `struct report_summary`. The snapshots are the results themselves. -/
structure ReportSummary where
  filesSeen : Nat
  filesPassed : Nat
  filesFlaggedOnly : Nat
  filesFailed : Nat
  filesTaglibOpenFailed : Nat
  perFieldMissing : CanonicalField → Nat
  records : List CheckResult

/-- `report_summary_init`, `report.c:66–73`. -/
def ReportSummary.init : ReportSummary := ⟨0, 0, 0, 0, 0, fun _ ↦ 0, []⟩

/-- The issue is about a field that is missing, `report.c:155–158`. -/
def DetailedIssue.misses (f : CanonicalField) (i : DetailedIssue) : Bool :=
  i.issue.severity = .fail && i.issue.code = ascii "missing_field" && i.issue.field = some f

/-- `report_add` of a JSON report, `report.c:139–170`. -/
def ReportSummary.add (s : ReportSummary) (cr : CheckResult) : ReportSummary :=
  let s := { s with filesSeen := s.filesSeen + 1 }
  let s :=
    if cr.anyFail || cr.tagReadFailed then { s with filesFailed := s.filesFailed + 1 }
    else if cr.anyFlag then { s with filesFlaggedOnly := s.filesFlaggedOnly + 1 }
    else { s with filesPassed := s.filesPassed + 1 }
  let s :=
    if cr.tagReadFailed then { s with filesTaglibOpenFailed := s.filesTaglibOpenFailed + 1 } else s
  { s with
    perFieldMissing := fun f ↦ s.perFieldMissing f + cr.issues.countP (DetailedIssue.misses f)
    records := s.records ++ [cr] }

/-- A member with a blank behind its colon. -/
def member (key : String) (value : Text) : Text := memberText [32] (ascii key) value

/-- Some lines with a comma behind each but the last one. -/
def commaLines (lines : List Text) : Text :=
  [44, 10].intercalate lines ++ if lines = [] then [] else [10]

/-- An object with each member on a line of its own. -/
def block (indent : Nat) (members : List Text) : Text :=
  ascii "\x7b\n" ++ commaLines (members.map fun m ↦ List.replicate (indent + 2) 32 ++ m) ++
    List.replicate indent 32 ++ ascii "\x7d"

/-- `json_field_name`, `report.c:229–238`. -/
def jsonFieldName : Option CanonicalField → Text
  | some f => quoted (canonicalFieldName f)
  | none => ascii "null"

/-- A string behind `json_escape`. -/
def jsonText (s : Text) : Text := quoted (jsonEscape s)

/-- An issue of a track, `report.c:331–346`. -/
def emitIssue (i : DetailedIssue) : Text :=
  ascii "\n        \x7b " ++ (ascii ", ").intercalate
    [member "severity" (quoted (severityId i.issue.severity)),
      member "code" (jsonText i.issue.code),
      member "field" (jsonFieldName i.issue.field),
      member "detail" (jsonText i.detail)] ++ ascii " \x7d"

/-- A track, `report.c:317–350`. -/
def emitTrack (cr : CheckResult) : Text :=
  ascii "    " ++ block 4
    [member "path" (jsonText (renderPath cr.record.path)),
      member "format" (quoted (fmtId cr.record.format)),
      member "any_fail" (boolText cr.anyFail),
      member "any_flag" (boolText cr.anyFlag),
      member "tag_read_failed" (boolText cr.tagReadFailed),
      member "issues" (ascii "[" ++ (ascii ",").intercalate (cr.issues.map emitIssue) ++
        (if cr.issues = [] then [] else ascii "\n      ") ++ ascii "]")]

/-- The summary, `report.c:278–294`. -/
def emitSummary (s : ReportSummary) : Text :=
  block 2
    [member "files_seen" (decimalNat s.filesSeen),
      member "files_passed" (decimalNat s.filesPassed),
      member "files_flagged_only" (decimalNat s.filesFlaggedOnly),
      member "files_failed" (decimalNat s.filesFailed),
      member "files_taglib_open_failed" (decimalNat s.filesTaglibOpenFailed),
      member "per_field_missing" (block 4 (CanonicalField.all.map fun f ↦
        memberText [32] (canonicalFieldName f) (decimalNat (s.perFieldMissing f))))]

/-- The counters of the walk, `report.c:296–312`. -/
def emitWalk (ws : WalkStats) : Text :=
  block 2
    [member "dirs_visited" (decimalNat ws.dirsVisited),
      member "files_seen_total" (decimalNat ws.filesSeenTotal),
      member "audio_files_seen" (decimalNat ws.audioFilesSeen),
      member "skipped_non_audio" (decimalNat ws.skippedNonAudio),
      member "skipped_dotfiles" (decimalNat ws.skippedDotfiles),
      member "skipped_symlinks_outside_root" (decimalNat ws.skippedSymlinksOutsideRoot),
      member "taglib_open_failures" (decimalNat ws.taglibOpenFailures)]

/-- The tracks, `report.c:314–352`. -/
def emitTracks (crs : List CheckResult) : Text :=
  ascii "[\n" ++ commaLines (crs.map emitTrack) ++ ascii "  ]"

/-- `emit_json`, `report.c:273–353`. -/
def emitJson (s : ReportSummary) (ws : WalkStats) : Text :=
  block 0
    [member "summary" (emitSummary s), member "walk" (emitWalk ws),
      member "tracks" (emitTracks s.records)] ++ ascii "\n"

section Main

variable {fs : Tree} (io : FtsIo fs) (tagsExtract : Path → Option TagRecord)
  (readError : TagRecord → Option Text)

/-- `on_file_check` without a quarantine, `main.c:139–151`. -/
def onFileCheck (rec : TagRecord) (s : ReportSummary) : WalkResult × ReportSummary :=
  (.continue, s.add (checkResult readError rec))

/-- `main` with `--json` and without `--quarantine`, `main.c:153–247`: the exit code and what is
printed. -/
def tagcheckJson (library : Path) : Int × Text :=
  let r := walkerWalk io tagsExtract (onFileCheck readError) library .init
  if r.1 ≠ 0 then (3, [])
  else (if 0 < r.2.userdata.filesFailed then 1 else 0, emitJson r.2.userdata r.2.stats)

end Main

example : block 2 [member "files_seen" (decimalNat 3), member "files_failed" (decimalNat 0)] =
    ascii "\x7b\n    \"files_seen\": 3,\n    \"files_failed\": 0\n  \x7d" := by decide +kernel

/-! ### What a reader gets -/

/-- A text as a reader of the report gets it: U+FFFD stands for each byte that begins no sequence.
-/
def shown : Text → Text
  | [] => []
  | c :: rest =>
    (if (jsonEscapeTurn c rest).1 = replacement then JsonString.codePoint 0xFFFD
      else c :: rest.take (jsonEscapeTurn c rest).2) ++ shown (rest.drop (jsonEscapeTurn c rest).2)
termination_by s => s.length
decreasing_by
  simp only [List.length_drop, List.length_cons]
  omega

def issueTree (i : DetailedIssue) : JsonTree :=
  .object
    [(ascii "severity", .string (severityId i.issue.severity)),
      (ascii "code", .string (shown i.issue.code)),
      (ascii "field", i.issue.field.elim .null fun f ↦ .string (canonicalFieldName f)),
      (ascii "detail", .string (shown i.detail))]

def trackTree (cr : CheckResult) : JsonTree :=
  .object
    [(ascii "path", .string (shown (renderPath cr.record.path))),
      (ascii "format", .string (fmtId cr.record.format)),
      (ascii "any_fail", .boolean cr.anyFail),
      (ascii "any_flag", .boolean cr.anyFlag),
      (ascii "tag_read_failed", .boolean cr.tagReadFailed),
      (ascii "issues", .array (cr.issues.map issueTree))]

def summaryTree (s : ReportSummary) : JsonTree :=
  .object
    [(ascii "files_seen", .integer s.filesSeen),
      (ascii "files_passed", .integer s.filesPassed),
      (ascii "files_flagged_only", .integer s.filesFlaggedOnly),
      (ascii "files_failed", .integer s.filesFailed),
      (ascii "files_taglib_open_failed", .integer s.filesTaglibOpenFailed),
      (ascii "per_field_missing", .object (CanonicalField.all.map fun f ↦
        (canonicalFieldName f, .integer (s.perFieldMissing f))))]

def walkTree (ws : WalkStats) : JsonTree :=
  .object
    [(ascii "dirs_visited", .integer ws.dirsVisited),
      (ascii "files_seen_total", .integer ws.filesSeenTotal),
      (ascii "audio_files_seen", .integer ws.audioFilesSeen),
      (ascii "skipped_non_audio", .integer ws.skippedNonAudio),
      (ascii "skipped_dotfiles", .integer ws.skippedDotfiles),
      (ascii "skipped_symlinks_outside_root", .integer ws.skippedSymlinksOutsideRoot),
      (ascii "taglib_open_failures", .integer ws.taglibOpenFailures)]

/-- The whole document. -/
def reportTree (s : ReportSummary) (ws : WalkStats) : JsonTree :=
  .object
    [(ascii "summary", summaryTree s), (ascii "walk", walkTree ws),
      (ascii "tracks", .array (s.records.map trackTree))]

section Strings

theorem escapeByte_ne_replacement (c : UInt8) :
    JsonString.escapeByte jsonEscapeShorts c ≠ replacement := by
  obtain ⟨e, -, heq⟩ | ⟨n, -, heq⟩ | ⟨-, -, -, heq⟩ :=
    JsonString.escapeByte_cases jsonEscapeShorts c <;> rw [heq] <;> simp [replacement]

/-- What is written is made of pieces that stand for what a reader gets. -/
theorem jsonEscape_shown (s : Text) : ∃ pieces : List (Text × Text),
    (∀ piece ∈ pieces, JsonString.Encodes piece.1 piece.2) ∧
      jsonEscape s = pieces.flatMap Prod.fst ∧ pieces.flatMap Prod.snd = shown s := by
  induction s using jsonEscape.induct with
  | case1 => exact ⟨[], by simp, by simp [jsonEscape], by simp [shown]⟩
  | case2 c rest ih =>
    obtain ⟨pieces, hpieces, hout, hvalue⟩ := ih
    rw [jsonEscape, shown, hout, ← hvalue]
    rcases jsonEscapeTurn_cases c rest with
      ⟨-, hturn⟩ | ⟨seq, ⟨after, rfl⟩, hform, hturn⟩ | ⟨-, hturn, -⟩
    · rw [hturn, if_neg (escapeByte_ne_replacement c)]
      exact ⟨(JsonString.escapeByte jsonEscapeShorts c, [c]) :: pieces,
        List.forall_mem_cons.mpr ⟨JsonString.encodes_escapeByte _ c, hpieces⟩, by simp, by simp⟩
    · have hne : c :: seq ≠ replacement := by
        intro h
        have hc : c = 92 := (List.cons.inj h).1
        exact absurd hform.high (by rw [hc]; decide)
      rw [hturn, if_neg hne, List.take_left]
      refine ⟨(c :: seq).map (fun b ↦ ([b], [b])) ++ pieces, ?_, ?_, ?_⟩
      · intro piece hpiece
        rcases List.mem_append.mp hpiece with hmem | hmem
        · obtain ⟨b, hb, rfl⟩ := List.mem_map.mp hmem
          exact hform.encodes hb
        · exact hpieces piece hmem
      · rw [List.flatMap_append, List.flatMap_map]
        simp
      · rw [List.flatMap_append, List.flatMap_map]
        simp
    · rw [hturn, if_pos rfl]
      exact ⟨(replacement, JsonString.codePoint 0xFFFD) :: pieces,
        List.forall_mem_cons.mpr ⟨encodes_replacement, hpieces⟩, by simp, by simp⟩

/-- A UTF-8 text is shown as it is. -/
theorem shown_eq {s : Text} (h : Utf8.Valid s) : shown s = s := by
  induction s using jsonEscape.induct with
  | case1 => simp [shown]
  | case2 c rest ih =>
    rw [shown]
    rcases jsonEscapeTurn_cases c rest with
      ⟨hascii, hturn⟩ | ⟨seq, ⟨after, rfl⟩, hform, hturn⟩ | ⟨hhigh, hturn, hnone⟩
    · rw [hturn] at ih ⊢
      rw [← List.singleton_append, Utf8.valid_append_iff (.one hascii)] at h
      rw [if_neg (escapeByte_ne_replacement c), ih (by simpa using h)]
      simp
    · have hne : c :: seq ≠ replacement := by
        intro heq
        have hc : c = 92 := (List.cons.inj heq).1
        exact absurd hform.high (by rw [hc]; decide)
      have hchar : Utf8.IsChar (c :: seq) :=
        hform.isChar_or_illFormed.resolve_right fun hill ↦ hill.not_valid h
      rw [← List.cons_append, Utf8.valid_append_iff hchar] at h
      rw [hturn] at ih ⊢
      rw [List.drop_left] at ih
      rw [if_neg hne, List.take_left, List.drop_left, ih h, List.cons_append]
    · obtain ⟨s', t, hchar, rfl, -⟩ := h.exists_char
      exact absurd (leadAndTails_of_isChar hchar hhigh) (hnone s' (List.prefix_append s' t))

theorem reads_jsonText (s : Text) : Reads (jsonText s) (.string (shown s)) := by
  apply reads_string
  obtain ⟨pieces, hpieces, hout, hvalue⟩ := jsonEscape_shown s
  intro rest
  rw [hout, ← hvalue]
  exact JsonString.read_pieces hpieces

end Strings

/-! ### The document is read back -/

section Document

variable {key : String} {value : Text} {v : JsonTree} {texts : List Text} {ms : JsonTree.Members}

/-- The names of the members. -/
def reportKeys : List String :=
  ["summary", "walk", "tracks", "files_seen", "files_passed", "files_flagged_only", "files_failed",
    "files_taglib_open_failed", "per_field_missing", "dirs_visited", "files_seen_total",
    "audio_files_seen", "skipped_non_audio", "skipped_dotfiles", "skipped_symlinks_outside_root",
    "taglib_open_failures", "path", "format", "any_fail", "any_flag", "tag_read_failed", "issues",
    "severity", "code", "field", "detail"]

theorem isUnescaped_reportKeys : ∀ key ∈ reportKeys, IsUnescaped (ascii key) := by decide +kernel

/-- What is printed between the values. -/
theorem punctuation : ascii "\x7b\n" = [123, 10] ∧ ascii "\x7d" = [125] ∧ ascii "\n" = [10] ∧
    ascii "\n        \x7b " = [10, 32, 32, 32, 32, 32, 32, 32, 32, 123, 32] ∧
    ascii ", " = [44, 32] ∧ ascii " \x7d" = [32, 125] ∧ ascii "[" = [91] ∧ ascii "," = [44] ∧
    ascii "\n      " = [10, 32, 32, 32, 32, 32, 32] ∧ ascii "]" = [93] ∧
    ascii "    " = List.replicate 4 32 ∧ ascii "[\n" = [91, 10] ∧ ascii "  ]" = [32, 32, 93] ∧
    ascii "null" = [110, 117, 108, 108] := by
  decide +kernel

theorem blank_spaces (n : Nat) : Blank (List.replicate n 32) := by
  intro c hc
  rw [List.eq_of_mem_replicate hc]
  rfl

theorem blank_newline : Blank [10] := by
  intro c hc
  rw [List.mem_singleton.mp hc]
  rfl

theorem reads_memberOf (hkey : key ∈ reportKeys) (hv : Reads value v) :
    ReadsMember (member key value) (ascii key, v) :=
  reads_memberText (blank_spaces 1) (isUnescaped_reportKeys key hkey) hv

/-- Lines with a comma behind each but the last one are items. -/
theorem items_commaLines {α : Type} {item : Nat → Reader α} {xs : List α}
    (h : List.Forall₂ (Padded item) texts xs) (hne : texts ≠ []) :
    Items item (commaLines texts) xs := by
  unfold commaLines
  rw [if_neg hne]
  exact (items_intercalate blank_newline h hne).trailing blank_newline

/-- An object with each member on a line of its own. -/
theorem reads_block (indent : Nat) (h : List.Forall₂ ReadsMember texts ms) (hne : texts ≠ []) :
    Reads (block indent texts) (.object ms) := by
  have hlines : List.Forall₂ (Padded fun n ↦ readMember (JsonText.readValue n))
      (texts.map fun m ↦ List.replicate (indent + 2) 32 ++ m) ms := by
    rw [List.forall₂_map_left_iff]
    exact h.imp fun _ _ hm ↦ hm.padded.blank (blank_spaces _)
  obtain ⟨hopen, hclose, -⟩ := punctuation
  have hbody := ((items_commaLines hlines (by simpa using hne)).blank blank_newline).trailing
    (blank_spaces indent)
  unfold block
  rw [hopen, hclose]
  have hread := reads_object (.items hbody)
  simpa using hread

theorem isUnescaped_severityId (x : CheckSeverity) : IsUnescaped (severityId x) := by
  have hall : ∀ x ∈ [CheckSeverity.ok, .flag, .fail], IsUnescaped (severityId x) := by
    decide +kernel
  exact hall x (by cases x <;> simp)

theorem isUnescaped_fmtId (x : AudioFormat) : IsUnescaped (fmtId x) := by
  have hall : ∀ x ∈ [AudioFormat.unknown, .mp3, .flac, .opus, .oggVorbis, .mp4],
      IsUnescaped (fmtId x) := by decide +kernel
  exact hall x (by cases x <;> simp)

theorem isUnescaped_canonicalFieldName (f : CanonicalField) :
    IsUnescaped (canonicalFieldName f) := by
  have hall : ∀ f ∈ CanonicalField.all, IsUnescaped (canonicalFieldName f) := by decide +kernel
  exact hall f (by cases f <;> simp [CanonicalField.all])

theorem reads_jsonFieldName (f : Option CanonicalField) : Reads (jsonFieldName f)
    (f.elim .null fun f ↦ .string (canonicalFieldName f)) := by
  cases f with
  | none =>
    obtain ⟨-, -, -, -, -, -, -, -, -, -, -, -, -, hnull⟩ := punctuation
    rw [jsonFieldName, hnull]
    exact reads_word (.tail _ (.tail _ (.head _)))
  | some f => exact reads_plain (isUnescaped_canonicalFieldName f)

/-- An issue, with the line break in front of it. -/
theorem padded_emitIssue (i : DetailedIssue) :
    Padded JsonText.readValue (emitIssue i) (issueTree i) := by
  obtain ⟨-, -, -, hlead, hsep, hclose, -⟩ := punctuation
  have hread : Reads (123 :: ([32] ++ [44, 32].intercalate
      [member "severity" (quoted (severityId i.issue.severity)),
        member "code" (jsonText i.issue.code),
        member "field" (jsonFieldName i.issue.field),
        member "detail" (jsonText i.detail)] ++ [32]) ++ [125]) (issueTree i) := by
    apply reads_members (blank_spaces 1) (blank_spaces 1) (blank_spaces 1) _ (by simp)
    refine .cons (reads_memberOf ?_ (reads_plain (isUnescaped_severityId _))).padded
      (.cons (reads_memberOf ?_ (reads_jsonText _)).padded
        (.cons (reads_memberOf ?_ (reads_jsonFieldName _)).padded
          (.cons (reads_memberOf ?_ (reads_jsonText _)).padded .nil)))
    all_goals simp [reportKeys]
  have hpad := hread.padded.blank (blank_newline.append (blank_spaces 8))
  unfold emitIssue
  rw [hlead, hsep, hclose]
  simpa using hpad

theorem reads_issues (issues : List DetailedIssue) :
    Reads (ascii "[" ++ (ascii ",").intercalate (issues.map emitIssue) ++
      (if issues = [] then [] else ascii "\n      ") ++ ascii "]")
        (.array (issues.map issueTree)) := by
  obtain ⟨-, -, -, -, -, -, hopen, hsep, hspaces, hclose, -⟩ := punctuation
  have hbody : Body JsonText.readValue ([44].intercalate (issues.map emitIssue) ++
      if issues = [] then [] else ascii "\n      ") (issues.map issueTree) := by
    by_cases hnil : issues = []
    · rw [hnil]
      exact .empty (blank_spaces 0)
    · rw [if_neg hnil, hspaces]
      apply Body.items
      apply Items.trailing (blank_newline.append (blank_spaces 6))
      apply items_intercalate (blank_spaces 0) _ (by simpa using hnil)
      rw [List.forall₂_map_left_iff, List.forall₂_map_right_iff, List.forall₂_same]
      exact fun i _ ↦ padded_emitIssue i
  have hread := reads_array hbody
  rw [hopen, hsep, hclose]
  simpa using hread

/-- A track, with the blanks in front of it. -/
theorem padded_emitTrack (cr : CheckResult) :
    Padded JsonText.readValue (emitTrack cr) (trackTree cr) := by
  obtain ⟨-, -, -, -, -, -, -, -, -, -, hlead, -⟩ := punctuation
  unfold emitTrack
  rw [hlead]
  apply Padded.blank (blank_spaces 4)
  apply ReadBy.padded
  apply reads_block 4 _ (by simp)
  refine .cons (reads_memberOf ?_ (reads_jsonText _))
    (.cons (reads_memberOf ?_ (reads_plain (isUnescaped_fmtId _)))
      (.cons (reads_memberOf ?_ (reads_boolText _))
        (.cons (reads_memberOf ?_ (reads_boolText _))
          (.cons (reads_memberOf ?_ (reads_boolText _))
            (.cons (reads_memberOf ?_ (reads_issues _)) .nil)))))
  all_goals simp [reportKeys]

theorem reads_tracks (crs : List CheckResult) :
    Reads (emitTracks crs) (.array (crs.map trackTree)) := by
  obtain ⟨-, -, -, -, -, -, -, -, -, -, -, hopen, hclose, -⟩ := punctuation
  have hbody : Body JsonText.readValue ([10] ++ commaLines (crs.map emitTrack) ++ [32, 32])
      (crs.map trackTree) := by
    by_cases hnil : crs = []
    · rw [hnil]
      exact .empty (blank_newline.append (blank_spaces 2))
    · apply Body.items
      apply Items.trailing (blank_spaces 2)
      apply Items.blank blank_newline
      apply items_commaLines _ (by simpa using hnil)
      rw [List.forall₂_map_left_iff, List.forall₂_map_right_iff, List.forall₂_same]
      exact fun cr _ ↦ padded_emitTrack cr
  have hread := reads_array hbody
  unfold emitTracks
  rw [hopen, hclose]
  simpa using hread

theorem reads_summary (s : ReportSummary) : Reads (emitSummary s) (summaryTree s) := by
  have hfields : Reads (block 4 (CanonicalField.all.map fun f ↦
      memberText [32] (canonicalFieldName f) (decimalNat (s.perFieldMissing f))))
      (.object (CanonicalField.all.map fun f ↦
        (canonicalFieldName f, .integer (s.perFieldMissing f)))) := by
    apply reads_block 4 _ (by simp [CanonicalField.all])
    rw [List.forall₂_map_left_iff, List.forall₂_map_right_iff, List.forall₂_same]
    exact fun f _ ↦ reads_memberText (blank_spaces 1) (isUnescaped_canonicalFieldName f)
      (reads_decimalNat _)
  apply reads_block 2 _ (by simp)
  refine .cons (reads_memberOf ?_ (reads_decimalNat _))
    (.cons (reads_memberOf ?_ (reads_decimalNat _))
      (.cons (reads_memberOf ?_ (reads_decimalNat _))
        (.cons (reads_memberOf ?_ (reads_decimalNat _))
          (.cons (reads_memberOf ?_ (reads_decimalNat _))
            (.cons (reads_memberOf ?_ hfields) .nil)))))
  all_goals simp [reportKeys]

theorem reads_walk (ws : WalkStats) : Reads (emitWalk ws) (walkTree ws) := by
  apply reads_block 2 _ (by simp)
  refine .cons (reads_memberOf ?_ (reads_decimalNat _))
    (.cons (reads_memberOf ?_ (reads_decimalNat _))
      (.cons (reads_memberOf ?_ (reads_decimalNat _))
        (.cons (reads_memberOf ?_ (reads_decimalNat _))
          (.cons (reads_memberOf ?_ (reads_decimalNat _))
            (.cons (reads_memberOf ?_ (reads_decimalNat _))
              (.cons (reads_memberOf ?_ (reads_decimalNat _)) .nil))))))
  all_goals simp [reportKeys]

/-- The document is read back in full. -/
theorem read_emitJson (s : ReportSummary) (ws : WalkStats) :
    JsonText.read (emitJson s ws) = some (reportTree s ws) := by
  obtain ⟨-, -, hnl, -⟩ := punctuation
  have hread : Reads (block 0 [member "summary" (emitSummary s), member "walk" (emitWalk ws),
      member "tracks" (emitTracks s.records)]) (reportTree s ws) := by
    apply reads_block 0 _ (List.cons_ne_nil _ _)
    refine .cons (reads_memberOf ?_ (reads_summary s))
      (.cons (reads_memberOf ?_ (reads_walk ws)) (.cons (reads_memberOf ?_ (reads_tracks _)) .nil))
    all_goals simp [reportKeys]
  have htext := read_of_reads (blank_spaces 0) hread blank_newline
  unfold emitJson
  rw [hnl]
  simpa using htext

end Document

/-! ### What the document says -/

section Counts

variable {readError : TagRecord → Option Text}

/-- The check is the one of a scan. -/
theorem issue_detailedIssues (r : TagRecord) :
    (detailedIssues readError r).map DetailedIssue.issue = checkCanonical r := by
  have hversion : (versionIssues r).map DetailedIssue.issue = checkVersion r := by
    unfold versionIssues checkVersion
    cases r.format with
    | mp3 => by_cases h : r.id3Version = 4 <;> simp [h]
    | _ => rfl
  have hconcat : ∀ f, (concatIssues r f).map DetailedIssue.issue = checkConcat r f := by
    intro f
    unfold concatIssues checkConcat
    obtain ⟨value, present, multi, n⟩ := r.field f
    cases value with
    | none => rfl
    | some value =>
      by_cases hlooks : looksConcatenated value = true
      · cases present <;> cases multi <;> simp [hlooks]
      · cases present <;> cases multi <;> simp [hlooks]
  unfold detailedIssues checkCanonical
  by_cases hread : r.tagReadFailed = true
  · rw [if_pos hread, if_pos hread]
    rfl
  · rw [if_neg hread, if_neg hread, List.map_append, List.map_append, List.map_append, hversion,
      hconcat, hconcat, List.map_map]
    rfl

/-- What the counters are after some records. -/
def summaryOf (readError : TagRecord → Option Text) (recs : List TagRecord) : ReportSummary where
  filesSeen := recs.length
  filesPassed := recs.countP fun r ↦ !anyFail (checkCanonical r) && !anyFlag (checkCanonical r)
  filesFlaggedOnly := recs.countP fun r ↦ !anyFail (checkCanonical r) && anyFlag (checkCanonical r)
  filesFailed := recs.countP fun r ↦ anyFail (checkCanonical r)
  filesTaglibOpenFailed := recs.countP TagRecord.tagReadFailed
  perFieldMissing f := recs.countP fun r ↦ !r.tagReadFailed && (r.field f).absent
  records := recs.map (checkResult readError)

/-- No other issue has the code of a missing field. -/
theorem code_ne_missing : ascii "taglib_open_failed" ≠ ascii "missing_field" ∧
    ascii "id3_not_v24" ≠ ascii "missing_field" ∧ ascii "unknown_format" ≠ ascii "missing_field" ∧
    ascii "concat_multi_value" ≠ ascii "missing_field" := by
  decide +kernel

theorem countP_eq_zero_of {i : List DetailedIssue} {f : CanonicalField}
    (h : ∀ x ∈ i, x.issue.code ≠ ascii "missing_field") : i.countP (DetailedIssue.misses f) = 0 := by
  rw [List.countP_eq_zero]
  intro x hx
  simp [DetailedIssue.misses, h x hx]

/-- A field that is missing is counted once for a record. -/
theorem countP_misses (r : TagRecord) (f : CanonicalField) :
    (detailedIssues readError r).countP (DetailedIssue.misses f) =
      if !r.tagReadFailed && (r.field f).absent then 1 else 0 := by
  obtain ⟨hopen, hid3, hformat, hcode⟩ := code_ne_missing
  have hversion : ∀ x ∈ versionIssues r, x.issue.code ≠ ascii "missing_field" := by
    unfold versionIssues
    cases r.format with
    | mp3 => by_cases h : r.id3Version = 4 <;> simp [h, hid3]
    | unknown => simpa using hformat
    | _ => simp
  have hconcat : ∀ f, ∀ x ∈ concatIssues r f, x.issue.code ≠ ascii "missing_field" := by
    intro f
    unfold concatIssues
    split
    · split
      · simpa using hcode
      · simp
    · simp
  have hmissing : ((CanonicalField.all.filter fun f ↦ (r.field f).absent).map missingIssue).countP
      (DetailedIssue.misses f) = if (r.field f).absent then 1 else 0 := by
    rw [List.countP_map, List.countP_filter]
    have hmisses : ∀ f', DetailedIssue.misses f (missingIssue f') = decide (f' = f) := by
      intro f'
      simp [DetailedIssue.misses, missingIssue]
    simp only [Function.comp_def, hmisses]
    have honce : ∀ f' : CanonicalField, CanonicalField.all.count f' = 1 := by
      intro f'
      cases f' <;> decide
    by_cases habsent : (r.field f).absent = true
    · rw [if_pos habsent, ← honce f, List.count]
      apply List.countP_congr
      intro f' _
      by_cases hf : f' = f
      · simp [hf, habsent]
      · simp [hf]
    · rw [if_neg habsent, List.countP_eq_zero]
      intro f' _
      by_cases hf : f' = f
      · simp [hf, habsent]
      · simp [hf]
  unfold detailedIssues
  by_cases hread : r.tagReadFailed = true
  · rw [if_pos hread, countP_eq_zero_of (by simpa using hopen)]
    simp [hread]
  · rw [if_neg hread, List.countP_append, List.countP_append, List.countP_append,
      countP_eq_zero_of hversion, countP_eq_zero_of (hconcat _), countP_eq_zero_of (hconcat _),
      hmissing]
    simp [hread]

/-- A record that could not be read fails. -/
theorem anyFail_of_tagReadFailed {r : TagRecord} (h : r.tagReadFailed = true) :
    anyFail (checkCanonical r) = true := by
  unfold checkCanonical
  rw [if_pos h]
  rfl

/-- One more record. -/
theorem summaryOf_concat (recs : List TagRecord) (r : TagRecord) :
    (summaryOf readError recs).add (checkResult readError r) =
      summaryOf readError (recs ++ [r]) := by
  have hfail := @anyFail_of_tagReadFailed r
  unfold ReportSummary.add summaryOf
  simp only [checkResult, issue_detailedIssues, countP_misses, List.length_append,
    List.countP_append, List.map_append, List.map_cons, List.map_nil, List.countP_singleton]
  cases hread : r.tagReadFailed with
  | true => simp [hfail hread]
  | false =>
    cases anyFail (checkCanonical r) with
    | true => simp
    | false => cases anyFlag (checkCanonical r) <;> simp

theorem callAll_onFileCheck (recs seen : List TagRecord) :
    callAll (onFileCheck readError) recs (summaryOf readError seen) =
      (.continue, summaryOf readError (seen ++ recs)) := by
  induction recs generalizing seen with
  | nil => simp [callAll]
  | cons r recs ih =>
    rw [callAll, onFileCheck, summaryOf_concat]
    simpa using ih (seen ++ [r])

/-- **The report is exact.** The document is JSON. It has the result of the check of each record that
the walk hands over, in the order of the walk, the numbers of those results, and the counters of the
walk; and the exit code says whether one of them fails. -/
theorem report_exact {fs : Tree} (io : FtsIo fs) (tagsExtract : Path → Option TagRecord)
    (readError : TagRecord → Option Text) {library rootReal : Path}
    (hroot : realpath fs library = some rootReal) (hdir : fs.node? rootReal = some .dir) :
    let ents := rootEntries io rootReal
    let recs := recordsOf io tagsExtract rootReal ents
    let r := tagcheckJson io tagsExtract readError library
    ents.Nodup ∧ (∀ ent, ent ∈ ents ↔ Reported io skipsDotDir 0 rootReal ent) ∧
      ents.Pairwise (Precedes io) ∧
      r.1 = (if recs.any fun rec ↦ anyFail (checkCanonical rec) then 1 else 0) ∧
      JsonText.read r.2 = some
        (reportTree (summaryOf readError recs) (statsOf io tagsExtract rootReal ents)) := by
  obtain ⟨hrc, hcalls, hstats⟩ := @walkerWalk_spec _ fs io tagsExtract (onFileCheck readError)
    rootReal library hroot hdir .init
  refine ⟨nodup_ftsEntries, fun ent ↦ mem_rootEntries hdir, pairwise_ftsEntries, ?_⟩
  have hdone := @callAll_onFileCheck readError
    (recordsOf io tagsExtract rootReal (rootEntries io rootReal)) []
  have hinit : summaryOf readError [] = .init := rfl
  rw [hinit, List.nil_append] at hdone
  rw [hdone] at hcalls
  obtain ⟨hwr, hdata⟩ := Prod.mk.inj hcalls
  have hrun : tagcheckJson io tagsExtract readError library =
      (if 0 < (summaryOf readError
          (recordsOf io tagsExtract rootReal (rootEntries io rootReal))).filesFailed then 1 else 0,
        emitJson (summaryOf readError
          (recordsOf io tagsExtract rootReal (rootEntries io rootReal)))
          (statsOf io tagsExtract rootReal (rootEntries io rootReal))) := by
    unfold tagcheckJson
    dsimp only
    rw [hrc, hdata, hstats hwr]
    rfl
  rw [hrun]
  refine ⟨?_, read_emitJson _ _⟩
  simp only [summaryOf, List.countP_pos_iff, List.any_eq_true]

/-- The library of the walk above. -/
theorem LinkedTwice.reported :
    let ents := rootEntries LinkedTwice.io LinkedTwice.library
    let recs := recordsOf LinkedTwice.io LinkedTwice.tagsExtract LinkedTwice.library ents
    let r := tagcheckJson LinkedTwice.io LinkedTwice.tagsExtract (fun _ ↦ none) LinkedTwice.library
    ents.Nodup ∧
      (∀ ent, ent ∈ ents ↔ Reported LinkedTwice.io skipsDotDir 0 LinkedTwice.library ent) ∧
      ents.Pairwise (Precedes LinkedTwice.io) ∧
      r.1 = (if recs.any fun rec ↦ anyFail (checkCanonical rec) then 1 else 0) ∧
      JsonText.read r.2 = some (reportTree (summaryOf (fun _ ↦ none) recs)
        (statsOf LinkedTwice.io LinkedTwice.tagsExtract LinkedTwice.library ents)) :=
  report_exact LinkedTwice.io LinkedTwice.tagsExtract (fun _ ↦ none) (by decide +kernel)
    (by decide +kernel)

end Counts

end Tagcheck

end Nocturne
