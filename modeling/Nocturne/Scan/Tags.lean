import Mathlib.Data.List.Infix
import Nocturne.Base
import Nocturne.Lib.JsonString

/-!
# Tags: the canonical check and the tag columns

What `scan.c` derives from a tag record for a `tracks` row: the outcome of
`check_canonical` and the canonical form of multi-valued fields. The records themselves come
from TagLib. The explanatory text of an issue is left out, as a scan never reads it.
-/

namespace Nocturne

/-- `enum audio_format`, `tags.h:7–14`. -/
inductive AudioFormat where
  | unknown
  | mp3
  | flac
  | opus
  | oggVorbis
  | mp4
  deriving DecidableEq, Repr

/-- `struct tag_field`, `tags.h:27–32`. -/
structure TagField where
  value : Option Text
  present : Bool
  isMultiValueCanonical : Bool
  multiValueCount : Nat
  deriving DecidableEq, Repr

/-- `struct tag_record`, `tags.h:34–51`. -/
structure TagRecord where
  path : Path
  format : AudioFormat
  id3Version : Nat
  title : TagField
  artist : TagField
  album : TagField
  albumArtist : TagField
  trackNumber : TagField
  discNumber : TagField
  year : TagField
  genre : TagField
  tagReadFailed : Bool
  deriving DecidableEq, Repr

/-- `enum canonical_field`, `check.h:10–20`. -/
inductive CanonicalField where
  | title
  | artist
  | album
  | albumArtist
  | trackNumber
  | discNumber
  | year
  | genre
  deriving DecidableEq, Repr

/-- `enum check_severity`, `check.h:31–36`. -/
inductive CheckSeverity where
  | ok
  | flag
  | fail
  deriving DecidableEq, Repr

/-- `struct check_issue`, `check.h:38–46`; no field where the issue is about the file. -/
structure CheckIssue where
  severity : CheckSeverity
  field : Option CanonicalField
  code : Text
  deriving DecidableEq, Repr

/-- The order in which `check_canonical` asks for the fields. -/
def CanonicalField.all : List CanonicalField :=
  [.title, .artist, .album, .albumArtist, .trackNumber, .discNumber, .year, .genre]

/-- `field_lookup`, `check.c:49–64`. -/
def TagRecord.field (r : TagRecord) : CanonicalField → TagField
  | .title => r.title
  | .artist => r.artist
  | .album => r.album
  | .albumArtist => r.albumArtist
  | .trackNumber => r.trackNumber
  | .discNumber => r.discNumber
  | .year => r.year
  | .genre => r.genre

/-- `check_looks_concatenated_multi_value`, `check.c:66–77`. -/
def looksConcatenated (s : Text) : Bool :=
  s.contains 59 || s.contains 47 || decide (ascii " & " <:+: s) || decide (ascii ", " <:+: s) ||
    decide (ascii " and " <:+: s.map lower) || decide (ascii " feat. " <:+: s.map lower)

/-- The field is missing or empty, `check.c:160–161`. -/
def TagField.absent (f : TagField) : Bool :=
  !f.present || f.value.isNone || f.value == some []

/-- Encoding and version, `check.c:143–154`. -/
def checkVersion (r : TagRecord) : List CheckIssue :=
  match r.format with
  | .mp3 => if r.id3Version ≠ 4 then [⟨.fail, none, ascii "id3_not_v24"⟩] else []
  | .unknown => [⟨.fail, none, ascii "unknown_format"⟩]
  | _ => []

/-- The multi-value heuristic on one field, `check.c:169–187`. -/
def checkConcat (r : TagRecord) (f : CanonicalField) : List CheckIssue :=
  match r.field f with
  | ⟨some value, true, false, _⟩ =>
    if looksConcatenated value then [⟨.flag, some f, ascii "concat_multi_value"⟩] else []
  | _ => []

/-- `check_canonical`, `check.c:121–188`: the issues in the order in which they are pushed. -/
def checkCanonical (r : TagRecord) : List CheckIssue :=
  if r.tagReadFailed then [⟨.fail, none, ascii "taglib_open_failed"⟩]
  else
    checkVersion r ++
      (CanonicalField.all.filter fun f ↦ (r.field f).absent).map
        (fun f ↦ ⟨.fail, some f, ascii "missing_field"⟩) ++
      checkConcat r .artist ++ checkConcat r .genre

/-- `check_result.any_fail`. -/
def anyFail (issues : List CheckIssue) : Bool := issues.any fun i ↦ i.severity == .fail

/-- `check_result.any_flag`. -/
def anyFlag (issues : List CheckIssue) : Bool := issues.any fun i ↦ i.severity == .flag

/-- `build_tag_warning`, `scan.c:108–117`: the codes joined by commas. -/
def buildTagWarning (issues : List CheckIssue) : Option Text :=
  match (issues.filter fun i ↦ i.severity != .ok).map CheckIssue.code with
  | [] => none
  | codes => some ((codes.intersperse (ascii ",")).flatten)

/-- `json_escape_str`, `scan.c:120–148`, for one byte. -/
def jsonEscapeByte (c : UInt8) : Text :=
  if c = 34 then [92, 34]
  else if c = 92 then [92, 92]
  else if c = 8 then ascii "\\b"
  else if c = 12 then ascii "\\f"
  else if c = 10 then ascii "\\n"
  else if c = 13 then ascii "\\r"
  else if c = 9 then ascii "\\t"
  else if c < 0x20 then ascii "\\u00" ++ [Lib.JsonString.digit (c / 16), Lib.JsonString.digit (c % 16)]
  else [c]

/-- `json_escape_str`, `scan.c:120–148`. -/
def jsonEscapeStr (s : Text) : Text := s.flatMap jsonEscapeByte

/-- `canon_tag_field`, `scan.c:152–173`: a multi-valued field becomes a JSON array of its
first value. -/
def canonTagField (f : TagField) : Option Text :=
  if !f.present then none
  else if !f.isMultiValueCanonical || f.multiValueCount ≤ 1 then f.value
  else some (ascii "[\"" ++ jsonEscapeStr (f.value.getD []) ++ ascii "\"]")

/-- The column of a field that is taken as it is. -/
def TagField.column (f : TagField) : Option Text := if f.present then f.value else none

/-- `format_string`, `scan.c:76–87`. -/
def formatString : AudioFormat → Option Text
  | .mp3 => some (ascii "mp3")
  | .flac => some (ascii "flac")
  | .opus => some (ascii "opus")
  | .oggVorbis => some (ascii "ogg")
  | .mp4 => some (ascii "m4a")
  | .unknown => none

/-- The status of the check, `scan.c:272–285`. -/
def tagsStatus (r : TagRecord) : Text :=
  if r.tagReadFailed then ascii "parse_failed"
  else if anyFail (checkCanonical r) then ascii "incomplete"
  else ascii "ok"

/-- The warning that is stored with it, `scan.c:272–285`. -/
def tagWarning (r : TagRecord) : Option Text :=
  if r.tagReadFailed then some (ascii "taglib_open_failed")
  else if anyFail (checkCanonical r) || anyFlag (checkCanonical r) then
    buildTagWarning (checkCanonical r)
  else none

/-- `is_transcode_artifact`, `scan.c:196–204`: below a directory `resident` and with the
extension of an encoder's output, in any case. -/
def isTranscodeArtifact (path : Path) : Bool :=
  path.dropLast.contains residentSeg &&
    match extOf path with
    | some ext =>
      let e := ext.map lower
      e == ascii ".opus" || e == ascii ".m4a" || e == ascii ".aac"
    | none => false

/-- `tags_format_from_path`, `tags.c:59–71`, on the table `tags.c:48–57`. -/
def tagsFormatFromPath (path : Path) : AudioFormat :=
  match extOf path with
  | none => .unknown
  | some ext =>
    let e := ext.map lower
    if e = ascii ".mp3" then .mp3
    else if e = ascii ".flac" then .flac
    else if e = ascii ".opus" then .opus
    else if e = ascii ".ogg" ∨ e = ascii ".oga" then .oggVorbis
    else if e = ascii ".m4a" ∨ e = ascii ".m4b" ∨ e = ascii ".mp4" then .mp4
    else .unknown

/-- A field that the file does not have. -/
def TagField.missing : TagField := ⟨none, false, false, 0⟩

/-- The record of a file that has no tags. -/
def TagRecord.untagged (path : Path) : TagRecord where
  path := path
  format := tagsFormatFromPath path
  id3Version := 0
  title := .missing
  artist := .missing
  album := .missing
  albumArtist := .missing
  trackNumber := .missing
  discNumber := .missing
  year := .missing
  genre := .missing
  tagReadFailed := false

/-- A warning is recorded exactly when the status is not `ok` or the check raised a flag. -/
theorem buildTagWarning_isSome (issues : List CheckIssue) :
    (buildTagWarning issues).isSome = (anyFail issues || anyFlag issues) := by
  have h : (anyFail issues || anyFlag issues) =
      ((issues.filter fun i ↦ i.severity != .ok).map CheckIssue.code != []) := by
    induction issues with
    | nil => rfl
    | cons i is ih =>
      simp only [anyFail, anyFlag, List.any_cons] at ih ⊢
      cases hs : i.severity with
      | ok =>
        have hf : (CheckSeverity.ok == CheckSeverity.fail) = false := rfl
        have hg : (CheckSeverity.ok == CheckSeverity.flag) = false := rfl
        simpa [hs, hf, hg] using ih
      | flag => simp [hs]
      | fail => simp [hs]
  rw [h]
  unfold buildTagWarning
  split
  · next hc => simp [hc]
  · next codes hc => simpa using hc

end Nocturne
