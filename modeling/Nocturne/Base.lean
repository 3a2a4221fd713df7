import Nocturne.Lib.Fs
import Mathlib.Algebra.Group.Int.Defs
import Mathlib.Algebra.GroupWithZero.Nat
import Mathlib.Order.Basic
import Mathlib.Data.List.Basic

/-!
# Texts, paths and file contents

Names, column values and log lines are byte strings. A path is the list of its components,
so that the string rewrites of the source act on components: the library root is a prefix,
the `archive`/`resident` segment is the component after it, and an extension belongs to the
last component.
-/

namespace Nocturne

open Lib

/-- A C string or an SQL text: its bytes. -/
abbrev Text := List UInt8

instance : LawfulBEq Text := inferInstance

/-- One component of a path. -/
abbrev Name := Text

/-- An absolute path, component by component. -/
abbrev Path := List Name

/-- Hex digest of an audio payload. -/
abbrev Sha := Text

/-- Bytes are ordered as `memcmp` and `strcmp` compare them. -/
instance instLinearOrderUInt8 : LinearOrder UInt8 where
  le_refl := UInt8.le_refl
  le_trans _ _ _ := UInt8.le_trans
  le_antisymm _ _ := UInt8.le_antisymm
  le_total := UInt8.le_total
  lt_iff_le_not_ge a b := by
    rw [UInt8.lt_iff_toNat_lt, UInt8.le_iff_toNat_le, UInt8.le_iff_toNat_le]
    omega
  toDecidableLE := inferInstance

/-- The bytes of a string of ASCII characters. -/
def ascii (s : String) : Text := s.toList.map fun c ↦ c.toNat.toUInt8

/-- `tolower` in the C locale. -/
def lower (b : UInt8) : UInt8 := if 65 ≤ b ∧ b ≤ 90 then b + 32 else b

/-! ### Extensions -/

/-- The byte `'.'`. -/
def dot : UInt8 := 46

/-- Split a name before its last dot (`strrchr`), which the second part keeps; `none` when
there is no dot. -/
def splitExt : Name → Option (Name × Text)
  | [] => none
  | b :: bs =>
    match splitExt bs with
    | some (stem, ext) => some (b :: stem, ext)
    | none => if b = dot then some ([], dot :: bs) else none

/-- `path_with_ext`, `rotate.c:395–409`: the dot is looked for in the last component only,
and the extension is appended where there is none. -/
def pathWithExt (path : Path) (newExt : Text) : Path :=
  match path.getLast? with
  | none => []
  | some name =>
    match splitExt name with
    | some (stem, _) => path.dropLast ++ [stem ++ newExt]
    | none => path.dropLast ++ [name ++ newExt]

/-- The extension of a path, from the last dot of its last component on. -/
def extOf (path : Path) : Option Text :=
  path.getLast?.bind fun name ↦ (splitExt name).map Prod.snd

/-! ### The library tree -/

/-- The segment of the tree that holds what is not on the phone. -/
def archiveSeg : Name := ascii "archive"

/-- The segment of the tree that is synchronised to the phone. -/
def residentSeg : Name := ascii "resident"

/-- `swap_segment`, `rotate.c:137–151`: replace the segment after the library root. -/
def swapSegment (libraryRoot cur : Path) (fromSeg toSeg : Name) : Option Path :=
  match cur.drop libraryRoot.length with
  | seg :: b :: tail =>
    if libraryRoot <+: cur ∧ seg = fromSeg then some (libraryRoot ++ toSeg :: b :: tail) else none
  | _ => none

/-- A path strictly below a directory; `substr(path, 1, length(?1)) = ?1` for the directory's
name with its trailing slash, `track_repo.c:126–127` and `375–380`. -/
def isUnder (root path : Path) : Bool := root.isPrefixOf path && root.length < path.length

/-! ### File contents -/

/-- Contents of a regular file: arbitrary bytes, a finished encode of some source, or the
leading blocks of something that was not written to its end. -/
inductive Content where
  | plain (bytes : Text)
  | encode (source : Content)
  | cut (whole : Content) (blocks : Nat)
  deriving DecidableEq, Repr

/-- An inode: its contents and the two fields of `stat` that a scan compares. -/
structure FileData where
  content : Content
  mtimeNs : Int
  sizeBytes : Int
  deriving DecidableEq, Repr

/-- The file tree. -/
abbrev Tree := Fs Name FileData

/-- The tree without an entry, on one device. -/
def Tree.empty : Tree := Fs.empty fun _ ↦ ⟨.plain [], 0, 0⟩

/-- Put a directory into a tree. -/
def Tree.addDir (fs : Tree) (p : Path) : Tree := fs.place p .dir fun _ h ↦ by cases h

/-- A path holds a complete file with the given contents. -/
def Holds (fs : Tree) (p : Path) (c : Content) : Prop :=
  ∃ i, fs.node? p = some (.file i) ∧ (fs.data i).content = c

/-! ### Audio payloads -/

/-- `has_ext_mp3`, `hash.c:41–50`. -/
def hasExtMp3 (path : Path) : Bool :=
  match path.getLast? with
  | some name => (name.drop (name.length - 4)).map lower == ascii ".mp3"
  | none => false

/-- `decode_syncsafe`, `hash.c:54–60`. -/
def decodeSyncsafe (b₀ b₁ b₂ b₃ : UInt8) : Nat :=
  (b₀ &&& 0x7f).toNat * 2 ^ 21 + (b₁ &&& 0x7f).toNat * 2 ^ 14 + (b₂ &&& 0x7f).toNat * 2 ^ 7 +
    (b₃ &&& 0x7f).toNat

/-- `hash_skip_id3v2`, `hash.c:62–82`: where the audio starts behind an ID3v2 header. -/
def hashSkipId3v2 : Text → Nat
  | i :: d :: three :: _ :: _ :: flags :: s₀ :: s₁ :: s₂ :: s₃ :: _ =>
    if [i, d, three] = ascii "ID3" then
      10 + decodeSyncsafe s₀ s₁ s₂ s₃ + (if flags &&& 0x10 ≠ 0 then 10 else 0)
    else 0
  | _ => 0

/-- What `hash_audio_payload`, `hash.c:93–190`, feeds to the digest: an ID3v2 header is left
out of a file named `.mp3`. -/
def audioPayload (path : Path) : Content → Content
  | .plain bytes =>
    if hasExtMp3 path then .plain (bytes.drop (hashSkipId3v2 bytes)) else .plain bytes
  | c => c

/-- `digest` stands for the vendored SHA-256 in hex. -/
def payloadSha (digest : Content → Sha) (path : Path) (c : Content) : Sha :=
  digest (audioPayload path c)

/-! ### Laws of the path rewrites -/

/-- A path that `swapSegment` accepts has the segment after the root, and something after
the segment. -/
theorem swapSegment_eq_some {root cur new : Path} {fromSeg toSeg : Name} :
    swapSegment root cur fromSeg toSeg = some new ↔
      ∃ tail, tail ≠ [] ∧ cur = root ++ fromSeg :: tail ∧ new = root ++ toSeg :: tail := by
  unfold swapSegment
  constructor
  · intro h
    split at h
    · next seg b tail hd =>
      split at h
      · next hp =>
        obtain ⟨⟨rest, hr⟩, rfl⟩ := hp
        rw [← hr, List.drop_left] at hd
        cases h
        exact ⟨b :: tail, by simp, by rw [← hr, hd], rfl⟩
      · cases h
    · cases h
  · rintro ⟨tail, ht, rfl, rfl⟩
    cases tail with
    | nil => exact absurd rfl ht
    | cons b tail =>
      rw [List.drop_left]
      simp

theorem archiveSeg_ne_residentSeg : archiveSeg ≠ residentSeg := by decide

theorem isUnder_iff {root path : Path} :
    isUnder root path = true ↔ ∃ tail, tail ≠ [] ∧ path = root ++ tail := by
  simp only [isUnder, Bool.and_eq_true, List.isPrefixOf_iff_prefix, decide_eq_true_eq]
  constructor
  · rintro ⟨⟨tail, rfl⟩, hl⟩
    refine ⟨tail, fun h ↦ ?_, rfl⟩
    rw [h, List.append_nil] at hl
    exact absurd hl (Nat.lt_irrefl _)
  · rintro ⟨tail, ht, rfl⟩
    refine ⟨List.prefix_append _ _, ?_⟩
    rw [List.length_append]
    exact Nat.lt_add_of_pos_right (List.length_pos_iff.mpr ht)

end Nocturne
