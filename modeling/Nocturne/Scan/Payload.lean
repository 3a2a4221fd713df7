import Mathlib.Data.List.Basic
import Nocturne.Base

/-!
# The audio payload

`hash_audio_payload` skips the ID3v2 tag of an mp3 and hashes what it reads from there on. The skip
may lead past the end of the file, where nothing is read. `retagging_iff` says that a tag does not
change what is hashed, and for which two files the same hashed bytes are the same audio.
-/

namespace Nocturne

/-! ### Reading -/

/-- `READ_CHUNK`. -/
def readChunk : Nat := 64 * 1024

/-- The chunks that the loop of `hash_audio_payload`, `hash.c:155–168`, reads from `offset` on. Past
the end of the file there are none. -/
def readChunks (bytes : Text) (offset : Nat) : List Text :=
  let chunk := (bytes.drop offset).take readChunk
  if chunk = [] then [] else chunk :: readChunks bytes (offset + chunk.length)
termination_by bytes.length - offset
decreasing_by
  rename_i hchunk
  have hpos := List.length_pos_iff.mpr hchunk
  simp only [chunk, List.length_take, List.length_drop] at hpos ⊢
  omega

/-- What goes to the digest: the chunks behind the tag of an mp3, or those of the whole file. -/
def hashedBytes (path : Path) (bytes : Text) : Text :=
  (readChunks bytes (if hasExtMp3 path then hashSkipId3v2 bytes else 0)).flatten

theorem flatten_readChunks (bytes : Text) (offset : Nat) :
    (readChunks bytes offset).flatten = bytes.drop offset := by
  induction offset using readChunks.induct bytes with
  | case1 offset chunk hchunk =>
    rw [readChunks, if_pos hchunk, List.flatten_nil]
    have hnone : readChunk = 0 ∨ bytes.drop offset = [] := List.take_eq_nil_iff.mp hchunk
    exact (hnone.resolve_left (by decide)).symm
  | case2 offset chunk hchunk ih =>
    rw [readChunks, if_neg hchunk, List.flatten_cons, ih, ← List.drop_drop]
    show chunk ++ (bytes.drop offset).drop chunk.length = bytes.drop offset
    have hlength : (bytes.drop offset).drop chunk.length = (bytes.drop offset).drop readChunk := by
      simp only [chunk, List.length_take]
      by_cases hlong : readChunk ≤ (bytes.drop offset).length
      · rw [Nat.min_eq_left hlong]
      · rw [Nat.min_eq_right (by omega), List.drop_length, List.drop_eq_nil_of_le (by omega)]
    rw [hlength]
    exact List.take_append_drop readChunk (bytes.drop offset)

/-- The loop hashes what `audioPayload` says. -/
theorem audioPayload_plain (path : Path) (bytes : Text) :
    audioPayload path (.plain bytes) = .plain (hashedBytes path bytes) := by
  unfold hashedBytes
  rw [flatten_readChunks]
  show (if hasExtMp3 path then _ else _) = _
  split
  · rfl
  · rw [List.drop_zero]

/-! ### Tags -/

/-- An ID3v2 tag: the header with the size of the body in the lower seven bits of four bytes, the
body, and ten bytes more where the flags announce a footer. -/
structure Id3v2Tag where
  major : UInt8
  revision : UInt8
  flags : UInt8
  s₀ : UInt8
  s₁ : UInt8
  s₂ : UInt8
  s₃ : UInt8
  body : Text
  footer : Text
  size : body.length = ((s₀.toNat % 128 * 128 + s₁.toNat % 128) * 128 + s₂.toNat % 128) * 128 +
    s₃.toNat % 128
  footer_length : footer.length = if flags &&& 0x10 ≠ 0 then 10 else 0

namespace Id3v2Tag

/-- The ten bytes of the header. -/
def header (tag : Id3v2Tag) : Text :=
  ascii "ID3" ++ [tag.major, tag.revision, tag.flags, tag.s₀, tag.s₁, tag.s₂, tag.s₃]

/-- The bytes of a tag. -/
def bytes (tag : Id3v2Tag) : Text := tag.header ++ tag.body ++ tag.footer

/-- Each body below 2^28 bytes has a tag whose size bytes have no top bit. -/
theorem exists_of_body (major revision flags : UInt8) (body footer : Text)
    (hbody : body.length < 2 ^ 28)
    (hfooter : footer.length = if flags &&& 0x10 ≠ 0 then 10 else 0) :
    ∃ tag : Id3v2Tag, tag.major = major ∧ tag.revision = revision ∧ tag.flags = flags ∧
      tag.body = body ∧ tag.footer = footer ∧
      ∀ s ∈ [tag.s₀, tag.s₁, tag.s₂, tag.s₃], s < 0x80 := by
  refine ⟨⟨major, revision, flags, UInt8.ofNat (body.length / 2 ^ 21),
    UInt8.ofNat (body.length / 2 ^ 14 % 128), UInt8.ofNat (body.length / 2 ^ 7 % 128),
    UInt8.ofNat (body.length % 128), body, footer, ?_, hfooter⟩, rfl, rfl, rfl, rfl, rfl, ?_⟩
  · simp only [UInt8.toNat_ofNat']
    omega
  · simp only [List.mem_cons, List.not_mem_nil, or_false, UInt8.lt_iff_toNat_lt,
      UInt8.reduceToNat]
    rintro s (rfl | rfl | rfl | rfl) <;> rw [UInt8.toNat_ofNat'] <;> omega

end Id3v2Tag

/-- The file begins with the ten bytes of a header. -/
def HasId3v2Header (bytes : Text) : Prop := 10 ≤ bytes.length ∧ bytes.take 3 = ascii "ID3"

/-- The file without a leading tag that lies wholly within it. -/
inductive Untagged : Text → Text → Prop where
  | tagged (tag : Id3v2Tag) (audio : Text) : Untagged (tag.bytes ++ audio) audio
  | plain {bytes : Text} (h : ∀ (tag : Id3v2Tag) (audio : Text), bytes ≠ tag.bytes ++ audio) :
    Untagged bytes bytes

/-- The file ends within its leading tag, behind the header. -/
def EndsInTag (bytes : Text) : Prop :=
  ∃ (tag : Id3v2Tag) (n : Nat), 10 ≤ n ∧ n < tag.bytes.length ∧ bytes = tag.bytes.take n

/-- The file has something besides its leading tag, and does not end within it. -/
def HasPayload (bytes : Text) : Prop := ¬ EndsInTag bytes ∧ ¬ Untagged bytes []

section Tags

variable {tag : Id3v2Tag} {bytes audio f g f' g' : Text}

theorem decodeSyncsafe_eq (s₀ s₁ s₂ s₃ : UInt8) : decodeSyncsafe s₀ s₁ s₂ s₃ =
    ((s₀.toNat % 128 * 128 + s₁.toNat % 128) * 128 + s₂.toNat % 128) * 128 + s₃.toNat % 128 := by
  have hmask : ∀ s : UInt8, (s &&& 0x7f).toNat = s.toNat % 128 := by
    intro s
    rw [UInt8.toNat_and]
    exact Nat.and_two_pow_sub_one_eq_mod s.toNat 7
  unfold decodeSyncsafe
  simp only [hmask]
  omega

theorem hashSkipId3v2_header (tag : Id3v2Tag) (rest : Text) :
    hashSkipId3v2 (tag.header ++ rest) = tag.bytes.length := by
  have hid : ascii "ID3" = [73, 68, 51] := by decide
  have hskip : hashSkipId3v2 (tag.header ++ rest) =
      10 + decodeSyncsafe tag.s₀ tag.s₁ tag.s₂ tag.s₃ +
        (if tag.flags &&& 0x10 ≠ 0 then 10 else 0) := by
    unfold Id3v2Tag.header
    simp only [hid, List.cons_append, List.nil_append, hashSkipId3v2, if_true]
  rw [hskip, decodeSyncsafe_eq, ← tag.size, ← tag.footer_length]
  unfold Id3v2Tag.bytes
  rw [List.length_append, List.length_append]
  rfl

theorem hashSkipId3v2_tag (tag : Id3v2Tag) (audio : Text) :
    hashSkipId3v2 (tag.bytes ++ audio) = tag.bytes.length := by
  have h := hashSkipId3v2_header tag (tag.body ++ tag.footer ++ audio)
  unfold Id3v2Tag.bytes at h ⊢
  simpa only [List.append_assoc] using h

theorem hashSkipId3v2_of_no_header (h : ¬ HasId3v2Header bytes) : hashSkipId3v2 bytes = 0 := by
  unfold hashSkipId3v2
  split
  · next i d three major revision flags s₀ s₁ s₂ s₃ rest =>
    apply if_neg
    intro hid
    exact h ⟨by simp, hid⟩
  · rfl

/-- A header announces the tag that the size and the flags speak of; what the file lacks of it can
be filled up. -/
theorem exists_tag_of_header (h : HasId3v2Header bytes) :
    ∃ (tag : Id3v2Tag) (rest fill : Text), bytes = tag.header ++ rest ∧
      tag.bytes <+: bytes ++ fill := by
  have hid : ascii "ID3" = [73, 68, 51] := by decide
  obtain ⟨hlength, hstart⟩ := h
  rw [hid] at hstart
  match bytes, hlength, hstart with
  | i :: d :: three :: major :: revision :: flags :: s₀ :: s₁ :: s₂ :: s₃ :: rest, _, hstart =>
    obtain ⟨rfl, rfl, rfl⟩ : i = 73 ∧ d = 68 ∧ three = 51 := by simpa using hstart
    let size := ((s₀.toNat % 128 * 128 + s₁.toNat % 128) * 128 + s₂.toNat % 128) * 128 +
      s₃.toNat % 128
    let extra := if flags &&& 0x10 ≠ 0 then 10 else 0
    let fill : Text := List.replicate (size + extra) 0
    have hfilled : size + extra ≤ (rest ++ fill).length := by simp [fill]
    let tag : Id3v2Tag := ⟨major, revision, flags, s₀, s₁, s₂, s₃, (rest ++ fill).take size,
      ((rest ++ fill).drop size).take extra, by rw [List.length_take]; omega,
      by rw [List.length_take, List.length_drop]; omega⟩
    have hheader : tag.header = [73, 68, 51, major, revision, flags, s₀, s₁, s₂, s₃] := by
      unfold Id3v2Tag.header
      rw [hid]
      rfl
    have hbytes : tag.bytes = tag.header ++ (rest ++ fill).take (size + extra) := by
      unfold Id3v2Tag.bytes
      rw [List.append_assoc, List.take_add]
    refine ⟨tag, rest, fill, by rw [hheader]; rfl, ?_⟩
    rw [hbytes, hheader]
    exact (List.prefix_append_right_inj _).mpr (List.take_prefix _ _)

/-- A file with a header has the whole tag, or ends in it. -/
theorem tag_or_endsInTag (h : HasId3v2Header bytes) :
    (∃ (tag : Id3v2Tag) (audio : Text), bytes = tag.bytes ++ audio) ∨ EndsInTag bytes := by
  obtain ⟨tag, rest, fill, hheader, hprefix⟩ := exists_tag_of_header h
  by_cases hlength : tag.bytes.length ≤ bytes.length
  · left
    obtain ⟨audio, haudio⟩ :=
      List.prefix_of_prefix_length_le hprefix (List.prefix_append bytes fill) hlength
    exact ⟨tag, audio, haudio.symm⟩
  · right
    refine ⟨tag, bytes.length, h.1, by omega, ?_⟩
    exact List.prefix_iff_eq_take.mp
      (List.prefix_of_prefix_length_le (List.prefix_append bytes fill) hprefix (by omega))

/-- A file that ends in its tag is skipped past its end. -/
theorem EndsInTag.skip (h : EndsInTag bytes) : bytes.length < hashSkipId3v2 bytes := by
  obtain ⟨tag, n, hlow, hn, rfl⟩ := h
  have hten : tag.header.length = 10 := rfl
  have htake : tag.bytes.take n = tag.header ++ (tag.body ++ tag.footer).take (n - 10) := by
    unfold Id3v2Tag.bytes
    rw [List.append_assoc, List.take_append, List.take_of_length_le (hten ▸ hlow), hten]
  rw [List.length_take_of_le (Nat.le_of_lt hn), htake, hashSkipId3v2_header]
  exact hn

theorem EndsInTag.ne_nil (h : EndsInTag bytes) : bytes ≠ [] := by
  rintro rfl
  obtain ⟨tag, n, hlow, hn, heq⟩ := h
  have hlength := congrArg List.length heq
  rw [List.length_take_of_le (Nat.le_of_lt hn), List.length_nil] at hlength
  omega

/-- Such a file stays as it is when leading tags are removed. -/
theorem EndsInTag.untagged (h : EndsInTag bytes) : Untagged bytes bytes := by
  apply Untagged.plain
  rintro tag audio rfl
  have hskip := h.skip
  rw [hashSkipId3v2_tag, List.length_append] at hskip
  omega

/-- What is skipped of any other file is its tag. -/
theorem untagged_drop (h : ¬ EndsInTag bytes) :
    Untagged bytes (bytes.drop (hashSkipId3v2 bytes)) := by
  by_cases hheader : HasId3v2Header bytes
  · obtain ⟨tag, audio, rfl⟩ := (tag_or_endsInTag hheader).resolve_right h
    rw [hashSkipId3v2_tag, List.drop_left]
    exact .tagged tag audio
  · rw [hashSkipId3v2_of_no_header hheader, List.drop_zero]
    apply Untagged.plain
    rintro tag audio rfl
    apply hheader
    have hten : tag.header.length = 10 := rfl
    unfold Id3v2Tag.bytes
    refine ⟨?_, by rfl⟩
    simp only [List.length_append, hten]
    omega

theorem untagged_iff : Untagged bytes f ↔ (∃ tag : Id3v2Tag, bytes = tag.bytes ++ f) ∨
    f = bytes ∧ ∀ (tag : Id3v2Tag) (audio : Text), bytes ≠ tag.bytes ++ audio := by
  constructor
  · intro h
    cases h with
    | tagged tag => exact Or.inl ⟨tag, rfl⟩
    | plain hnone => exact Or.inr ⟨rfl, hnone⟩
  · rintro (⟨tag, rfl⟩ | ⟨rfl, hnone⟩)
    · exact .tagged tag f
    · exact .plain hnone

theorem Untagged.unique (h : Untagged bytes f) (h' : Untagged bytes g) : f = g := by
  obtain ⟨tag, htag⟩ | ⟨rfl, hnone⟩ := untagged_iff.mp h
  · obtain ⟨tag', htag'⟩ | ⟨rfl, hnone⟩ := untagged_iff.mp h'
    · have hlength : tag.bytes.length = tag'.bytes.length := by
        rw [← hashSkipId3v2_tag tag f, ← htag, htag', hashSkipId3v2_tag]
      exact (List.append_inj (htag.symm.trans htag') hlength).2
    · exact absurd htag (hnone tag f)
  · obtain ⟨tag', htag'⟩ | ⟨rfl, -⟩ := untagged_iff.mp h'
    · exact absurd htag' (hnone tag' g)
    · rfl

end Tags

/-! ### Retagging -/

/-- The path of an mp3. -/
def Mp3Path := { path : Path // hasExtMp3 path = true }

section Retagging

variable {path : Mp3Path} {f g : Text}

theorem hashedBytes_mp3 (path : Mp3Path) (bytes : Text) :
    hashedBytes path.val bytes = bytes.drop (hashSkipId3v2 bytes) := by
  unfold hashedBytes
  rw [flatten_readChunks, if_pos path.property]

theorem hashedBytes_of_endsInTag (h : EndsInTag f) : hashedBytes path.val f = [] := by
  rw [hashedBytes_mp3]
  exact List.drop_eq_nil_of_le h.skip.le

theorem untagged_hashedBytes (h : ¬ EndsInTag f) : Untagged f (hashedBytes path.val f) := by
  rw [hashedBytes_mp3]
  exact untagged_drop h

/-- A file that ends in its tag is taken for one without audio only. -/
theorem hasPayload_of_hashed {path path' : Mp3Path} (hf : EndsInTag f) (hne : f ≠ g)
    (h : ∀ f' g', Untagged f f' → Untagged g g' →
      hashedBytes path.val f = hashedBytes path'.val g → f' = g') : HasPayload g := by
  have hhashed := @hashedBytes_of_endsInTag path f hf
  constructor
  · intro hg
    exact hne (h f g hf.untagged hg.untagged (hhashed.trans (hashedBytes_of_endsInTag hg).symm))
  · intro hg
    have hends : ¬ EndsInTag g := by
      intro hends
      exact hends.ne_nil (hends.untagged.unique hg)
    have heq : hashedBytes path'.val g = [] := (untagged_hashedBytes hends).unique hg
    exact hf.ne_nil (h f [] hf.untagged hg (hhashed.trans heq.symm))

/-- A tag in front of the audio, or none, does not change what is hashed. Two files of which the
same is hashed are the same without their tags unless one of them ends in its tag and the other, a
different file, does so too or has nothing besides its tag. -/
theorem retagging_iff (path path' : Mp3Path) :
    (∀ (tag : Id3v2Tag) (payload : Text),
        hashedBytes path.val (tag.bytes ++ payload) = payload) ∧
      (∀ payload, ¬ HasId3v2Header payload → hashedBytes path.val payload = payload) ∧
      ∀ f g, (∀ f' g', Untagged f f' → Untagged g g' →
          hashedBytes path.val f = hashedBytes path'.val g → f' = g') ↔
        f = g ∨ (EndsInTag f → HasPayload g) ∧ (EndsInTag g → HasPayload f) := by
  refine ⟨?_, ?_, ?_⟩
  · intro tag payload
    rw [hashedBytes_mp3, hashSkipId3v2_tag, List.drop_left]
  · intro payload hnone
    rw [hashedBytes_mp3, hashSkipId3v2_of_no_header hnone, List.drop_zero]
  · intro f g
    constructor
    · intro h
      by_cases hne : f = g
      · exact Or.inl hne
      · refine Or.inr ⟨fun hf ↦ hasPayload_of_hashed hf hne h, fun hg ↦ ?_⟩
        apply @hasPayload_of_hashed g f path' path hg (Ne.symm hne)
        intro g' f' hg' hf' heq
        exact (h f' g' hf' hg' heq.symm).symm
    · intro h f' g' hf' hg' heq
      by_cases hsame : f = g
      · subst hsame
        exact hf'.unique hg'
      obtain ⟨hf, hg⟩ := h.resolve_left hsame
      by_cases hfends : EndsInTag f
      · obtain ⟨hgends, hgaudio⟩ := hf hfends
        rw [hashedBytes_of_endsInTag hfends] at heq
        exact absurd (heq ▸ untagged_hashedBytes hgends) hgaudio
      · by_cases hgends : EndsInTag g
        · rw [hashedBytes_of_endsInTag hgends] at heq
          exact absurd (heq ▸ untagged_hashedBytes hfends) (hg hgends).2
        · rw [← (untagged_hashedBytes hfends).unique hf', heq]
          exact (untagged_hashedBytes hgends).unique hg'

/-- Two different files whose tags are longer than they are: of both the empty string is hashed. -/
theorem overlong_tags_merge : ∃ path : Mp3Path, ∃ f g, Untagged f f ∧ Untagged g g ∧
    hashedBytes path.val f = hashedBytes path.val g ∧ f ≠ g := by
  have hends : ∀ b, EndsInTag (ascii "ID3" ++ [4, 0, 0, 0, 0, 0, 2, b]) := fun b ↦
    ⟨⟨4, 0, 0, 0, 0, 0, 2, [b, 0], [], rfl, rfl⟩, 11, by omega, show 11 < 12 by omega, rfl⟩
  refine ⟨⟨[ascii "a.mp3"], by decide⟩, _, _, (hends 1).untagged, (hends 2).untagged, ?_,
    by decide⟩
  exact (hashedBytes_of_endsInTag (hends 1)).trans (hashedBytes_of_endsInTag (hends 2)).symm

end Retagging

end Nocturne
