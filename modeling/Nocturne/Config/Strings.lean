import Nocturne.Config.Sources

/-!
# String values of the configuration

A string value stands between quotes, its own quotes and backslashes behind a backslash, and may be
followed by a comment. `strip_comment` takes a quote behind a backslash for one of the string, also
where the backslash is itself escaped: `string_readBack_iff` says when the value is read back.
-/

namespace Nocturne

open Lib

variable {D : Type}

/-! ### The keys -/

/-- The keys that take a string. -/
inductive StringKey where
  | libraryPath
  | syncMetaPath
  | flacgetPath
  | desktopName
  | phoneName
  | desktopDeviceId
  | phoneDeviceId
  | syncFilesPath
  | phoneSyncMetaPath
  | transcodeFormat
  | excludeAlbumSubstrings
  | username
  | userToken
  | bucketSource (name : Text)
  deriving DecidableEq, Repr

namespace StringKey

/-- The section of the key. -/
def sec : StringKey → Text
  | libraryPath => ascii "library"
  | syncMetaPath => ascii "sync_meta"
  | flacgetPath => ascii "download"
  | desktopName | phoneName | desktopDeviceId | phoneDeviceId => ascii "syncthing"
  | syncFilesPath | phoneSyncMetaPath => ascii "syncthing.phone"
  | transcodeFormat => ascii "transcode"
  | excludeAlbumSubstrings => ascii "discover"
  | username | userToken => ascii "listenbrainz"
  | bucketSource name => bucketsDot ++ name

/-- The key in its section. -/
def key : StringKey → Text
  | libraryPath | syncMetaPath => ascii "path"
  | flacgetPath => ascii "flacget_path"
  | desktopName => ascii "desktop_name"
  | phoneName => ascii "phone_name"
  | desktopDeviceId => ascii "desktop_device_id"
  | phoneDeviceId => ascii "phone_device_id"
  | syncFilesPath => ascii "sync_files_path"
  | phoneSyncMetaPath => ascii "sync_meta_path"
  | transcodeFormat => ascii "format"
  | excludeAlbumSubstrings => ascii "exclude_album_substrings"
  | username => ascii "username"
  | userToken => ascii "user_token"
  | bucketSource _ => ascii "source"

/-- The value of the key in a configuration. -/
def value (c : NocturneConfig D) : StringKey → Option Text
  | libraryPath => c.libraryRoot
  | syncMetaPath => c.syncMetaRoot
  | flacgetPath => c.flacgetPath
  | desktopName => c.syncthingDesktopName
  | phoneName => c.syncthingPhoneName
  | desktopDeviceId => c.syncthingDesktopDeviceId
  | phoneDeviceId => c.syncthingPhoneDeviceId
  | syncFilesPath => c.syncthingPhoneSyncFiles
  | phoneSyncMetaPath => c.syncthingPhoneSyncMeta
  | transcodeFormat => c.transcodeFormat
  | excludeAlbumSubstrings => c.discoverExcludeAlbumSubstrings
  | username => c.listenbrainzUsername
  | userToken => c.listenbrainzUserToken
  | bucketSource name => (c.buckets.lookup name).bind BucketOptions.source

/-- The key sets its field, and its section is not one of the buckets. -/
theorem settingEdit_eq (fl : Doubles D) (raw : Text) (k : StringKey)
    (hk : ∀ name, k ≠ bucketSource name) :
    ∃ set : Text → Options D → Options D,
      settingEdit fl k.sec k.key raw = .of set (parseString raw) ∧
        bucketsDot.isPrefixOf k.sec = false ∧
        ∀ (c : NocturneConfig D) (s : Text),
          k.value { c with toOptions := set s c.toOptions } = some s := by
  cases k with
  | bucketSource name => exact absurd rfl (hk name)
  | _ => exact ⟨_, rfl, rfl, fun _ _ ↦ rfl⟩

/-- A value in quotes sets the key, unless it is malformed. -/
theorem applyKv_eq (fl : Doubles D) (c : NocturneConfig D) (raw : Text) (line : Nat)
    (k : StringKey) (hraw : raw.head? = some 34) :
    match parseString raw with
    | some s => ∃ c', applyKv fl c k.sec k.key raw line = .ok (c', none) ∧ k.value c' = some s
    | none => ∃ e, applyKv fl c k.sec k.key raw line = .error e := by
  unfold applyKv
  cases hparse : parseString raw with
  | none => exact ⟨_, if_pos ⟨hraw, rfl⟩⟩
  | some s =>
    simp only [reduceCtorEq, and_false, if_false]
    by_cases hbucket : ∃ name, k = bucketSource name
    · obtain ⟨name, rfl⟩ := hbucket
      have hsec : bucketsDot.isPrefixOf (bucketSource name).sec = true :=
        List.isPrefixOf_iff_prefix.mpr (List.prefix_append bucketsDot name)
      have hname : (bucketSource name).sec.drop 8 = name :=
        List.drop_left' (by decide)
      have hedit : bucketEdit fl (bucketSource name).key raw =
          .of (fun s b ↦ { b with source := some s }) (parseString raw) := rfl
      rw [if_pos hsec, hname, hedit, hparse]
      refine ⟨_, rfl, ?_⟩
      show ((touch (freshBucket fl) name _ c.buckets).lookup name).bind _ = _
      rw [lookup_touch, if_pos rfl]
      rfl
    · obtain ⟨set, hedit, hsec, hvalue⟩ := @settingEdit_eq D fl raw k (not_exists.mp hbucket)
      rw [hedit, hparse, hsec]
      exact ⟨_, rfl, hvalue c s⟩

/-- The bytes of a key are no spaces, and none that end a line or begin anything else. -/
theorem key_bytes (k : StringKey) : k.key ≠ [] ∧
    ∀ b ∈ k.key, isSpace b = false ∧ b ∉ [0, 10, 34, 35, 59, 61, 91] := by
  cases k with
  | bucketSource name =>
    show ascii "source" ≠ [] ∧ ∀ b ∈ ascii "source", _
    decide +kernel
  | _ => decide +kernel

theorem sec_ne_nil (k : StringKey) : k.sec ≠ [] := by
  cases k with
  | bucketSource name => exact List.append_ne_nil_of_left_ne_nil (by decide) name
  | _ => decide

end StringKey

/-! ### The line -/

/-- A string as it stands between the quotes. -/
def escapeValue (s : Text) : Text := s.flatMap fun b ↦ if b = 34 ∨ b = 92 then [92, b] else [b]

/-- A line that gives a key the value `s`: spaces may follow, and a comment from its first character
on. -/
structure StringLine (k : StringKey) where
  s : Text
  spaces : Text
  comment : Option (UInt8 × Text)
  s_bytes : ∀ b ∈ s, b ≠ 10 ∧ b ≠ 0
  spaces_bytes : ∀ b ∈ spaces, isSpace b = true ∧ b ≠ 10
  comment_bytes : ∀ c ∈ comment, (c.1 = 35 ∨ c.1 = 59) ∧ ∀ b ∈ c.2, b ≠ 10
  short : (k.key ++ ascii " = " ++ 34 :: escapeValue s ++ 34 :: spaces ++
    comment.elim [] fun c ↦ c.1 :: c.2).length < 1023

namespace StringLine

variable {k : StringKey} (l : StringLine k)

/-- The bytes of the comment. -/
def commentBytes : Text := l.comment.elim [] fun c ↦ c.1 :: c.2

/-- The bytes of the line. -/
def bytes : Text :=
  k.key ++ ascii " = " ++ 34 :: escapeValue l.s ++ 34 :: l.spaces ++ l.commentBytes

end StringLine

/-! ### Lines of the file -/

/-- A line that fits the buffer is read with its newline, and the next read starts behind it. -/
theorem fgetsLines_line {room : Nat} {buf line after : Text} (hline : ∀ b ∈ line, b ≠ 10)
    (hroom : line.length < room) : fgetsLines room buf (line ++ 10 :: after) =
      (buf ++ line ++ [10]) :: fgetsLines 1023 [] after := by
  induction line generalizing room buf with
  | nil =>
    rw [List.nil_append, fgetsLines, if_pos (Or.inl rfl), List.append_nil]
  | cons b line ih =>
    obtain ⟨hb, hline⟩ := List.forall_mem_cons.mp hline
    rw [List.length_cons] at hroom
    have hstay : ¬ (b = 10 ∨ room = 1) := by
      rintro (h | h)
      · exact hb h
      · omega
    rw [List.cons_append, fgetsLines, if_neg hstay, ih hline (by omega)]
    simp

/-- The last line of a file may have no newline. -/
theorem fgetsLines_last {room : Nat} {buf line : Text} (hne : buf ++ line ≠ [])
    (hline : ∀ b ∈ line, b ≠ 10) (hroom : line.length < room) :
    fgetsLines room buf line = [buf ++ line] := by
  induction line generalizing room buf with
  | nil =>
    rw [List.append_nil] at hne ⊢
    simp [fgetsLines, hne]
  | cons b line ih =>
    obtain ⟨hb, hline⟩ := List.forall_mem_cons.mp hline
    rw [List.length_cons] at hroom
    have hstay : ¬ (b = 10 ∨ room = 1) := by
      rintro (h | h)
      · exact hb h
      · omega
    rw [fgetsLines, if_neg hstay, ih (by simp) hline (by omega)]
    simp

/-! ### Comments -/

section Comments

variable {prev : Option UInt8} {inStr : Bool} {s t : Text} {b : UInt8}

theorem getLast?_cons_or : (b :: s).getLast?.or prev = s.getLast?.or (some b) := by
  rw [List.getLast?_cons]
  cases s.getLast? <;> rfl

/-- Bytes that are no quote and begin no comment are passed. -/
theorem stripComment_plain (h : ∀ b ∈ s, b ≠ 34 ∧ b ≠ 35 ∧ b ≠ 59) :
    stripComment prev inStr (s ++ t) = s ++ stripComment (s.getLast?.or prev) inStr t := by
  induction s generalizing prev with
  | nil => rfl
  | cons b s ih =>
    obtain ⟨⟨hquote, hhash, hsemi⟩, hs⟩ := List.forall_mem_cons.mp h
    rw [List.cons_append, stripComment, if_neg fun hb ↦ hquote hb.1,
      if_neg fun hb ↦ hb.2.elim hhash hsemi, ih hs, getLast?_cons_or]
    rfl

/-- An escaped value is passed within its string: each quote of it stands behind a backslash. The
last byte is that of the value. -/
theorem stripComment_escapeValue : stripComment prev true (escapeValue s ++ t) =
    escapeValue s ++ stripComment (s.getLast?.or prev) true t := by
  induction s generalizing prev with
  | nil => rfl
  | cons b s ih =>
    have hcons : escapeValue (b :: s) =
        (if b = 34 ∨ b = 92 then [92, b] else [b]) ++ escapeValue s := List.flatMap_cons
    rw [getLast?_cons_or, hcons, List.append_assoc]
    by_cases hb : b = 34 ∨ b = 92
    · rw [if_pos hb]
      have hslash : ∀ p, stripComment p true (92 :: b :: (escapeValue s ++ t)) =
          92 :: b :: stripComment (some b) true (escapeValue s ++ t) := by
        intro p
        obtain rfl | rfl := hb <;> simp [stripComment]
      show stripComment prev true (92 :: b :: (escapeValue s ++ t)) = _
      rw [hslash, ih]
      rfl
    · rw [if_neg hb]
      show stripComment prev true (b :: (escapeValue s ++ t)) = _
      rw [stripComment, if_neg fun h ↦ hb (Or.inl h.1)]
      simp only [Bool.not_true, Bool.false_eq_true, false_and, if_false]
      rw [ih]
      rfl

theorem spaces_plain (h : ∀ b ∈ s, isSpace b = true) : ∀ b ∈ s, b ≠ 34 ∧ b ≠ 35 ∧ b ≠ 59 := by
  intro b hb
  have hspace := h b hb
  refine ⟨?_, ?_, ?_⟩ <;>
    · rintro rfl
      exact absurd hspace (by decide)

end Comments

/-! ### The value -/

theorem unescape_escapeValue (s t : Text) : unescape (escapeValue s ++ t) = s ++ unescape t := by
  induction s with
  | nil => rfl
  | cons b s ih =>
    have hcons : escapeValue (b :: s) =
        (if b = 34 ∨ b = 92 then [92, b] else [b]) ++ escapeValue s := List.flatMap_cons
    rw [hcons, List.append_assoc]
    by_cases hb : b = 34 ∨ b = 92
    · rw [if_pos hb]
      obtain rfl | rfl := hb <;> simp [unescape, ih]
    · rw [if_neg hb]
      have hslash : b ≠ 92 := fun h ↦ hb (Or.inr h)
      show unescape (b :: (escapeValue s ++ t)) = _
      rw [unescape, ih]
      · rfl
      all_goals simp_all

theorem parseString_quoted (s : Text) : parseString (34 :: escapeValue s ++ [34]) = some s := by
  unfold parseString
  have hquoted : (34 :: escapeValue s ++ [34]).head? = some 34 ∧
      2 ≤ (34 :: escapeValue s ++ [34]).length ∧
      (34 :: escapeValue s ++ [34]).getLast? = some 34 :=
    ⟨rfl, by simp, List.getLast?_concat⟩
  rw [if_pos hquoted]
  have hinner : (34 :: escapeValue s ++ [34]).tail.dropLast = escapeValue s := by simp
  have h := unescape_escapeValue s []
  rw [List.append_nil, unescape, List.append_nil] at h
  rw [hinner, h]

/-! ### Reading a line -/

section Reading

variable {k : StringKey}

theorem rdropWhile_append_cons {p : UInt8 → Bool} {s t : Text} {b : UInt8} (h : p b = false) :
    (s ++ b :: t).rdropWhile p = s ++ b :: t.rdropWhile p := by
  unfold List.rdropWhile
  rw [List.reverse_append, List.reverse_cons, List.append_assoc, List.dropWhile_append]
  split
  · next hnone =>
    rw [List.isEmpty_iff.mp hnone]
    simp [h]
  · simp

/-- Where what is left of the line is the key with something in quotes, they are read. -/
theorem readLine_entry {buf w : Text} (h : stripComment none false (buf.takeWhile fun b ↦ b != 0) =
    k.key ++ ascii " = " ++ 34 :: w) :
    readLine buf = .entry k.key (34 :: w.rdropWhile isSpace) := by
  obtain ⟨hne, hbytes⟩ := k.key_bytes
  have hplain : ∀ b ∈ k.key, isSpace b = false ∧ b ≠ 91 ∧ b ≠ 61 := by
    intro b hb
    have hnone := (hbytes b hb).2
    simp only [List.mem_cons, not_or] at hnone
    exact ⟨(hbytes b hb).1, hnone.2.2.2.2.2.2.1, hnone.2.2.2.2.2.1⟩
  have hequals : ascii " = " = [32, 61, 32] := by decide
  have hquote : isSpace 34 = false := by decide
  unfold readLine
  simp only [h, hequals]
  generalize k.key = key at hne hplain
  have hkey : ∀ t, (key ++ t).dropWhile isSpace = key ++ t := by
    intro t
    obtain ⟨b, key, rfl⟩ := List.exists_cons_of_ne_nil hne
    rw [List.cons_append, List.dropWhile_cons_of_neg]
    simp [(hplain b List.mem_cons_self).1]
  have hline : trim (key ++ [32, 61, 32] ++ 34 :: w) =
      key ++ 32 :: 61 :: 32 :: 34 :: w.rdropWhile isSpace := by
    unfold trim
    rw [List.append_assoc, hkey, ← List.append_assoc, rdropWhile_append_cons hquote]
    simp
  have hhead : (key ++ 32 :: 61 :: 32 :: 34 :: w.rdropWhile isSpace).head? ≠ some 91 := by
    obtain ⟨b, key, rfl⟩ := List.exists_cons_of_ne_nil hne
    simpa using (hplain b List.mem_cons_self).2.1
  have htake : ∀ b ∈ key, (b != 61) = true := fun b hb ↦ by simpa using (hplain b hb).2.2
  rw [hline, if_neg (by simp), if_neg hhead, if_neg (by simp),
    List.takeWhile_append_of_pos htake, List.dropWhile_append_of_pos htake]
  have hfirst : trim (key ++ [32]) = key := by
    unfold trim
    rw [hkey, List.rdropWhile_concat_pos _ _ _ (by decide)]
    apply List.rdropWhile_eq_self_iff.mpr
    intro hne
    simp [(hplain _ (List.getLast_mem hne)).1]
  have hsecond : trim (32 :: 34 :: w.rdropWhile isSpace) = 34 :: w.rdropWhile isSpace := by
    unfold trim
    have hdrop : (32 :: 34 :: w.rdropWhile isSpace).dropWhile isSpace =
        34 :: w.rdropWhile isSpace := by
      simp [show isSpace 32 = true by decide, hquote]
    have h := @rdropWhile_append_cons isSpace [] (w.rdropWhile isSpace) 34 hquote
    rw [List.nil_append, List.rdropWhile_idempotent] at h
    rw [hdrop, h]
    rfl
  show Line.entry (trim (key ++ [32])) (trim (32 :: 34 :: w.rdropWhile isSpace)) = _
  rw [hfirst, hsecond]

variable (l : StringLine k)

/-- Up to the comment the line has no NUL, no newline, and no comment for `strip_comment`. At the
comment the string is still open if the value ends in a backslash. -/
theorem stripComment_line (rest : Text) : ∃ prev,
    stripComment none false
        (k.key ++ ascii " = " ++ 34 :: escapeValue l.s ++ 34 :: l.spaces ++ rest) =
      k.key ++ ascii " = " ++ 34 :: (escapeValue l.s ++ 34 :: (l.spaces ++
        stripComment prev (decide (l.s.getLast? = some 92)) rest)) := by
  have hequals : ascii " = " = [32, 61, 32] := by decide
  have hfront : ∀ b ∈ k.key ++ ascii " = ", b ≠ 34 ∧ b ≠ 35 ∧ b ≠ 59 := by
    intro b hb
    cases List.mem_append.mp hb with
    | inl hkey =>
      have hnone := (k.key_bytes.2 b hkey).2
      simp only [List.mem_cons, not_or] at hnone
      exact ⟨hnone.2.2.1, hnone.2.2.2.1, hnone.2.2.2.2.1⟩
    | inr hmiddle =>
      have hall : ∀ b ∈ [32, 61, 32], (b : UInt8) ≠ 34 ∧ b ≠ 35 ∧ b ≠ 59 := by
        decide +kernel
      exact hall b (hequals ▸ hmiddle)
  have hlast : (k.key ++ ascii " = ").getLast?.or none = some 32 := by
    rw [hequals, List.getLast?_append]
    rfl
  have hspaces := spaces_plain fun b hb ↦ (l.spaces_bytes b hb).1
  have hopen : ∀ t, stripComment (some 32) false (34 :: t) =
      34 :: stripComment (some 34) true t := by
    intro t
    simp [stripComment]
  have hclose : ∀ t, stripComment (l.s.getLast?.or (some 34)) true (34 :: t) =
      34 :: stripComment (some 34) (decide (l.s.getLast? = some 92)) t := by
    intro t
    rw [stripComment]
    by_cases hslash : l.s.getLast? = some 92
    · simp [hslash]
    · have hprev : l.s.getLast?.or (some 34) ≠ some 92 := by
        cases hs : l.s.getLast? with
        | none => simp
        | some b => simpa [hs] using hslash
      rw [if_pos ⟨rfl, hprev⟩]
      simp [hslash]
  have hassoc : k.key ++ ascii " = " ++ 34 :: escapeValue l.s ++ 34 :: l.spaces ++ rest =
      (k.key ++ ascii " = ") ++ 34 :: (escapeValue l.s ++ 34 :: (l.spaces ++ rest)) := by
    simp
  rw [hassoc, stripComment_plain hfront, hlast, hopen, stripComment_escapeValue, hclose,
    stripComment_plain hspaces]
  exact ⟨_, rfl⟩

theorem line_bytes : ∀ b ∈ k.key ++ ascii " = " ++ 34 :: escapeValue l.s ++ 34 :: l.spaces,
    b ≠ 0 ∧ b ≠ 10 := by
  have hequals : ascii " = " = [32, 61, 32] := by decide
  rw [hequals]
  have hkey : ∀ b ∈ k.key, b ≠ 0 ∧ b ≠ 10 := by
    intro b hb
    have hnone := (k.key_bytes.2 b hb).2
    simp only [List.mem_cons, not_or] at hnone
    exact ⟨hnone.1, hnone.2.1⟩
  have hvalue : ∀ b ∈ escapeValue l.s, b ≠ 0 ∧ b ≠ 10 := by
    intro b hb
    obtain ⟨c, hc, hb⟩ := List.mem_flatMap.mp hb
    have hplain := l.s_bytes c hc
    split at hb
    · simp only [List.mem_cons, List.not_mem_nil, or_false] at hb
      obtain rfl | rfl := hb
      · decide
      · exact hplain.symm
    · rw [List.mem_singleton] at hb
      exact hb ▸ hplain.symm
  have hspaces : ∀ b ∈ l.spaces, b ≠ 0 ∧ b ≠ 10 := by
    intro b hb
    obtain ⟨hspace, hnewline⟩ := l.spaces_bytes b hb
    refine ⟨?_, hnewline⟩
    rintro rfl
    exact absurd hspace (by decide)
  simp only [List.forall_mem_append, List.forall_mem_cons]
  exact ⟨⟨⟨hkey, by decide +kernel⟩, by decide +kernel, hvalue⟩, by decide +kernel, hspaces⟩

/-- What the line is read as, with or without its newline: the key with the value in quotes, or,
with the comment behind it, a value in quotes with more. -/
theorem readLine_line (eol : Text) (heol : eol = [10] ∨ eol = []) :
    (l.comment = none ∨ l.s.getLast? ≠ some 92 →
      readLine (l.bytes ++ eol) = .entry k.key (34 :: escapeValue l.s ++ [34])) ∧
    (¬ (l.comment = none ∨ l.s.getLast? ≠ some 92) → ∃ c more, c ≠ 34 ∧
      readLine (l.bytes ++ eol) =
        .entry k.key (34 :: (escapeValue l.s ++ 34 :: (l.spaces ++ c :: more)))) := by
  have heolbytes : ∀ b ∈ eol, b ≠ 0 ∧ isSpace b = true := by
    obtain rfl | rfl := heol <;> decide +kernel
  have hbytes : ((l.bytes ++ eol).takeWhile fun b ↦ b != 0) =
      k.key ++ ascii " = " ++ 34 :: escapeValue l.s ++ 34 :: l.spaces ++
        ((l.commentBytes ++ eol).takeWhile fun b ↦ b != 0) := by
    unfold StringLine.bytes
    rw [List.append_assoc, List.takeWhile_append_of_pos]
    intro b hb
    simpa using (line_bytes l b hb).1
  obtain ⟨prev, hstrip⟩ := stripComment_line l ((l.commentBytes ++ eol).takeWhile fun b ↦ b != 0)
  rw [← hbytes] at hstrip
  have hread := readLine_entry hstrip
  have hquote : isSpace 34 = false := by decide
  rw [rdropWhile_append_cons hquote] at hread
  have hspaces : ∀ b ∈ l.spaces, isSpace b = true := fun b hb ↦ (l.spaces_bytes b hb).1
  cases hcomment : l.comment with
  | none =>
    have hcut : ((l.commentBytes ++ eol).takeWhile fun b ↦ b != 0) = eol := by
      unfold StringLine.commentBytes
      rw [hcomment]
      exact List.takeWhile_eq_self_iff.mpr fun b hb ↦ by simpa using (heolbytes b hb).1
    have hkept : ∀ inStr, stripComment prev inStr eol = eol := by
      obtain rfl | rfl := heol <;> simp [stripComment]
    have hdropped : (l.spaces ++ eol).rdropWhile isSpace = [] := by
      apply List.rdropWhile_eq_nil_iff.mpr
      intro b hb
      exact (List.mem_append.mp hb).elim (hspaces b) fun hb ↦ (heolbytes b hb).2
    rw [hcut, hkept, hdropped] at hread
    exact ⟨fun _ ↦ hread, fun h ↦ absurd (Or.inl rfl) h⟩
  | some c =>
    obtain ⟨hmark, -⟩ := l.comment_bytes c hcomment
    have hmark' : c.1 ≠ 0 ∧ c.1 ≠ 34 ∧ isSpace c.1 = false := by
      obtain h | h := hmark <;> rw [h] <;> decide
    have hcut : ((l.commentBytes ++ eol).takeWhile fun b ↦ b != 0) =
        c.1 :: (c.2 ++ eol).takeWhile fun b ↦ b != 0 := by
      unfold StringLine.commentBytes
      rw [hcomment]
      show List.takeWhile _ (c.1 :: (c.2 ++ eol)) = _
      rw [List.takeWhile_cons_of_pos (by simpa using hmark'.1)]
    rw [hcut, stripComment, if_neg fun h ↦ hmark'.2.1 h.1] at hread
    by_cases hslash : l.s.getLast? = some 92
    · refine ⟨fun h ↦ absurd hslash (h.resolve_left (by simp)), fun _ ↦ ?_⟩
      simp only [hslash, decide_true, Bool.not_true, Bool.false_eq_true, false_and,
        if_false] at hread
      rw [rdropWhile_append_cons hmark'.2.2] at hread
      exact ⟨_, _, hmark'.2.1, hread⟩
    · refine ⟨fun _ ↦ ?_, fun h ↦ absurd (Or.inr hslash) h⟩
      have hnone : l.spaces.rdropWhile isSpace = [] := List.rdropWhile_eq_nil_iff.mpr hspaces
      simp only [hslash, decide_false, Bool.not_false, hmark, and_self, if_true,
        List.append_nil, hnone] at hread
      exact hread

/-- With more behind it the value is malformed, or another one. -/
theorem parseString_more {s spaces more : Text} {c : UInt8} (hc : c ≠ 34) :
    parseString (34 :: (escapeValue s ++ 34 :: (spaces ++ c :: more))) ≠ some s := by
  unfold parseString
  split
  · next hquoted =>
    intro h
    have hmore : more ≠ [] := by
      rintro rfl
      have hlast := hquoted.2.2
      rw [← List.cons_append, ← List.cons_append, ← List.append_assoc, List.getLast?_concat]
        at hlast
      exact hc (Option.some.inj hlast)
    have hinner : (34 :: (escapeValue s ++ 34 :: (spaces ++ c :: more))).tail.dropLast =
        escapeValue s ++ (34 :: (spaces ++ c :: more)).dropLast := by
      rw [List.tail_cons, List.dropLast_append_of_ne_nil (by simp)]
    rw [hinner, unescape_escapeValue] at h
    have hnone : unescape (34 :: (spaces ++ c :: more)).dropLast = [] :=
      List.append_right_eq_self.mp (Option.some.inj h)
    have hquote : (34 :: (spaces ++ c :: more)).dropLast =
        34 :: (spaces ++ c :: more).dropLast := by
      rw [List.dropLast_cons_of_ne_nil (by simp)]
    rw [hquote] at hnone
    simp [unescape] at hnone
  · exact nofun

end Reading

/-! ### Loading -/

section Load

variable (fl : Doubles D) (c : NocturneConfig D) (warnings : List Text) (n : Nat) {k : StringKey}
  (l : StringLine k)

/-- In the section of the key the loop takes the line, the last one of the file or any other, and
the key has the value from then on. -/
def ReadsBack : Prop := ∃ c' : NocturneConfig D, k.value c' = some l.s ∧
  (∀ after, loadLines fl ⟨c, k.sec, warnings⟩ n (readLines (l.bytes ++ 10 :: after)) =
    loadLines fl ⟨c', k.sec, warnings⟩ (n + 1) (readLines after)) ∧
  loadLines fl ⟨c, k.sec, warnings⟩ n (readLines l.bytes) = .ok ⟨c', k.sec, warnings⟩

theorem bytes_ne_newline : ∀ b ∈ l.bytes, b ≠ 10 := by
  intro b hb
  cases List.mem_append.mp hb with
  | inl hfront => exact (line_bytes l b hfront).2
  | inr hcomment =>
    unfold StringLine.commentBytes at hcomment
    cases h : l.comment with
    | none =>
      rw [h] at hcomment
      cases hcomment
    | some c =>
      obtain ⟨hmark, hbytes⟩ := l.comment_bytes c h
      rw [h] at hcomment
      cases List.mem_cons.mp hcomment with
      | inl heq =>
        rw [heq]
        obtain h | h := hmark <;> rw [h] <;> decide
      | inr hmem => exact hbytes b hmem

theorem readLines_line (after : Text) : readLines (l.bytes ++ 10 :: after) =
    readLine (l.bytes ++ [10]) :: readLines after := by
  unfold readLines
  rw [fgetsLines_line (bytes_ne_newline l) l.short]
  rfl

theorem readLines_last : readLines l.bytes = [readLine (l.bytes ++ [])] := by
  have hne : l.bytes ≠ [] := by
    unfold StringLine.bytes
    simp
  unfold readLines
  rw [fgetsLines_last (by simpa using hne) (bytes_ne_newline l) l.short, List.append_nil]
  rfl

/-- A comment behind a value that ends in a backslash stays in the value, so the value is malformed
or another one. -/
theorem not_readsBack (hcomment : l.comment ≠ none) (hslash : l.s.getLast? = some 92) :
    ¬ ReadsBack fl c warnings n l := by
  rintro ⟨c', hvalue, hlines, -⟩
  have hbad : ¬ (l.comment = none ∨ l.s.getLast? ≠ some 92) :=
    not_or.mpr ⟨hcomment, not_not.mpr hslash⟩
  obtain ⟨mark, more, hmark, hread⟩ := (readLine_line l [10] (Or.inl rfl)).2 hbad
  have hload := hlines []
  rw [readLines_line, hread] at hload
  unfold loadLines loadLine at hload
  simp only [if_neg k.sec_ne_nil] at hload
  have hkv := k.applyKv_eq fl c (34 :: (escapeValue l.s ++ 34 :: (l.spaces ++ mark :: more))) n rfl
  have hother := @parseString_more l.s l.spaces more mark hmark
  cases hparse : parseString (34 :: (escapeValue l.s ++ 34 :: (l.spaces ++ mark :: more))) with
  | none =>
    rw [hparse] at hkv
    obtain ⟨e, he⟩ := hkv
    rw [he] at hload
    cases hload
  | some s =>
    rw [hparse] at hkv hother
    obtain ⟨c'', hc, hs⟩ := hkv
    rw [hc] at hload
    have heq : c'' = c' := congrArg Loading.config (Except.ok.inj hload)
    rw [← heq, hs] at hvalue
    exact hother hvalue

/-- A value is read back exactly where no comment follows it or it does not end in a backslash. -/
theorem string_readBack_iff : ReadsBack fl c warnings n l ↔
    l.comment = none ∨ l.s.getLast? ≠ some 92 := by
  constructor
  · intro h
    by_contra hbad
    obtain ⟨hcomment, hslash⟩ := not_or.mp hbad
    exact not_readsBack fl c warnings n l hcomment (not_not.mp hslash) h
  · intro hgood
    have hkv := k.applyKv_eq fl c (34 :: escapeValue l.s ++ [34]) n rfl
    rw [parseString_quoted] at hkv
    obtain ⟨c', hc, hvalue⟩ := hkv
    have hload : loadLine fl ⟨c, k.sec, warnings⟩ n (.entry k.key (34 :: escapeValue l.s ++ [34])) =
        .ok ⟨c', k.sec, warnings⟩ := by
      unfold loadLine
      simp only [if_neg k.sec_ne_nil, hc, Option.toList_none, List.append_nil]
    refine ⟨c', hvalue, ?_, ?_⟩
    · intro after
      rw [readLines_line, (readLine_line l [10] (Or.inl rfl)).1 hgood, loadLines, hload]
    · rw [readLines_last, (readLine_line l [] (Or.inr rfl)).1 hgood, loadLines, hload]
      rfl

/-- The line `path = "a\\" # c`. -/
def slashLine : StringLine .libraryPath where
  s := ascii "a\\"
  spaces := ascii " "
  comment := some (35, ascii " c")
  s_bytes := by decide +kernel
  spaces_bytes := by decide +kernel
  comment_bytes := by decide +kernel
  short := by decide +kernel

theorem slash_not_readBack :
    ¬ ReadsBack AddedBucket.doubles (configDefault AddedBucket.doubles) [] 2 slashLine :=
  not_readsBack _ _ _ _ _ (by decide) (by decide)

end Load

end Nocturne
