import Mathlib.Data.List.Basic

/-!
# UTF-8

The characters of UTF-8 as byte strings: no overlong forms, no surrogates and nothing above
U+10FFFF. `isChar_iff` says that they are what `String.utf8EncodeChar` gives. The first byte of a
character has its length, so a text is cut into characters in one way; `valid_take_iff` says where
it may be cut off.
-/

namespace Lib.Utf8

/-- A continuation byte. -/
def IsTail (b : UInt8) : Prop := 0x80 ≤ b ∧ b ≤ 0xBF

instance (b : UInt8) : Decidable (IsTail b) := inferInstanceAs (Decidable (_ ∧ _))

/-- The bytes of one character. -/
inductive IsChar : List UInt8 → Prop where
  | one {a : UInt8} (high : a < 0x80) : IsChar [a]
  | two {a b : UInt8} (low : 0xC2 ≤ a) (high : a ≤ 0xDF) (hb : IsTail b) : IsChar [a, b]
  | three {a b c : UInt8} (low : 0xE0 ≤ a) (high : a ≤ 0xEF) (hb : IsTail b) (hc : IsTail c)
    (short : a = 0xE0 → 0xA0 ≤ b) (surrogate : a = 0xED → b ≤ 0x9F) : IsChar [a, b, c]
  | four {a b c d : UInt8} (low : 0xF0 ≤ a) (high : a ≤ 0xF4) (hb : IsTail b) (hc : IsTail c)
    (hd : IsTail d) (short : a = 0xF0 → 0x90 ≤ b) (range : a = 0xF4 → b ≤ 0x8F) :
    IsChar [a, b, c, d]

/-- A text: one character after the other. -/
inductive Valid : List UInt8 → Prop where
  | nil : Valid []
  | append {c t : List UInt8} (hc : IsChar c) (ht : Valid t) : Valid (c ++ t)

/-- The length of a character, by its first byte. -/
def width (a : UInt8) : Nat :=
  if a < 0x80 then 1 else if a < 0xE0 then 2 else if a < 0xF0 then 3 else 4

variable {a b : UInt8} {c c' s t t' : List UInt8} {n : Nat}

/-! ### Characters -/

/-- A property of bytes can be checked on all 256. -/
theorem forall_byte {P : UInt8 → Prop} (h : ∀ n : Fin 256, P (UInt8.ofNat n)) (b : UInt8) :
    P b := by
  simpa using h ⟨b.toNat, b.toNat_lt⟩

/-- The usual mask of a continuation byte. -/
theorem isTail_iff_mask : b &&& 0xC0 = 0x80 ↔ IsTail b :=
  forall_byte (P := fun b ↦ b &&& 0xC0 = 0x80 ↔ IsTail b) (by decide +kernel) b

theorem IsChar.ne_nil (h : IsChar c) : c ≠ [] := by
  cases h <;> exact List.cons_ne_nil _ _

/-- A character is a first byte and continuation bytes, as many as the first byte says. -/
theorem IsChar.shape (h : IsChar (a :: s)) :
    ¬ IsTail a ∧ s.length + 1 = width a ∧ ∀ b ∈ s, IsTail b := by
  simp only [IsTail, width, UInt8.lt_iff_toNat_lt, UInt8.le_iff_toNat_le, UInt8.reduceToNat]
  cases h with
  | one high =>
    have high : _ < 0x80 := UInt8.lt_iff_toNat_lt.mp high
    refine ⟨by omega, (if_pos high).symm, by simp⟩
  | two low high hb =>
    simp only [IsTail, UInt8.le_iff_toNat_le, UInt8.reduceToNat] at low high hb
    refine ⟨by omega, ?_, by simpa using hb⟩
    rw [if_neg (by omega), if_pos (by omega)]
    rfl
  | three low high hb hc =>
    simp only [IsTail, UInt8.le_iff_toNat_le, UInt8.reduceToNat] at low high hb hc
    refine ⟨by omega, ?_, by simpa using ⟨hb, hc⟩⟩
    rw [if_neg (by omega), if_neg (by omega), if_pos (by omega)]
    rfl
  | four low high hb hc hd =>
    simp only [IsTail, UInt8.le_iff_toNat_le, UInt8.reduceToNat] at low high hb hc hd
    refine ⟨by omega, ?_, by simpa using ⟨hb, hc, hd⟩⟩
    rw [if_neg (by omega), if_neg (by omega), if_neg (by omega)]
    rfl

/-- Two characters that begin one text are the same. -/
theorem IsChar.append_inj (h : IsChar c) (h' : IsChar c') (heq : c ++ t = c' ++ t') :
    c = c' ∧ t = t' := by
  cases c with
  | nil => exact absurd rfl h.ne_nil
  | cons a s =>
    cases c' with
    | nil => exact absurd rfl h'.ne_nil
    | cons a' s' =>
      obtain ⟨rfl, -⟩ := List.cons.inj heq
      apply List.append_inj heq
      have hlen := h.shape.2.1
      have hlen' := h'.shape.2.1
      simp only [List.length_cons]
      omega

/-- The encoding of a character is one. -/
theorem isChar_utf8EncodeChar (ch : Char) : IsChar (String.utf8EncodeChar ch) := by
  have hvalid : ch.val.toNat < 0xD800 ∨ 0xDFFF < ch.val.toNat ∧ ch.val.toNat < 0x110000 := ch.valid
  unfold String.utf8EncodeChar
  generalize ch.val.toNat = v at hvalid
  dsimp only
  split
  · constructor
    simp only [UInt8.lt_iff_toNat_lt, UInt8.toNat_ofNat', UInt8.reduceToNat]
    omega
  · split
    · constructor <;>
        simp only [IsTail, UInt8.le_iff_toNat_le, UInt8.toNat_ofNat', UInt8.reduceToNat] <;> omega
    · split
      · constructor <;>
          simp only [IsTail, UInt8.le_iff_toNat_le, ← UInt8.toNat_inj, UInt8.toNat_ofNat',
            UInt8.reduceToNat] <;> omega
      · constructor <;>
          simp only [IsTail, UInt8.le_iff_toNat_le, ← UInt8.toNat_inj, UInt8.toNat_ofNat',
            UInt8.reduceToNat] <;> omega

/-- The character with a number. -/
theorem exists_char {v : Nat} (h : v < 0xD800 ∨ 0xDFFF < v ∧ v < 0x110000) :
    ∃ ch : Char, ch.val.toNat = v := by
  have hval : (UInt32.ofNat v).toNat = v := by
    rw [UInt32.toNat_ofNat']
    omega
  exact ⟨⟨UInt32.ofNat v, by rw [UInt32.isValidChar, hval]; exact h⟩, hval⟩

/-- The characters are the encodings of characters. -/
theorem isChar_iff : IsChar c ↔ ∃ ch : Char, c = String.utf8EncodeChar ch := by
  constructor
  · intro h
    cases h with
    | @one a high =>
      have hlt : a.toNat < 0x80 := UInt8.lt_iff_toNat_lt.mp high
      obtain ⟨ch, hch⟩ := @exists_char a.toNat (by omega)
      refine ⟨ch, ?_⟩
      unfold String.utf8EncodeChar
      rw [hch]
      simp only [if_pos (show a.toNat ≤ 0x7F by omega), UInt8.ofNat_toNat]
    | @two a b low high hb =>
      simp only [IsTail, UInt8.le_iff_toNat_le, UInt8.reduceToNat] at low high hb
      obtain ⟨ch, hch⟩ := @exists_char ((a.toNat - 0xC0) * 64 + (b.toNat - 0x80)) (by omega)
      refine ⟨ch, ?_⟩
      unfold String.utf8EncodeChar
      rw [hch]
      dsimp only
      rw [if_neg (by omega), if_pos (by omega)]
      simp only [List.cons.injEq, ← UInt8.toNat_inj, UInt8.toNat_ofNat', and_true]
      omega
    | @three a b c low high hb hc short surrogate =>
      simp only [IsTail, UInt8.le_iff_toNat_le, ← UInt8.toNat_inj, UInt8.reduceToNat]
        at low high hb hc short surrogate
      obtain ⟨ch, hch⟩ := @exists_char
        ((a.toNat - 0xE0) * 4096 + (b.toNat - 0x80) * 64 + (c.toNat - 0x80)) (by omega)
      refine ⟨ch, ?_⟩
      unfold String.utf8EncodeChar
      rw [hch]
      dsimp only
      rw [if_neg (by omega), if_neg (by omega), if_pos (by omega)]
      simp only [List.cons.injEq, ← UInt8.toNat_inj, UInt8.toNat_ofNat', and_true]
      omega
    | @four a b c d low high hb hc hd short range =>
      simp only [IsTail, UInt8.le_iff_toNat_le, ← UInt8.toNat_inj, UInt8.reduceToNat]
        at low high hb hc hd short range
      obtain ⟨ch, hch⟩ := @exists_char ((a.toNat - 0xF0) * 262144 + (b.toNat - 0x80) * 4096 +
        (c.toNat - 0x80) * 64 + (d.toNat - 0x80)) (by omega)
      refine ⟨ch, ?_⟩
      unfold String.utf8EncodeChar
      rw [hch]
      dsimp only
      rw [if_neg (by omega), if_neg (by omega), if_neg (by omega)]
      simp only [List.cons.injEq, ← UInt8.toNat_inj, UInt8.toNat_ofNat', and_true]
      omega
  · rintro ⟨ch, rfl⟩
    exact isChar_utf8EncodeChar ch

/-! ### Texts -/

/-- A text is a list of characters. -/
theorem valid_iff_chars : Valid t ↔ ∃ cs : List Char, t = cs.flatMap String.utf8EncodeChar := by
  constructor
  · intro h
    induction h with
    | nil => exact ⟨[], rfl⟩
    | append hc _ ih =>
      obtain ⟨ch, rfl⟩ := isChar_iff.mp hc
      obtain ⟨cs, rfl⟩ := ih
      exact ⟨ch :: cs, rfl⟩
  · rintro ⟨cs, rfl⟩
    induction cs with
    | nil => exact .nil
    | cons ch cs ih =>
      rw [List.flatMap_cons]
      exact .append (isChar_utf8EncodeChar ch) ih

/-- A text that is not empty begins with a character. -/
theorem Valid.exists_char (h : Valid (a :: t)) :
    ∃ s t', IsChar (a :: s) ∧ t = s ++ t' ∧ Valid t' := by
  generalize heq : a :: t = u at h
  cases h with
  | nil => cases heq
  | @append c t' hc ht' =>
    obtain ⟨b, s, rfl⟩ := List.exists_cons_of_ne_nil hc.ne_nil
    rw [List.cons_append, List.cons.injEq] at heq
    obtain ⟨rfl, rfl⟩ := heq
    exact ⟨s, t', hc, rfl, ht'⟩

/-- Behind a character there is a text exactly where there is one with it. -/
theorem valid_append_iff (hc : IsChar c) : Valid (c ++ t) ↔ Valid t := by
  constructor
  · intro h
    generalize heq : c ++ t = u at h
    cases h with
    | nil => exact absurd (List.append_eq_nil_iff.mp heq).1 hc.ne_nil
    | append hc' ht => exact (hc.append_inj hc' heq).2 ▸ ht
  · exact .append hc

/-- A character that is cut off is no text. -/
theorem not_valid_take (hc : IsChar c) (hpos : 0 < n) (hn : n < c.length) : ¬ Valid (c.take n) := by
  intro h
  generalize hu : c.take n = u at h
  cases h with
  | nil =>
    have hlen := congrArg List.length hu
    rw [List.length_take, List.length_nil] at hlen
    omega
  | @append c' t hc' ht =>
    have heq : c ++ [] = c' ++ (t ++ c.drop n) := by
      rw [← List.append_assoc, ← hu, List.take_append_drop, List.append_nil]
    have hlen := congrArg List.length hu
    rw [List.length_take, List.length_append, ← (hc.append_inj hc' heq).1] at hlen
    omega

/-- A text may be cut off before every byte that is no continuation byte. -/
theorem valid_take_iff (h : Valid t) (n : Nat) :
    Valid (t.take n) ↔ ∀ b, t[n]? = some b → ¬ IsTail b := by
  induction h generalizing n with
  | nil => simp [Valid.nil]
  | @append c t hc ht ih =>
    rcases Nat.lt_or_ge n c.length with hn | hn
    · rw [List.take_append_of_le_length (Nat.le_of_lt hn), List.getElem?_append_left hn]
      cases c with
      | nil => exact absurd rfl hc.ne_nil
      | cons a s =>
        obtain ⟨ha, -, hs⟩ := hc.shape
        cases n with
        | zero => simp [Valid.nil, ha]
        | succ n =>
          rw [List.getElem?_cons_succ]
          constructor
          · exact fun hv ↦ absurd hv (not_valid_take hc n.succ_pos hn)
          · intro hb
            have hlt : n < s.length := Nat.lt_of_succ_lt_succ hn
            exact absurd (hs _ (List.getElem_mem hlt)) (hb _ (List.getElem?_eq_getElem hlt))
    · obtain ⟨m, rfl⟩ := Nat.exists_eq_add_of_le hn
      rw [List.take_length_add_append, valid_append_iff hc, List.getElem?_append_right hn,
        Nat.add_sub_cancel_left]
      exact ih m

end Lib.Utf8
