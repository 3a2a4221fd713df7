import Nocturne.Lib.JsonString
import Nocturne.Base

/-!
# The strings of the report

`json_escape` writes paths and tag values, which are arbitrary bytes. It puts U+FFFD where the lead
byte or a continuation byte is wrong, but a sequence whose bytes have the right form goes through
also when it is overlong, a surrogate or beyond U+10FFFF. `jsonEscape_wellFormed_iff` says that the
strings are well formed exactly where none of those is in the text.
-/

namespace Nocturne

open Lib Lib.Utf8

namespace Tagcheck

/-- The short escapes of `json_escape`, `report.c:184–190`. -/
def jsonEscapeShorts : JsonString.Shorts where
  table := [(34, 34), (92, 92), (10, 110), (13, 114), (9, 116), (8, 98), (12, 102)]
  known := by simp [JsonString.shortValue, List.lookup_cons]
  quote := rfl
  backslash := rfl

/-- The continuation bytes that a lead byte announces, `report.c:203–206`. -/
def extra (c : UInt8) : Option Nat :=
  if c &&& 0xE0 = 0xC0 then some 1
  else if c &&& 0xF0 = 0xE0 then some 2
  else if c &&& 0xF8 = 0xF0 then some 3
  else none

/-- The six characters of an escaped U+FFFD. -/
def replacement : Text := [92, 117, 102, 102, 102, 100]

/-- One turn of the loop of `json_escape`: what is written for the byte `c`, and how many of the
bytes behind it are passed. Behind the text stands its NUL. -/
def jsonEscapeTurn (c : UInt8) (rest : Text) : Text × Nat :=
  if c < 0x80 then (JsonString.escapeByte jsonEscapeShorts c, 0)
  else
    match extra c with
    | none => (replacement, 0)
    | some n =>
      if (List.range n).all fun i ↦ rest[i]?.getD 0 &&& 0xC0 == 0x80 then (c :: rest.take n, n)
      else (replacement, 0)

/-- `json_escape`, `report.c:178–227`. -/
def jsonEscape : Text → Text
  | [] => []
  | c :: rest =>
    (jsonEscapeTurn c rest).1 ++ jsonEscape (rest.drop (jsonEscapeTurn c rest).2)
termination_by s => s.length
decreasing_by
  simp only [List.length_drop, List.length_cons]
  omega

/-! ### Sequences -/

/-- A sequence with a lead byte and its continuation bytes that is no character: overlong, a
surrogate, or beyond U+10FFFF. -/
inductive IllFormed : Text → Prop where
  | two {a b : UInt8} (ha : a = 0xC0 ∨ a = 0xC1) (hb : IsTail b) : IllFormed [a, b]
  | three {a b c : UInt8} (ha : a = 0xE0 ∧ b < 0xA0 ∨ a = 0xED ∧ 0x9F < b) (hb : IsTail b)
    (hc : IsTail c) : IllFormed [a, b, c]
  | four {a b c d : UInt8}
    (ha : a = 0xF0 ∧ b < 0x90 ∨ a = 0xF4 ∧ 0x8F < b ∨ 0xF5 ≤ a ∧ a ≤ 0xF7) (hb : IsTail b)
    (hc : IsTail c) (hd : IsTail d) : IllFormed [a, b, c, d]

/-- A lead byte up to 0xF7 and as many continuation bytes as it announces. -/
structure LeadAndTails (a : UInt8) (s : Text) : Prop where
  lead : ¬ IsTail a
  high : 0x80 ≤ a
  low : a ≤ 0xF7
  length : s.length + 1 = width a
  tails : ∀ b ∈ s, IsTail b

variable {a c : UInt8} {s rest seq : Text}

theorem IllFormed.leadAndTails (h : IllFormed (a :: s)) : LeadAndTails a s := by
  cases h with
  | two ha hb =>
    obtain rfl | rfl := ha
    · exact ⟨by decide, by decide, by decide, rfl, by simpa using hb⟩
    · exact ⟨by decide, by decide, by decide, rfl, by simpa using hb⟩
  | three ha hb hc =>
    obtain ⟨rfl, -⟩ | ⟨rfl, -⟩ := ha
    · exact ⟨by decide, by decide, by decide, rfl, by simpa using ⟨hb, hc⟩⟩
    · exact ⟨by decide, by decide, by decide, rfl, by simpa using ⟨hb, hc⟩⟩
  | four ha hb hc hd =>
    have hrange : 0xF0 ≤ a ∧ a ≤ 0xF7 := by
      simp only [UInt8.le_iff_toNat_le, ← UInt8.toNat_inj, UInt8.reduceToNat] at ha ⊢
      omega
    have hwidth : width a = 4 := by
      unfold width
      simp only [UInt8.lt_iff_toNat_lt, UInt8.le_iff_toNat_le, UInt8.reduceToNat] at hrange ⊢
      rw [if_neg (by omega), if_neg (by omega), if_neg (by omega)]
    refine ⟨?_, ?_, hrange.2, hwidth.symm, by simpa using ⟨hb, hc, hd⟩⟩
    · simp only [IsTail, UInt8.le_iff_toNat_le, UInt8.reduceToNat] at hrange ⊢
      omega
    · exact UInt8.le_trans (by decide) hrange.1

theorem leadAndTails_of_isChar (h : IsChar (a :: s)) (hhigh : 0x80 ≤ a) : LeadAndTails a s := by
  obtain ⟨hlead, hlength, htails⟩ := h.shape
  refine ⟨hlead, hhigh, ?_, hlength, htails⟩
  cases h with
  | one hlow => exact UInt8.le_trans (UInt8.le_of_lt hlow) (by decide)
  | two _ hle _ => exact UInt8.le_trans hle (by decide)
  | three _ hle _ _ _ _ => exact UInt8.le_trans hle (by decide)
  | four _ hle _ _ _ _ _ => exact UInt8.le_trans hle (by decide)

/-- Such a sequence is a character, or ill formed. -/
theorem LeadAndTails.isChar_or_illFormed (h : LeadAndTails a s) :
    IsChar (a :: s) ∨ IllFormed (a :: s) := by
  obtain ⟨hlead, hhigh, hlow, hlength, htails⟩ := h
  unfold width at hlength
  simp only [IsTail, UInt8.lt_iff_toNat_lt, UInt8.le_iff_toNat_le, UInt8.reduceToNat]
    at hlead hhigh hlow hlength
  rw [if_neg (by omega)] at hlength
  split at hlength
  · next htwo =>
    obtain ⟨b, rfl⟩ := List.length_eq_one_iff.mp (Nat.succ.inj hlength)
    have hb := htails b List.mem_cons_self
    by_cases hover : a.toNat < 0xC2
    · right
      apply IllFormed.two _ hb
      simp only [← UInt8.toNat_inj, UInt8.reduceToNat]
      omega
    · left
      apply IsChar.two _ _ hb <;>
        simp only [UInt8.le_iff_toNat_le, UInt8.reduceToNat] <;> omega
  · split at hlength
    · next htwo hthree =>
      obtain ⟨b, c, rfl⟩ := List.length_eq_two.mp (Nat.succ.inj hlength)
      have hb := htails b List.mem_cons_self
      have hc := htails c (by simp)
      by_cases hbad : a = 0xE0 ∧ b < 0xA0 ∨ a = 0xED ∧ 0x9F < b
      · exact Or.inr (.three hbad hb hc)
      · left
        obtain ⟨hshort, hsurrogate⟩ := not_or.mp hbad
        refine .three ?_ ?_ hb hc ?_ ?_
        · simp only [UInt8.le_iff_toNat_le, UInt8.reduceToNat]
          omega
        · simp only [UInt8.le_iff_toNat_le, UInt8.reduceToNat]
          omega
        · exact fun ha ↦ UInt8.not_lt.mp fun hb ↦ hshort ⟨ha, hb⟩
        · exact fun ha ↦ UInt8.not_lt.mp fun hb ↦ hsurrogate ⟨ha, hb⟩
    · next htwo hthree =>
      obtain ⟨b, c, d, rfl⟩ := List.length_eq_three.mp (Nat.succ.inj hlength)
      have hb := htails b List.mem_cons_self
      have hc := htails c (by simp)
      have hd := htails d (by simp)
      by_cases hbad : a = 0xF0 ∧ b < 0x90 ∨ a = 0xF4 ∧ 0x8F < b ∨ 0xF5 ≤ a ∧ a ≤ 0xF7
      · exact Or.inr (.four hbad hb hc hd)
      · left
        obtain ⟨hshort, hbad⟩ := not_or.mp hbad
        obtain ⟨hrange, hbeyond⟩ := not_or.mp hbad
        refine .four ?_ ?_ hb hc hd ?_ ?_
        · simp only [UInt8.le_iff_toNat_le, UInt8.reduceToNat]
          omega
        · simp only [UInt8.le_iff_toNat_le, UInt8.reduceToNat] at hbeyond ⊢
          omega
        · exact fun ha ↦ UInt8.not_lt.mp fun hb ↦ hshort ⟨ha, hb⟩
        · exact fun ha ↦ UInt8.not_lt.mp fun hb ↦ hrange ⟨ha, hb⟩

theorem IllFormed.not_isChar (h : IllFormed seq) : ¬ IsChar seq := by
  intro hchar
  cases h with
  | two ha hb =>
    cases hchar with
    | two low _ _ => obtain rfl | rfl := ha <;> exact absurd low (by decide)
  | three ha hb hc =>
    cases hchar with
    | three _ _ _ _ short surrogate =>
      obtain ⟨ha, hlt⟩ | ⟨ha, hlt⟩ := ha
      · exact UInt8.not_lt.mpr (short ha) hlt
      · exact UInt8.not_lt.mpr (surrogate ha) hlt
  | four ha hb hc hd =>
    cases hchar with
    | four _ high _ _ _ short range =>
      obtain ⟨ha, hlt⟩ | ⟨ha, hlt⟩ | ⟨hlow, -⟩ := ha
      · exact UInt8.not_lt.mpr (short ha) hlt
      · exact UInt8.not_lt.mpr (range ha) hlt
      · exact absurd (UInt8.le_trans hlow high) (by decide)

/-- A text does not begin with an ill-formed sequence. -/
theorem IllFormed.not_valid {t : Text} (h : IllFormed (a :: s)) : ¬ Valid (a :: s ++ t) := by
  intro hvalid
  obtain ⟨s', t', hchar, heq, -⟩ := Valid.exists_char hvalid
  have hform := h.leadAndTails
  have hform' := leadAndTails_of_isChar hchar hform.high
  have hlength : s.length = s'.length := by
    have := hform.length
    have := hform'.length
    omega
  rw [(List.append_inj heq hlength).1] at h
  exact h.not_isChar hchar

/-! ### Turns -/

theorem extra_eq (h : 0x80 ≤ c) :
    extra c = if IsTail c ∨ 0xF7 < c then none else some (width c - 1) := by
  revert h
  exact forall_byte (P := fun c ↦ 0x80 ≤ c → extra c =
    if IsTail c ∨ 0xF7 < c then none else some (width c - 1)) (by decide +kernel) c

theorem tails_iff (rest : Text) (n : Nat) :
    ((List.range n).all fun i ↦ rest[i]?.getD 0 &&& 0xC0 == 0x80) = true ↔
      n ≤ rest.length ∧ ∀ b ∈ rest.take n, IsTail b := by
  simp only [List.all_eq_true, List.mem_range, beq_iff_eq, isTail_iff_mask]
  constructor
  · intro h
    have hn : n ≤ rest.length := by
      by_contra hlt
      have hnul := h rest.length (by omega)
      rw [List.getElem?_eq_none (Nat.le_refl _)] at hnul
      exact absurd hnul (by decide)
    refine ⟨hn, ?_⟩
    intro b hb
    obtain ⟨i, hi, rfl⟩ := List.mem_iff_getElem.mp hb
    rw [List.length_take] at hi
    have htail := h i (by omega)
    rw [List.getElem?_eq_getElem (by omega), Option.getD_some] at htail
    rwa [List.getElem_take]
  · rintro ⟨hn, h⟩ i hi
    have hlt : i < rest.length := by omega
    rw [List.getElem?_eq_getElem hlt, Option.getD_some]
    have htake : i < (rest.take n).length := by
      rw [List.length_take]
      omega
    exact h _ (List.mem_iff_getElem.mpr ⟨i, htake, List.getElem_take⟩)

/-- A turn escapes an ASCII byte, or passes a whole sequence, or replaces a byte that begins none.
-/
theorem jsonEscapeTurn_cases (c : UInt8) (rest : Text) :
    (c < 0x80 ∧ jsonEscapeTurn c rest = (JsonString.escapeByte jsonEscapeShorts c, 0)) ∨
      (∃ s, s <+: rest ∧ LeadAndTails c s ∧ jsonEscapeTurn c rest = (c :: s, s.length)) ∨
      0x80 ≤ c ∧ jsonEscapeTurn c rest = (replacement, 0) ∧
        ∀ s, s <+: rest → ¬ LeadAndTails c s := by
  unfold jsonEscapeTurn
  by_cases hascii : c < 0x80
  · exact Or.inl ⟨hascii, if_pos hascii⟩
  · right
    have hhigh : 0x80 ≤ c := UInt8.not_lt.mp hascii
    rw [if_neg hascii, extra_eq hhigh]
    by_cases hlead : IsTail c ∨ 0xF7 < c
    · right
      refine ⟨hhigh, by rw [if_pos hlead], ?_⟩
      intro s _ hs
      exact hlead.elim hs.lead (UInt8.not_lt.mpr hs.low)
    · rw [if_neg hlead]
      obtain ⟨htail, hlow⟩ := not_or.mp hlead
      have hwidth : 2 ≤ width c := by
        unfold width
        rw [if_neg hascii]
        split
        · exact Nat.le_refl 2
        · split <;> omega
      by_cases hall : width c - 1 ≤ rest.length ∧ ∀ b ∈ rest.take (width c - 1), IsTail b
      · left
        have hlength : (rest.take (width c - 1)).length = width c - 1 := by
          rw [List.length_take]
          omega
        refine ⟨rest.take (width c - 1), List.take_prefix _ _,
          ⟨htail, hhigh, UInt8.not_lt.mp hlow, by omega, hall.2⟩, ?_⟩
        simp only [(tails_iff rest _).mpr hall, if_true, hlength]
      · right
        refine ⟨hhigh, ?_, ?_⟩
        · simp only [mt (tails_iff rest _).mp hall, if_false, Bool.false_eq_true]
        · intro s hs hform
          have hlength := hform.length
          have htake : rest.take (width c - 1) = s := by
            rw [← hlength, Nat.add_sub_cancel]
            exact (List.prefix_iff_eq_take.mp hs).symm
          apply hall
          rw [htake]
          refine ⟨?_, hform.tails⟩
          have := hs.length_le
          omega

/-! ### Strings -/

theorem valid_ascii_append {p t : Text} (h : ∀ b ∈ p, b < 0x80) : Valid (p ++ t) ↔ Valid t := by
  induction p with
  | nil => rfl
  | cons b p ih =>
    obtain ⟨hb, hp⟩ := List.forall_mem_cons.mp h
    rw [List.cons_append, ← List.singleton_append, valid_append_iff (.one hb), ih hp]

theorem escapeByte_ascii (h : c < 0x80) :
    ∀ b ∈ JsonString.escapeByte jsonEscapeShorts c, b < 0x80 := by
  have hall : ∀ n : Fin 128, (JsonString.escapeByte jsonEscapeShorts (UInt8.ofNat n)).all
      (fun b ↦ decide (b < 0x80)) = true := by decide +kernel
  simpa using hall ⟨c.toNat, UInt8.lt_iff_toNat_lt.mp h⟩

theorem encodes_replacement : JsonString.Encodes replacement (JsonString.codePoint 0xFFFD) :=
  JsonString.encodes_unit (by decide) (by omega)

/-- The bytes of a sequence are no ASCII, so they stand for themselves. -/
theorem LeadAndTails.encodes (h : LeadAndTails a s) {b : UInt8} (hb : b ∈ a :: s) :
    JsonString.Encodes [b] [b] := by
  have hhigh : 0x80 ≤ b := by
    cases List.mem_cons.mp hb with
    | inl heq => exact heq ▸ h.high
    | inr hmem => exact (h.tails b hmem).1
  apply JsonString.encodes_plain
  · exact UInt8.le_trans (by decide) hhigh
  · rintro rfl
    exact absurd hhigh (by decide)
  · rintro rfl
    exact absurd hhigh (by decide)

/-- What is written is made of pieces. Those of a UTF-8 text stand for the text. -/
theorem jsonEscape_pieces (s : Text) : ∃ pieces : List (Text × Text),
    (∀ piece ∈ pieces, JsonString.Encodes piece.1 piece.2) ∧
      jsonEscape s = pieces.flatMap Prod.fst ∧ (Valid s → pieces.flatMap Prod.snd = s) := by
  induction s using jsonEscape.induct with
  | case1 => exact ⟨[], by simp, by simp [jsonEscape], fun _ ↦ rfl⟩
  | case2 c rest ih =>
    obtain ⟨pieces, hpieces, hout, hvalue⟩ := ih
    rw [jsonEscape]
    obtain ⟨hascii, hturn⟩ | ⟨seq, hseq, hform, hturn⟩ | ⟨hhigh, hturn, hnone⟩ :=
      jsonEscapeTurn_cases c rest
    · rw [hturn] at hout hvalue ⊢
      refine ⟨(JsonString.escapeByte jsonEscapeShorts c, [c]) :: pieces,
        List.forall_mem_cons.mpr ⟨JsonString.encodes_escapeByte _ c, hpieces⟩, ?_, ?_⟩
      · rw [hout, List.flatMap_cons]
      · intro hvalid
        rw [← List.singleton_append, valid_append_iff (.one hascii)] at hvalid
        rw [List.flatMap_cons, hvalue hvalid]
        rfl
    · obtain ⟨after, rfl⟩ := hseq
      rw [hturn, List.drop_left] at hout hvalue
      rw [hturn, List.drop_left]
      refine ⟨(c :: seq).map (fun b ↦ ([b], [b])) ++ pieces, ?_, ?_, ?_⟩
      · intro piece hpiece
        cases List.mem_append.mp hpiece with
        | inl hmem =>
          obtain ⟨b, hb, rfl⟩ := List.mem_map.mp hmem
          exact hform.encodes hb
        | inr hmem => exact hpieces piece hmem
      · rw [hout, List.flatMap_append, List.flatMap_map]
        simp
      · intro hvalid
        have hchar : IsChar (c :: seq) :=
          hform.isChar_or_illFormed.resolve_right fun hill ↦ hill.not_valid hvalid
        rw [← List.cons_append, valid_append_iff hchar] at hvalid
        rw [List.flatMap_append, hvalue hvalid, List.flatMap_map]
        simp
    · rw [hturn] at hout hvalue ⊢
      refine ⟨(replacement, JsonString.codePoint 0xFFFD) :: pieces,
        List.forall_mem_cons.mpr ⟨encodes_replacement, hpieces⟩, ?_, ?_⟩
      · rw [hout, List.flatMap_cons]
      · intro hvalid
        obtain ⟨s', t, hchar, rfl, -⟩ := hvalid.exists_char
        exact absurd (leadAndTails_of_isChar hchar hhigh) (hnone s' (List.prefix_append s' t))

/-- A first byte that begins no ill-formed sequence does not matter for the others. -/
theorem forall_infix_cons (h : ∀ seq, seq <+: c :: rest → ¬ IllFormed seq) :
    (∀ seq, seq <:+: c :: rest → ¬ IllFormed seq) ↔ ∀ seq, seq <:+: rest → ¬ IllFormed seq := by
  constructor
  · exact fun hall seq hseq ↦ hall seq (List.infix_cons hseq)
  · intro hall seq hseq
    cases List.infix_cons_iff.mp hseq with
    | inl hprefix => exact h seq hprefix
    | inr hinfix => exact hall seq hinfix

/-- An ill-formed sequence at the front has the lead byte and its continuation bytes. -/
theorem illFormed_prefix (h : IllFormed seq) (hseq : seq <+: c :: rest) :
    ∃ s, seq = c :: s ∧ s <+: rest ∧ LeadAndTails c s := by
  cases seq with
  | nil => cases h
  | cons a s =>
    obtain ⟨rfl, hs⟩ := List.cons_prefix_cons.mp hseq
    exact ⟨s, rfl, hs, h.leadAndTails⟩

theorem forall_infix_tails {tails : Text} (h : ∀ b ∈ tails, IsTail b) :
    (∀ seq, seq <:+: tails ++ rest → ¬ IllFormed seq) ↔
      ∀ seq, seq <:+: rest → ¬ IllFormed seq := by
  induction tails with
  | nil => rfl
  | cons b tails ih =>
    obtain ⟨hb, htails⟩ := List.forall_mem_cons.mp h
    rw [List.cons_append, forall_infix_cons, ih htails]
    intro seq hseq hill
    obtain ⟨s, -, -, hform⟩ := illFormed_prefix hill hseq
    exact hform.lead hb

/-- What is written is UTF-8 exactly when the text has no ill-formed sequence: each turn comes to
the next lead byte. -/
theorem valid_jsonEscape_iff (s : Text) :
    Valid (jsonEscape s) ↔ ∀ seq, seq <:+: s → ¬ IllFormed seq := by
  induction s using jsonEscape.induct with
  | case1 =>
    rw [jsonEscape]
    refine iff_of_true Valid.nil ?_
    intro seq hseq hill
    rw [List.infix_nil.mp hseq] at hill
    cases hill
  | case2 c rest ih =>
    rw [jsonEscape]
    obtain ⟨hascii, hturn⟩ | ⟨seq, hseq, hform, hturn⟩ | ⟨hhigh, hturn, hnone⟩ :=
      jsonEscapeTurn_cases c rest
    · rw [hturn] at ih ⊢
      rw [valid_ascii_append (escapeByte_ascii hascii), ih, List.drop_zero, forall_infix_cons]
      intro seq hseq hill
      obtain ⟨s, -, -, hform⟩ := illFormed_prefix hill hseq
      exact UInt8.not_lt.mpr hform.high hascii
    · obtain ⟨after, rfl⟩ := hseq
      rw [hturn, List.drop_left] at ih
      rw [hturn, List.drop_left]
      cases hform.isChar_or_illFormed with
      | inl hchar =>
        rw [valid_append_iff hchar, ih, forall_infix_cons, forall_infix_tails hform.tails]
        intro seq' hseq' hill
        obtain ⟨s', rfl, hs', hform'⟩ := illFormed_prefix hill hseq'
        have hlength : s'.length = seq.length := by
          have := hform.length
          have := hform'.length
          omega
        have heq : s' = seq := by
          rw [List.prefix_iff_eq_take.mp hs', hlength, List.take_left]
        exact hill.not_isChar (heq ▸ hchar)
      | inr hill =>
        refine iff_of_false hill.not_valid ?_
        intro hall
        exact hall (c :: seq) (List.prefix_append (c :: seq) after).isInfix hill
    · rw [hturn] at ih ⊢
      rw [valid_ascii_append (by decide +kernel), ih, List.drop_zero, forall_infix_cons]
      intro seq hseq hill
      obtain ⟨s, -, hs, hform⟩ := illFormed_prefix hill hseq
      exact hnone s hs hform

/-- The body of a JSON string for `s`: UTF-8 that is read up to the closing quote, and as `s` where
`s` is UTF-8 itself. -/
structure WellFormedString (s body : Text) : Prop where
  utf8 : Valid body
  reads : ∃ v, (∀ after, JsonString.read (body ++ 34 :: after) = some (v, after)) ∧
    (Valid s → v = s)

/-- The strings of the report are well formed exactly where the text has no overlong sequence, no
surrogate and nothing beyond U+10FFFF. -/
theorem jsonEscape_wellFormed_iff (s : Text) :
    WellFormedString s (jsonEscape s) ↔ ∀ seq, seq <:+: s → ¬ IllFormed seq := by
  rw [← valid_jsonEscape_iff]
  constructor
  · exact WellFormedString.utf8
  · intro hvalid
    obtain ⟨pieces, hpieces, hout, hvalue⟩ := jsonEscape_pieces s
    refine ⟨hvalid, pieces.flatMap Prod.snd, ?_, hvalue⟩
    intro after
    rw [hout]
    exact JsonString.read_pieces hpieces

/-- A slash in two bytes goes into the report as it is. -/
theorem overlong_passed : ¬ WellFormedString [0xC0, 0xAF] (jsonEscape [0xC0, 0xAF]) := by
  intro h
  have hslash : IllFormed [0xC0, 0xAF] := .two (Or.inl rfl) (by decide)
  exact (valid_jsonEscape_iff _).mp h.utf8 _ (List.infix_refl _) hslash

end Tagcheck

end Nocturne
