import Nocturne.Lib.Utf8

/-!
# JSON strings

`read` reads a JSON string behind its opening quote: plain bytes, short escapes, `\u` escapes and
surrogate pairs of them. `escapeByte` is the usual escaper, with the short escapes that it knows as
a parameter; `read_escape` says that a reader gets back what was escaped.
-/

namespace Lib.JsonString

/-! ### Readers -/

/-- The value of a hexadecimal digit. -/
def hexValue (c : UInt8) : Option Nat :=
  if 48 ≤ c ∧ c ≤ 57 then some (c.toNat - 48)
  else if 97 ≤ c ∧ c ≤ 102 then some (c.toNat - 87)
  else if 65 ≤ c ∧ c ≤ 70 then some (c.toNat - 55)
  else none

/-- The four digits of a `\u` escape, and what is behind them. -/
def readUnit : List UInt8 → Option (Nat × List UInt8)
  | a :: b :: c :: d :: rest => do
    let a ← hexValue a
    let b ← hexValue b
    let c ← hexValue c
    let d ← hexValue d
    some (((a * 16 + b) * 16 + c) * 16 + d, rest)
  | _ => none

/-- What the letter of a short escape stands for. -/
def shortValue (e : UInt8) : Option UInt8 :=
  [(34, 34), (92, 92), (47, 47), (98, 8), (102, 12), (110, 10), (114, 13), (116, 9)].lookup e

/-- The bytes of a code point. -/
def codePoint (n : Nat) : List UInt8 := String.utf8EncodeChar (Char.ofNat n)

/-- The second half of a surrogate pair. -/
def readLow (high : Nat) : List UInt8 → Option (List UInt8 × List UInt8)
  | a :: b :: rest =>
    if a = 92 ∧ b = 117 then do
      let (low, rest) ← readUnit rest
      if 0xDC00 ≤ low ∧ low < 0xE000 then
        some (codePoint (0x10000 + (high - 0xD800) * 0x400 + (low - 0xDC00)), rest)
      else none
    else none
  | _ => none

/-- What stands behind `\u`. Half of a surrogate pair is no character. -/
def readUnicode (body : List UInt8) : Option (List UInt8 × List UInt8) := do
  let (n, rest) ← readUnit body
  if 0xD800 ≤ n ∧ n < 0xDC00 then readLow n rest
  else if 0xDC00 ≤ n ∧ n < 0xE000 then none
  else some (codePoint n, rest)

/-- The first byte or escape of a body. Control characters and the quote have to be escaped. -/
def readPiece : List UInt8 → Option (List UInt8 × List UInt8)
  | [] => none
  | c :: rest =>
    if c = 92 then
      match rest with
      | [] => none
      | e :: rest =>
        if e = 117 then readUnicode rest else (shortValue e).map fun v ↦ ([v], rest)
    else if c < 0x20 ∨ c = 34 then none
    else some ([c], rest)

/-- Pieces up to the closing quote, as many as the fuel allows. -/
def readN : Nat → List UInt8 → Option (List UInt8 × List UInt8)
  | 0, _ => none
  | _ + 1, [] => none
  | n + 1, c :: rest =>
    if c = 34 then some ([], rest)
    else do
      let (v, rest) ← readPiece (c :: rest)
      let (vs, rest) ← readN n rest
      some (v ++ vs, rest)

/-- A JSON string behind its opening quote: its value, and what is behind the closing quote. -/
def read (body : List UInt8) : Option (List UInt8 × List UInt8) := readN body.length body

/-- The bytes of a body that are not escaped: a backslash takes the byte behind it along. -/
def unescaped : List UInt8 → List UInt8
  | [] => []
  | [c] => [c]
  | c :: d :: rest => if c = 92 then unescaped rest else c :: unescaped (d :: rest)

/-- `p` is read as `v`, whatever is behind it. -/
def Encodes (p v : List UInt8) : Prop := ∀ rest, readPiece (p ++ rest) = some (v, rest)

variable {p v : List UInt8} {c e : UInt8}

/-- A piece is not empty. -/
theorem Encodes.ne_nil (h : Encodes p v) : p ≠ [] := by
  rintro rfl
  cases h []

/-- A piece does not begin with the quote that ends a string. -/
theorem Encodes.head_ne_quote {rest : List UInt8} (h : Encodes p v) : p ≠ 34 :: rest := by
  rintro rfl
  cases h []

/-- A byte that needs no escape. -/
theorem encodes_plain (hlow : 0x20 ≤ c) (hquote : c ≠ 34) (hslash : c ≠ 92) :
    Encodes [c] [c] := by
  intro rest
  have hplain : ¬ (c < 0x20 ∨ c = 34) := not_or.mpr ⟨UInt8.not_lt.mpr hlow, hquote⟩
  simp [readPiece, hslash, hplain]

/-- A short escape. -/
theorem encodes_short (h : shortValue e = some c) : Encodes [92, e] [c] := by
  intro rest
  have hne : e ≠ 117 := by
    rintro rfl
    cases h
  simp [readPiece, hne, h]

/-- An escaped code unit that is a character of its own. -/
theorem encodes_unit {a b d : UInt8} {n : Nat} (hunit : readUnit [a, b, c, d] = some (n, []))
    (hscalar : n < 0xD800 ∨ 0xE000 ≤ n) : Encodes [92, 117, a, b, c, d] (codePoint n) := by
  intro rest
  have hrest : readUnit (a :: b :: c :: d :: rest) = some (n, rest) := by
    simp only [readUnit, Option.bind_eq_bind, Option.bind_eq_some_iff, Option.some.injEq,
      Prod.mk.injEq] at hunit ⊢
    simpa using hunit
  have hhigh : ¬ (0xD800 ≤ n ∧ n < 0xDC00) := by omega
  have hlow : ¬ (0xDC00 ≤ n ∧ n < 0xE000) := by omega
  simp [readPiece, readUnicode, hrest, hhigh, hlow]

/-- Pieces are read one after the other. -/
theorem readN_pieces {pieces : List (List UInt8 × List UInt8)} {after : List UInt8} {n : Nat}
    (h : ∀ piece ∈ pieces, Encodes piece.1 piece.2) (hn : pieces.length < n) :
    readN n (pieces.flatMap Prod.fst ++ 34 :: after) = some (pieces.flatMap Prod.snd, after) := by
  induction pieces generalizing n with
  | nil =>
    cases n with
    | zero => omega
    | succ n => simp [readN]
  | cons piece pieces ih =>
    obtain ⟨hpiece, hpieces⟩ := List.forall_mem_cons.mp h
    cases n with
    | zero => omega
    | succ n =>
      have hread := hpiece (pieces.flatMap Prod.fst ++ 34 :: after)
      have hrest := ih hpieces (Nat.lt_of_succ_lt_succ hn)
      obtain ⟨c, p, hcp⟩ := List.exists_cons_of_ne_nil hpiece.ne_nil
      have hquote : c ≠ 34 := by
        rintro rfl
        exact hpiece.head_ne_quote hcp
      rw [hcp] at hread
      rw [List.flatMap_cons, hcp, List.append_assoc, List.cons_append, readN, if_neg hquote,
        ← List.cons_append, hread]
      simp [hrest]

/-- A text has no fewer bytes than pieces. -/
theorem length_le_flatMap {pieces : List (List UInt8 × List UInt8)}
    (h : ∀ piece ∈ pieces, Encodes piece.1 piece.2) :
    pieces.length ≤ (pieces.flatMap Prod.fst).length := by
  induction pieces with
  | nil => exact Nat.le_refl 0
  | cons piece pieces ih =>
    obtain ⟨hpiece, hpieces⟩ := List.forall_mem_cons.mp h
    have hpos := List.length_pos_iff.mpr hpiece.ne_nil
    have hrest := ih hpieces
    rw [List.flatMap_cons, List.length_append, List.length_cons]
    omega

/-- A body that is made of pieces is read as what they stand for. -/
theorem read_pieces {pieces : List (List UInt8 × List UInt8)} {after : List UInt8}
    (h : ∀ piece ∈ pieces, Encodes piece.1 piece.2) :
    read (pieces.flatMap Prod.fst ++ 34 :: after) = some (pieces.flatMap Prod.snd, after) := by
  have hlength := length_le_flatMap h
  apply readN_pieces h
  rw [List.length_append, List.length_cons]
  omega

/-! ### Escapers -/

/-- A lower-case hexadecimal digit. -/
def digit (n : UInt8) : UInt8 := if n < 10 then 48 + n else 87 + n

/-- The short escapes that an escaper knows, each with its letter: the quote and the backslash are
among them, and a reader knows them all. -/
structure Shorts where
  table : List (UInt8 × UInt8)
  known : ∀ s ∈ table, shortValue s.2 = some s.1
  quote : (table.lookup 34).isSome
  backslash : (table.lookup 92).isSome

/-- A byte as a short escape, a control character without one as `\u00` and two digits, any other
byte as it is. -/
def escapeByte (shorts : Shorts) (c : UInt8) : List UInt8 :=
  match shorts.table.lookup c with
  | some e => [92, e]
  | none => if c < 0x20 then [92, 117, 48, 48, digit (c / 16), digit (c % 16)] else [c]

/-- The body of a JSON string. -/
def escape (shorts : Shorts) (s : List UInt8) : List UInt8 := s.flatMap (escapeByte shorts)

/-- The escape of a control character is read. -/
theorem readUnit_control : ∀ n : Fin 32, readUnit
    [48, 48, digit (UInt8.ofNat n / 16), digit (UInt8.ofNat n % 16)] = some (n.val, []) := by
  decide +kernel

/-- A control character is one byte. -/
theorem codePoint_control : ∀ n : Fin 32, codePoint n.val = [UInt8.ofNat n] := by
  decide +kernel

variable {shorts : Shorts}

/-- The three forms of an escaped byte. -/
theorem escapeByte_cases (shorts : Shorts) (c : UInt8) :
    (∃ e, shortValue e = some c ∧ escapeByte shorts c = [92, e]) ∨
      (∃ n : Fin 32, c = UInt8.ofNat n ∧ escapeByte shorts c =
        [92, 117, 48, 48, digit (UInt8.ofNat n / 16), digit (UInt8.ofNat n % 16)]) ∨
      0x20 ≤ c ∧ c ≠ 34 ∧ c ≠ 92 ∧ escapeByte shorts c = [c] := by
  unfold escapeByte
  cases hlookup : shorts.table.lookup c with
  | some e =>
    left
    obtain ⟨before, after, htable, -⟩ := List.lookup_eq_some_iff.mp hlookup
    exact ⟨e, shorts.known (c, e) (by simp [htable]), rfl⟩
  | none =>
    right
    by_cases hlow : c < 0x20
    · left
      have hlt : c.toNat < 32 := UInt8.lt_iff_toNat_lt.mp hlow
      refine ⟨⟨c.toNat, hlt⟩, by simp, ?_⟩
      simp [hlow]
    · right
      refine ⟨UInt8.not_lt.mp hlow, ?_, ?_, by simp [hlow]⟩
      · rintro rfl
        have hquote := shorts.quote
        simp [hlookup] at hquote
      · rintro rfl
        have hbackslash := shorts.backslash
        simp [hlookup] at hbackslash

/-- An escaped byte is a piece for the byte. -/
theorem encodes_escapeByte (shorts : Shorts) (c : UInt8) : Encodes (escapeByte shorts c) [c] := by
  obtain ⟨e, he, heq⟩ | ⟨n, hn, heq⟩ | ⟨hlow, hquote, hslash, heq⟩ := escapeByte_cases shorts c
  · rw [heq]
    exact encodes_short he
  · rw [heq, hn, ← codePoint_control]
    exact encodes_unit (readUnit_control n) (by omega)
  · rw [heq]
    exact encodes_plain hlow hquote hslash

/-- A reader gets back what was escaped, and stops at the closing quote. -/
theorem read_escape (shorts : Shorts) (s after : List UInt8) :
    read (escape shorts s ++ 34 :: after) = some (s, after) := by
  have hpieces := @read_pieces (s.map fun c ↦ (escapeByte shorts c, [c])) after (by
    simpa using fun c _ ↦ encodes_escapeByte shorts c)
  simpa [List.flatMap_map, escape] using hpieces

/-- An escaped text has no control character. -/
theorem not_control_escape {s : List UInt8} (h : c ∈ escape shorts s) : 0x20 ≤ c := by
  obtain ⟨b, -, hc⟩ := List.mem_flatMap.mp h
  obtain ⟨e, he, heq⟩ | ⟨n, -, heq⟩ | ⟨hlow, -, -, heq⟩ := escapeByte_cases shorts b
  · rw [heq] at hc
    have hletter : ∀ e, (shortValue e).isSome → 0x20 ≤ e := Utf8.forall_byte (by decide +kernel)
    simp only [List.mem_cons, List.not_mem_nil, or_false] at hc
    obtain rfl | rfl := hc
    · decide
    · exact hletter c (by rw [he]; rfl)
  · have hall : ∀ n : Fin 32, [92, 117, 48, 48, digit (UInt8.ofNat n / 16),
        digit (UInt8.ofNat n % 16)].all (fun d ↦ decide (0x20 ≤ d)) = true := by decide +kernel
    exact of_decide_eq_true (List.all_eq_true.mp (hall n) c (heq ▸ hc))
  · rw [heq, List.mem_singleton] at hc
    exact hc ▸ hlow

/-- A byte that is no backslash is itself. -/
theorem unescaped_plain {rest : List UInt8} (h : c ≠ 92) :
    unescaped (c :: rest) = c :: unescaped rest := by
  cases rest with
  | nil => rfl
  | cons d rest => rw [unescaped, if_neg h]

/-- Every quote of an escaped text has a backslash in front of it that is not escaped itself. -/
theorem quote_not_mem_unescaped (shorts : Shorts) (s : List UInt8) :
    34 ∉ unescaped (escape shorts s) := by
  induction s with
  | nil => exact List.not_mem_nil
  | cons b s ih =>
    unfold escape at ih ⊢
    rw [List.flatMap_cons]
    obtain ⟨e, -, heq⟩ | ⟨n, -, heq⟩ | ⟨-, hquote, hslash, heq⟩ := escapeByte_cases shorts b
    · rw [heq]
      simpa [unescaped] using ih
    · have hdigits : ∀ n : Fin 32,
          (digit (UInt8.ofNat n / 16) ≠ 34 ∧ digit (UInt8.ofNat n / 16) ≠ 92) ∧
          digit (UInt8.ofNat n % 16) ≠ 34 ∧ digit (UInt8.ofNat n % 16) ≠ 92 := by decide +kernel
      obtain ⟨⟨hq, hs⟩, hq', hs'⟩ := hdigits n
      have hpiece : unescaped (escapeByte shorts b ++ s.flatMap (escapeByte shorts)) =
          48 :: 48 :: digit (UInt8.ofNat n / 16) :: digit (UInt8.ofNat n % 16) ::
            unescaped (s.flatMap (escapeByte shorts)) := by
        rw [heq]
        simp [unescaped, unescaped_plain, hs, hs']
      rw [hpiece]
      simp [hq.symm, hq'.symm, ih]
    · rw [heq, List.singleton_append, unescaped_plain hslash]
      simp [hquote.symm, ih]

/-- An escaped byte takes six places at most. -/
theorem length_escapeByte_le (shorts : Shorts) (c : UInt8) : (escapeByte shorts c).length ≤ 6 := by
  obtain ⟨e, -, heq⟩ | ⟨n, -, heq⟩ | ⟨-, -, -, heq⟩ := escapeByte_cases shorts c <;> simp [heq]

end Lib.JsonString
