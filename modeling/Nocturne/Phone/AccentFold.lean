import Mathlib.Data.List.Chain
import Mathlib.Data.List.DropRight
import Nocturne.Phone.Strings

/-!
# Folded strings

`accentFold` makes what is indexed and what is typed comparable: it strips the accents, lowers the
case, and leaves single blanks between the words and none around them.
-/

namespace Nocturne

namespace Str

/-! ### White space -/

/-- `Char.isWhitespace`. -/
def isWhitespace (c : Char) : Bool :=
  let n := c.toNat
  (9 ≤ n && n ≤ 13) || (0x1C ≤ n && n ≤ 0x20) || n == 0xA0 || n == 0x1680 ||
    (0x2000 ≤ n && n ≤ 0x200A) || n == 0x2028 || n == 0x2029 || n == 0x202F || n == 0x205F ||
    n == 0x3000

/-- `isBlank`. -/
def isBlank (s : Str) : Bool := s.all isWhitespace

/-- `trim`. -/
def trim (s : Str) : Str := (s.dropWhile isWhitespace).rdropWhile isWhitespace

/-- `replace(Regex("\\s+"), " ")`, where `isSpace` are the characters of `\s`. -/
def collapse (isSpace : Char → Bool) : Str → Str
  | [] => []
  | [c] => if isSpace c then [' '] else [c]
  | c :: d :: s =>
    if isSpace c then
      if isSpace d then collapse isSpace (d :: s) else ' ' :: collapse isSpace (d :: s)
    else c :: collapse isSpace (d :: s)

variable {isSpace : Char → Bool} {s t : Str} {c d : Char}

/-- No spaces but blanks, and no two spaces in a row. -/
structure Tidy (isSpace : Char → Bool) (s : Str) : Prop where
  blanks : ∀ c ∈ s, isSpace c = true → c = ' '
  apart : s.IsChain fun c d ↦ ¬ (isSpace c = true ∧ isSpace d = true)

/-- A part of a tidy text is tidy. -/
theorem Tidy.of_isInfix (h : Tidy isSpace t) (hst : s <:+: t) : Tidy isSpace s :=
  ⟨fun c hc ↦ h.blanks c (hst.subset hc), List.IsChain.infix h.apart hst⟩

/-- A tidy string has no run of spaces to replace. -/
theorem Tidy.collapse_eq (h : Tidy isSpace s) : collapse isSpace s = s := by
  induction s with
  | nil => rfl
  | cons c s ih =>
    have hrest := ih (h.of_isInfix (List.suffix_cons c s).isInfix)
    have hc := h.blanks c (List.mem_cons_self ..)
    cases s with
    | nil =>
      rw [collapse]
      split
      · next hspace => rw [hc hspace]
      · rfl
    | cons d s =>
      rw [collapse, hrest]
      have hapart := (List.isChain_cons_cons.mp h.apart).1
      by_cases hspace : isSpace c = true
      · have hd : isSpace d = false := by simpa [hspace] using hapart
        simp [hd, hc hspace]
      · simp [hspace]

/-- Collapsing adds spaces only. -/
theorem mem_collapse (h : c ∈ collapse isSpace s) : c = ' ' ∨ c ∈ s := by
  induction s with
  | nil => cases h
  | cons d s ih =>
    cases s with
    | nil =>
      rw [collapse] at h
      split at h
      · exact .inl (List.mem_singleton.mp h)
      · exact .inr h
    | cons e s =>
      rw [collapse] at h
      split at h
      · split at h
        · exact (ih h).imp_right (List.mem_cons_of_mem d)
        · rcases List.mem_cons.mp h with hc | hc
          · exact .inl hc
          · exact (ih hc).imp_right (List.mem_cons_of_mem d)
      · rcases List.mem_cons.mp h with hc | hc
        · exact .inr (hc ▸ List.mem_cons_self ..)
        · exact (ih hc).imp_right (List.mem_cons_of_mem d)

/-- Collapsing makes no text longer. -/
theorem length_collapse_le (isSpace : Char → Bool) (s : Str) :
    (collapse isSpace s).length ≤ s.length := by
  fun_induction collapse isSpace s with
  | case1 => exact Nat.le_refl _
  | case2 => exact Nat.le_refl _
  | case3 => exact Nat.le_refl _
  | case4 c d s _ _ ih => exact Nat.le_succ_of_le ih
  | case5 c d s _ _ ih => exact Nat.succ_le_succ ih
  | case6 c d s _ ih => exact Nat.succ_le_succ ih

/-- A text that begins with no space still does so. -/
theorem head?_collapse (hd : isSpace d = false) : (collapse isSpace (d :: s)).head? = some d := by
  cases s <;> simp [collapse, hd]

/-- What is left when the runs are replaced is tidy. -/
theorem tidy_collapse (isSpace : Char → Bool) (s : Str) : Tidy isSpace (collapse isSpace s) := by
  induction s with
  | nil => exact ⟨fun c hc ↦ (by cases hc), List.isChain_nil⟩
  | cons c s ih =>
    cases s with
    | nil =>
      rw [collapse]
      split
      · exact ⟨fun d hd _ ↦ List.mem_singleton.mp hd, List.isChain_singleton _⟩
      · next hc =>
        refine ⟨fun d hd hspace ↦ ?_, List.isChain_singleton _⟩
        rw [List.mem_singleton.mp hd] at hspace
        exact absurd hspace hc
    | cons d s =>
      rw [collapse]
      split
      · split
        · exact ih
        · next hd =>
          have hfirst := head?_collapse (s := s) (Bool.not_eq_true _ ▸ hd)
          refine ⟨?_, ?_⟩
          · rw [List.forall_mem_cons]
            exact ⟨fun _ ↦ rfl, ih.blanks⟩
          · rw [List.isChain_cons]
            refine ⟨fun e he h ↦ ?_, ih.apart⟩
            rw [hfirst, Option.mem_some_iff] at he
            exact hd (he ▸ h.2)
      · next hc =>
        refine ⟨?_, ?_⟩
        · rw [List.forall_mem_cons]
          exact ⟨fun h ↦ absurd h hc, ih.blanks⟩
        · rw [List.isChain_cons]
          exact ⟨fun e _ h ↦ hc h.1, ih.apart⟩

/-- What is trimmed is a part of the text. -/
theorem trim_infix (s : Str) : trim s <:+: s :=
  (List.rdropWhile_prefix _ _).isInfix.trans (List.dropWhile_suffix _).isInfix

/-- A trimmed string has nothing to trim. -/
theorem trim_trim (s : Str) : trim (trim s) = trim s := by
  have hfront : (trim s).dropWhile isWhitespace = trim s := by
    obtain ⟨rest, hrest⟩ := List.rdropWhile_prefix isWhitespace (s.dropWhile isWhitespace)
    cases htrim : trim s with
    | nil => rfl
    | cons c u =>
      -- The first character is the one that `dropWhile` stopped at.
      have hstop := List.dropWhile_idempotent isWhitespace s
      rw [← hrest, ← trim, htrim, List.cons_append, List.dropWhile_eq_self_iff] at hstop
      rw [List.dropWhile_eq_self_iff]
      exact fun _ ↦ hstop (by simp)
  rw [trim, hfront, trim, List.rdropWhile_idempotent]

end Str

/-! ### Folding -/

/-- What the regular expressions of the phone go by: the characters of `\s`, and the places of `\b`
between what comes before, backwards, and what comes behind. -/
structure RegexClasses where
  isSpace : Char → Bool
  isBoundary : Str → Str → Bool

/-- `combiningMarks`, `AccentFold.kt:6`. -/
def isCombiningMark (c : Char) : Bool := 0x300 ≤ c.toNat && c.toNat ≤ 0x36F

/-- `letterFolds`, `AccentFold.kt:10–13`. -/
def letterFold : Char → Str
  | 'æ' => ['a', 'e']
  | 'œ' => ['o', 'e']
  | 'ø' => ['o']
  | 'ß' => ['s', 's']
  | 'ð' => ['d']
  | 'þ' => ['t', 'h']
  | 'ł' => ['l']
  | 'đ' => ['d']
  | 'ı' => ['i']
  | c => [c]

/-- `accentFold`, `AccentFold.kt:38–47`. -/
def accentFold (u : Unicode) (x : RegexClasses) (input : Text) : Str :=
  if input.isEmpty then []
  else
    let nfkd := u.nfkd (u.chars input)
    let stripped := nfkd.filter fun c ↦ !isCombiningMark c
    let lowered := (u.lowercase stripped).flatMap letterFold
    Str.trim (Str.collapse x.isSpace lowered)

section Folded

variable {u : Unicode} {x : RegexClasses} {input : Text}

/-- A folded text has no spaces at its ends, and no two in a row. -/
theorem tidy_accentFold : Str.Tidy x.isSpace (accentFold u x input) := by
  rw [accentFold]
  split
  · exact ⟨fun c hc ↦ (by cases hc), List.isChain_nil⟩
  · exact (Str.tidy_collapse x.isSpace _).of_isInfix (Str.trim_infix _)

/-- Trimming a folded text changes nothing. -/
theorem trim_accentFold : Str.trim (accentFold u x input) = accentFold u x input := by
  rw [accentFold]
  split
  · rfl
  · exact Str.trim_trim _

end Folded

end Nocturne
