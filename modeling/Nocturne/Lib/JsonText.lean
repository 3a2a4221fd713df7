import Nocturne.Lib.JsonString
import Nocturne.Lib.JsonTree

/-!
# JSON texts

`read` reads a whole JSON text into a tree. A printer is verified along its output: `Reads t v` says
that `t` is read as `v` whatever stands behind it, and there is one rule for each form of a value.
Arrays and objects have the same rules, with `Items` for what stands between their brackets.
-/

namespace Lib.JsonText

/-! ### The reader -/

/-- A reader gives a value and what is behind it. -/
abbrev Reader (α : Type) : Type := List UInt8 → Option (α × List UInt8)

/-- White space. -/
def isBlank (c : UInt8) : Bool := c == 32 || c == 10 || c == 13 || c == 9

def skip (s : List UInt8) : List UInt8 := s.dropWhile isBlank

def isDigit (c : UInt8) : Bool := 48 ≤ c && c ≤ 57

/-- The number that some digits are. -/
def number (ds : List UInt8) : Nat := ds.foldl (fun n d ↦ 10 * n + (d.toNat - 48)) 0

/-- Digits, at least one of them. -/
def readDigits : Reader (List UInt8) := fun s ↦
  if s.takeWhile isDigit = [] then none else some (s.takeWhile isDigit, s.dropWhile isDigit)

/-- A sign, of those that are allowed. -/
def readSign (signs : List UInt8) (s : List UInt8) : List UInt8 × List UInt8 :=
  match s with
  | c :: rest => if c ∈ signs then ([c], rest) else ([], s)
  | [] => ([], [])

/-- The fraction of a number, where it has one. -/
def readFraction : Reader (List UInt8) := fun s ↦
  match s with
  | c :: rest => if c = 46 then (readDigits rest).map fun r ↦ (c :: r.1, r.2) else some ([], s)
  | [] => some ([], [])

/-- The exponent of a number, where it has one. -/
def readExponent : Reader (List UInt8) := fun s ↦
  match s with
  | c :: rest =>
    if c = 101 ∨ c = 69 then
      let (sign, rest) := readSign [43, 45] rest
      (readDigits rest).map fun r ↦ (c :: sign ++ r.1, r.2)
    else some ([], s)
  | [] => some ([], [])

/-- A number. It has no zero in front of other digits. -/
def readNumber : Reader JsonTree := fun s ↦ do
  let (minus, s) := readSign [45] s
  let (ds, rest) ← readDigits s
  let (fraction, rest) ← readFraction rest
  let (exponent, rest) ← readExponent rest
  if ds.head? = some 48 ∧ ds ≠ [48] then none
  else if fraction = [] ∧ exponent = [] then
    some (.integer (if minus = [] then number ds else -number ds), rest)
  else some (.real (minus ++ ds ++ fraction ++ exponent), rest)

/-- `true`, `false` and `null`. -/
def words : List (List UInt8 × JsonTree) :=
  [([116, 114, 117, 101], .boolean true), ([102, 97, 108, 115, 101], .boolean false),
    ([110, 117, 108, 108], .null)]

def readWord : Reader JsonTree := fun s ↦
  words.findSome? fun w ↦ if w.1.isPrefixOf s then some (w.2, s.drop w.1.length) else none

section Lists

variable {α : Type}

/-- Items with commas between them, up to the closing byte. -/
def readItems (item : Reader α) (close : UInt8) : Nat → Reader (List α)
  | 0, _ => none
  | n + 1, s => do
    let (x, rest) ← item (skip s)
    match skip rest with
    | [] => none
    | c :: rest =>
      if c = close then some ([x], rest)
      else if c = 44 then do
        let (xs, rest) ← readItems item close n rest
        some (x :: xs, rest)
      else none

/-- Items, or nothing. -/
def readList (item : Reader α) (close : UInt8) (n : Nat) : Reader (List α) := fun s ↦
  match skip s with
  | [] => none
  | c :: rest => if c = close then some ([], rest) else readItems item close n (c :: rest)

end Lists

/-- A member of an object. -/
def readMember (value : Reader JsonTree) : Reader (List UInt8 × JsonTree) := fun s ↦
  match s with
  | [] => none
  | c :: body =>
    if c = 34 then do
      let (key, rest) ← JsonString.read body
      match skip rest with
      | [] => none
      | c :: rest =>
        if c = 58 then do
          let (v, rest) ← value (skip rest)
          some ((key, v), rest)
        else none
    else none

/-- A value with no white space in front of it. -/
def readValue : Nat → Reader JsonTree
  | 0, _ => none
  | _ + 1, [] => none
  | n + 1, c :: rest =>
    if c = 34 then (JsonString.read rest).map fun r ↦ (.string r.1, r.2)
    else if c = 91 then (readList (readValue n) 93 n rest).map fun r ↦ (.array r.1, r.2)
    else if c = 123 then
      (readList (readMember (readValue n)) 125 n rest).map fun r ↦ (.object r.1, r.2)
    else (readWord (c :: rest)).or (readNumber (c :: rest))

/-- A JSON text. -/
def read (s : List UInt8) : Option JsonTree := do
  let (v, rest) ← readValue (s.length + 1) (skip s)
  if skip rest = [] then some v else none

/-! ### White space -/

/-- White space only. -/
def Blank (s : List UInt8) : Prop := ∀ c ∈ s, isBlank c = true

instance (s : List UInt8) : Decidable (Blank s) := List.decidableBAll _ s

variable {s t rest lead core trail body : List UInt8} {c : UInt8}

theorem Blank.append (hs : Blank s) (ht : Blank t) : Blank (s ++ t) :=
  fun c hc ↦ (List.mem_append.mp hc).elim (hs c) (ht c)

/-- A byte that a value can start with, as far as the reader looks. -/
def Starts (c : UInt8) : Prop := isBlank c = false ∧ c ≠ 93 ∧ c ≠ 125

instance (c : UInt8) : Decidable (Starts c) := inferInstanceAs (Decidable (_ ∧ _))

/-- What stands behind a value: nothing that could belong to a number. -/
def Ends (s : List UInt8) : Prop :=
  ∀ c, s.head? = some c → isBlank c = true ∨ c = 44 ∨ c = 93 ∨ c = 125

theorem skip_blank (h : Blank s) : skip (s ++ t) = skip t :=
  List.dropWhile_append_of_pos h

theorem skip_start (h : isBlank c = false) : skip (c :: s) = c :: s :=
  List.dropWhile_cons_of_neg (by simp [h])

theorem Ends.nil : Ends [] := by
  intro c h
  cases h

theorem Ends.cons (h : isBlank c = true ∨ c = 44 ∨ c = 93 ∨ c = 125) : Ends (c :: s) := by
  intro d hd
  cases hd
  exact h

/-- White space in front changes nothing. -/
theorem Ends.blank (h : Blank s) (ht : Ends t) : Ends (s ++ t) := by
  cases s with
  | nil => exact ht
  | cons c s => exact .cons (.inl (h c (List.mem_cons_self ..)))

theorem ends_blank_cons (h : Blank s) (hc : c = 44 ∨ c = 93 ∨ c = 125) : Ends (s ++ c :: t) :=
  .blank h (.cons (.inr hc))

/-! ### Items -/

section Items

variable {α : Type} {item : Nat → Reader α} {x : α} {xs : List α} {close : UInt8} {n k : Nat}

/-- The reader gets `x` from the text, if it has as much fuel as the text is long. -/
structure ReadBy (item : Nat → Reader α) (text : List UInt8) (x : α) : Prop where
  start : ∃ c s, text = c :: s ∧ Starts c
  reads : ∀ n rest, text.length ≤ n → Ends rest → item n (text ++ rest) = some (x, rest)

/-- The text of an item, with white space on both sides of it. -/
inductive Padded (item : Nat → Reader α) : List UInt8 → α → Prop
  | pad {lead core trail : List UInt8} {x : α} (hlead : Blank lead) (h : ReadBy item core x)
    (htrail : Blank trail) : Padded item (lead ++ core ++ trail) x

/-- Some items with commas between them. -/
inductive Items (item : Nat → Reader α) : List UInt8 → List α → Prop
  | one {text : List UInt8} {x : α} (h : Padded item text x) : Items item text [x]
  | cons {text body : List UInt8} {x : α} {xs : List α} (h : Padded item text x)
    (hbody : Items item body xs) : Items item (text ++ 44 :: body) (x :: xs)

theorem ReadBy.padded (h : ReadBy item core x) : Padded item core x := by
  have hpad : Padded item ([] ++ core ++ []) x := .pad (by simp [Blank]) h (by simp [Blank])
  simpa using hpad

theorem Padded.blank (hs : Blank s) (h : Padded item t x) : Padded item (s ++ t) x := by
  cases h with
  | pad hlead h htrail =>
    rw [← List.append_assoc, ← List.append_assoc]
    exact .pad (hs.append hlead) h htrail

theorem Padded.trailing (hs : Blank s) (h : Padded item t x) : Padded item (t ++ s) x := by
  cases h with
  | pad hlead h htrail =>
    rw [List.append_assoc]
    exact .pad hlead h (htrail.append hs)

/-- White space in front of the first item. -/
theorem Items.blank (hs : Blank s) (h : Items item body xs) : Items item (s ++ body) xs := by
  cases h with
  | one h => exact .one (h.blank hs)
  | cons h hbody =>
    rw [← List.append_assoc]
    exact .cons (h.blank hs) hbody

/-- White space behind the last item. -/
theorem Items.trailing (hs : Blank s) (h : Items item body xs) : Items item (body ++ s) xs := by
  induction h with
  | one h => exact .one (h.trailing hs)
  | cons h _ ih =>
    rw [List.append_assoc, List.cons_append]
    exact .cons h ih

/-- A printer that puts a comma between items, and white space behind it. -/
theorem items_intercalate (hs : Blank s) {texts : List (List UInt8)}
    (h : List.Forall₂ (Padded item) texts xs) (hne : texts ≠ []) :
    Items item ((44 :: s).intercalate texts) xs := by
  induction h with
  | nil => exact absurd rfl hne
  | @cons text x texts xs hx hxs ih =>
    cases hxs with
    | nil => simpa using Items.one hx
    | @cons text' x' texts xs hx' hxs =>
      rw [List.intercalate_cons_cons, List.append_assoc, List.cons_append]
      exact .cons hx ((ih (List.cons_ne_nil _ _)).blank hs)

theorem ReadBy.skip (h : ReadBy item core x) (hlead : Blank lead) (rest : List UInt8) :
    skip (lead ++ core ++ rest) = core ++ rest := by
  obtain ⟨c, s, rfl, hc⟩ := h.start
  rw [List.append_assoc, skip_blank hlead]
  exact skip_start hc.1

theorem Padded.start (h : Padded item t x) (rest : List UInt8) :
    ∃ c s, JsonText.skip (t ++ rest) = c :: s ∧ Starts c := by
  cases h with
  | pad hlead h htrail =>
    obtain ⟨c, s, hcore, hc⟩ := h.start
    rw [List.append_assoc, h.skip hlead, hcore]
    exact ⟨c, _, rfl, hc⟩

/-- The first byte of some items is not a closing one. -/
theorem Items.start (h : Items item body xs) (rest : List UInt8) :
    ∃ c s, JsonText.skip (body ++ rest) = c :: s ∧ Starts c := by
  cases h with
  | one h => exact h.start rest
  | cons h hbody =>
    rw [List.append_assoc]
    exact h.start _

/-- An item is read up to the comma or the closing byte behind it. -/
theorem Padded.reads (h : Padded item t x) (hc : c = 44 ∨ c = 93 ∨ c = 125) (hn : t.length ≤ n)
    (rest : List UInt8) : ∃ after, item n (JsonText.skip (t ++ c :: rest)) = some (x, after) ∧
      JsonText.skip after = c :: rest := by
  have hbreak : isBlank c = false := by
    rcases hc with rfl | rfl | rfl <;> rfl
  cases h with
  | pad hlead h htrail =>
    simp only [List.length_append] at hn
    rw [List.append_assoc, h.skip hlead, h.reads n _ (by omega) (ends_blank_cons htrail hc)]
    exact ⟨_, rfl, by rw [skip_blank htrail, skip_start hbreak]⟩

/-- The items are read up to the closing byte. -/
theorem readItems_items (h : Items item body xs) (hclose : close = 93 ∨ close = 125)
    (hn : body.length ≤ n) (hk : body.length < k) (rest : List UInt8) :
    readItems (item n) close k (body ++ close :: rest) = some (xs, rest) := by
  have hcomma : (44 : UInt8) ≠ close := by
    rcases hclose with rfl | rfl <;> decide
  induction h generalizing k with
  | one h =>
    cases k with
    | zero => omega
    | succ k =>
      obtain ⟨after, hread, hafter⟩ := h.reads (.inr hclose) hn rest
      simp [readItems, hread, hafter]
  | cons h _ ih =>
    cases k with
    | zero => omega
    | succ k =>
      simp only [List.length_append, List.length_cons] at hn hk
      have hrest := @ih k (by omega) (by omega)
      obtain ⟨after, hread, hafter⟩ := h.reads (n := n) (.inl rfl) (by omega) _
      rw [readItems, List.append_assoc, List.cons_append, hread]
      simp [hafter, hcomma, hrest]

theorem readItems_skip (h : Items item body xs) (rest : List UInt8) :
    readItems (item n) close k (skip (body ++ rest)) = readItems (item n) close k (body ++ rest) := by
  cases k with
  | zero => rfl
  | succ k =>
    obtain ⟨c, s, hskip, hc⟩ := h.start rest
    rw [readItems, readItems, hskip, skip_start hc.1]

/-- What stands between two brackets: some items, or white space only. -/
inductive Body (item : Nat → Reader α) : List UInt8 → List α → Prop
  | empty {s : List UInt8} (h : Blank s) : Body item s []
  | items {s : List UInt8} {xs : List α} (h : Items item s xs) : Body item s xs

/-- A list is read up to its closing bracket. -/
theorem readList_body (h : Body item body xs) (hclose : close = 93 ∨ close = 125)
    (hn : body.length < n) (rest : List UInt8) :
    readList (item n) close n (body ++ close :: rest) = some (xs, rest) := by
  have hblank : isBlank close = false := by
    rcases hclose with rfl | rfl <;> rfl
  unfold readList
  cases h with
  | empty h =>
    rw [skip_blank h, skip_start hblank]
    simp
  | items h =>
    have hread := readItems_items h hclose (Nat.le_of_lt hn) hn rest
    rw [← readItems_skip h] at hread
    obtain ⟨c, s, hskip, hc⟩ := h.start (close :: rest)
    have hne : c ≠ close := by
      rcases hclose with rfl | rfl
      · exact hc.2.1
      · exact hc.2.2
    rw [hskip] at hread ⊢
    simpa [hne] using hread

end Items

/-! ### Values -/

/-- The text is read as the value. -/
abbrev Reads : List UInt8 → JsonTree → Prop := ReadBy readValue

/-- The text is read as a member of an object. -/
abbrev ReadsMember : List UInt8 → List UInt8 × JsonTree → Prop :=
  ReadBy fun n ↦ readMember (readValue n)

/-- The text is what stands between the quotes of a string. -/
def Quoted (text v : List UInt8) : Prop :=
  ∀ rest, JsonString.read (text ++ 34 :: rest) = some (v, rest)

variable {v : JsonTree} {key name : List UInt8}

/-- Bytes that need no escape. -/
theorem quoted_plain (h : ∀ c ∈ s, 0x20 ≤ c ∧ c ≠ 34 ∧ c ≠ 92) : Quoted s s := by
  intro rest
  have hread := @JsonString.read_pieces (s.map fun c ↦ ([c], [c])) rest (by
    simpa using fun c hc ↦ JsonString.encodes_plain (h c hc).1 (h c hc).2.1 (h c hc).2.2)
  simpa [List.flatMap_map] using hread

/-- A string. -/
theorem reads_string (h : Quoted s t) : Reads (34 :: s ++ [34]) (.string t) where
  start := ⟨34, _, rfl, by decide⟩
  reads n rest hn _ := by
    cases n with
    | zero => simp at hn
    | succ n => simp [readValue, h rest]

/-- An array. -/
theorem reads_array {vs : List JsonTree} (h : Body readValue body vs) :
    Reads (91 :: body ++ [93]) (.array vs) where
  start := ⟨91, _, rfl, by decide⟩
  reads n rest hn _ := by
    cases n with
    | zero => simp at hn
    | succ n =>
      simp only [List.length_append, List.length_cons, List.length_nil] at hn
      have hread := readList_body (n := n) h (.inl rfl) (by omega) rest
      simp [readValue, hread]

/-- An object. -/
theorem reads_object {ms : List (List UInt8 × JsonTree)}
    (h : Body (fun n ↦ readMember (readValue n)) body ms) :
    Reads (123 :: body ++ [125]) (.object ms) where
  start := ⟨123, _, rfl, by decide⟩
  reads n rest hn _ := by
    cases n with
    | zero => simp at hn
    | succ n =>
      simp only [List.length_append, List.length_cons, List.length_nil] at hn
      have hread := readList_body (n := n) h (.inr rfl) (by omega) rest
      simp [readValue, hread]

/-- A member: its name, a colon, and its value behind some white space. -/
theorem reads_member (hname : Quoted name key) (hs : Blank s) (hv : Reads core v) :
    ReadsMember (34 :: name ++ 34 :: 58 :: s ++ core) (key, v) where
  start := ⟨34, _, rfl, by decide⟩
  reads n rest hn hends := by
    simp only [List.length_append, List.length_cons] at hn
    have hvalue := hv.reads n rest (by omega) hends
    have hskip := hv.skip hs rest
    have hcolon : skip (58 :: (s ++ (core ++ rest))) = 58 :: (s ++ (core ++ rest)) :=
      skip_start rfl
    rw [List.append_assoc] at hskip
    simp [readMember, hname _, hcolon, hskip, hvalue]

/-- A word. -/
theorem reads_word {word : List UInt8} (h : (word, v) ∈ words) : Reads word v where
  start := by
    simp only [words, List.mem_cons, List.not_mem_nil, or_false, Prod.mk.injEq] at h
    rcases h with ⟨rfl, -⟩ | ⟨rfl, -⟩ | ⟨rfl, -⟩ <;> exact ⟨_, _, rfl, by decide⟩
  reads n rest hn _ := by
    simp only [words, List.mem_cons, List.not_mem_nil, or_false, Prod.mk.injEq] at h
    cases n with
    | zero => rcases h with ⟨rfl, -⟩ | ⟨rfl, -⟩ | ⟨rfl, -⟩ <;> simp at hn
    | succ n =>
      rcases h with ⟨rfl, rfl⟩ | ⟨rfl, rfl⟩ | ⟨rfl, rfl⟩ <;> simp [readValue, readWord, words]

/-! ### Numbers -/

/-- Digits with no zero in front of others. -/
structure Digits (ds : List UInt8) : Prop where
  digits : ∀ d ∈ ds, isDigit d = true
  ne_nil : ds ≠ []
  canonical : ds.head? = some 48 → ds = [48]

theorem not_isDigit_of_ends (h : Ends (c :: s)) :
    isDigit c = false ∧ c ≠ 46 ∧ c ≠ 101 ∧ c ≠ 69 := by
  have hbytes : ∀ c : UInt8, isBlank c = true ∨ c = 44 ∨ c = 93 ∨ c = 125 →
      isDigit c = false ∧ c ≠ 46 ∧ c ≠ 101 ∧ c ≠ 69 := by
    apply Utf8.forall_byte
    decide +kernel
  exact hbytes c (h c rfl)

theorem readDigits_digits {ds : List UInt8} (h : Digits ds) (hends : Ends rest) :
    readDigits (ds ++ rest) = some (ds, rest) := by
  have htake : (ds ++ rest).takeWhile isDigit = ds := by
    rw [List.takeWhile_append_of_pos h.digits]
    cases rest with
    | nil => simp
    | cons c rest => simp [(not_isDigit_of_ends hends).1]
  have hdrop : (ds ++ rest).dropWhile isDigit = rest := by
    rw [List.dropWhile_append_of_pos h.digits]
    cases rest with
    | nil => rfl
    | cons c rest => simp [(not_isDigit_of_ends hends).1]
  rw [readDigits, htake, hdrop, if_neg h.ne_nil]

theorem readFraction_ends (h : Ends rest) : readFraction rest = some ([], rest) := by
  cases rest with
  | nil => rfl
  | cons c rest => simp [readFraction, (not_isDigit_of_ends h).2.1]

theorem readExponent_ends (h : Ends rest) : readExponent rest = some ([], rest) := by
  cases rest with
  | nil => rfl
  | cons c rest =>
    obtain ⟨-, -, he, he'⟩ := not_isDigit_of_ends h
    simp [readExponent, he, he']

/-- No word and no string, array or object starts like a number. -/
theorem readValue_number {n : Nat} (h : isDigit c = true ∨ c = 45) :
    readValue (n + 1) (c :: s) = readNumber (c :: s) := by
  have hbytes : ∀ c : UInt8, isDigit c = true ∨ c = 45 →
      c ≠ 34 ∧ c ≠ 91 ∧ c ≠ 123 ∧ 116 ≠ c ∧ 102 ≠ c ∧ 110 ≠ c := by
    apply Utf8.forall_byte
    decide +kernel
  obtain ⟨h₁, h₂, h₃, h₄, h₅, h₆⟩ := hbytes c h
  rw [readValue, if_neg h₁, if_neg h₂, if_neg h₃]
  simp [readWord, words, h₄, h₅, h₆]

theorem starts_number (h : isDigit c = true ∨ c = 45) : Starts c := by
  have hbytes : ∀ c : UInt8, isDigit c = true ∨ c = 45 → Starts c := by
    apply Utf8.forall_byte
    decide +kernel
  exact hbytes c h

theorem readSign_digit {ds : List UInt8} (h : Digits ds) :
    readSign [45] (ds ++ rest) = ([], ds ++ rest) := by
  obtain ⟨d, ds', rfl⟩ := List.exists_cons_of_ne_nil h.ne_nil
  have hne : d ≠ 45 := by
    rintro rfl
    exact absurd (h.digits 45 (List.mem_cons_self ..)) (by decide)
  simp [readSign, hne]

theorem readNumber_digits {ds : List UInt8} (h : Digits ds) (hends : Ends rest) :
    readNumber (ds ++ rest) = some (.integer (number ds), rest) ∧
      readNumber (45 :: ds ++ rest) = some (.integer (-number ds), rest) := by
  have hminus : readSign [45] (45 :: (ds ++ rest)) = ([45], ds ++ rest) := rfl
  have hzero : ¬ (ds.head? = some 48 ∧ ds ≠ [48]) := fun hz ↦ hz.2 (h.canonical hz.1)
  constructor
  · simp [readNumber, readSign_digit h, readDigits_digits h hends, readFraction_ends hends,
      readExponent_ends hends, hzero]
  · simp [readNumber, hminus, readDigits_digits h hends, readFraction_ends hends,
      readExponent_ends hends, hzero]

/-- A number that is not negative. -/
theorem reads_digits {ds : List UInt8} (h : Digits ds) : Reads ds (.integer (number ds)) := by
  obtain ⟨d, ds', rfl⟩ := List.exists_cons_of_ne_nil h.ne_nil
  have hd : isDigit d = true ∨ d = 45 := .inl (h.digits d (List.mem_cons_self ..))
  refine ⟨⟨d, ds', rfl, starts_number hd⟩, fun n rest hn hends ↦ ?_⟩
  cases n with
  | zero => simp at hn
  | succ n =>
    rw [List.cons_append, readValue_number hd]
    exact (readNumber_digits h hends).1

/-- A negative number. -/
theorem reads_minus {ds : List UInt8} (h : Digits ds) :
    Reads (45 :: ds) (.integer (-number ds)) where
  start := ⟨45, ds, rfl, by decide⟩
  reads n rest hn hends := by
    cases n with
    | zero => simp at hn
    | succ n =>
      rw [List.cons_append, readValue_number (.inr rfl)]
      exact (readNumber_digits h hends).2

/-! ### Texts -/

/-- A printed value is read back, with white space around it. -/
theorem read_of_reads (hlead : Blank lead) (h : Reads core v) (htrail : Blank trail) :
    read (lead ++ core ++ trail) = some v := by
  have hvalue := h.reads ((lead ++ core ++ trail).length + 1) trail
    (by simp only [List.length_append]; omega)
    (by simpa using Ends.blank htrail .nil)
  have htail : skip trail = [] := by
    rw [← List.append_nil trail, skip_blank htrail]
    rfl
  unfold read
  rw [h.skip hlead, hvalue]
  simp [htail]

end Lib.JsonText
