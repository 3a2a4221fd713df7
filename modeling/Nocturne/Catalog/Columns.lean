import Nocturne.Catalog.Agree
import Nocturne.Catalog.Decimal

/-!
# Which columns the desktop reads back

The emitter writes a column as a member of an object, and the importer makes a column of the member.
For each kind of column: when the second is the first.
-/

namespace Nocturne

open Lib Lib.JsonTree

variable {jsonLoads : Text → Option JsonTree} {jsonDumps : JsonTree → Text} {o : Members}
  {key : Text} {root : Option Text}

/-! ### Texts -/

/-- A text that comes back: a C string in UTF-8. -/
def KeptText (t : Text) : Prop := 0 ∉ t ∧ utf8Valid t = true

/-- A text is a column as it is where it has no NUL. -/
theorem columnText_eq_iff {t : Text} : columnText t = t ↔ 0 ∉ t := by
  constructor
  · intro h
    rw [← h]
    exact zero_notMem_columnText t
  · exact columnText_of_notMem

/-- A string of the catalog is read back where it is UTF-8. -/
theorem jsonStrOrNull_string {t : Text} (h : o.lookup key = jsonString t) :
    jsonStrOrNull o key = if utf8Valid t = true then some t else none := by
  unfold jsonStrOrNull jsonString at *
  rw [h]
  by_cases hv : utf8Valid t = true
  · rw [if_pos hv, if_pos hv]
  · rw [if_neg hv, if_neg hv]

/-- A column is read back as what it was up to its first NUL. -/
theorem jsonStrOrNull_column {t s : Text} (h : o.lookup key = jsonString (columnText t)) :
    jsonStrOrNull o key = some s ↔ utf8Valid (columnText t) = true ∧ columnText t = s := by
  rw [jsonStrOrNull_string h]
  by_cases hv : utf8Valid (columnText t) = true
  · rw [if_pos hv]
    simp [hv]
  · rw [if_neg hv]
    simp [hv]

/-- A text column comes back exactly when its text does. -/
theorem text_back {s : Option Text}
    (h : o.lookup key = (s.map columnText).elim (some .null) jsonString) :
    jsonStrOrNull o key = s ↔ ∀ t, s = some t → KeptText t := by
  cases s with
  | none =>
    unfold jsonStrOrNull
    rw [h]
    simp
  | some t =>
    rw [jsonStrOrNull_column h, columnText_eq_iff]
    unfold KeptText
    constructor
    · intro hkept t' ht'
      cases ht'
      rw [← columnText_of_notMem hkept.2]
      exact ⟨by rw [columnText_of_notMem hkept.2]; exact hkept.2, hkept.1⟩
    · intro hkept
      obtain ⟨hnul, hv⟩ := hkept t rfl
      rw [columnText_of_notMem hnul]
      exact ⟨hv, hnul⟩

/-! ### Several values -/

/-- A column with several values that comes back: a plain text, or an array of at least two
elements in the way in which it is printed with the keys of its objects in order. -/
def KeptValues (jsonLoads : Text → Option JsonTree) (jsonDumps : JsonTree → Text) (t : Text) :
    Prop :=
  0 ∉ t ∧ t ≠ [] ∧
    match tryParseJsonStrArray jsonLoads t with
    | none => utf8Valid t = true
    | some es => 2 ≤ es.length ∧ jsonDumps (sortKeys (.array es)) = t

/-- A string is longer in JSON than its value is. -/
def QuotesStrings (jsonLoads : Text → Option JsonTree) : Prop :=
  ∀ s x, jsonLoads s = some (.array [.string x]) → x.length < s.length

/-- What is printed is a C string. -/
def PrintsText (jsonDumps : JsonTree → Text) : Prop := ∀ v, 0 ∉ jsonDumps v

/-- What is taken for an array of strings was read as an array. -/
theorem loads_of_tryParse {s : Text} {es : List JsonTree}
    (h : tryParseJsonStrArray jsonLoads s = some es) : jsonLoads s = some (.array es) := by
  unfold tryParseJsonStrArray at h
  split at h
  · split at h
    · next he =>
      cases h
      exact he
    · cases h
  · cases h

/-- A value that is no array goes in and out as a single one. -/
theorem storage_plain {s : Text} (hne : s ≠ [])
    (hparse : tryParseJsonStrArray jsonLoads s = none) :
    arrayToStorage jsonDumps (some (sortKeys (asJsonArray jsonLoads (some s)))) =
      if utf8Valid s = true then some s else none := by
  obtain ⟨b, bs, rfl⟩ := List.exists_cons_of_ne_nil hne
  unfold asJsonArray jsonString
  dsimp only
  rw [hparse]
  by_cases hv : utf8Valid (b :: bs) = true
  · rw [if_pos hv, if_pos hv]
    rfl
  · rw [if_neg hv, if_neg hv]
    rfl

/-- An array goes in as an array. -/
theorem storage_array {s : Text} {es : List JsonTree} (hne : s ≠ [])
    (hparse : tryParseJsonStrArray jsonLoads s = some es) :
    arrayToStorage jsonDumps (some (sortKeys (asJsonArray jsonLoads (some s)))) =
      arrayToStorage jsonDumps (some (sortKeys (.array es))) := by
  obtain ⟨b, bs, rfl⟩ := List.exists_cons_of_ne_nil hne
  unfold asJsonArray
  dsimp only
  rw [hparse]

/-- What comes back of an array that a column held: its two elements or more, printed. -/
theorem storage_eq_some {s t : Text} {es : List JsonTree} (hloads : QuotesStrings jsonLoads)
    (hparse : tryParseJsonStrArray jsonLoads s = some es) (hle : s.length ≤ t.length) :
    arrayToStorage jsonDumps (some (sortKeys (.array es))) = some t ↔
      2 ≤ es.length ∧ jsonDumps (sortKeys (.array es)) = t := by
  match es, hparse with
  | [], _ => simp [arrayToStorage, sortKeys, sortElements]
  | [e], hparse =>
    refine iff_of_false (fun h ↦ ?_) fun h ↦ absurd h.1 (by simp)
    cases e with
    | string x =>
      have hx : x = t := Option.some.inj h
      have hlong := hloads s x (loads_of_tryParse hparse)
      rw [hx] at hlong
      omega
    | _ => cases h
  | e :: e' :: es, _ => simp [arrayToStorage, sortKeys, sortElements]

/-- What comes back for a text that is not empty. -/
theorem arrayToStorage_column {t : Text} (hloads : QuotesStrings jsonLoads)
    (hdumps : PrintsText jsonDumps) (hne : columnText t ≠ []) :
    arrayToStorage jsonDumps (some (sortKeys (asJsonArray jsonLoads (some (columnText t))))) =
      some t ↔
      KeptValues jsonLoads jsonDumps t := by
  have hnonempty : t ≠ [] := by
    rintro rfl
    exact hne rfl
  have hle : (columnText t).length ≤ t.length := (List.takeWhile_sublist _).length_le
  unfold KeptValues
  cases hparse : tryParseJsonStrArray jsonLoads (columnText t) with
  | none =>
    rw [storage_plain hne hparse]
    constructor
    · intro h
      split at h
      · next hv =>
        have hnul := columnText_eq_iff.mp (Option.some.inj h)
        rw [columnText_of_notMem hnul] at hparse hv
        rw [hparse]
        exact ⟨hnul, hnonempty, hv⟩
      · cases h
    · rintro ⟨hnul, -, hkept⟩
      rw [columnText_of_notMem hnul] at hparse ⊢
      rw [hparse] at hkept
      exact if_pos hkept
  | some es =>
    rw [storage_array hne hparse, storage_eq_some hloads hparse hle]
    constructor
    · rintro ⟨hlen, hprint⟩
      have hnul : 0 ∉ t := by
        rw [← hprint]
        exact hdumps _
      rw [columnText_of_notMem hnul] at hparse
      rw [hparse]
      exact ⟨hnul, hnonempty, hlen, hprint⟩
    · rintro ⟨hnul, -, hkept⟩
      rw [columnText_of_notMem hnul] at hparse
      rw [hparse] at hkept
      exact hkept

/-- A column with several values comes back exactly when its text does. -/
theorem values_back {s : Option Text} (hloads : QuotesStrings jsonLoads)
    (hdumps : PrintsText jsonDumps)
    (h : o.lookup key = some (sortKeys (asJsonArray jsonLoads (s.map columnText)))) :
    arrayToStorage jsonDumps (o.lookup key) = s ↔
      ∀ t, s = some t → KeptValues jsonLoads jsonDumps t := by
  rw [h]
  cases s with
  | none => simp [asJsonArray, arrayToStorage, sortKeys, sortElements]
  | some t =>
    rw [Option.map_some]
    by_cases hne : columnText t = []
    · rw [hne]
      constructor
      · intro hback
        cases hback
      · intro hkept
        obtain ⟨hnul, hnonempty, -⟩ := hkept t rfl
        rw [columnText_of_notMem hnul] at hne
        exact absurd hne hnonempty
    · rw [arrayToStorage_column hloads hdumps hne]
      constructor
      · rintro hkept t' ht'
        cases ht'
        exact hkept
      · exact fun hkept ↦ hkept t rfl

/-! ### Numbers -/

/-- The number at the start of a column. -/
def numeric (s : Option Text) : Option Int := (s.map columnText).bind strtol

/-- A short decimal has no NUL. -/
theorem zero_notMem_shortDecimal (n : Int) : 0 ∉ shortDecimal n := by
  have hnat : ∀ n : Nat, (0 : UInt8) ∉ decimalNat n := by
    intro n h
    exact absurd (isDigit_decimalNat n 0 h) (by decide)
  unfold shortDecimal
  rw [ascii_toString]
  intro h
  have hmem := List.mem_of_mem_take h
  cases n with
  | ofNat n => exact hnat n hmem
  | negSucc n =>
    rcases List.mem_cons.mp hmem with h0 | hdigits
    · cases h0
    · exact hnat _ hdigits

/-- A number that is emitted from a column is read as the number at its start. -/
theorem jsonIntOrNull_column {s : Option Text}
    (h : o.lookup key = some (asJsonTrackInt (s.map columnText))) :
    jsonIntOrNull o key = numeric s := by
  unfold jsonIntOrNull numeric
  rw [h]
  unfold asJsonTrackInt
  cases (s.map columnText).bind strtol with
  | none => rfl
  | some n => rfl

/-- A number comes back exactly when it fits the buffer. -/
theorem numeric_back {s : Option Text}
    (h : o.lookup key = some (asJsonTrackInt (s.map columnText))) :
    numeric ((jsonIntOrNull o key).map shortDecimal) = numeric s ↔
      ∀ n, numeric s = some n → FitsShort n := by
  rw [jsonIntOrNull_column h]
  cases hs : numeric s with
  | none => simp [numeric]
  | some n =>
    have hread : numeric (some (shortDecimal n)) = strtol (shortDecimal n) := by
      unfold numeric
      rw [Option.map_some, columnText_of_notMem (zero_notMem_shortDecimal n), Option.bind_some]
    rw [Option.map_some, hread, strtol_shortDecimal]
    constructor
    · rintro hfits n' hn'
      cases hn'
      exact hfits
    · exact fun hfits ↦ hfits n rfl

/-- A duration comes back unless it is negative. -/
theorem duration_back {d : Option Int64}
    (h : o.lookup key = some (d.elim .null fun d ↦ .integer d.toInt)) :
    ((jsonIntOrNull o key).filter fun d ↦ decide (0 ≤ d)) = d.map Int64.toInt ↔
      ∀ n, d = some n → 0 ≤ n.toInt := by
  unfold jsonIntOrNull
  rw [h]
  cases d with
  | none => simp
  | some n =>
    simp only [Option.elim_some, Option.map_some, Option.filter_some, Option.some.injEq,
      decide_eq_true_eq, forall_eq']
    by_cases hn : 0 ≤ n.toInt
    · simp [hn]
    · simp [hn]

/-- A size comes back. -/
theorem long_back {n : Int64} (h : o.lookup key = some (.integer n.toInt)) :
    (jsonIntOrNull o key).getD 0 = n.toInt := by
  unfold jsonIntOrNull
  rw [h]
  rfl

/-! ### Paths -/

/-- The parts of a path have no slash. -/
theorem slash_notMem_splitOn {t c : Text} (h : c ∈ t.splitOn 47) : 47 ∉ c := by
  induction t generalizing c with
  | nil =>
    rw [List.splitOn_nil, List.mem_singleton] at h
    rw [h]
    exact List.not_mem_nil
  | cons b t ih =>
    rw [List.splitOn_cons_eq_if_modifyHead] at h
    split at h
    · rcases List.mem_cons.mp h with rfl | h
      · exact List.not_mem_nil
      · exact ih h
    · next hb =>
      obtain ⟨d, ds, hd⟩ := List.exists_cons_of_ne_nil (List.splitOn_ne_nil 47 t)
      rw [hd] at h ih
      rcases List.mem_cons.mp h with rfl | h
      · intro hmem
        rcases List.mem_cons.mp hmem with he | hmem
        · exact hb (by simp [he])
        · exact ih (.head _) hmem
      · exact ih (.tail _ h)

/-- Different texts are different paths. -/
theorem splitPath_injective : Function.Injective splitPath := by
  intro t t' h
  have hback : t.splitOn 47 = t'.splitOn 47 := by
    unfold splitPath at h
    split at h
    · next names hs =>
      split at h
      · next names' hs' => rw [hs, hs', h]
      · next names' hs' =>
        have hmem : [47] ∈ t.splitOn 47 := by
          rw [hs, h]
          exact .tail _ (.head _)
        exact absurd (List.mem_singleton_self _) (slash_notMem_splitOn hmem)
    · next names hs =>
      split at h
      · next names' hs' =>
        have hmem : [47] ∈ t'.splitOn 47 := by
          rw [hs', ← h]
          exact .tail _ (.head _)
        exact absurd (List.mem_singleton_self _) (slash_notMem_splitOn hmem)
      · exact List.tail_eq_of_cons_eq h
  have hjoin : ∀ t : Text, [47].intercalate (t.splitOn 47) = t := fun _ ↦ List.intercalate_splitOn 47
  rw [← hjoin t, hback, hjoin]

/-- A path that comes back: it fits the buffer; under an absolute library root it is the root, one
slash and what does not start with one (or what the buffer holds of an overlong root); under
another one that root is not taken off. -/
def KeptPath (path : Text) (root : Option Text) : Prop :=
  0 ∉ path ∧ path.length ≤ 4095 ∧
    match root with
    | none => True
    | some root =>
      if root.head? = some 47 then
        (∃ rel, path = root ++ 47 :: rel ∧ rel.head? ≠ some 47) ∨
          4095 ≤ root.length ∧ path = root.take 4095
      else root = [] ∨ ¬ root <+: path

/-- Behind the slashes comes no slash. -/
theorem head?_dropSlashes (t : Text) : (t.dropWhile fun b ↦ b == 47).head? ≠ some 47 := by
  intro h
  have hne := List.head?_dropWhile_not (fun b : UInt8 ↦ b == 47) t
  rw [h] at hne
  cases hne

/-- A text that does not start with a slash is left as it is. -/
theorem dropSlashes_of_head {t : Text} (h : t.head? ≠ some 47) :
    (t.dropWhile fun b ↦ b == 47) = t := by
  cases t with
  | nil => rfl
  | cons b t =>
    apply List.dropWhile_cons_of_neg
    intro hb
    apply h
    rw [beq_iff_eq.mp hb]
    rfl

/-- A path below the root loses the root and the slashes behind it. -/
theorem makeRelative_cons (path : Text) {b : UInt8} {bs : Text} :
    makeRelative path (some (b :: bs)) = if b :: bs <+: path then
      (path.drop (b :: bs).length).dropWhile fun b ↦ b == 47 else path := rfl

/-- What is below an absolute root comes back. -/
theorem absText_back {root path : Text} (hroot : root.head? = some 47) :
    (root ++ 47 :: makeRelative path (some root)).take 4095 = path ↔
      path.length ≤ 4095 ∧ ((∃ rel, path = root ++ 47 :: rel ∧ rel.head? ≠ some 47) ∨
        4095 ≤ root.length ∧ path = root.take 4095) := by
  obtain ⟨bs, rfl⟩ : ∃ bs, root = 47 :: bs := by
    cases root with
    | nil => cases hroot
    | cons b bs =>
      cases hroot
      exact ⟨bs, rfl⟩
  generalize hr : (47 :: bs : Text) = root
  have hrel : makeRelative path (some root) = if root <+: path then
      (path.drop root.length).dropWhile fun b ↦ b == 47 else path := by
    rw [← hr]
    rfl
  constructor
  · intro h
    have hlen : path.length ≤ 4095 := by
      rw [← h]
      exact List.length_take_le _ _
    refine ⟨hlen, ?_⟩
    by_cases hlong : 4095 ≤ root.length
    · right
      rw [List.take_append_of_le_length hlong] at h
      exact ⟨hlong, h.symm⟩
    · left
      rw [List.take_append, List.take_of_length_le (by omega)] at h
      obtain ⟨k, hk⟩ : ∃ k, 4095 - root.length = k + 1 := ⟨4094 - root.length, by omega⟩
      rw [hk, List.take_succ_cons] at h
      generalize makeRelative path (some root) = rel at h hrel
      rw [if_pos ⟨_, h⟩, ← h, List.drop_left] at hrel
      rw [List.dropWhile_cons_of_pos (by decide)] at hrel
      have hhead : rel.head? ≠ some 47 := by
        rw [hrel]
        exact head?_dropSlashes _
      have hall : rel.take k = rel := by
        apply List.take_of_length_le
        by_contra hlt
        have hle := (List.dropWhile_sublist (fun b : UInt8 ↦ b == 47) (l := rel.take k)).length_le
        rw [← hrel, List.length_take] at hle
        omega
      rw [hall] at h
      exact ⟨rel, h.symm, hhead⟩
  · rintro ⟨hlen, ⟨rel, hpath, hhead⟩ | ⟨hlong, hpath⟩⟩
    · have hsame : makeRelative path (some root) = rel := by
        rw [hrel, if_pos ⟨_, hpath.symm⟩, hpath, List.drop_left,
          List.dropWhile_cons_of_pos (by decide), dropSlashes_of_head hhead]
      rw [hsame, ← hpath]
      exact List.take_of_length_le hlen
    · rw [List.take_append_of_le_length hlong, hpath]

/-- Where no root is put in front, the path comes back if none was taken off. -/
theorem relText_back {root path : Text} :
    (makeRelative path (some root)).take 4095 = path ↔
      path.length ≤ 4095 ∧ (root = [] ∨ ¬ root <+: path) := by
  have htake : ∀ {rel : Text}, rel = path → (rel.take 4095 = path ↔ path.length ≤ 4095) := by
    intro rel hrel
    rw [hrel]
    exact List.take_eq_self_iff _
  cases hr : root with
  | nil =>
    show path.take 4095 = path ↔ _
    simp
  | cons b bs =>
    rw [makeRelative_cons, ← hr]
    by_cases hpre : root <+: path
    · rw [if_pos hpre]
      refine iff_of_false (fun h ↦ ?_) fun h ↦ ?_
      · have hle := (List.dropWhile_sublist (fun b : UInt8 ↦ b == 47)
          (l := path.drop root.length)).length_le
        have hlen := congrArg List.length h
        have hpos := hpre.length_le
        rw [List.length_take] at hlen
        rw [List.length_drop] at hle
        have hroot : 0 < root.length := by
          rw [hr]
          exact Nat.succ_pos _
        omega
      · rcases h.2 with hnil | hnot
        · rw [hr] at hnil
          cases hnil
        · exact hnot hpre
    · rw [if_neg hpre, htake rfl]
      simp [hpre]

/-- A path comes back exactly when it is one of those. -/
theorem path_back {path : Text} (hroot : ∀ r, root = some r → 0 ∉ r) :
    absPath root (makeRelative (columnText path) root) = splitPath path ↔ KeptPath path root := by
  unfold absPath KeptPath
  rw [splitPath_injective.eq_iff]
  by_cases hnul : 0 ∈ path
  · refine iff_of_false (fun h ↦ ?_) fun h ↦ h.1 hnul
    have hrel : 0 ∉ makeRelative (columnText path) root := by
      intro hmem
      apply zero_notMem_columnText path
      unfold makeRelative at hmem
      split at hmem
      · exact hmem
      · exact hmem
      · split at hmem
        · exact List.mem_of_mem_drop ((List.dropWhile_sublist _).subset hmem)
        · exact hmem
    rw [← h] at hnul
    have hmem := List.mem_of_mem_take hnul
    cases root with
    | none => exact hrel hmem
    | some r =>
      dsimp only at hmem
      split at hmem
      · rcases List.mem_append.mp hmem with hr | hmem
        · exact hroot r rfl hr
        · rcases List.mem_cons.mp hmem with h0 | hmem
          · cases h0
          · exact hrel hmem
      · exact hrel hmem
  · rw [columnText_of_notMem hnul]
    cases root with
    | none => simp [makeRelative, hnul]
    | some r =>
      dsimp only
      by_cases habs : r.head? = some 47
      · rw [if_pos habs, if_pos habs, absText_back habs]
        simp [hnul]
      · rw [if_neg habs, if_neg habs, relText_back]
        simp [hnul]

end Nocturne
