import Nocturne.Catalog.Emit
import Nocturne.Ingest.Event
import Nocturne.Jsonl.Reader
import Nocturne.Lib.Tokens
import Nocturne.Printed

/-!
# Objects on one line

What the logs rely on of the JSON library: `json_dumps(obj, JSON_COMPACT)` prints an object on one
line, and `json_loadb` takes back an object of strings and integers. `compactDumps` and `readObject`
are a printer and a reader of this kind.
-/

namespace Nocturne

open Lib Lib.JsonText

/-! ### The library -/

/-- A C string that `json_string` takes: UTF-8 without zero bytes. -/
def IsText (s : Text) : Prop := utf8Valid s = true ∧ 0 ∉ s

instance (s : Text) : Decidable (IsText s) := inferInstanceAs (Decidable (_ ∧ _))

/-- An integer or such a string. -/
def IsPlain : JsonValue → Prop
  | .integer _ => True
  | .string s => IsText s
  | _ => False

/-- A member with such a key and value. -/
def IsPlainMember (m : Text × JsonValue) : Prop := IsText m.1 ∧ IsPlain m.2

/-- `json_dumps` of an object: it prints something, and no newline. -/
structure JsonDumps where
  print : List (Text × JsonValue) → Text
  one : ∀ ms, newline ∉ print ms
  ne_nil : ∀ ms, print ms ≠ []

/-- What is used of `json_loadb`: it takes back what `json_dumps` wrote, and the strings it gives
are UTF-8 without zero bytes. -/
structure JsonLoad (dumps : JsonDumps) (load : Text → Option Json) : Prop where
  reads : ∀ ms, ms ≠ [] → (ms.map Prod.fst).Nodup → (∀ m ∈ ms, IsPlainMember m) →
    (∀ key n, (key, .integer n) ∈ ms → Int64.minValue.toInt ≤ n ∧ n ≤ Int64.maxValue.toInt) →
    load (dumps.print ms) = some (.object ms)
  texts : ∀ line ms, load line = some (.object ms) → ∀ key s, (key, .string s) ∈ ms → IsText s

/-! ### A printer -/

/-- The short escapes of the printer. -/
def dumpShorts : JsonString.Shorts where
  table := [(92, 92), (34, 34), (8, 98), (12, 102), (10, 110), (13, 114), (9, 116)]
  known := by simp [JsonString.shortValue, List.lookup_cons]
  quote := rfl
  backslash := rfl

/-- A string in its quotes. -/
def dumpString (s : Text) : Text := quoted (JsonString.escape dumpShorts s)

/-- A value. -/
def dumpValue : JsonValue → Text
  | .integer n => decimal n
  | .string s => dumpString s
  | .boolean b => boolText b
  | .other => ascii "null"

/-- A key with its value. -/
def dumpMember (m : Text × JsonValue) : Text := dumpString m.1 ++ 58 :: dumpValue m.2

/-- An object without white space. -/
def dumpObject (ms : List (Text × JsonValue)) : Text :=
  123 :: [44].intercalate (ms.map dumpMember) ++ [125]

/-- A printed string has no newline. -/
theorem newline_notMem_dumpString (s : Text) : newline ∉ dumpString s := by
  intro h
  simp only [dumpString, quoted, List.cons_append, List.mem_cons, List.mem_append,
    List.not_mem_nil, or_false] at h
  rcases h with h | h | h
  · exact absurd h (by decide)
  · exact absurd (JsonString.not_control_escape h) (by decide)
  · exact absurd h (by decide)

/-- A number is made of digits, behind a minus sign perhaps. -/
theorem notMem_decimal {b : UInt8} (hdigit : Nocturne.isDigit b = false) (hminus : b ≠ 45)
    (n : Int) : b ∉ decimal n := by
  have hnat : ∀ m : Nat, b ∉ decimalNat m := by
    intro m h
    have hb := isDigit_decimalNat m b h
    rw [hdigit] at hb
    cases hb
  cases n with
  | ofNat m => exact hnat m
  | negSucc m => exact List.not_mem_cons_of_ne_of_not_mem hminus (hnat (m + 1))

/-- A printed member has no newline. -/
theorem newline_notMem_dumpMember (m : Text × JsonValue) : newline ∉ dumpMember m := by
  have hvalue : newline ∉ dumpValue m.2 := by
    cases m.2 with
    | integer n => exact notMem_decimal (by decide) (by decide) n
    | string s => exact newline_notMem_dumpString s
    | boolean b => cases b <;> decide
    | other => decide
  intro h
  rcases List.mem_append.mp h with h | h
  · exact newline_notMem_dumpString _ h
  · exact List.not_mem_cons_of_ne_of_not_mem (by decide) hvalue h

/-- A printed object has no newline. -/
theorem newline_notMem_dumpObject (ms : List (Text × JsonValue)) : newline ∉ dumpObject ms := by
  intro h
  simp only [dumpObject, List.cons_append, List.mem_cons, List.mem_append, List.not_mem_nil,
    or_false] at h
  rcases h with h | h | h
  · exact absurd h (by decide)
  · obtain ⟨text, htext, h⟩ := (Tokens.mem_intercalate (by decide)).mp h
    obtain ⟨m, -, rfl⟩ := List.mem_map.mp htext
    exact newline_notMem_dumpMember m h
  · exact absurd h (by decide)

/-- A printed object is not empty. -/
theorem dumpObject_ne_nil (ms : List (Text × JsonValue)) : dumpObject ms ≠ [] :=
  List.cons_ne_nil _ _

/-- A printer of objects. -/
def compactDumps : JsonDumps where
  print := dumpObject
  one := newline_notMem_dumpObject
  ne_nil := dumpObject_ne_nil

/-! ### A reader -/

/-- What a handler sees of a value. -/
def valueOf : JsonTree → JsonValue
  | .integer n => .integer n
  | .string s => .string s
  | .boolean b => .boolean b
  | _ => .other

/-- Strings have to be C strings. -/
def takesValue : JsonTree → Bool
  | .string s => decide (IsText s)
  | _ => true

/-- A reader of lines. -/
def readObject (line : Text) : Option Json :=
  match JsonText.read line with
  | some (.object ms) =>
    if ms.all fun m ↦ takesValue m.2 then some (.object (ms.map fun m ↦ (m.1, valueOf m.2)))
    else none
  | some _ => some .other
  | none => none

/-- The tree of a value. -/
def treeOf : JsonValue → JsonTree
  | .integer n => .integer n
  | .string s => .string s
  | .boolean b => .boolean b
  | .other => .null

/-- A printed value is read as its tree. -/
theorem reads_dumpValue (v : JsonValue) : Reads (dumpValue v) (treeOf v) := by
  cases v with
  | integer n => exact reads_decimal n
  | string s => exact reads_escape dumpShorts s
  | boolean b => exact reads_boolText b
  | other =>
    have hnull : dumpValue .other = [110, 117, 108, 108] := by decide +kernel
    exact hnull ▸ reads_word (.tail _ (.tail _ (.head _)))

/-- A printed member is read as its name and tree. -/
theorem readsMember_dumpMember (m : Text × JsonValue) :
    ReadsMember (dumpMember m) (m.1, treeOf m.2) := by
  have h := reads_member (JsonString.read_escape dumpShorts m.1) (s := []) (by simp [Blank])
    (reads_dumpValue m.2)
  simpa [dumpMember, dumpString, quoted] using h

/-- A printed object is read as the tree of its members. -/
theorem read_dumpObject (ms : List (Text × JsonValue)) :
    JsonText.read (dumpObject ms) = some (.object (ms.map fun m ↦ (m.1, treeOf m.2))) := by
  have hreads : Reads (dumpObject ms) (.object (ms.map fun m ↦ (m.1, treeOf m.2))) := by
    apply reads_object
    by_cases hnil : ms = []
    · rw [hnil]
      exact .empty (by simp [Blank])
    · apply Body.items
      apply items_intercalate (by simp [Blank])
      · rw [List.forall₂_map_left_iff, List.forall₂_map_right_iff, List.forall₂_same]
        exact fun m _ ↦ (readsMember_dumpMember m).padded
      · simpa using hnil
  have hblank : Blank [] := by simp [Blank]
  have h := read_of_reads hblank hreads hblank
  simpa using h

/-- The value of the tree of a value is the value. -/
theorem valueOf_treeOf {v : JsonValue} : valueOf (treeOf v) = v := by
  cases v <;> rfl

/-- A plain value is one that the reader takes. -/
theorem takesValue_treeOf {v : JsonValue} (h : IsPlain v) : takesValue (treeOf v) = true := by
  cases v with
  | string s => exact decide_eq_true h
  | _ => rfl

/-- The reader takes back what the printer wrote of C strings. -/
theorem readObject_dumpObject {ms : List (Text × JsonValue)}
    (h : ∀ m ∈ ms, takesValue (treeOf m.2) = true) :
    readObject (dumpObject ms) = some (.object ms) := by
  have htakes : (ms.map fun m ↦ (m.1, treeOf m.2)).all (fun m ↦ takesValue m.2) = true := by
    rw [List.all_map, List.all_eq_true]
    exact h
  unfold readObject
  rw [read_dumpObject]
  dsimp only
  rw [if_pos htakes, List.map_map]
  congr 2
  refine (List.map_congr_left fun m _ ↦ ?_).trans (List.map_id ms)
  exact Prod.ext rfl valueOf_treeOf

/-- The printer and the reader are of the kind that the logs rely on. -/
theorem jsonLoad_readObject : JsonLoad compactDumps readObject where
  reads _ _ _ hplain _ := readObject_dumpObject fun m hm ↦ takesValue_treeOf (hplain m hm).2
  texts line ms h key s hmem := by
    unfold readObject at h
    split at h
    · next trees _ =>
      split at h
      · next hall =>
        cases h
        obtain ⟨m, hm, he⟩ := List.mem_map.mp hmem
        have htakes := List.all_eq_true.mp hall m hm
        cases hv : m.2 with
        | string t =>
          rw [hv] at htakes he
          cases he
          exact of_decide_eq_true htakes
        | _ =>
          rw [hv] at he
          cases he
      · cases h
    · cases h
    · cases h

end Nocturne
