import Nocturne.Lib.JsonString
import Nocturne.Scan.Tags

/-!
# The string escapers

`scan.c`, `resolver.c` and `diff.c` each have an escaper for JSON strings. They differ in the short
escapes that they know, and the one of `scan.c` writes to a buffer of its own. `escapers_invert`
says that a reader gets back what went in and that the buffer is large enough.
-/

namespace Nocturne

open Lib

/-- The cases of `json_escape_str`, `scan.c:131–138`. -/
def jsonEscapeShorts : JsonString.Shorts where
  table := [(34, 34), (92, 92), (8, 98), (12, 102), (10, 110), (13, 114), (9, 116)]
  known := by simp [JsonString.shortValue, List.lookup_cons]
  quote := rfl
  backslash := rfl

theorem jsonEscapeByte_eq : ∀ c : UInt8,
    jsonEscapeByte c = JsonString.escapeByte jsonEscapeShorts c :=
  Utf8.forall_byte (by decide +kernel)

theorem jsonEscapeStr_eq (s : Text) : jsonEscapeStr s = JsonString.escape jsonEscapeShorts s := by
  unfold jsonEscapeStr JsonString.escape
  rw [funext jsonEscapeByte_eq]

/-- The cases of `emit_str`, `resolver.c:581–585`. -/
def emitStrShorts : JsonString.Shorts where
  table := [(34, 34), (92, 92), (10, 110), (13, 114), (9, 116)]
  known := by simp [JsonString.shortValue, List.lookup_cons]
  quote := rfl
  backslash := rfl

/-- `emit_str`, `resolver.c:574–594`: a null pointer is an empty string. -/
def emitStr (s : Option Text) : Text :=
  34 :: (s.elim [] (JsonString.escape emitStrShorts)) ++ [34]

/-- The cases of `emit_json_str`, `diff.c:228–232`. -/
def emitJsonStrShorts : JsonString.Shorts where
  table := [(34, 34), (92, 92), (10, 110), (9, 116), (13, 114)]
  known := by simp [JsonString.shortValue, List.lookup_cons]
  quote := rfl
  backslash := rfl

/-- `emit_json_str`, `diff.c:223–239`. -/
def emitJsonStr (s : Text) : Text := 34 :: JsonString.escape emitJsonStrShorts s ++ [34]

/-! ### The buffer of `json_escape_str` -/

/-- The buffer, and the place `o` of the next byte. -/
structure EscapeBuf where
  bytes : Text
  o : Nat
  deriving DecidableEq, Repr

/-- The buffer after a write at `o`, where the bytes fit. -/
def EscapeBuf.store (b : EscapeBuf) (written : Text) : Option Text :=
  if b.o + written.length ≤ b.bytes.length then
    some (b.bytes.take b.o ++ written ++ b.bytes.drop (b.o + written.length))
  else none

/-- What is written for a byte. `sprintf` ends its six characters with a NUL. -/
def escapeWritten (c : UInt8) : Text :=
  if c < 0x20 ∧ c ≠ 8 ∧ c ≠ 12 ∧ c ≠ 10 ∧ c ≠ 13 ∧ c ≠ 9 then jsonEscapeByte c ++ [0]
  else jsonEscapeByte c

/-- One turn of the loop. The NUL of `sprintf` does not move the place. -/
def escapeInto (b : EscapeBuf) (c : UInt8) : Option EscapeBuf :=
  (b.store (escapeWritten c)).map fun bytes ↦ ⟨bytes, b.o + (jsonEscapeByte c).length⟩

/-- `json_escape_str` on the buffer that `malloc` gives it, with what it finds there. -/
def jsonEscapeBuf (found : Nat → UInt8) (src : Text) : Option Text := do
  let start : EscapeBuf := ⟨(List.range (src.length * 6 + 1)).map found, 0⟩
  let b ← src.foldlM escapeInto start
  b.store [0]

/-- The loop has written the escaped bytes of `done`, six for each of them at most. -/
structure EscapeBuf.Holds (b : EscapeBuf) (size : Nat) (done : Text) : Prop where
  length : b.bytes.length = size
  o : b.o = (jsonEscapeStr done).length
  le : b.o ≤ 6 * done.length
  written : b.bytes.take b.o = jsonEscapeStr done

/-- A write that fits keeps what is in front of it. -/
theorem EscapeBuf.store_eq {b : EscapeBuf} {written : Text}
    (h : b.o + written.length ≤ b.bytes.length) :
    ∃ bytes, b.store written = some bytes ∧ bytes.length = b.bytes.length ∧
      ∀ n ≤ written.length, bytes.take (b.o + n) = b.bytes.take b.o ++ written.take n := by
  have ho : (b.bytes.take b.o).length = b.o := by
    rw [List.length_take]
    omega
  refine ⟨_, if_pos h, ?_, ?_⟩
  · simp only [List.length_append, List.length_drop, ho]
    omega
  · intro n hn
    rw [List.append_assoc, List.take_append, ho, List.take_of_length_le (by omega),
      Nat.add_sub_cancel_left, List.take_append_of_le_length hn]

/-- There is room for each byte, and for the NUL behind it. -/
theorem EscapeBuf.Holds.step {b : EscapeBuf} {size : Nat} {done : Text} {c : UInt8}
    (h : b.Holds size done) (hsize : 6 * (done.length + 1) < size) :
    ∃ b', escapeInto b c = some b' ∧ b'.Holds size (done ++ [c]) := by
  have hsix : (jsonEscapeByte c).length ≤ 6 := by
    rw [jsonEscapeByte_eq]
    exact JsonString.length_escapeByte_le jsonEscapeShorts c
  have hle := h.le
  have hlength := h.length
  have hprefix : (jsonEscapeByte c).length ≤ (escapeWritten c).length ∧
      (escapeWritten c).take (jsonEscapeByte c).length = jsonEscapeByte c ∧
      (escapeWritten c).length ≤ 7 := by
    unfold escapeWritten
    split
    · rw [List.length_append, List.take_append_of_le_length (Nat.le_refl _), List.take_length]
      exact ⟨Nat.le_add_right _ _, rfl, Nat.succ_le_succ hsix⟩
    · exact ⟨Nat.le_refl _, List.take_length, by omega⟩
  obtain ⟨bytes, hstore, hbytes, htake⟩ :=
    @EscapeBuf.store_eq b (escapeWritten c) (by omega)
  have hdone : jsonEscapeStr (done ++ [c]) = jsonEscapeStr done ++ jsonEscapeByte c := by
    simp [jsonEscapeStr]
  refine ⟨⟨bytes, b.o + (jsonEscapeByte c).length⟩, by rw [escapeInto, hstore]; rfl, ?_, ?_, ?_, ?_⟩
  · exact hbytes.trans hlength
  · rw [hdone, List.length_append, ← h.o]
  · rw [List.length_append, List.length_singleton]
    show b.o + (jsonEscapeByte c).length ≤ _
    omega
  · rw [hdone, htake _ hprefix.1, h.written, hprefix.2.1]

theorem EscapeBuf.Holds.run {b : EscapeBuf} {size : Nat} {done rest : Text}
    (h : b.Holds size done) (hsize : 6 * (done.length + rest.length) < size) :
    ∃ b', rest.foldlM escapeInto b = some b' ∧ b'.Holds size (done ++ rest) := by
  induction rest generalizing b done with
  | nil => exact ⟨b, rfl, by rwa [List.append_nil]⟩
  | cons c rest ih =>
    rw [List.length_cons] at hsize
    obtain ⟨b', hb', hnext⟩ := @EscapeBuf.Holds.step b size done c h (by omega)
    obtain ⟨b'', hb'', hend⟩ := ih hnext (by simp; omega)
    refine ⟨b'', ?_, by simpa using hend⟩
    rw [List.foldlM_cons, hb']
    exact hb''

/-- The buffer holds the escaped text and its NUL, and no write leaves it. -/
theorem jsonEscapeBuf_eq (found : Nat → UInt8) (src : Text) :
    ∃ buf, jsonEscapeBuf found src = some buf ∧
      buf.take ((jsonEscapeStr src).length + 1) = jsonEscapeStr src ++ [0] := by
  have hstart : (⟨(List.range (src.length * 6 + 1)).map found, 0⟩ : EscapeBuf).Holds
      (src.length * 6 + 1) [] := ⟨by simp, rfl, Nat.le_refl 0, rfl⟩
  obtain ⟨b, hb, hend⟩ := @EscapeBuf.Holds.run _ _ _ src hstart (by simp; omega)
  rw [List.nil_append] at hend
  obtain ⟨buf, hbuf, -, htake⟩ := @EscapeBuf.store_eq b [0] (by
    have hle := hend.le
    have hlength := hend.length
    rw [List.length_singleton]
    omega)
  refine ⟨buf, ?_, ?_⟩
  · unfold jsonEscapeBuf
    simp only [hb, Option.bind_eq_bind, Option.bind_some]
    exact hbuf
  · have hlast := htake 1 (Nat.le_refl 1)
    rwa [hend.written, hend.o] at hlast

/-! ### The three escapers -/

/-- A reader gets the text back from the body and stops behind it; the body has no control
character, and no quote that is not escaped. -/
structure EscapeOf (s body : Text) : Prop where
  reads_back : ∀ after, JsonString.read (body ++ 34 :: after) = some (s, after)
  no_control : ∀ c ∈ body, 0x20 ≤ c
  no_quote : 34 ∉ JsonString.unescaped body

theorem escapeOf_escape (shorts : JsonString.Shorts) (s : Text) :
    EscapeOf s (JsonString.escape shorts s) :=
  ⟨JsonString.read_escape shorts s, fun _ h ↦ JsonString.not_control_escape h,
    JsonString.quote_not_mem_unescaped shorts s⟩

/-- Each of the escapers inverts, and the one with a buffer stays within it. -/
theorem escapers_invert (s : Text) :
    EscapeOf s (jsonEscapeStr s) ∧
      (∃ body, emitStr (some s) = 34 :: body ++ [34] ∧ EscapeOf s body) ∧
      (∃ body, emitJsonStr s = 34 :: body ++ [34] ∧ EscapeOf s body) ∧
      ∀ found : Nat → UInt8, ∃ buf, jsonEscapeBuf found s = some buf ∧
        buf.take ((jsonEscapeStr s).length + 1) = jsonEscapeStr s ++ [0] := by
  refine ⟨?_, ⟨_, rfl, escapeOf_escape emitStrShorts s⟩,
    ⟨_, rfl, escapeOf_escape emitJsonStrShorts s⟩, fun found ↦ jsonEscapeBuf_eq found s⟩
  rw [jsonEscapeStr_eq]
  exact escapeOf_escape jsonEscapeShorts s

end Nocturne
