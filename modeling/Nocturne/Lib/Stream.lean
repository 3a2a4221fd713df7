import Mathlib.Data.List.Basic

/-!
# Buffered output

A stream collects what is written to it in a buffer, and writes the buffer to its file when it likes.
Such a write may fail part of the way; then the buffer is dropped and the error indicator stays set.
What the file and the buffer hold together is all that was written exactly where the indicator is
clear.
-/

namespace Lib

variable {α : Type}

/-- How the system takes the buffer: all of it, or no more than `n` symbols before it fails. -/
inductive Drain where
  | all
  | fails (n : Nat)
  deriving DecidableEq, Repr

/-- An output stream. -/
structure Stream (α : Type) where
  file : List α
  buffer : List α
  error : Bool

namespace Stream

/-- A stream to an empty file. -/
def new : Stream α := ⟨[], [], false⟩

/-- The system fails before it has taken the buffer. -/
def cutsOff (s : Stream α) : Drain → Bool
  | .all => false
  | .fails n => decide (n < s.buffer.length)

/-- The buffer is written out. -/
def drain (s : Stream α) (d : Drain) : Stream α :=
  match d with
  | .all => ⟨s.file ++ s.buffer, [], s.error⟩
  | .fails n =>
    if n < s.buffer.length then ⟨s.file ++ s.buffer.take n, [], true⟩
    else ⟨s.file ++ s.buffer, [], s.error⟩

/-- Symbols are put into the buffer. -/
def put (s : Stream α) (xs : List α) : Stream α := { s with buffer := s.buffer ++ xs }

/-- A write. Each of `drains` tells how many more symbols the buffer takes before it is written out,
and how that goes; after a failure the rest is not taken. -/
def write (s : Stream α) (xs : List α) : List (Nat × Drain) → Stream α
  | [] => s.put xs
  | (k, d) :: ds =>
    if (s.put (xs.take k)).cutsOff d then (s.put (xs.take k)).drain d
    else ((s.put (xs.take k)).drain d).write (xs.drop k) ds

/-- Writes one after another. -/
def writeAll (s : Stream α) (writes : List (List α × List (Nat × Drain))) : Stream α :=
  writes.foldl (fun s w ↦ s.write w.1 w.2) s

/-- The stream has kept all of what was written to it, or has lost some of it and says so. -/
structure Keeps (s : Stream α) (written : List α) : Prop where
  whole : s.error = false → s.file ++ s.buffer = written
  cut : s.error = true → (s.file ++ s.buffer).length < written.length

variable {s : Stream α} {written xs : List α} {d : Drain}

/-- A new stream holds what was written: nothing. -/
theorem keeps_new : (new : Stream α).Keeps [] where
  whole _ := rfl
  cut h := by cases h

/-- Bytes are put into the buffer. -/
theorem Keeps.put (h : s.Keeps written) (xs : List α) : (s.put xs).Keeps (written ++ xs) where
  whole he := by
    show s.file ++ (s.buffer ++ xs) = _
    rw [← List.append_assoc, h.whole he]
  cut he := by
    have hlt := h.cut he
    show (s.file ++ (s.buffer ++ xs)).length < _
    simp only [List.length_append] at hlt ⊢
    omega

@[simp] theorem buffer_drain (s : Stream α) (d : Drain) : (s.drain d).buffer = [] := by
  cases d with
  | all => rfl
  | fails n =>
    unfold drain
    dsimp only
    split <;> rfl

/-- A drain reports an error exactly where it cuts the buffer off, unless there was one. -/
theorem error_drain (s : Stream α) (d : Drain) : (s.drain d).error = (s.error || s.cutsOff d) := by
  cases d with
  | all => simp [drain, cutsOff]
  | fails n =>
    unfold drain cutsOff
    dsimp only
    split
    · next h => simp [h]
    · next h => simp [h]

/-- There is nothing left to write out. -/
theorem drain_drain (s : Stream α) (d d' : Drain) : (s.drain d).drain d' = s.drain d := by
  have hempty : ∀ t : Stream α, t.buffer = [] → t.drain d' = t := by
    rintro ⟨file, buffer, error⟩ rfl
    cases d' with
    | all => simp [drain]
    | fails n => simp [drain]
  exact hempty _ (buffer_drain s d)

/-- A drain that is cut off leaves less than there was. -/
theorem Keeps.cutOff (h : s.Keeps written) (hd : s.cutsOff d = true) :
    ((s.drain d).file).length < written.length := by
  cases d with
  | all => cases hd
  | fails n =>
    have hn : n < s.buffer.length := of_decide_eq_true hd
    have hle : (s.file ++ s.buffer).length ≤ written.length := by
      cases he : s.error with
      | false => exact Nat.le_of_eq (congrArg List.length (h.whole he))
      | true => exact Nat.le_of_lt (h.cut he)
    simp only [drain, if_pos hn, List.length_append, List.length_take] at hle ⊢
    omega

/-- A drain that goes through writes the buffer. -/
theorem file_drain (hd : s.cutsOff d = false) : (s.drain d).file = s.file ++ s.buffer := by
  cases d with
  | all => rfl
  | fails n =>
    have hn : ¬ n < s.buffer.length := of_decide_eq_false hd
    simp only [drain, if_neg hn]

/-- A drain keeps what was written before. -/
theorem Keeps.drain (h : s.Keeps written) (d : Drain) : (s.drain d).Keeps written := by
  cases hd : s.cutsOff d with
  | false =>
    constructor
    · intro he
      rw [error_drain, hd, Bool.or_false] at he
      rw [buffer_drain, List.append_nil, file_drain hd]
      exact h.whole he
    · intro he
      rw [error_drain, hd, Bool.or_false] at he
      rw [buffer_drain, List.append_nil, file_drain hd]
      exact h.cut he
  | true =>
    constructor
    · intro he
      rw [error_drain, hd, Bool.or_true] at he
      cases he
    · intro _
      rw [buffer_drain, List.append_nil]
      exact h.cutOff hd

/-- A write keeps what it is given, or says that it does not. -/
theorem Keeps.write (h : s.Keeps written) (xs : List α) (ds : List (Nat × Drain)) :
    (s.write xs ds).Keeps (written ++ xs) := by
  induction ds generalizing s written xs with
  | nil => exact h.put xs
  | cons kd ds ih =>
    obtain ⟨k, d⟩ := kd
    have hput := h.put (xs.take k)
    unfold Stream.write
    by_cases hd : (s.put (xs.take k)).cutsOff d = true
    · rw [if_pos hd]
      constructor
      · intro he
        rw [error_drain, hd, Bool.or_true] at he
        cases he
      · intro _
        have hlt := hput.cutOff hd
        rw [buffer_drain, List.append_nil]
        simp only [List.length_append, List.length_take] at hlt ⊢
        omega
    · rw [if_neg hd]
      have hrest := ih (hput.drain d) (xs.drop k)
      rw [List.append_assoc, List.take_append_drop] at hrest
      exact hrest

/-- Many writes in a row. -/
theorem Keeps.writeAll (h : s.Keeps written) (writes : List (List α × List (Nat × Drain))) :
    (s.writeAll writes).Keeps (written ++ (writes.map Prod.fst).flatten) := by
  induction writes generalizing s written with
  | nil =>
    rw [List.map_nil, List.flatten_nil, List.append_nil]
    exact h
  | cons w writes ih =>
    rw [List.map_cons, List.flatten_cons, ← List.append_assoc]
    exact ih (h.write w.1 w.2)

/-- The file of a stream with an empty buffer holds all that was written exactly where the indicator
is clear. -/
theorem Keeps.file_eq_iff (h : s.Keeps written) (hb : s.buffer = []) :
    s.file = written ↔ s.error = false := by
  constructor
  · intro hfile
    by_contra he
    have hlt := h.cut (by simpa using he)
    rw [hb, List.append_nil, hfile] at hlt
    omega
  · intro he
    have hwhole := h.whole he
    rw [hb, List.append_nil] at hwhole
    exact hwhole

end Stream

end Lib
