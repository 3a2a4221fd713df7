import Nocturne.Jsonl.Reader
import Nocturne.Lib.Steps

/-!
# The append of the phone

`JsonlFileWriter.appendLine` appends one event as a line of a log. Where both opens of the log
give no descriptor it reports success without a write, and an append that was cut short leaves
the beginning of a line that the next append continues. `append_line_truthful` says that
nothing else goes wrong.
-/

namespace Nocturne

open Lib Lib.Records

/-! ### One append -/

/-- The exceptions of the calls, by the handler that catches them. -/
inductive Thrown where
  | ioException
  | securityException
  | other
  deriving DecidableEq, Repr

/-- What `openFileDescriptor` answers. -/
inductive Opened where
  | descriptor
  | null
  | illegalArgument
  | throws (e : Thrown)
  deriving DecidableEq, Repr

/-- What `resolveOrCreateFile` answers. -/
inductive Resolved where
  | found
  | null
  | throws (e : Thrown)
  deriving DecidableEq, Repr

/-- The answers that one append gets: `cut` is a write that throws after some bytes, `sync` what
`Os.fsync` or the close throws, `prefs` what `setLastStatsSyncAt` throws. -/
structure AppendOutcome where
  resolve : Resolved
  openWa : Opened
  openRw : Opened
  seek : Option Thrown
  cut : Option (Nat × Thrown)
  sync : Option Thrown
  prefs : Option Thrown
  deriving DecidableEq, Repr

/-- The two modes of a descriptor: appending, or at a position. -/
inductive WriteMode where
  | wa
  | rw (pos : Nat)
  deriving DecidableEq, Repr

/-- How the opens of `writeAndFsync` end. -/
inductive Opening where
  | writing (mode : WriteMode)
  | returns
  | throws (e : Thrown)
  deriving DecidableEq, Repr

/-- The bytes of the file after a write. -/
def WriteMode.put (mode : WriteMode) (bytes file : Text) : Text :=
  match mode with
  | .wa => file ++ bytes
  | .rw pos => file.take pos ++ bytes ++ file.drop (pos + bytes.length)

/-- The `catch` clauses of `appendLine`, `JsonlFileWriter.kt:64–73`. -/
def caught : Thrown → Except Thrown Bool
  | .ioException => .ok false
  | .securityException => .ok false
  | .other => .error .other

namespace AppendOutcome

/-- The opens of `writeAndFsync`, `JsonlFileWriter.kt:77–96`: "wa", and where that is not to be
had "rw" at the end of the file. -/
def openFile (o : AppendOutcome) (file : Text) : Opening :=
  match o.openWa with
  | .descriptor => .writing .wa
  | .throws e => .throws e
  | .null | .illegalArgument =>
    match o.openRw with
    | .descriptor =>
      match o.seek with
      | none => .writing (.rw file.length)
      | some e => .throws e
    | .null => .returns
    | .illegalArgument => .throws .other
    | .throws e => .throws e

/-- The write and the fsync, with what they throw. -/
def write (o : AppendOutcome) (mode : WriteMode) (bytes file : Text) : Text × Option Thrown :=
  match o.cut with
  | some (n, e) => (mode.put (bytes.take n) file, some e)
  | none => (mode.put bytes file, o.sync)

/-- The end of the `try` block. -/
def told (o : AppendOutcome) : Except Thrown Bool :=
  match o.prefs with
  | none => .ok true
  | some e => caught e

/-- `appendLine`, `JsonlFileWriter.kt:51–75`, with the file it leaves. -/
def appendLine (o : AppendOutcome) (bytes file : Text) : Text × Except Thrown Bool :=
  match o.resolve with
  | .null => (file, .ok false)
  | .throws e => (file, .error e)
  | .found =>
    match o.openFile file with
    | .throws e => (file, caught e)
    | .returns => (file, o.told)
    | .writing mode =>
      let written := o.write mode bytes file
      (written.1, match written.2 with
        | some e => caught e
        | none => o.told)

end AppendOutcome

/-- The text of an event, as `Json.encodeToString` gives it: on one line. -/
structure LineFormat (T : Type) where
  encode : T → Text
  one : ∀ e, newline ∉ encode e

/-- The bytes that `appendLine` writes for an event. -/
def LineFormat.bytes {T : Type} (fmt : LineFormat T) (e : T) : Text := fmt.encode e ++ [newline]

/-- The complete lines of a file. -/
def linesIn (file : Text) : List Text := (split newline file).1

/-- The file ends between two lines. -/
def AtLineEnd (file : Text) : Prop := (split newline file).2 = []

section Append

variable {T : Type} {fmt : LineFormat T} {o : AppendOutcome} {e : T} {bytes file w : Text}

theorem linesIn_grows (file w : Text) : linesIn file <+: linesIn (file ++ w) := by
  unfold linesIn
  rw [split_append]
  exact List.prefix_append ..

/-- A line written at the end continues what stands there. -/
theorem linesIn_line (fmt : LineFormat T) (e : T) (file : Text) :
    linesIn (file ++ fmt.bytes e) = linesIn file ++ [(split newline file).2 ++ fmt.encode e] := by
  have hnone : newline ∉ (split newline file).2 ++ fmt.encode e := by
    rw [List.mem_append]
    exact fun h ↦ h.elim (not_mem_tail newline file) (fmt.one e)
  unfold linesIn
  rw [split_append, LineFormat.bytes, ← List.append_assoc, split_append_sep hnone]
  rfl

theorem caught_ne_true (e : Thrown) : caught e ≠ .ok true := by
  cases e <;> exact fun h ↦ (by cases h)

theorem told_eq_true : o.told = .ok true ↔ o.prefs = none := by
  unfold AppendOutcome.told
  cases o.prefs with
  | none => simp
  | some e => simp [caught_ne_true]

/-- An open for writing is at the end of the file. -/
theorem put_openFile {mode : WriteMode} (h : o.openFile file = .writing mode) (bytes : Text) :
    mode.put bytes file = file ++ bytes := by
  cases mode with
  | wa => rfl
  | rw pos =>
    have hpos : pos = file.length := by
      unfold AppendOutcome.openFile at h
      split at h <;> try cases h
      all_goals
        split at h <;> try cases h
        split at h <;> cases h
        rfl
    subst hpos
    simp [WriteMode.put]

/-- A write adds bytes at the end. -/
theorem write_grows {mode : WriteMode} (h : o.openFile file = .writing mode) (bytes : Text) :
    ∃ w, (o.write mode bytes file).1 = file ++ w := by
  unfold AppendOutcome.write
  cases o.cut with
  | none => exact ⟨bytes, put_openFile h bytes⟩
  | some c => exact ⟨bytes.take c.1, put_openFile h _⟩

/-- An append adds bytes at the end. -/
theorem appendLine_grows (o : AppendOutcome) (bytes file : Text) :
    ∃ w, (o.appendLine bytes file).1 = file ++ w := by
  have hsame : ∃ w, file = file ++ w := ⟨[], (List.append_nil file).symm⟩
  unfold AppendOutcome.appendLine
  split
  · exact hsame
  · exact hsame
  · split
    · exact hsame
    · exact hsame
    · next mode hopen => exact write_grows hopen bytes

/-- When an append reports success: it wrote all, or it had no descriptor. -/
theorem appendLine_true : (o.appendLine bytes file).2 = .ok true ↔
    o.resolve = .found ∧ o.prefs = none ∧ (o.openFile file = .returns ∨
      (∃ mode, o.openFile file = .writing mode) ∧ o.cut = none ∧ o.sync = none) := by
  unfold AppendOutcome.appendLine
  cases o.resolve with
  | null => simp
  | throws e => simp
  | found =>
    cases hopen : o.openFile file with
    | throws e => simp [caught_ne_true]
    | returns => simp [told_eq_true]
    | writing mode =>
      unfold AppendOutcome.write
      cases o.cut with
      | some c => simp [caught_ne_true]
      | none =>
        cases o.sync with
        | some e => simp [caught_ne_true]
        | none => simp [told_eq_true]

/-- A write that is not cut short leaves all its bytes. -/
theorem appendLine_file {mode : WriteMode} (hr : o.resolve = .found)
    (hopen : o.openFile file = .writing mode) (hc : o.cut = none) (bytes : Text) :
    (o.appendLine bytes file).1 = file ++ bytes := by
  rw [← put_openFile hopen bytes]
  simp only [AppendOutcome.appendLine, hr, hopen, AppendOutcome.write, hc]

/-- An append that reports success has a descriptor, and finds the file between two lines. -/
def SafeAppend (o : AppendOutcome) (file : Text) : Prop :=
  o.resolve = .found → o.prefs = none → o.openFile file ≠ .returns ∧
    ((∃ mode, o.openFile file = .writing mode) → o.cut = none → o.sync = none → AtLineEnd file)

/-- An append that reports success adds its line exactly when it is safe. -/
theorem linesIn_appendLine (h : (o.appendLine (fmt.bytes e) file).2 = .ok true) :
    linesIn (o.appendLine (fmt.bytes e) file).1 = linesIn file ++ [fmt.encode e] ↔
      SafeAppend o file := by
  obtain ⟨hr, hp, hret | ⟨⟨mode, hopen⟩, hc, hs⟩⟩ := appendLine_true.mp h
  · have hfile : (o.appendLine (fmt.bytes e) file).1 = file := by
      unfold AppendOutcome.appendLine
      rw [hr, hret]
    rw [hfile]
    constructor
    · intro hlines
      have hlength := congrArg List.length hlines
      rw [List.length_append, List.length_singleton] at hlength
      omega
    · exact fun hsafe ↦ absurd hret (hsafe hr hp).1
  · rw [appendLine_file hr hopen hc, linesIn_line, List.append_cancel_left_eq, List.cons.injEq]
    constructor
    · rintro ⟨htail, -⟩ _ _
      refine ⟨by rw [hopen]; exact fun h ↦ (by cases h), fun _ _ _ ↦ ?_⟩
      exact List.append_left_eq_self.mp htail
    · intro hsafe
      have htail : (split newline file).2 = [] := (hsafe hr hp).2 ⟨mode, hopen⟩ hc hs
      rw [htail]
      exact ⟨rfl, rfl⟩

end Append

/-! ### Sequences of appends -/

/-- The file, and the events whose append reported success. -/
structure Ledger (T : Type) where
  file : Text
  told : List T

/-- One call. -/
def Ledger.append {T : Type} (fmt : LineFormat T) (s : Ledger T) (call : T × AppendOutcome) :
    Ledger T :=
  let out := call.2.appendLine (fmt.bytes call.1) s.file
  ⟨out.1, match out.2 with
    | .ok true => s.told ++ [call.1]
    | _ => s.told⟩

/-- The events whose append reported success are lines of the file, in their order. -/
def Ledger.Truthful {T : Type} (fmt : LineFormat T) (s : Ledger T) : Prop :=
  (s.told.map fmt.encode).Sublist (linesIn s.file)

/-- Appends tell the truth where each one that reports success has a descriptor, and none follows
a line that was cut short. -/
theorem append_line_truthful {T : Type} (fmt : LineFormat T) (file : Text)
    (calls : List (T × AppendOutcome))
    (h : Steps.Meets (Ledger.append fmt) (fun s call ↦ SafeAppend call.2 s.file) ⟨file, []⟩ calls) :
    Steps.Always (Ledger.append fmt) (Ledger.Truthful fmt) ⟨file, []⟩ calls := by
  refine Steps.always_of_inv (I := Ledger.Truthful fmt) (fun _ ht ↦ ht) ?_ (List.nil_sublist _) h
  intro s call ht hsafe
  unfold Ledger.Truthful Ledger.append
  dsimp only
  split
  · next hret =>
    rw [(linesIn_appendLine hret).mpr hsafe, List.map_append]
    exact ht.append (List.Sublist.refl _)
  · obtain ⟨w, hw⟩ := appendLine_grows call.2 (fmt.bytes call.1) s.file
    rw [hw]
    exact ht.trans (linesIn_grows s.file w).sublist

namespace NoDescriptor

/-- Events that are numbers of bytes. -/
def fmt : LineFormat Nat := ⟨fun n ↦ List.replicate n 49, fun n ↦ by
  rw [List.mem_replicate]
  exact fun h ↦ (by cases h.2)⟩

/-- Nothing goes wrong. -/
def fine : AppendOutcome := ⟨.found, .descriptor, .descriptor, none, none, none, none⟩

/-- Both opens answer null. -/
def null : AppendOutcome := { fine with openWa := .null, openRw := .null }

/-- The write throws after two bytes. -/
def torn : AppendOutcome := { fine with cut := some (2, .ioException) }

end NoDescriptor

/-- An append without a descriptor reports success and writes nothing; one that follows a cut
line reports success and writes no line of its own. -/
theorem append_line_lies :
    ¬ Steps.Always (Ledger.append NoDescriptor.fmt) (Ledger.Truthful NoDescriptor.fmt) ⟨[], []⟩
        [(3, NoDescriptor.null)] ∧
      ¬ Steps.Always (Ledger.append NoDescriptor.fmt) (Ledger.Truthful NoDescriptor.fmt) ⟨[], []⟩
        [(3, NoDescriptor.torn), (3, NoDescriptor.fine)] := by
  constructor
  · intro h
    have hlast : List.Sublist [[49, 49, 49]] ([] : List Text) := h.last
    cases hlast
  · intro h
    have hlast : List.Sublist [[49, 49, 49]] ([[49, 49, 49, 49, 49]] : List Text) := h.last
    rw [List.singleton_sublist] at hlast
    revert hlast
    decide

/-- A failed append that wrote nothing does no harm. -/
theorem append_after_failure :
    Steps.Always (Ledger.append NoDescriptor.fmt) (Ledger.Truthful NoDescriptor.fmt) ⟨[], []⟩
      [(3, { NoDescriptor.fine with cut := some (0, .ioException) }), (3, NoDescriptor.fine)] := by
  apply append_line_truthful
  refine ⟨fun _ _ ↦ ⟨by decide, fun _ h ↦ (by cases h)⟩, ?_, trivial⟩
  exact fun _ _ ↦ ⟨by decide, fun _ _ _ ↦ rfl⟩

end Nocturne
