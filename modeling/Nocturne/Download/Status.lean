import Nocturne.Jsonl.Object
import Nocturne.Jsonl.Resume
import Nocturne.Phone.Downloads
import Nocturne.Phone.FileWriter

/-!
# The status log of the downloads

`status_append` writes one line for each change of state, and `load_terminal_ids` finds the
requests that are through by reading the lines back. A terminal line is found again when it
stands on a line of its own that the reader takes.
-/

namespace Nocturne

open Lib Lib.Records

/-! ### Entries -/

/-- What one line of the status log says. -/
structure StatusEntry where
  id : Text
  state : DesktopState
  ts : Int64
  msg : Text
  deriving DecidableEq

/-- The member of a C string: `json_string` refuses what is not UTF-8. -/
def stringMember (key value : Text) : List (Text × JsonValue) :=
  if utf8Valid value then [(key, .string value)] else []

/-- The object of an entry, `download.c:117–123`. -/
def StatusEntry.members (e : StatusEntry) : List (Text × JsonValue) :=
  (ascii "v", .integer 1) :: (stringMember (ascii "id") e.id ++
    stringMember (ascii "state") e.state.text ++ (ascii "ts", .integer e.ts.toInt) ::
      if e.msg.isEmpty then [] else stringMember (ascii "msg") e.msg)

section Append

variable (dumps : JsonDumps)

/-- Entries as lines. -/
def statusFormat : LineFormat StatusEntry where
  encode e := dumps.print e.members
  one e := dumps.one e.members

/-! ### Appending -/

/-- How a `status_append` goes: whether the file opens, how many bytes of the line and whether
the newline are written, and whether the process is killed before it returns. -/
structure AppendReply where
  opens : Bool
  written : Nat
  newline : Bool
  killed : Bool
  deriving DecidableEq

/-- The bytes that are written. -/
def AppendReply.bytes (o : AppendReply) (line : Text) : Text :=
  if o.opens then line.take o.written ++ if o.newline then [Nocturne.newline] else [] else []

/-- Whether 0 is returned. -/
def AppendReply.succeeds (o : AppendReply) (line : Text) : Bool :=
  !o.killed && o.opens && decide (line.length ≤ o.written) && o.newline

/-- `status_append`, `download.c:104–141`: the log, and whether 0 was returned. Nothing is returned
by a process that is killed. -/
def statusAppend (o : AppendReply) (e : StatusEntry) (log : Text) : Text × Option Bool :=
  let line := (statusFormat dumps).encode e
  (log ++ o.bytes line, if o.killed then none else some (o.succeeds line))

end Append

/-! ### Loading -/

section Load

variable (load : Text → Option Json)

/-- The id of a line that says `done` or `error`, `download.c:173–185`. -/
def terminalId (line : Text) : Option Text :=
  if line.isEmpty then none
  else
    match load line with
    | some (.object root) =>
      match stringAt root (ascii "id"), stringAt root (ascii "state") with
      | some id, some state =>
        if state = ascii "done" ∨ state = ascii "error" then some id else none
      | _, _ => none
    | _ => none

/-- The lines that a loop over `jsonl_read_line` looks at. -/
def recordsOf : List (Report UInt8) → List Text
  | [] => []
  | .record line :: rs => line :: recordsOf rs
  | .oversize :: rs => recordsOf rs

/-- `load_terminal_ids`, `download.c:146–189`, of a log that can be opened. -/
def loadTerminalIds (log : Text) (replies : List ReadReply) : List Text :=
  ((recordsOf (readAll (jsonlOpen log replies 0)).1).filterMap (terminalId load)).foldl
    (fun ids id ↦ ids.insert id) []

end Load

/-! ### What is found again -/

variable {dumps : JsonDumps} {load : Text → Option Json} {e : StatusEntry} {o : AppendReply} {log line id : Text}

theorem stringMember_of_isText {key value : Text} (h : IsText value) :
    stringMember key value = [(key, .string value)] := if_pos h.1

theorem isText_text (state : DesktopState) : IsText state.text := by
  cases state <;> decide +kernel

theorem mem_recordsOf {rs : List (Report UInt8)} : line ∈ recordsOf rs ↔ .record line ∈ rs := by
  fun_induction recordsOf rs with
  | case1 => simp
  | case2 l rs ih => simp [ih]
  | case3 rs ih => simp [ih]

theorem mem_foldl_insert {ids done : List Text} :
    id ∈ ids.foldl (fun ids id ↦ ids.insert id) done ↔ id ∈ ids ∨ id ∈ done := by
  induction ids generalizing done with
  | nil => simp
  | cons a ids ih =>
    rw [List.foldl_cons, ih, List.mem_insert_iff, List.mem_cons, ← or_assoc, or_comm (a := id ∈ ids)]

/-- Where no read fails, every line within the limit is looked at. -/
theorem mem_loadTerminalIds {replies : List ReadReply} (hcalm : ∀ e, .err e ∉ replies)
    (hline : line ∈ linesIn log) (hfits : line.length ≤ jsonlMaxLine)
    (hid : terminalId load line = some id) : id ∈ loadTerminalIds load log replies := by
  have hpass := (pass_readAll (@jsonlOpen_calm log replies 0 hcalm)).out_eq
  rw [unread_jsonlOpen, List.drop_zero] at hpass
  have hrecord : Report.record line ∈ reports newline jsonlMaxLine log := by
    refine List.mem_append_left _ (List.mem_map.mpr ⟨line, hline, ?_⟩)
    rw [report, if_pos hfits]
  unfold loadTerminalIds
  rw [mem_foldl_insert, hpass]
  exact Or.inl (List.mem_filterMap.mpr ⟨line, mem_recordsOf.mpr hrecord, hid⟩)

/-- The line of a terminal entry gives its id back. -/
theorem terminalId_encode (hload : JsonLoad dumps load) (hid : IsText e.id) (hmsg : 0 ∉ e.msg)
    (hstate : e.state ≠ .running) : terminalId load ((statusFormat dumps).encode e) = some e.id := by
  have hstateText := isText_text e.state
  have hkey : ∀ key ∈ [ascii "v", ascii "id", ascii "state", ascii "ts", ascii "msg"],
      IsText key := by decide +kernel
  have hterminal : e.state.text = ascii "done" ∨ e.state.text = ascii "error" := by
    cases hs : e.state with
    | running => exact absurd hs hstate
    | done => exact Or.inl rfl
    | error => exact Or.inr rfl
  obtain ⟨msgs, hmsgs, hshape⟩ : ∃ msgs : List (Text × JsonValue),
      (msgs = [] ∨ msgs = [(ascii "msg", .string e.msg)] ∧ IsText e.msg) ∧
      e.members = (ascii "v", .integer 1) :: (ascii "id", .string e.id) ::
        (ascii "state", .string e.state.text) :: (ascii "ts", .integer e.ts.toInt) :: msgs := by
    refine ⟨if e.msg.isEmpty then [] else stringMember (ascii "msg") e.msg, ?_, ?_⟩
    · unfold stringMember
      by_cases hempty : e.msg.isEmpty = true
      · exact Or.inl (if_pos hempty)
      · rw [if_neg hempty]
        by_cases hvalid : utf8Valid e.msg = true
        · rw [if_pos hvalid]
          exact Or.inr ⟨rfl, hvalid, hmsg⟩
        · exact Or.inl (if_neg hvalid)
    · unfold StatusEntry.members
      rw [stringMember_of_isText hid, stringMember_of_isText hstateText]
      rfl
  have hkeys : (e.members.map Prod.fst).Nodup := by
    rw [hshape]
    rcases hmsgs with rfl | ⟨rfl, -⟩ <;> exact of_decide_eq_true rfl
  have hplain : ∀ m ∈ e.members, IsPlainMember m := by
    rw [hshape]
    intro m hm
    simp only [List.mem_cons] at hm
    rcases hm with rfl | rfl | rfl | rfl | hm
    · exact ⟨hkey _ (by simp), trivial⟩
    · exact ⟨hkey _ (by simp), hid⟩
    · exact ⟨hkey _ (by simp), hstateText⟩
    · exact ⟨hkey _ (by simp), trivial⟩
    · rcases hmsgs with rfl | ⟨rfl, htext⟩
      · cases hm
      · rw [List.mem_singleton.mp hm]
        exact ⟨hkey _ (by simp), htext⟩
  have hrange : ∀ key n, (key, .integer n) ∈ e.members →
      Int64.minValue.toInt ≤ n ∧ n ≤ Int64.maxValue.toInt := by
    rw [hshape]
    intro key n hm
    rcases hmsgs with rfl | ⟨rfl, -⟩ <;> simp at hm
    all_goals
      rcases hm with ⟨-, rfl⟩ | ⟨-, rfl⟩
      · decide
      · exact ⟨Int64.minValue_le_toInt _, Int64.toInt_le _⟩
  have hread := hload.reads e.members (by rw [hshape]; simp) hkeys hplain hrange
  have hget : stringAt e.members (ascii "id") = some e.id ∧
      stringAt e.members (ascii "state") = some e.state.text := by
    rw [hshape]
    exact ⟨rfl, rfl⟩
  show terminalId load (dumps.print e.members) = some e.id
  unfold terminalId
  rw [if_neg (by simp [dumps.ne_nil]), hread]
  simp only [hget.1, hget.2, if_pos hterminal]

/-- Where 0 is returned, a log between two lines gets the line of the entry. -/
theorem linesIn_statusAppend (h : (statusAppend dumps o e log).2 = some true) (hend : AtLineEnd log) :
    linesIn (statusAppend dumps o e log).1 = linesIn log ++ [(statusFormat dumps).encode e] := by
  have hbytes : o.bytes ((statusFormat dumps).encode e) = (statusFormat dumps).bytes e := by
    unfold statusAppend AppendReply.succeeds at h
    unfold AppendReply.bytes LineFormat.bytes
    cases hk : o.killed with
    | true => simp [hk] at h
    | false =>
      simp only [hk] at h
      simp at h
      obtain ⟨⟨hopens, hwritten⟩, hnewline⟩ := h
      rw [if_pos hopens, if_pos hnewline, List.take_of_length_le hwritten]
  show linesIn (log ++ o.bytes ((statusFormat dumps).encode e)) = _
  have htail : (split newline log).2 = [] := hend
  rw [hbytes, linesIn_line, htail, List.nil_append]

end Nocturne
