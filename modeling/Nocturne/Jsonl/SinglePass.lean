import Nocturne.Jsonl.Resume

/-!
# Call after call

What each call of `jsonl_read_line` on one reader returns, and the offset after it, however often
it is called and however short the reads are: `Records.marks` of the file from the starting offset
on, and then the end of the file for ever.
-/

namespace Nocturne

open Lib Lib.Records

/-- How `jsonl_read_line` returns a report. -/
def LineResult.ofReport : Report UInt8 → LineResult
  | .record l => .line l
  | .oversize => .oversize

/-- The first `n` calls on a reader: what each returns, and the reader after it. -/
def readCalls : Nat → JsonlReader → List (LineResult × JsonlReader)
  | 0, _ => []
  | n + 1, r => jsonlReadLine r :: readCalls n (jsonlReadLine r).2

/-- What `n` calls that take the bytes `s`, which start at `offset`, return, and their offsets. -/
def passCalls (n offset : Nat) (s : Text) : List (LineResult × Nat) :=
  (((marks newline jsonlMaxLine offset s).map fun m ↦ (LineResult.ofReport m.1, m.2)) ++
    List.replicate n (LineResult.eof, stop newline jsonlMaxLine offset s)).take n

/-- The bytes that a reader opened at `start` has read so far. -/
def bytesRead (start : Nat) (r : JsonlReader) : Nat := r.fd.pos - start

section Calls

variable {r r' : JsonlReader} {x : LineResult} {s v : Text} {report : Report UInt8}
  {n offset mark : Nat}

theorem passCalls_of_mark
    (h : marks newline jsonlMaxLine offset s = (report, mark) :: marks newline jsonlMaxLine mark v)
    (hstop : stop newline jsonlMaxLine offset s = stop newline jsonlMaxLine mark v) :
    passCalls (n + 1) offset s = (LineResult.ofReport report, mark) :: passCalls n mark v := by
  have htake : ∀ (l : List (LineResult × Nat)) (e : LineResult × Nat),
      (l ++ List.replicate (n + 1) e).take n = (l ++ List.replicate n e).take n := by
    intro l e
    rw [List.replicate_succ', ← List.append_assoc, List.take_append_of_le_length]
    simp
  rw [passCalls, passCalls, h, hstop, List.map_cons, List.cons_append, List.take_succ_cons, htake]

theorem passCalls_of_no_mark (h : marks newline jsonlMaxLine offset s = []) :
    passCalls n offset s = List.replicate n (LineResult.eof, stop newline jsonlMaxLine offset s) := by
  rw [passCalls, h]
  simp

/-- One call returns the first report and stops where it ends, or the end of the file. -/
theorem passCalls_succ (h : ReadsLine r r' x) (hx : ∀ e, x ≠ .error e) (n : Nat) :
    passCalls (n + 1) r.offset r.unread = (x, r'.offset) :: passCalls n r'.offset r'.unread := by
  cases h with
  | @line l moves none_in fits =>
    have hu : r.unread = l ++ newline :: r'.unread := by
      rw [moves.unread]
      simp
    have ho : r'.offset = r.offset + (l.length + 1) := by
      rw [moves.offset]
      simp
    have hm := @marks_cons _ _ newline jsonlMaxLine _ _ _ r.offset hu none_in
    rw [← ho, Records.report, if_pos fits] at hm
    exact passCalls_of_mark hm.1 hm.2
  | eof moves none_in fits =>
    have hu : r.unread = r'.unread := moves.unread
    have ho : r'.offset = r.offset := moves.offset
    have hm : marks newline jsonlMaxLine r.offset r.unread = [] := by
      rw [hu, marks_of_not_mem _ none_in, reportTail, if_pos fits]
      rfl
    have hstop : stop newline jsonlMaxLine r.offset r.unread = r'.offset := by
      rw [hu, stop, taken, split_of_not_mem none_in, if_pos fits, ho]
      rfl
    rw [← hu, ho, passCalls_of_no_mark hm, passCalls_of_no_mark hm, hstop, ho]
    rfl
  | @oversize s t moves none_in long skips =>
    have ho := moves.offset
    rcases skips with ⟨l, rfl, hl⟩ | ⟨ht, hend⟩
    · have hsl : newline ∉ s ++ l := by
        rw [List.mem_append]
        exact fun hm ↦ hm.elim none_in hl
      have hlong : ¬ (s ++ l).length ≤ jsonlMaxLine := by
        rw [List.length_append]
        omega
      have hu : r.unread = (s ++ l) ++ newline :: r'.unread := by
        rw [moves.unread]
        simp
      have ho : r'.offset = r.offset + ((s ++ l).length + 1) := by
        rw [ho]
        simp
        omega
      have hm := @marks_cons _ _ newline jsonlMaxLine _ _ _ r.offset hu hsl
      rw [← ho, Records.report, if_neg hlong] at hm
      exact passCalls_of_mark hm.1 hm.2
    · have hst : newline ∉ s ++ t := by
        rw [List.mem_append]
        exact fun hm ↦ hm.elim none_in ht
      have hlong : ¬ (s ++ t).length ≤ jsonlMaxLine := by
        rw [List.length_append]
        omega
      have hu : r.unread = s ++ t := by rw [moves.unread, hend, List.append_nil]
      apply @passCalls_of_mark _ _ .oversize
      · rw [hu, hend, marks_of_not_mem _ hst, reportTail, if_neg hlong, ho]
        rfl
      · rw [hu, hend, stop, stop, taken, split_of_not_mem hst, if_neg hlong, ho]
        rfl
  | error e => exact absurd rfl (hx e)

/-- The calls one after another. -/
theorem readCalls_eq (h : r.Calm) (n : Nat) :
    (readCalls n r).map (fun c ↦ (c.1, jsonlOffset c.2)) = passCalls n r.offset r.unread := by
  induction n generalizing r with
  | zero => rfl
  | succ n ih =>
    have hcalm := jsonlReadLine_calm h
    rw [passCalls_succ (jsonlReadLine_spec r) hcalm.1, readCalls, List.map_cons, ih hcalm.2]
    rfl

/-- The readers only move forward. -/
theorem offset_le_of_mem_readCalls (h : r.Calm) {c : LineResult × JsonlReader}
    (hc : c ∈ readCalls n r) : r.offset ≤ c.2.offset := by
  induction n generalizing r with
  | zero => cases hc
  | succ n ih =>
    have hcalm := jsonlReadLine_calm h
    obtain ⟨s, hs⟩ := (jsonlReadLine_spec r).moves hcalm.1
    have hle : r.offset ≤ (jsonlReadLine r).2.offset := by
      rw [hs.offset]
      omega
    rcases List.mem_cons.mp hc with rfl | hc
    · exact hle
    · exact hle.trans (ih hcalm.2 hc)

end Calls

/-- However short the reads of a file are, the calls on a reader return the records from the
starting offset on, each with its end, and then the end of the file at the offset before a short
tail. The offset is always that of the first byte which was read and is still held. -/
theorem reads_in_one_pass {content : Text} {replies : List ReadReply}
    (h : ∀ e, .err e ∉ replies) (start n : Nat) :
    (readCalls n (jsonlOpen content replies start)).map (fun c ↦ (c.1, jsonlOffset c.2)) =
        passCalls n start (content.drop start) ∧
      ∀ c ∈ readCalls n (jsonlOpen content replies start),
        start ≤ jsonlOffset c.2 ∧
          jsonlOffset c.2 + c.2.held.length = start + bytesRead start c.2 := by
  have hcalm : (jsonlOpen content replies start).Calm := jsonlOpen_calm h
  refine ⟨readCalls_eq hcalm n, fun c hc ↦ ?_⟩
  have hle : start ≤ c.2.offset := offset_le_of_mem_readCalls hcalm hc
  have heq := c.2.offset_eq
  refine ⟨hle, ?_⟩
  rw [JsonlReader.length_held, bytesRead]
  show c.2.offset + _ = _
  omega

/-- Two short reads and an interruption: a line, a tail, and no more. -/
theorem reads_two_lines :
    (readCalls 3 (jsonlOpen [97, 10, 98] [.upTo 0, .eintr, .upTo 0] 0)).map
        (fun c ↦ (c.1, jsonlOffset c.2)) =
      [(.line [97], 2), (.eof, 2), (.eof, 2)] :=
  (reads_in_one_pass (by simp) 0 3).1

end Nocturne
