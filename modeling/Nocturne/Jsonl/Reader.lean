import Nocturne.Base
import Nocturne.Lib.Records

/-!
# The line reader of the event logs

The reader of `jsonl.c`. A read may return less than was asked for, be interrupted or fail.
The buffer is the list of its valid bytes, and the reader carries the invariant of the file
header. Allocation is taken to succeed, and the `\0` that replaces a returned `\n` in the
buffer is never read again, so it is left out.
-/

namespace Nocturne

open Lib

/-- `JSONL_MAX_LINE`, `jsonl.h`. -/
def jsonlMaxLine : Nat := 65536

/-- `JSONL_INITIAL_BUF`. -/
def jsonlInitialBuf : Nat := 4096

/-- The byte `'\n'`. -/
def newline : UInt8 := 10

/-- `memchr`: where a byte is first found. -/
def memchr (c : UInt8) : Text → Option Nat
  | [] => none
  | b :: bs => if b = c then some 0 else (memchr c bs).map (· + 1)

/-- Where no byte is found, there is none. -/
theorem memchr_eq_none {c : UInt8} {s : Text} (h : memchr c s = none) : c ∉ s := by
  induction s with
  | nil => simp
  | cons b bs ih =>
    unfold memchr at h
    split at h
    · cases h
    · next hb =>
      rw [Option.map_eq_none_iff] at h
      rw [List.mem_cons]
      rintro (rfl | hm)
      · exact hb rfl
      · exact ih h hm

/-- A byte that is found is the first one. -/
theorem memchr_eq_some {c : UInt8} {s : Text} {k : Nat} (h : memchr c s = some k) :
    c ∉ s.take k ∧ s = s.take k ++ c :: s.drop (k + 1) ∧ k < s.length := by
  induction s generalizing k with
  | nil => cases h
  | cons b bs ih =>
    unfold memchr at h
    split at h
    · next hb =>
      cases h
      simp [hb]
    · next hb =>
      rw [Option.map_eq_some_iff] at h
      obtain ⟨j, hj, rfl⟩ := h
      have hi := ih hj
      refine ⟨?_, ?_, Nat.succ_lt_succ hi.2.2⟩
      · rw [List.take_succ_cons, List.mem_cons]
        exact fun hm ↦ hm.elim (fun he ↦ hb he.symm) hi.1
      · rw [List.take_succ_cons, List.drop_succ_cons, List.cons_append, ← hi.2.1]

/-! ### Reading -/

/-- How a `read(2)` goes: it returns at most `n + 1` bytes, is interrupted, or fails. -/
inductive ReadReply where
  | upTo (n : Nat)
  | eintr
  | err (errno : Errno)
  deriving DecidableEq, Repr

/-- An open file. Its reads go as `replies` say, and return all they can afterwards. -/
structure Fd where
  content : Text
  pos : Nat
  replies : List ReadReply

/-- The `do … while` of `jsonl_refill`: `read(2)`, repeated while it is interrupted. -/
def readRetry (content : Text) (pos avail : Nat) :
    List ReadReply → Except Errno Text × List ReadReply
  | [] => (.ok ((content.drop pos).take avail), [])
  | .upTo n :: rs => (.ok ((content.drop pos).take (min avail (n + 1))), rs)
  | .eintr :: rs => readRetry content pos avail rs
  | .err e :: rs => (.error e, rs)

/-- What a read returns is the next part of the file, and nothing only at its end. -/
theorem readRetry_ok {content bytes : Text} {pos avail : Nat} {rs rs' : List ReadReply}
    (h : readRetry content pos avail rs = (.ok bytes, rs')) :
    content.drop pos = bytes ++ content.drop (pos + bytes.length) ∧ bytes.length ≤ avail ∧
      (bytes = [] → 0 < avail → content.drop pos = []) ∧ rs' <:+ rs := by
  have part : ∀ m, m ≤ avail → (0 < avail → 0 < m) →
      content.drop pos = (content.drop pos).take m ++
        content.drop (pos + ((content.drop pos).take m).length) ∧
      ((content.drop pos).take m).length ≤ avail ∧
      ((content.drop pos).take m = [] → 0 < avail → content.drop pos = []) := by
    intro m hm hpos
    refine ⟨?_, ?_, ?_⟩
    · rw [List.length_take, ← List.drop_drop]
      by_cases hl : m ≤ (content.drop pos).length
      · rw [Nat.min_eq_left hl, List.take_append_drop]
      · rw [Nat.min_eq_right (Nat.le_of_not_le hl), List.drop_length, List.append_nil,
          List.take_of_length_le (Nat.le_of_not_le hl)]
    · rw [List.length_take]
      omega
    · intro ht ha
      have := hpos ha
      rw [List.take_eq_nil_iff] at ht
      exact ht.resolve_left (by omega)
  induction rs with
  | nil =>
    cases h
    have hp := part avail (Nat.le_refl _) id
    exact ⟨hp.1, hp.2.1, hp.2.2, List.suffix_rfl⟩
  | cons reply rs ih =>
    cases reply with
    | upTo n =>
      cases h
      have hp := part (min avail (n + 1)) (Nat.min_le_left _ _) (by omega)
      exact ⟨hp.1, hp.2.1, hp.2.2, List.suffix_cons _ _⟩
    | eintr =>
      have hi := ih h
      exact ⟨hi.1, hi.2.1, hi.2.2.1, hi.2.2.2.trans (List.suffix_cons _ _)⟩
    | err e => cases h

/-! ### The reader -/

/-- `struct jsonl_reader`. `offset_eq` is the invariant of the file header, with the file
position as `bytes_read_total`. -/
structure JsonlReader where
  fd : Fd
  buf : Text
  bufCap : Nat
  bufPos : Nat
  offset : Nat
  eof : Bool
  err : Option Errno
  pos_le : bufPos ≤ buf.length
  len_le : buf.length ≤ bufCap
  cap_pos : 0 < bufCap
  cap_le : bufCap ≤ jsonlMaxLine + 1
  offset_eq : offset + (buf.length - bufPos) = fd.pos
  at_end : eof = true → fd.content.drop fd.pos = []

namespace JsonlReader

/-- The buffered bytes that were not returned yet. -/
def held (r : JsonlReader) : Text := r.buf.drop r.bufPos

/-- Everything that was not returned yet. -/
def unread (r : JsonlReader) : Text := r.held ++ r.fd.content.drop r.fd.pos

/-- How much of the file is still to be read. -/
def left (r : JsonlReader) : Nat := r.fd.content.length - r.fd.pos

/-- What is held is the rest of the buffer. -/
theorem length_held (r : JsonlReader) : r.held.length = r.buf.length - r.bufPos :=
  List.length_drop ..

/-- Return `n` of the held bytes: `buf_pos` and `offset` advance. -/
def consume (r : JsonlReader) (n : Nat) (h : n ≤ r.held.length) : JsonlReader :=
  { r with
    bufPos := r.bufPos + n
    offset := r.offset + n
    pos_le := by
      have := r.pos_le
      rw [length_held] at h
      omega
    offset_eq := by
      have := r.offset_eq
      rw [length_held] at h
      omega }

/-- Throw the held bytes away. -/
def discard (r : JsonlReader) : JsonlReader :=
  { r with
    buf := []
    bufPos := 0
    offset := r.offset + (r.buf.length - r.bufPos)
    pos_le := Nat.le_refl 0
    len_le := Nat.zero_le _
    offset_eq := r.offset_eq }

end JsonlReader

/-- `jsonl_compact`, `jsonl.c:73–82`. -/
def jsonlCompact (r : JsonlReader) : JsonlReader :=
  if r.bufPos = 0 then r
  else
    { r with
      buf := r.buf.drop r.bufPos
      bufPos := 0
      pos_le := Nat.zero_le _
      len_le := Nat.le_trans (List.length_drop ▸ Nat.sub_le _ _) r.len_le
      offset_eq := by
        rw [List.length_drop, Nat.sub_zero]
        exact r.offset_eq }

/-- The `while` of `jsonl_grow`. -/
def growLoop (newCap target : Nat) (h : 0 < newCap) : Nat :=
  if newCap < target then
    if jsonlMaxLine + 1 < newCap * 2 then jsonlMaxLine + 1
    else growLoop (newCap * 2) target (by omega)
  else newCap
termination_by target - newCap

/-- The capacity grows to the target, or to its bound. -/
theorem growLoop_spec (newCap target : Nat) (h : 0 < newCap) (hm : newCap ≤ jsonlMaxLine + 1) :
    newCap ≤ growLoop newCap target h ∧ growLoop newCap target h ≤ jsonlMaxLine + 1 ∧
      (newCap < target → newCap < jsonlMaxLine + 1 → newCap < growLoop newCap target h) := by
  induction newCap, h using growLoop.induct target with
  | case1 newCap h hlt hbig =>
    rw [growLoop, if_pos hlt, if_pos hbig]
    exact ⟨hm, Nat.le_refl _, fun _ hc ↦ hc⟩
  | case2 newCap h hlt hbig ih =>
    have hi := ih (Nat.not_lt.mp hbig)
    rw [growLoop, if_pos hlt, if_neg hbig]
    refine ⟨?_, hi.2.1, fun _ _ ↦ ?_⟩ <;> omega
  | case3 newCap h hlt =>
    rw [growLoop, if_neg hlt]
    exact ⟨Nat.le_refl _, hm, fun hc ↦ absurd hc hlt⟩

/-- `jsonl_grow`, `jsonl.c:86–102`. -/
def jsonlGrow (r : JsonlReader) (target : Nat) : JsonlReader :=
  if target ≤ r.bufCap then r
  else
    { r with
      bufCap := growLoop r.bufCap target r.cap_pos
      len_le := Nat.le_trans r.len_le (growLoop_spec _ _ r.cap_pos r.cap_le).1
      cap_pos := Nat.lt_of_lt_of_le r.cap_pos (growLoop_spec _ _ r.cap_pos r.cap_le).1
      cap_le := (growLoop_spec _ _ r.cap_pos r.cap_le).2.1 }

/-- `jsonl_refill`, `jsonl.c:109–125`: the number of bytes appended, zero at the end of the
file or when the buffer is full. -/
def jsonlRefill (r : JsonlReader) : Except Errno Nat × JsonlReader :=
  if hc : r.bufCap ≤ r.buf.length then (.ok 0, r)
  else if he : r.eof then (.ok 0, r)
  else
    match r.err with
    | some e => (.error e, r)
    | none =>
      match h : readRetry r.fd.content r.fd.pos (r.bufCap - r.buf.length) r.fd.replies with
      | (.error e, rs) => (.error e, { r with fd := { r.fd with replies := rs }, err := some e })
      | (.ok bytes, rs) =>
        if hb : bytes = [] then
          (.ok 0, { r with
            fd := { r.fd with replies := rs }
            eof := true
            at_end := fun _ ↦ (readRetry_ok h).2.2.1 hb (by omega) })
        else
          (.ok bytes.length, { r with
            fd := { r.fd with pos := r.fd.pos + bytes.length, replies := rs }
            buf := r.buf ++ bytes
            pos_le := by
              have := r.pos_le
              rw [List.length_append]
              omega
            len_le := by
              have := (readRetry_ok h).2.1
              rw [List.length_append]
              omega
            offset_eq := by
              have := r.offset_eq
              have := r.pos_le
              show r.offset + ((r.buf ++ bytes).length - r.bufPos) = r.fd.pos + bytes.length
              rw [List.length_append]
              omega
            at_end := fun h ↦ absurd h he })

/-- What a successful refill changes: `n` bytes move from the file to the buffer. -/
structure Refilled (r r' : JsonlReader) (n : Nat) : Prop where
  content : r'.fd.content = r.fd.content
  offset : r'.offset = r.offset
  unread : r'.unread = r.unread
  left : r'.left + n = r.left
  at_end : n = 0 → r.buf.length < r.bufCap → r'.held = r.held ∧ r'.unread = r'.held

/-- A buffer that is filled has read on in the file. -/
theorem jsonlRefill_ok {r r' : JsonlReader} {n : Nat} (h : jsonlRefill r = (.ok n, r')) :
    Refilled r r' n := by
  unfold jsonlRefill at h
  split at h
  · next hc =>
    cases h
    exact ⟨rfl, rfl, rfl, rfl, fun _ hlt ↦ absurd hc (Nat.not_le.mpr hlt)⟩
  · split at h
    · next he =>
      cases h
      refine ⟨rfl, rfl, rfl, rfl, fun _ _ ↦ ⟨rfl, ?_⟩⟩
      rw [JsonlReader.unread, r.at_end he, List.append_nil]
    · split at h
      · cases h
      · split at h
        · cases h
        · next bytes rs hr =>
          split at h
          · next hb =>
            cases h
            refine ⟨rfl, rfl, rfl, rfl, fun _ hlt ↦ ⟨rfl, ?_⟩⟩
            have hend := (readRetry_ok hr).2.2.1 hb (Nat.sub_pos_of_lt hlt)
            show r.held ++ r.fd.content.drop r.fd.pos = r.held
            rw [hend, List.append_nil]
          · next hb =>
            cases h
            have hp := (readRetry_ok hr).1
            have hpos : 0 < bytes.length := List.length_pos_iff.mpr hb
            refine ⟨rfl, rfl, ?_, ?_, fun hn ↦ by omega⟩
            · show (r.buf ++ bytes).drop r.bufPos ++ r.fd.content.drop (r.fd.pos + bytes.length) =
                r.held ++ r.fd.content.drop r.fd.pos
              rw [hp, List.drop_append_of_le_length r.pos_le, List.append_assoc]
              rfl
            · have hl := congrArg List.length hp
              rw [List.length_append, List.length_drop, List.length_drop] at hl
              show r.fd.content.length - (r.fd.pos + bytes.length) + bytes.length =
                r.fd.content.length - r.fd.pos
              omega

/-- A refill that finds something leaves less in the file. -/
theorem left_jsonlRefill {r r' : JsonlReader} {n : Nat}
    (h : jsonlRefill r = (.ok (n + 1), r')) : r'.left < r.left := by
  have := (jsonlRefill_ok h).left
  omega

/-! ### Lines -/

/-- The loop of `jsonl_drain_oversize`. `bufPos` is zero whenever it looks at the buffer. -/
def jsonlDrainLoop (r : JsonlReader) : Except Errno Unit × JsonlReader :=
  if r.eof then (.ok (), r)
  else
    match hf : jsonlRefill r with
    | (.error e, r') => (.error e, r')
    | (.ok 0, r') => (.ok (), r'.discard)
    | (.ok (n + 1), r') =>
      match hm : memchr newline r'.held with
      | some k => (.ok (), jsonlCompact (r'.consume (k + 1) (memchr_eq_some hm).2.2))
      | none =>
        have : r'.discard.left < r.left := show r'.left < r.left from left_jsonlRefill hf
        jsonlDrainLoop r'.discard
termination_by r.left

/-- `jsonl_drain_oversize`, `jsonl.c:166–204`. -/
def jsonlDrainOversize (r : JsonlReader) : Except Errno Unit × JsonlReader :=
  jsonlDrainLoop r.discard

/-- What `jsonl_read_line` returns: 1 with the line, 0, −1 with `EMSGSIZE`, or −1 with
another error. -/
inductive LineResult where
  | line (bytes : Text)
  | eof
  | oversize
  | error (errno : Errno)
  deriving DecidableEq, Repr

/-- The cap checks and the growth in the loop of `jsonl_read_line`; `none` when the line is
over the limit. -/
def jsonlRoom (r : JsonlReader) : Option JsonlReader :=
  if jsonlMaxLine < r.buf.length then none
  else if r.buf.length = r.bufCap then
    let want := min (r.bufCap * 2) (jsonlMaxLine + 1)
    if want = r.bufCap then none else some (jsonlGrow r want)
  else some r

/-- Growing makes room and changes nothing else. -/
theorem jsonlRoom_some {r r' : JsonlReader} (h : jsonlRoom r = some r') :
    r.buf.length ≤ jsonlMaxLine ∧ r'.fd = r.fd ∧ r'.buf = r.buf ∧ r'.bufPos = r.bufPos ∧
      r'.offset = r.offset ∧ r'.err = r.err ∧ r'.buf.length < r'.bufCap := by
  unfold jsonlRoom at h
  split at h
  · cases h
  · next hm =>
    refine ⟨Nat.not_lt.mp hm, ?_⟩
    split at h
    · next hfull =>
      dsimp only at h
      split at h
      · cases h
      · next hw =>
        cases h
        have hcap := r.cap_le
        have hlt : r.bufCap < min (r.bufCap * 2) (jsonlMaxLine + 1) := by
          have := r.cap_pos
          omega
        have hg := (growLoop_spec _ _ r.cap_pos hcap).2.2 hlt (by omega)
        unfold jsonlGrow
        rw [if_neg (Nat.not_le.mpr hlt)]
        exact ⟨rfl, rfl, rfl, rfl, rfl, by rw [hfull]; exact hg⟩
    · next hfull =>
      cases h
      exact ⟨rfl, rfl, rfl, rfl, rfl, Nat.lt_of_le_of_ne r.len_le hfull⟩

/-- Only a buffer with more than the limit in it has no room. -/
theorem jsonlRoom_none {r : JsonlReader} (h : jsonlRoom r = none) :
    jsonlMaxLine < r.buf.length := by
  unfold jsonlRoom at h
  split at h
  · next hm => exact hm
  · split at h
    · next hfull =>
      dsimp only at h
      split at h
      · next hw =>
        have := r.cap_pos
        omega
      · cases h
    · cases h

@[simp] theorem fd_jsonlCompact (r : JsonlReader) : (jsonlCompact r).fd = r.fd := by
  unfold jsonlCompact
  split <;> rfl

/-- Making room in the compacted buffer leaves the file where it is. -/
theorem left_jsonlRoom {r r' : JsonlReader} (h : jsonlRoom (jsonlCompact r) = some r') :
    r'.left = r.left := by
  rw [JsonlReader.left, (jsonlRoom_some h).2.1, fd_jsonlCompact]
  rfl

/-- `jsonl_read_line`, `jsonl.c:206–282`. -/
def jsonlReadLine (r : JsonlReader) : LineResult × JsonlReader :=
  match hm : memchr newline r.held with
  | some k => (.line (r.held.take k), r.consume (k + 1) (memchr_eq_some hm).2.2)
  | none =>
    match hg : jsonlRoom (jsonlCompact r) with
    | none =>
      match jsonlDrainOversize (jsonlCompact r) with
      | (.error e, r') => (.error e, r')
      | (.ok (), r') => (.oversize, r')
    | some g =>
      match hf : jsonlRefill g with
      | (.error e, r') => (.error e, r')
      -- a partial line is left where it is
      | (.ok 0, r') => (.eof, r')
      | (.ok (n + 1), r') =>
        have : r'.left < r.left := left_jsonlRoom hg ▸ left_jsonlRefill hf
        jsonlReadLine r'
termination_by r.left

/-- `jsonl_open`, `jsonl.c:127–157`, of a file that can be opened. -/
def jsonlOpen (content : Text) (replies : List ReadReply) (startOffset : Nat) : JsonlReader where
  fd := ⟨content, startOffset, replies⟩
  buf := []
  bufCap := jsonlInitialBuf
  bufPos := 0
  offset := startOffset
  eof := false
  err := none
  pos_le := Nat.le_refl 0
  len_le := Nat.zero_le _
  cap_pos := by decide
  cap_le := by decide
  offset_eq := rfl
  at_end := fun h ↦ by cases h

/-- `jsonl_offset`, `jsonl.c:284–287`. -/
def jsonlOffset (r : JsonlReader) : Nat := r.offset

end Nocturne
