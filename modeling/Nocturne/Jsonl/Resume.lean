import Nocturne.Jsonl.Reader

/-!
# Resuming at the persisted offset

Every operation of the reader moves it forward over a stretch of the file, and a call of
`jsonl_read_line` moves it over one record. A whole pass then reports what `Records.reports`
says of the file from the starting offset on, whatever the reads return, and a sequence of
passes is `Records.resumed`.
-/

namespace Nocturne

open Lib Lib.Records

/-! ### Moving forward -/

/-- The reader has moved over the stretch `s` of its file. -/
structure Moves (r r' : JsonlReader) (s : Text) : Prop where
  content : r'.fd.content = r.fd.content
  offset : r'.offset = r.offset + s.length
  unread : r.unread = s ++ r'.unread

namespace Moves

variable {r r₁ r₂ : JsonlReader} {s t : Text}

/-- What is taken in two steps is taken in a row. -/
theorem trans (h : Moves r r₁ s) (h' : Moves r₁ r₂ t) : Moves r r₂ (s ++ t) where
  content := h'.content.trans h.content
  offset := by rw [h'.offset, h.offset, List.length_append, Nat.add_assoc]
  unread := by rw [h.unread, h'.unread, List.append_assoc]

/-- A step that takes nothing may come before. -/
theorem after (h : Moves r r₁ []) (h' : Moves r₁ r₂ s) : Moves r r₂ s := h.trans h'

/-- The offset stays that of the first unread byte. -/
theorem unread_eq_drop (h : Moves r r₁ s) (hr : r.unread = r.fd.content.drop r.offset) :
    r₁.unread = r₁.fd.content.drop r₁.offset := by
  rw [h.content, h.offset, ← List.drop_drop, ← hr, h.unread, List.drop_left]

/-- The first bytes of what is held are taken. -/
theorem consume {n : Nat} (hn : n ≤ r.held.length) : Moves r (r.consume n hn) (r.held.take n) where
  content := rfl
  offset := by
    rw [List.length_take, Nat.min_eq_left hn]
    rfl
  unread := by
    have hh : (r.consume n hn).held = r.held.drop n := (List.drop_drop ..).symm
    rw [JsonlReader.unread, JsonlReader.unread, hh, ← List.append_assoc, List.take_append_drop]
    rfl

/-- All that is held is taken. -/
theorem discard (r : JsonlReader) : Moves r r.discard r.held where
  content := rfl
  offset := by
    rw [JsonlReader.length_held]
    rfl
  unread := rfl

/-- Compacting takes nothing. -/
theorem compact (r : JsonlReader) : Moves r (jsonlCompact r) [] := by
  unfold jsonlCompact
  split <;> exact ⟨rfl, rfl, rfl⟩

/-- Making room takes nothing. -/
theorem room (h : jsonlRoom r = some r₁) : Moves r r₁ [] := by
  obtain ⟨-, hfd, hbuf, hpos, hoff, -⟩ := jsonlRoom_some h
  refine ⟨by rw [hfd], hoff, ?_⟩
  rw [JsonlReader.unread, JsonlReader.unread, JsonlReader.held, JsonlReader.held, hfd, hbuf, hpos]
  rfl

/-- Filling the buffer takes nothing. -/
theorem refill {n : Nat} (h : jsonlRefill r = (.ok n, r₁)) : Moves r r₁ [] :=
  have hf := jsonlRefill_ok h
  ⟨hf.content, hf.offset, hf.unread.symm⟩

end Moves

@[simp] theorem held_jsonlCompact (r : JsonlReader) : (jsonlCompact r).held = r.held := by
  unfold jsonlCompact
  split <;> rfl

/-- Behind compacting the buffer is what is held. -/
theorem length_buf_jsonlCompact (r : JsonlReader) :
    (jsonlCompact r).buf.length = r.held.length := by
  unfold jsonlCompact
  split
  · next h => rw [JsonlReader.length_held, h, Nat.sub_zero]
  · rfl

/-! ### Lines -/

/-- A skipped stretch ends with the first newline, or with the file. -/
def SkipsLine (s rest : Text) : Prop :=
  (∃ l, s = l ++ [newline] ∧ newline ∉ l) ∨ (newline ∉ s ∧ rest = [])

/-- A line is skipped from any byte of it on. -/
private theorem skipsLine_append {s t rest : Text} (hs : newline ∉ s) (h : SkipsLine t rest) :
    SkipsLine (s ++ t) rest := by
  rcases h with ⟨l, rfl, hl⟩ | ⟨ht, hr⟩
  · left
    refine ⟨s ++ l, (List.append_assoc ..).symm, ?_⟩
    rw [List.mem_append]
    exact fun h ↦ h.elim hs hl
  · right
    refine ⟨?_, hr⟩
    rw [List.mem_append]
    exact fun h ↦ h.elim hs ht

/-- Up to the newline that was found, and with it. -/
private theorem take_memchr {s : Text} {k : Nat} (h : memchr newline s = some k) :
    s.take (k + 1) = s.take k ++ [newline] := by
  have hs := (memchr_eq_some h).2.1
  have hk := (memchr_eq_some h).2.2
  conv_lhs => rw [hs]
  rw [List.take_append, List.length_take, Nat.min_eq_left (Nat.le_of_lt hk),
    Nat.add_sub_cancel_left, List.take_succ_cons, List.take_zero,
    List.take_of_length_le (by rw [List.length_take]; omega)]

/-- Draining skips the rest of the line. -/
theorem jsonlDrainLoop_ok {r r' : JsonlReader} (h : jsonlDrainLoop r = (.ok (), r'))
    (hr : r.buf = []) : ∃ s, Moves r r' s ∧ SkipsLine s r'.unread := by
  have hheld : r.held = [] := by rw [JsonlReader.held, hr, List.drop_nil]
  unfold jsonlDrainLoop at h
  split at h
  · next he =>
    cases h
    refine ⟨[], ⟨rfl, rfl, rfl⟩, Or.inr ⟨List.not_mem_nil, ?_⟩⟩
    rw [JsonlReader.unread, hheld, r.at_end he]
    rfl
  · split at h
    · cases h
    · next r₁ hf =>
      cases h
      have hlt : r.buf.length < r.bufCap := by
        rw [hr]
        exact r.cap_pos
      obtain ⟨hh, hu⟩ := (jsonlRefill_ok hf).at_end rfl hlt
      rw [hh, hheld] at hu
      have hd := Moves.discard r₁
      rw [hh, hheld] at hd
      refine ⟨[], (Moves.refill hf).trans hd, Or.inr ⟨List.not_mem_nil, ?_⟩⟩
      rw [← List.nil_append r₁.discard.unread, ← hd.unread, hu]
    · next n r₁ hf =>
      have hm := (Moves.refill hf)
      split at h
      · next k hk =>
        cases h
        refine ⟨_, hm.trans ((Moves.consume _).trans (Moves.compact _)), Or.inl ?_⟩
        rw [List.nil_append, List.append_nil]
        exact ⟨_, take_memchr hk, (memchr_eq_some hk).1⟩
      · next hk =>
        have : r₁.discard.left < r.left := show r₁.left < r.left from left_jsonlRefill hf
        obtain ⟨s, hs, hl⟩ := jsonlDrainLoop_ok h rfl
        exact ⟨r₁.held ++ s, hm.trans ((Moves.discard r₁).trans hs), skipsLine_append (memchr_eq_none hk) hl⟩
termination_by r.left

/-- What one call of `jsonl_read_line` did. -/
inductive ReadsLine (r r' : JsonlReader) : LineResult → Prop
  | line {l : Text} (moves : Moves r r' (l ++ [newline])) (none_in : newline ∉ l)
      (fits : l.length ≤ jsonlMaxLine) : ReadsLine r r' (.line l)
  | eof (moves : Moves r r' []) (none_in : newline ∉ r'.unread)
      (fits : r'.unread.length ≤ jsonlMaxLine) : ReadsLine r r' .eof
  | oversize {s t : Text} (moves : Moves r r' (s ++ t)) (none_in : newline ∉ s)
      (long : jsonlMaxLine < s.length) (skips : SkipsLine t r'.unread) :
      ReadsLine r r' .oversize
  | error (e : Errno) : ReadsLine r r' (.error e)

/-- What is read behind a step that takes nothing. -/
theorem ReadsLine.after {r r₁ r' : JsonlReader} {x : LineResult} (hm : Moves r r₁ [])
    (h : ReadsLine r₁ r' x) : ReadsLine r r' x := by
  cases h with
  | line moves none_in fits => exact .line (hm.after moves) none_in fits
  | eof moves none_in fits => exact .eof (hm.after moves) none_in fits
  | oversize moves none_in long skips => exact .oversize (hm.after moves) none_in long skips
  | error e => exact .error e

/-- One call reads one line, or skips one that is too long, or finds the end. -/
theorem jsonlReadLine_spec (r : JsonlReader) :
    ReadsLine r (jsonlReadLine r).2 (jsonlReadLine r).1 := by
  have hc := Moves.compact r
  unfold jsonlReadLine
  split
  · next k hk =>
    have hlt := (memchr_eq_some hk).2.2
    refine .line ?_ (memchr_eq_some hk).1 ?_
    · rw [← take_memchr hk]
      exact Moves.consume hlt
    · have hcap := Nat.le_trans r.len_le r.cap_le
      rw [JsonlReader.length_held] at hlt
      rw [List.length_take]
      omega
  · next hk =>
    have hno := memchr_eq_none hk
    split
    · next hroom =>
      split
      · exact .error _
      · next r' hd =>
        have hlen := jsonlRoom_none hroom
        obtain ⟨s, hs, hl⟩ := jsonlDrainLoop_ok hd rfl
        have hdis := Moves.discard (jsonlCompact r)
        rw [held_jsonlCompact] at hdis
        rw [length_buf_jsonlCompact] at hlen
        exact .oversize (hc.after (hdis.trans hs)) hno hlen hl
    · next g hroom =>
      obtain ⟨hfit, -, hbuf, hpos, -, -, hlt⟩ := jsonlRoom_some hroom
      have hg := hc.after (Moves.room hroom)
      split
      · exact .error _
      · next r' hf =>
        obtain ⟨hh, hu⟩ := (jsonlRefill_ok hf).at_end rfl hlt
        have hheld : g.held = r.held := by
          rw [← held_jsonlCompact r, JsonlReader.held, hbuf, hpos]
          rfl
        rw [hh, hheld] at hu
        refine .eof (hg.after (Moves.refill hf)) ?_ ?_
        · rw [hu]
          exact hno
        · rw [hu, ← length_buf_jsonlCompact]
          exact hfit
      · next n r' hf =>
        have : r'.left < r.left := left_jsonlRoom hroom ▸ left_jsonlRefill hf
        exact (jsonlReadLine_spec r').after (hg.after (Moves.refill hf))
termination_by r.left

/-- A line that is returned is the first record of what was unread. -/
theorem ReadsLine.split_line {r r' : JsonlReader} {l : Text} (h : ReadsLine r r' (.line l)) :
    split newline r.unread = (l :: (split newline r'.unread).1, (split newline r'.unread).2) ∧
      l.length ≤ jsonlMaxLine := by
  cases h with
  | line moves none_in fits =>
    refine ⟨?_, fits⟩
    rw [moves.unread, List.append_assoc]
    exact split_append_sep none_in _

/-- At the end of the file there is only a tail. -/
theorem ReadsLine.split_eof {r r' : JsonlReader} (h : ReadsLine r r' .eof) :
    split newline r.unread = ([], r'.unread) ∧ r'.unread.length ≤ jsonlMaxLine := by
  cases h with
  | eof moves none_in fits =>
    refine ⟨?_, fits⟩
    rw [moves.unread]
    exact split_of_not_mem none_in

/-- What is skipped is the first record or all of the tail, and over the limit. -/
theorem ReadsLine.split_oversize {r r' : JsonlReader} (h : ReadsLine r r' .oversize) :
    ∃ l, ¬ l.length ≤ jsonlMaxLine ∧
      (split newline r.unread = (l :: (split newline r'.unread).1, (split newline r'.unread).2) ∨
        split newline r.unread = ([], l) ∧ r'.unread = []) := by
  cases h with
  | @oversize s t moves none_in long skips =>
    rcases skips with ⟨l, rfl, hl⟩ | ⟨ht, hr⟩
    · refine ⟨s ++ l, ?_, Or.inl ?_⟩
      · rw [List.length_append]
        omega
      · rw [moves.unread, ← List.append_assoc s, List.append_assoc (s ++ l)]
        apply split_append_sep
        rw [List.mem_append]
        exact fun h ↦ h.elim none_in hl
    · refine ⟨s ++ t, ?_, Or.inr ⟨?_, hr⟩⟩
      · rw [List.length_append]
        omega
      · rw [moves.unread, hr, List.append_nil]
        apply split_of_not_mem
        rw [List.mem_append]
        exact fun h ↦ h.elim none_in ht

/-- A call that reports something takes something off the file. -/
theorem ReadsLine.shorter {r r' : JsonlReader} {x : LineResult} (h : ReadsLine r r' x)
    (hx : (∃ l, x = .line l) ∨ x = .oversize) : r'.unread.length < r.unread.length := by
  cases h with
  | line moves =>
    rw [moves.unread, List.length_append, List.length_append, List.length_singleton]
    omega
  | oversize moves _ long =>
    rw [moves.unread, List.length_append, List.length_append]
    omega
  | eof => simp at hx
  | error => simp at hx

/-- A line that is read makes what is unread shorter. -/
theorem unread_jsonlReadLine {r r' : JsonlReader} {x : LineResult}
    (h : jsonlReadLine r = (x, r')) (hx : (∃ l, x = .line l) ∨ x = .oversize) :
    r'.unread.length < r.unread.length := by
  have hs := jsonlReadLine_spec r
  rw [h] at hs
  exact hs.shorter hx

/-! ### Reads that do not fail -/

/-- No read of the file fails. -/
def JsonlReader.Calm (r : JsonlReader) : Prop := r.err = none ∧ ∀ e, .err e ∉ r.fd.replies

/-- Where no read fails, a read gives bytes. -/
theorem readRetry_calm {content : Text} {pos avail : Nat} {rs : List ReadReply}
    (h : ∀ e, .err e ∉ rs) : ∃ bytes rs', readRetry content pos avail rs = (.ok bytes, rs') := by
  induction rs with
  | nil => exact ⟨_, _, rfl⟩
  | cons reply rs ih =>
    cases reply with
    | upTo n => exact ⟨_, _, rfl⟩
    | eintr => exact ih fun e he ↦ h e (List.mem_cons_of_mem _ he)
    | err e => exact absurd (List.mem_cons_self ..) (h e)

/-- Where no read fails, the buffer is filled. -/
theorem jsonlRefill_calm {r r' : JsonlReader} {x : Except Errno Nat} (h : r.Calm)
    (hf : jsonlRefill r = (x, r')) : (∃ n, x = .ok n) ∧ r'.Calm := by
  unfold jsonlRefill at hf
  split at hf
  · cases hf
    exact ⟨⟨_, rfl⟩, h⟩
  · split at hf
    · cases hf
      exact ⟨⟨_, rfl⟩, h⟩
    · split at hf
      · next e he =>
        rw [h.1] at he
        cases he
      · split at hf
        · next e rs hr =>
          obtain ⟨bytes, rs', hr'⟩ := readRetry_calm h.2
          rw [hr'] at hr
          cases hr
        · next bytes rs hr =>
          have hrs : ∀ e, .err e ∉ rs := fun e he ↦ h.2 e ((readRetry_ok hr).2.2.2.subset he)
          split at hf
          · cases hf
            exact ⟨⟨_, rfl⟩, h.1, hrs⟩
          · cases hf
            exact ⟨⟨_, rfl⟩, h.1, hrs⟩

/-- A reader is calm when its file is. -/
private theorem calm_of_fd {r r' : JsonlReader} (h : r.Calm) (hfd : r'.fd = r.fd)
    (herr : r'.err = r.err) : r'.Calm :=
  ⟨herr.trans h.1, by rw [hfd]; exact h.2⟩

/-- Compacting makes no read fail. -/
theorem jsonlCompact_calm {r : JsonlReader} (h : r.Calm) : (jsonlCompact r).Calm := by
  refine calm_of_fd h (fd_jsonlCompact r) ?_
  unfold jsonlCompact
  split <;> rfl

/-- Where no read fails, a long line is drained to its end. -/
theorem jsonlDrainLoop_calm {r : JsonlReader} (h : r.Calm) :
    (jsonlDrainLoop r).1 = .ok () ∧ (jsonlDrainLoop r).2.Calm := by
  unfold jsonlDrainLoop
  split
  · exact ⟨rfl, h⟩
  · split
    · next e r₁ hf =>
      obtain ⟨n, hn⟩ := (jsonlRefill_calm h hf).1
      cases hn
    · next r₁ hf => exact ⟨rfl, (jsonlRefill_calm h hf).2⟩
    · next n r₁ hf =>
      have h₁ := (jsonlRefill_calm h hf).2
      split
      · exact ⟨rfl, jsonlCompact_calm h₁⟩
      · have : r₁.discard.left < r.left := show r₁.left < r.left from left_jsonlRefill hf
        exact jsonlDrainLoop_calm (r := r₁.discard) h₁
termination_by r.left

/-- Where no read fails, no call fails. -/
theorem jsonlReadLine_calm {r : JsonlReader} (h : r.Calm) :
    (∀ e, (jsonlReadLine r).1 ≠ .error e) ∧ (jsonlReadLine r).2.Calm := by
  have hc := jsonlCompact_calm h
  unfold jsonlReadLine
  split
  · exact ⟨fun e he ↦ (by cases he), h⟩
  · split
    · have hd := jsonlDrainLoop_calm (r := (jsonlCompact r).discard) hc
      split
      · next he =>
        rw [jsonlDrainOversize] at he
        rw [he] at hd
        cases hd.1
      · next he =>
        rw [jsonlDrainOversize] at he
        rw [he] at hd
        exact ⟨fun e he ↦ (by cases he), hd.2⟩
    · next g hroom =>
      obtain ⟨-, hfd, -, -, -, herr, -⟩ := jsonlRoom_some hroom
      have hg : g.Calm := calm_of_fd hc hfd herr
      split
      · next e r₁ hf =>
        obtain ⟨n, hn⟩ := (jsonlRefill_calm hg hf).1
        cases hn
      · next r₁ hf => exact ⟨fun e he ↦ (by cases he), (jsonlRefill_calm hg hf).2⟩
      · next n r₁ hf =>
        have : r₁.left < r.left := left_jsonlRoom hroom ▸ left_jsonlRefill hf
        exact jsonlReadLine_calm (jsonlRefill_calm hg hf).2
termination_by r.left

/-! ### One pass -/

/-- The calls of a caller that goes on until the reader says 0, or fails: the lines and the
oversize reports, and the reader at the end. -/
def readAll (r : JsonlReader) : List (Report UInt8) × JsonlReader :=
  match h : jsonlReadLine r with
  | (.line l, r') =>
    have : r'.unread.length < r.unread.length := unread_jsonlReadLine h (Or.inl ⟨l, rfl⟩)
    (.record l :: (readAll r').1, (readAll r').2)
  | (.oversize, r') =>
    have : r'.unread.length < r.unread.length := unread_jsonlReadLine h (Or.inr rfl)
    (.oversize :: (readAll r').1, (readAll r').2)
  | (.eof, r') => ([], r')
  | (.error _, r') => ([], r')
termination_by r.unread.length

/-- A pass without failing reads reports the records of what is unread, and leaves the tail
unless it is over the limit. -/
structure Pass (r r' : JsonlReader) (out : List (Report UInt8)) : Prop where
  out_eq : out = reports newline jsonlMaxLine r.unread
  moves : ∃ s, Moves r r' s
  unread : r'.unread = rest newline jsonlMaxLine r.unread

/-- A line that is read without an error is taken. -/
theorem ReadsLine.moves {r r' : JsonlReader} {x : LineResult} (h : ReadsLine r r' x)
    (hx : ∀ e, x ≠ .error e) : ∃ s, Moves r r' s := by
  cases h with
  | line moves => exact ⟨_, moves⟩
  | eof moves => exact ⟨_, moves⟩
  | oversize moves => exact ⟨_, moves⟩
  | error e => exact absurd rfl (hx e)

/-- All lines are read in one pass. -/
theorem pass_readAll {r : JsonlReader} (h : r.Calm) : Pass r (readAll r).2 (readAll r).1 := by
  have hspec := jsonlReadLine_spec r
  have hcalm := jsonlReadLine_calm h
  unfold readAll
  split
  · next l r' hl =>
    rw [hl] at hspec hcalm
    have : r'.unread.length < r.unread.length := hspec.shorter (Or.inl ⟨l, rfl⟩)
    have hp := pass_readAll hcalm.2
    obtain ⟨s, hs⟩ := hspec.moves hcalm.1
    obtain ⟨t, ht⟩ := hp.moves
    obtain ⟨hsplit, hfit⟩ := hspec.split_line
    refine ⟨?_, ⟨_, hs.trans ht⟩, ?_⟩
    · rw [hp.out_eq, reports, reports, hsplit, List.map_cons, report, if_pos hfit]
      rfl
    · rw [hp.unread, rest, rest, hsplit]
  · next r' hl =>
    rw [hl] at hspec hcalm
    have : r'.unread.length < r.unread.length := hspec.shorter (Or.inr rfl)
    have hp := pass_readAll hcalm.2
    obtain ⟨s, hs⟩ := hspec.moves hcalm.1
    obtain ⟨t, ht⟩ := hp.moves
    obtain ⟨l, hlong, hsplit | ⟨hsplit, hr⟩⟩ := hspec.split_oversize
    · refine ⟨?_, ⟨_, hs.trans ht⟩, ?_⟩
      · rw [hp.out_eq, reports, reports, hsplit, List.map_cons, report, if_neg hlong]
        rfl
      · rw [hp.unread, rest, rest, hsplit]
    · refine ⟨?_, ⟨_, hs.trans ht⟩, ?_⟩
      · show Report.oversize :: (readAll r').1 = _
        have htail : reportTail jsonlMaxLine l = [.oversize] := if_neg hlong
        rw [hp.out_eq, hr, reports, reports, hsplit, htail]
        rfl
      · rw [hp.unread, hr, rest, rest, hsplit, if_neg hlong]
        rfl
  · next r' hl =>
    rw [hl] at hspec hcalm
    obtain ⟨hsplit, hfit⟩ := hspec.split_eof
    refine ⟨?_, hspec.moves hcalm.1, ?_⟩
    · rw [reports, hsplit, reportTail, if_pos hfit]
      rfl
    · rw [rest, hsplit, if_pos hfit]
  · next e r' hl =>
    rw [hl] at hcalm
    exact absurd rfl (hcalm.1 e)
termination_by r.unread.length

/-- A reader is opened calm where no read will fail. -/
theorem jsonlOpen_calm {content : Text} {replies : List ReadReply} {start : Nat}
    (h : ∀ e, .err e ∉ replies) : (jsonlOpen content replies start).Calm := ⟨rfl, h⟩

/-- A reader begins at its start. -/
theorem unread_jsonlOpen (content : Text) (replies : List ReadReply) (start : Nat) :
    (jsonlOpen content replies start).unread = content.drop start := rfl

/-! ### Pass after pass -/

/-- A file grows by one piece before each pass, which starts where the last one ended. -/
def resumedPasses (content : Text) (offset : Nat) :
    List (Text × List ReadReply) → List (Report UInt8)
  | [] => []
  | (piece, replies) :: ps =>
    let (out, r) := readAll (jsonlOpen (content ++ piece) replies offset)
    out ++ resumedPasses (content ++ piece) (jsonlOffset r) ps

/-- The persisted offset is all that a pass needs of the earlier ones. -/
theorem resumedPasses_eq {ps : List (Text × List ReadReply)} {content : Text} {offset : Nat}
    (hoff : offset ≤ content.length) (h : ∀ p ∈ ps, ∀ e, .err e ∉ p.2) :
    resumedPasses content offset ps =
      resumed newline jsonlMaxLine (content.drop offset) (ps.map Prod.fst) := by
  induction ps generalizing content offset with
  | nil => rfl
  | cons p ps ih =>
    obtain ⟨piece, replies⟩ := p
    have hcalm : (jsonlOpen (content ++ piece) replies offset).Calm :=
      jsonlOpen_calm (h _ (List.mem_cons_self ..))
    have hp := pass_readAll hcalm
    obtain ⟨s, hs⟩ := hp.moves
    have hu : (content ++ piece).drop offset = content.drop offset ++ piece :=
      List.drop_append_of_le_length hoff
    have hoff' : jsonlOffset (readAll (jsonlOpen (content ++ piece) replies offset)).2 ≤
        (content ++ piece).length := by
      have hl := congrArg List.length hs.unread
      simp only [unread_jsonlOpen, List.length_drop, List.length_append] at hl ⊢
      have ho : jsonlOffset _ = offset + s.length := hs.offset
      rw [ho]
      omega
    have hdrop := hs.unread_eq_drop rfl
    rw [hs.content, hp.unread, unread_jsonlOpen, hu] at hdrop
    simp only [resumedPasses, List.map_cons, resumed]
    rw [hp.out_eq, unread_jsonlOpen, hu, hdrop,
      ih hoff' fun p hp ↦ h p (List.mem_cons_of_mem _ hp)]
    rfl

/-- A file read in pieces reports what one pass over the whole file reports exactly when no
piece ends in an unterminated line over the limit, unless only a short rest of that line
comes later. -/
theorem resume_invariant_iff {ps : List (Text × List ReadReply)} {replies : List ReadReply}
    (h : ∀ p ∈ ps, ∀ e, .err e ∉ p.2) (hr : ∀ e, .err e ∉ replies) :
    resumedPasses [] 0 ps = (readAll (jsonlOpen (ps.map Prod.fst).flatten replies 0)).1 ↔
      Harmless newline jsonlMaxLine [] (ps.map Prod.fst) := by
  rw [resumedPasses_eq (Nat.le_refl 0) h, (pass_readAll (jsonlOpen_calm hr)).out_eq,
    unread_jsonlOpen, List.drop_zero, List.drop_zero]
  exact resumed_eq_iff List.not_mem_nil (Nat.zero_le _)

/-- A line written in two pieces is harmless. -/
theorem resume_two_pieces :
    resumedPasses [] 0 [([97, 98], [.eintr]), ([99, 10, 100], [.upTo 0])] =
      (readAll (jsonlOpen [97, 98, 99, 10, 100] [] 0)).1 := by
  refine (resume_invariant_iff ?_ ?_).mpr ?_
  · simp
  · simp
  · refine harmless_cons.mpr ⟨fun h ↦ absurd h (by decide), ?_⟩
    exact harmless_cons.mpr ⟨fun h ↦ absurd h (by decide), harmless_of_short List.not_mem_nil
      (Nat.zero_le _)⟩

/-- A line over the limit that ends in a later pass: its tail is delivered as a line, where
one pass reports only the line over the limit. -/
theorem tail_delivered {u v : Text} (hu : newline ∉ u) (hv : newline ∉ v)
    (hlong : jsonlMaxLine < u.length) (hfit : v.length ≤ jsonlMaxLine) :
    resumedPasses [] 0 [(u, []), (v ++ [newline], [])] = [.oversize, .record v] ∧
      (readAll (jsonlOpen (u ++ (v ++ [newline])) [] 0)).1 = [.oversize] := by
  have hsplit : split newline (v ++ [newline]) = ([v], []) := split_append_sep hv []
  constructor
  · rw [resumedPasses_eq (Nat.le_refl 0) (by simp)]
    simp only [List.drop_nil, List.map_cons, List.map_nil, resumed, List.nil_append, reports,
      reportTail, rest, split_of_not_mem hu, if_neg (Nat.not_le.mpr hlong), hsplit, report,
      if_pos hfit]
    rfl
  · have huv : newline ∉ u ++ v := by
      rw [List.mem_append]
      exact fun h ↦ h.elim hu hv
    have hlong' : ¬ (u ++ v).length ≤ jsonlMaxLine := by
      rw [List.length_append]
      omega
    rw [(pass_readAll (jsonlOpen_calm (by simp))).out_eq, unread_jsonlOpen, List.drop_zero,
      ← List.append_assoc, reports, split_append_sep huv, List.map_cons, report, if_neg hlong']
    rfl

/-- The file ends once after 65537 bytes of a line, which then ends with one more byte. -/
theorem resume_delivers_tail :
    resumedPasses [] 0 [(List.replicate 65537 97, []), ([98] ++ [newline], [])] =
        [.oversize, .record [98]] ∧
      (readAll (jsonlOpen (List.replicate 65537 97 ++ ([98] ++ [newline])) [] 0)).1 =
        [.oversize] := by
  apply tail_delivered
  · rw [List.mem_replicate]
    decide
  · decide
  · rw [List.length_replicate]
    decide
  · decide

end Nocturne
