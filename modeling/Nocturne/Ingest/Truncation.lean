import Nocturne.Ingest.Trail
import Mathlib.Data.List.Infix

/-!
# Plays of a log that shrinks

A log found smaller than its stored offset is read again from its start. For plays this is a
second insertion, and `plays_ingested_once` says that it is the only way to one.
-/

namespace Nocturne

open Lib Lib.Records Proc

/-! ### Plays -/

section Plays

variable {jsonLoadb : Text → Option Json} {metaDir relpath : Path}

/-- A line that some handler of plays accepts. -/
def IsPlayLine (jsonLoadb : Text → Option Json) (l : Text) : Prop :=
  ∃ now ev, lineEvent jsonLoadb .stats now l = some ev

/-- Where a command starts to read the log: at its stored offset, or at the start of a log that is
smaller. -/
def Desk.start (metaDir relpath : Path) (d : Desk) : Nat :=
  passStart d.machine.db relpath (d.content metaDir relpath)

/-- The complete lines there, within the limit. -/
def Desk.unread (metaDir relpath : Path) (d : Desk) : List Text :=
  keptLines ((d.content metaDir relpath).drop (d.start metaDir relpath))

/-- A state in which a command finds new plays only: none of the lines `old`, and what an offset
inside a line leaves of it is no play that stands behind it once more. -/
structure Desk.FindsNew (jsonLoadb : Text → Option Json) (metaDir relpath : Path) (old : List Text)
    (d : Desk) : Prop where
  fresh : ∀ l ∈ d.unread metaDir relpath, IsPlayLine jsonLoadb l → l ∉ old
  whole : (split newline ((d.content metaDir relpath).take (d.start metaDir relpath))).2 = [] ∨
    ∀ r rest, (split newline ((d.content metaDir relpath).drop (d.start metaDir relpath))).1 =
      r :: rest → IsPlayLine jsonLoadb r → r ∉ rest

/-- What is in front of a stream without a separator belongs to its first record. -/
theorem split_tail_append {t v r : Text} {rest : List Text} (ht : newline ∉ t)
    (h : (split newline v).1 = r :: rest) : (split newline (t ++ v)).1 = (t ++ r) :: rest := by
  have hv := eq_of_split (a := []) h
  have hr : newline ∉ r := not_mem_record (u := v) (by rw [h]; exact List.mem_cons_self ..)
  rw [join, List.nil_append] at hv
  rw [hv, split_append_sep hr] at h
  have hrest : (split newline (join newline rest ++ (split newline v).2)).1 = rest :=
    (List.cons.inj h).2
  have hmem : newline ∉ t ++ r := fun hmem ↦ (List.mem_append.mp hmem).elim ht hr
  rw [hv, ← List.append_assoc, split_append_sep hmem, hrest]

/-- A line that stands once in a text stands once behind an offset, unless the offset leaves the
same line of another one. -/
theorem count_drop_le {content l : Text} {n : Nat} (h : (split newline content).1.count l ≤ 1)
    (hwhole : (split newline (content.take n)).2 = [] ∨
      ∀ r rest, (split newline (content.drop n)).1 = r :: rest → r = l → r ∉ rest) :
    (split newline (content.drop n)).1.count l ≤ 1 := by
  have happend := @split_append _ _ newline (content.take n) (content.drop n)
  rw [List.take_append_drop] at happend
  rw [happend, List.count_append] at h
  rcases hwhole with hcut | hrest
  · rw [hcut, List.nil_append] at h
    omega
  · cases hlines : (split newline (content.drop n)).1 with
    | nil => exact Nat.zero_le _
    | cons r rest =>
      rw [split_tail_append (not_mem_tail newline _) hlines] at h
      have hle : rest.count l ≤ 1 := by
        have hcons := (List.sublist_cons_self
          ((split newline (content.take n)).2 ++ r) rest).count_le l
        omega
      rw [List.count_cons]
      by_cases he : r = l
      · rw [List.count_eq_zero_of_not_mem (he ▸ hrest r rest hlines he)]
        split <;> omega
      · simpa [he] using hle

/-- Where a command finds new plays only, it reads no play twice. -/
theorem Desk.FindsNew.once {d : Desk} {old : List Text} {l : Text}
    (h : d.FindsNew jsonLoadb metaDir relpath old) (hl : IsPlayLine jsonLoadb l)
    (hcount : (split newline (d.content metaDir relpath)).1.count l ≤ 1) (hold : old.count l ≤ 1) :
    (old ++ d.unread metaDir relpath).count l ≤ 1 := by
  have hunread : (d.unread metaDir relpath).count l ≤ 1 := by
    refine Nat.le_trans (List.filter_sublist.count_le l) (count_drop_le hcount ?_)
    refine h.whole.imp id fun hrest r rest hlines he ↦ hrest r rest hlines ?_
    rw [he]
    exact hl
  rw [List.count_append]
  by_cases hmem : l ∈ d.unread metaDir relpath
  · rw [List.count_eq_zero_of_not_mem (h.fresh l hmem hl)]
    omega
  · rw [List.count_eq_zero_of_not_mem hmem]
    omega

end Plays

namespace Shrunk

/-- The log of the histories below, and the play in it. -/
def relpath : Path := LostOffset.relpath
def line : Text := LostOffset.playLine 1600000000000

def metaDir : Path := LostOffset.metaDir

/-- The line, with some ends of lines behind it. -/
def ended (n : Nat) : Text := line ++ List.replicate n newline

/-- The metadata directory with one log. -/
def logs (content : Text) : Logs := (Table.empty : Logs).put (metaDir ++ relpath) content

/-- The database with the track of the play, where the log was read up to `off`. -/
def db (off : Nat) : Db :=
  ((Db.empty.insertTrack LostOffset.sha LostOffset.track).getD .empty).upsertOffset relpath off 0 0

def desk (content : Text) (off : Nat) : Desk := ⟨logs content, ⟨.empty, db off⟩⟩

/-- A command without incident. -/
def call : IngestCall := LostOffset.call []

/-- Wherever one begins to read the text, there is no event in it but the play. -/
def OnlyPlay (content : Text) : Prop :=
  ∀ start < content.length, ∀ l ∈ keptLines (content.drop start), l = line ∨ readObject l = none

instance (content : Text) : Decidable (OnlyPlay content) :=
  inferInstanceAs (Decidable (∀ start < _, ∀ l ∈ keptLines _, _ ∨ readObject l = none))

/-- The lines that a command can have read. -/
theorem hasEntry {job : IngestJob} {content : Text} {e : LogEntry} (honly : OnlyPlay content)
    (hl : job.logs = logs content) (hj : job.metaDir = metaDir)
    (hc : job.clock = call.clock) (h : job.HasEntry e) :
    e.relpath = relpath ∧ e.kind = .stats ∧ e.now = 1700000000000 ∧
      (e.line = line ∨ readObject e.line = none) := by
  obtain ⟨howns, c, start, i, hlog, hline, hnow⟩ := h
  rw [hl, hj, logs, Table.get?_put] at hlog
  have hrel : e.relpath = relpath := by
    by_contra hne
    rw [if_neg fun he ↦ hne (List.append_cancel_left he)] at hlog
    cases hlog
  rw [if_pos (by rw [hrel])] at hlog
  cases hlog
  refine ⟨hrel, ?_, by rw [hnow, hc]; rfl, ?_⟩
  · rw [hrel] at howns
    cases hk : e.kind with
    | stats => rfl
    | likes => rw [hk] at howns; exact absurd howns (by decide)
    | pins => rw [hk] at howns; exact absurd howns (by decide)
    | actions => rw [hk] at howns; exact absurd howns (by decide)
  · have hmem := List.mem_of_getElem? hline
    by_cases hin : start < content.length
    · exact honly start hin _ hmem
    · rw [List.drop_eq_nil_of_le (Nat.le_of_not_lt hin)] at hmem
      cases hmem

/-- A replay adds a play for each of the lines. -/
theorem length_plays {log : List LogEntry}
    (hlog : ∀ e ∈ log, e.relpath = relpath ∧ e.kind = .stats ∧ e.now = 1700000000000 ∧
      (e.line = line ∨ readObject e.line = none)) {db : Db}
    (hdb : (db.tracks.get? LostOffset.sha).isSome = true) :
    (replay readObject log db).plays.length = db.plays.length + (linesOf relpath log).count line := by
  induction log generalizing db with
  | nil => rfl
  | cons e rest ih =>
    obtain ⟨hrel, hkind, hnow, hline⟩ := hlog e (List.mem_cons_self ..)
    have ih := fun (db : Db) (h : (db.tracks.get? LostOffset.sha).isSome = true) ↦
      ih (fun e' he' ↦ hlog e' (List.mem_cons_of_mem _ he')) h
    have hcons : linesOf relpath (e :: rest) = e.line :: linesOf relpath rest := by
      rw [linesOf, List.filter_cons_of_pos (by simp [hrel])]
      rfl
    show (replay readObject rest (db.applyLine readObject e.kind e.relpath e.now e.line)).plays.length
      = _
    rw [hcons]
    by_cases hplay : e.line = line
    · have happly : db.applyLine readObject e.kind e.relpath e.now e.line =
          db.play (playRow relpath 1600000000000 (ascii "play") LostOffset.sha 1000) := by
        have hevent : lineEvent readObject .stats 1700000000000 line =
            some (.play 1600000000000 (ascii "play") LostOffset.sha 1000) := by decide +kernel
        rw [hplay, hkind, hnow, hrel, Db.applyLine, hevent]
        rfl
      have hrest := ih (db.play (playRow relpath 1600000000000 (ascii "play") LostOffset.sha 1000))
      rw [Db.play_of_known hdb] at happly hrest
      have hrest := hrest hdb
      rw [happly, hrest, hplay, List.count_cons_self]
      simp only [List.length_append, List.length_singleton]
      omega
    · have hnone : lineEvent readObject e.kind e.now e.line = none := by
        unfold lineEvent
        rw [hline.resolve_left hplay]
        split <;> rfl
      rw [Db.applyLine, hnone, List.count_cons_of_ne hplay]
      exact ih db hdb

/-- A command adds a play for each of the lines that it read. -/
theorem length_plays_of_trail {d : Desk} {content : Text} {db : Db} {now : List LogEntry}
    (honly : OnlyPlay content) (h : Trail (d.job readObject metaDir call) d.machine.db db now)
    (hl : d.logs = logs content) (hdb : (d.machine.db.tracks.get? LostOffset.sha).isSome = true) :
    db.plays.length = d.machine.db.plays.length + (linesOf relpath now).count line := by
  rw [← Shrunk.length_plays (fun e he ↦ hasEntry honly hl rfl rfl (h.source e he)) hdb, h.replayed]
  rfl

/-- Other plays. -/
def later (n : Nat) : Text := LostOffset.playLine (1600000000000 + n) ++ [newline]

end Shrunk

end Nocturne
