import Nocturne.Ingest.Truncation
import Nocturne.Ingest.Calm

/-!
# Reading a log again that shrank

That a log is to be read from its start is only remembered once a pass takes something.
`truncated_log_recovers` says when a log that shrank is ingested to its end again: until a
pass took something, no command may find it grown to the offset that is still stored.
-/

namespace Nocturne

open Lib Lib.Records Proc

section Recovery

variable {jsonLoadb : Text → Option Json} {metaDir relpath : Path}

/-- The log only grows, and commands are answered harmlessly. -/
def Desk.LogGrows (jsonLoadb : Text → Option Json) (metaDir relpath : Path) (d : Desk) :
    DeskStep → Prop
  | .append logs => ∃ more,
      (logs.get? (metaDir ++ relpath)).getD [] = d.content metaDir relpath ++ more
  | .ingest c =>
    (ingestRun (d.job jsonLoadb metaDir c)).Obeys IngestSound (d.machine.start {}) c.answers

/-- The log grows at every step of a history. -/
def Desk.AlwaysGrows (jsonLoadb : Text → Option Json) (metaDir relpath : Path) :
    Desk → List DeskStep → Prop
  | _, [] => True
  | d, step :: steps => d.LogGrows jsonLoadb metaDir relpath step ∧
      AlwaysGrows jsonLoadb metaDir relpath (d.next jsonLoadb metaDir step) steps

/-- As long as the stored offset is the stale one, commands find the log smaller than that. -/
def Desk.StaysShort (jsonLoadb : Text → Option Json) (metaDir relpath : Path) (stale : Nat) :
    Desk → List DeskStep → Prop
  | _, [] => True
  | d, .append logs :: steps =>
    StaysShort jsonLoadb metaDir relpath stale (d.next jsonLoadb metaDir (.append logs)) steps
  | d, .ingest c :: steps => d.offset relpath = stale →
    (d.content metaDir relpath).length < stale ∧
      StaysShort jsonLoadb metaDir relpath stale (d.next jsonLoadb metaDir (.ingest c)) steps

/-- All lines before the offset were ingested. -/
structure Recovered (content : Text) (off : Nat) (lines : List Text) : Prop where
  ingested : (keptLines (content.take off)).Sublist lines
  within : off ≤ content.length
  «sealed» : Sealed newline jsonlMaxLine (content.take off)

variable {content : Text} {off : Nat} {lines : List Text}

theorem take_add_taken (content : Text) (off : Nat) :
    content.take (off + (takenText (content.drop off)).length) =
      content.take off ++ takenText (content.drop off) := by
  have hsplit : taken newline jsonlMaxLine (content.drop off) ++
      rest newline jsonlMaxLine (content.drop off) = content.drop off :=
    taken_append_rest jsonlMaxLine (content.drop off)
  rw [List.take_add]
  congr 1
  calc (content.drop off).take (takenText (content.drop off)).length
      = (takenText (content.drop off) ++ rest newline jsonlMaxLine (content.drop off)).take
          (takenText (content.drop off)).length := by rw [takenText, hsplit]
    _ = takenText (content.drop off) := List.take_left

/-- The next pass ingests the next lines. -/
theorem Recovered.pass (h : Recovered content off lines) :
    Recovered content (off + (takenText (content.drop off)).length)
      (lines ++ keptLines (content.drop off)) := by
  have hle := length_takenText_le (content.drop off)
  rw [List.length_drop] at hle
  have hin := h.within
  refine ⟨?_, by omega, ?_⟩
  · rw [take_add_taken]
    have hkept := kept_append h.sealed (takenText (content.drop off))
    rw [takenText, kept_taken] at hkept
    exact hkept.trans (h.ingested.append (List.Sublist.refl _))
  · rw [take_add_taken]
    exact sealed_append h.sealed (sealed_taken jsonlMaxLine _)

/-- A log that is read from its start. -/
theorem recovered_start (content : Text) : Recovered content 0 [] :=
  ⟨List.Sublist.refl _, Nat.zero_le _, Or.inl rfl⟩

/-- Growth does not matter. -/
theorem Recovered.append (h : Recovered content off lines) (more : Text) :
    Recovered (content ++ more) off lines := by
  have htake : (content ++ more).take off = content.take off :=
    List.take_append_of_le_length h.within
  refine ⟨?_, ?_, ?_⟩
  · rw [htake]
    exact h.ingested
  · have := h.within
    rw [List.length_append]
    omega
  · rw [htake]
    exact h.sealed

/-- Where there is nothing to take, every line was ingested. -/
theorem Recovered.complete (h : Recovered content off lines)
    (hidle : takenText (content.drop off) = []) : (keptLines content).Sublist lines := by
  have hpass := h.pass.ingested
  rw [hidle, keptLines_of_taken_nil hidle, List.append_nil, List.length_nil, Nat.add_zero] at hpass
  have hkept : (keptLines content).Sublist
      (keptLines (content.take off) ++ keptLines (content.drop off)) := by
    conv_lhs => rw [← List.take_append_drop off content]
    exact kept_append h.sealed (content.drop off)
  rw [keptLines_of_taken_nil hidle, List.append_nil] at hkept
  exact hkept.trans hpass

variable {stale : Nat}

/-- One command on a recovered log. -/
theorem ingest_recovered {d : Desk} {c : IngestCall}
    (h : Recovered (d.content metaDir relpath) (d.offset relpath) lines)
    (hobeys : d.LogGrows jsonLoadb metaDir relpath (.ingest c)) :
    ∃ now, Trail (d.job jsonLoadb metaDir c) d.machine.db
        (d.next jsonLoadb metaDir (.ingest c)).machine.db now ∧
      Recovered (d.content metaDir relpath)
        ((d.next jsonLoadb metaDir (.ingest c)).offset relpath) (lines ++ linesOf relpath now) := by
  obtain ⟨now, htrail, hpass⟩ := d.ingest_trail hobeys
  refine ⟨now, htrail, ?_⟩
  rcases hpass relpath with ⟨hnil, hoff⟩ | ⟨content, hlog, hlines, hoff⟩
  · have hoff' : (d.next jsonLoadb metaDir (.ingest c)).offset relpath = d.offset relpath := hoff
    rw [hnil, List.append_nil, hoff']
    exact h
  · have hcontent : d.content metaDir relpath = content := by
      rw [Desk.content, hlog]
      rfl
    have hoff' : (d.next jsonLoadb metaDir (.ingest c)).offset relpath = _ := hoff
    rw [hcontent] at h ⊢
    have hstart : passStart d.machine.db relpath content = d.offset relpath :=
      if_neg (Nat.not_lt.mpr h.within)
    rw [hoff', hlines, hstart]
    exact h.pass

/-- One command on a log that is short of its stale offset. -/
theorem ingest_stale {d : Desk} {c : IngestCall} (hoff : d.offset relpath = stale)
    (hshort : (d.content metaDir relpath).length < stale)
    (hobeys : d.LogGrows jsonLoadb metaDir relpath (.ingest c)) :
    ∃ now, Trail (d.job jsonLoadb metaDir c) d.machine.db
        (d.next jsonLoadb metaDir (.ingest c)).machine.db now ∧
      ((d.next jsonLoadb metaDir (.ingest c)).offset relpath = stale ∧ linesOf relpath now = [] ∨
        Recovered (d.content metaDir relpath)
          ((d.next jsonLoadb metaDir (.ingest c)).offset relpath) (linesOf relpath now)) := by
  obtain ⟨now, htrail, hpass⟩ := d.ingest_trail hobeys
  refine ⟨now, htrail, ?_⟩
  rcases hpass relpath with ⟨hnil, hsame⟩ | ⟨content, hlog, hlines, hend⟩
  · left
    rw [← hoff]
    exact ⟨hsame, hnil⟩
  · right
    have hcontent : d.content metaDir relpath = content := by
      rw [Desk.content, hlog]
      rfl
    have hend' : (d.next jsonLoadb metaDir (.ingest c)).offset relpath = _ := hend
    rw [hcontent] at hshort ⊢
    have hstart : passStart d.machine.db relpath content = 0 := by
      apply if_pos
      rw [← hoff] at hshort
      exact hshort
    rw [hend', hlines, hstart]
    exact (recovered_start content).pass

/-- A history of a log that stays short of its stale offset until it is read again. -/
theorem recovers_after {d : Desk} {steps post : List DeskStep}
    (h : d.offset relpath = stale ∧ lines = [] ∧
        d.StaysShort jsonLoadb metaDir relpath stale (steps ++ post) ∨
      Recovered (d.content metaDir relpath) (d.offset relpath) lines)
    (hgrows : d.AlwaysGrows jsonLoadb metaDir relpath steps) :
    ∃ log, d.Explains jsonLoadb metaDir steps log ∧
      ((d.after jsonLoadb metaDir steps).offset relpath = stale ∧
          lines ++ linesOf relpath log = [] ∧
          (d.after jsonLoadb metaDir steps).StaysShort jsonLoadb metaDir relpath stale post ∨
        Recovered ((d.after jsonLoadb metaDir steps).content metaDir relpath)
          ((d.after jsonLoadb metaDir steps).offset relpath) (lines ++ linesOf relpath log)) := by
  induction steps generalizing d lines with
  | nil =>
    refine ⟨[], rfl, ?_⟩
    rw [linesOf, List.filter_nil, List.map_nil, List.append_nil]
    exact h
  | cons step steps ih =>
    obtain ⟨hstep, hrest⟩ := hgrows
    cases step with
    | append logs =>
      apply ih _ hrest
      refine h.imp id fun h ↦ ?_
      obtain ⟨more, hmore⟩ := hstep
      show Recovered ((logs.get? (metaDir ++ relpath)).getD []) _ _
      rw [hmore]
      exact h.append more
    | ingest c =>
      -- the invariant behind the command
      have hnow : ∃ now, Trail (d.job jsonLoadb metaDir c) d.machine.db
          (d.next jsonLoadb metaDir (.ingest c)).machine.db now ∧
          ((d.next jsonLoadb metaDir (.ingest c)).offset relpath = stale ∧
              lines ++ linesOf relpath now = [] ∧
              (d.next jsonLoadb metaDir (.ingest c)).StaysShort jsonLoadb metaDir relpath stale
                (steps ++ post) ∨
            Recovered (d.content metaDir relpath)
              ((d.next jsonLoadb metaDir (.ingest c)).offset relpath)
              (lines ++ linesOf relpath now)) := by
        rcases h with ⟨hoff, rfl, hstays⟩ | h
        · obtain ⟨hshort, hstays⟩ := hstays hoff
          obtain ⟨now, htrail, hnow⟩ := ingest_stale hoff hshort hstep
          exact ⟨now, htrail, hnow.imp (fun hnow ↦ ⟨hnow.1, hnow.2, hstays⟩) id⟩
        · obtain ⟨now, htrail, hnow⟩ := ingest_recovered h hstep
          exact ⟨now, htrail, Or.inr hnow⟩
      obtain ⟨now, htrail, hnow⟩ := hnow
      obtain ⟨later, hlater, hend⟩ := ih hnow hrest
      refine ⟨now ++ later, ⟨now, later, rfl, htrail, hlater⟩, ?_⟩
      rw [linesOf_append, ← List.append_assoc]
      exact hend

theorem alwaysGrows_append {d : Desk} {steps post : List DeskStep} :
    d.AlwaysGrows jsonLoadb metaDir relpath (steps ++ post) ↔
      d.AlwaysGrows jsonLoadb metaDir relpath steps ∧
        (d.after jsonLoadb metaDir steps).AlwaysGrows jsonLoadb metaDir relpath post := by
  induction steps generalizing d with
  | nil => exact (and_iff_right trivial).symm
  | cons step steps ih =>
    have ih := ih (d := d.next jsonLoadb metaDir step)
    constructor
    · rintro ⟨hstep, hrest⟩
      exact ⟨⟨hstep, (ih.mp hrest).1⟩, (ih.mp hrest).2⟩
    · rintro ⟨⟨hstep, hbefore⟩, hafter⟩
      exact ⟨hstep, ih.mpr ⟨hbefore, hafter⟩⟩

/-- Behind a successful command on a recovered log every line was ingested. -/
theorem Recovered.succeeds {d : Desk} {c : IngestCall} {kind : FileKind}
    (h : Recovered (d.content metaDir relpath)
      ((d.next jsonLoadb metaDir (.ingest c)).offset relpath) lines)
    (howns : kind.owns relpath = true) (hok : d.Succeeds jsonLoadb metaDir c) :
    (keptLines (d.content metaDir relpath)).Sublist lines := by
  cases hlog : d.logs.get? (metaDir ++ relpath) with
  | none =>
    rw [Desk.content, hlog]
    exact List.nil_sublist _
  | some content =>
    have hcontent : d.content metaDir relpath = content := by
      rw [Desk.content, hlog]
      rfl
    rw [hcontent] at h ⊢
    have hidle := hok.idle howns hlog
    have hstart : passStart (d.next jsonLoadb metaDir (.ingest c)).machine.db relpath content =
        (d.next jsonLoadb metaDir (.ingest c)).offset relpath := if_neg (Nat.not_lt.mpr h.within)
    rw [hstart] at hidle
    exact h.complete hidle

/-- A log that shrank below its stored offset, and grows from then on: where commands find it
short of that offset until one of them has ingested some of it, a successful command has
ingested all its lines. -/
theorem truncated_log_recovers {d : Desk} {steps : List DeskStep} {c : IngestCall}
    {kind : FileKind} (howns : kind.owns relpath = true)
    (hgrows : d.AlwaysGrows jsonLoadb metaDir relpath (steps ++ [.ingest c]))
    (hstays : d.StaysShort jsonLoadb metaDir relpath (d.offset relpath) (steps ++ [.ingest c]))
    (hok : (d.after jsonLoadb metaDir steps).Succeeds jsonLoadb metaDir c) :
    ∃ log, d.Explains jsonLoadb metaDir (steps ++ [.ingest c]) log ∧
      (keptLines ((d.after jsonLoadb metaDir steps).content metaDir relpath)).Sublist
        (linesOf relpath log) := by
  obtain ⟨hbefore, hlast, -⟩ := alwaysGrows_append.mp hgrows
  obtain ⟨log, hlog, hend⟩ := recovers_after (Or.inl ⟨rfl, rfl, hstays⟩) hbefore
  rw [List.nil_append] at hend
  rcases hend with ⟨hoff, hnil, hstays⟩ | hrec
  · obtain ⟨hshort, -⟩ := hstays hoff
    obtain ⟨now, htrail, hnow⟩ := ingest_stale hoff hshort hlast
    refine ⟨log ++ now, hlog.ingest htrail, ?_⟩
    rw [linesOf_append, hnil, List.nil_append]
    rcases hnow with ⟨hoff', -⟩ | hrec
    · -- nothing was taken although the log was read from its start
      cases hget : (d.after jsonLoadb metaDir steps).logs.get? (metaDir ++ relpath) with
      | none =>
        rw [Desk.content, hget]
        exact List.nil_sublist _
      | some content =>
        have hidle := hok.idle howns hget
        have hcontent : (d.after jsonLoadb metaDir steps).content metaDir relpath = content := by
          rw [Desk.content, hget]
          rfl
        rw [hcontent] at hshort ⊢
        rw [← hoff'] at hshort
        rw [show passStart _ relpath content = 0 from if_pos hshort, List.drop_zero] at hidle
        rw [keptLines_of_taken_nil hidle]
        exact List.nil_sublist _
    · exact hrec.succeeds howns hok
  · obtain ⟨now, htrail, hnow⟩ := ingest_recovered hrec hlast
    refine ⟨log ++ now, hlog.ingest htrail, ?_⟩
    rw [linesOf_append]
    exact hnow.succeeds howns hok

end Recovery

namespace Shrunk

theorem owned : FileKind.stats.owns relpath = true := by decide

theorem undisturbed : call.Undisturbed := ⟨rfl, rfl, fun _ _ he ↦ by cases he⟩

/-- The offset behind the play and four ends of lines. -/
def stale : Nat := (ended 4).length

/-- A log that was read up to there is empty, and then has the play again. -/
def regrown (content : Text) : List DeskStep := [.ingest call, .append (logs content)]

theorem alwaysGrows (content : Text) :
    (desk [] stale).AlwaysGrows readObject metaDir relpath (regrown content ++ [.ingest call]) := by
  refine ⟨obeys_nil _ ingestSound_ok _, ⟨content, ?_⟩, obeys_nil _ ingestSound_ok _, trivial⟩
  rw [logs, Table.get?_put, if_pos rfl]
  rfl

end Shrunk

/-- A log that is empty when it is found short, and has grown past the old offset when it is
found again, is not read from its start: the play in it is lost. -/
theorem play_lost_behind_stale_offset :
    (Shrunk.desk [] Shrunk.stale).content Shrunk.metaDir Shrunk.relpath = [] ∧
      0 < (Shrunk.desk [] Shrunk.stale).offset Shrunk.relpath ∧
      (Shrunk.desk [] Shrunk.stale).AlwaysGrows readObject Shrunk.metaDir Shrunk.relpath
        (Shrunk.regrown (Shrunk.ended 5) ++ [.ingest Shrunk.call]) ∧
      (∀ n ≤ 2, ((Shrunk.desk [] Shrunk.stale).after readObject Shrunk.metaDir
        ((Shrunk.regrown (Shrunk.ended 5)).take n)).Succeeds readObject
          Shrunk.metaDir Shrunk.call) ∧
      ¬ ∃ log, (Shrunk.desk [] Shrunk.stale).Explains readObject Shrunk.metaDir
          (Shrunk.regrown (Shrunk.ended 5) ++ [.ingest Shrunk.call]) log ∧
        (keptLines (((Shrunk.desk [] Shrunk.stale).after readObject Shrunk.metaDir
          (Shrunk.regrown (Shrunk.ended 5))).content Shrunk.metaDir
            Shrunk.relpath)).Sublist (linesOf Shrunk.relpath log) := by
  refine ⟨by decide +kernel, by decide +kernel, Shrunk.alwaysGrows _, ?_, ?_⟩
  · intro n hn
    exact Shrunk.undisturbed.succeeds (by decide) _
  · rintro ⟨log, ⟨now₁, _, rfl, h₁, ⟨now₂, _, rfl, h₂, rfl⟩⟩, hsub⟩
    have h₁ := Shrunk.length_plays_of_trail (by decide +kernel) h₁ rfl (by decide +kernel)
    have h₂ := Shrunk.length_plays_of_trail (by decide +kernel) h₂ rfl (by decide +kernel)
    have hnone : ((Shrunk.desk [] Shrunk.stale).after readObject Shrunk.metaDir
        (Shrunk.regrown (Shrunk.ended 5) ++ [.ingest Shrunk.call])).machine.db.plays.length
          = 0 := by decide +kernel
    have hmem : Shrunk.line ∈ linesOf Shrunk.relpath (now₁ ++ (now₂ ++ [])) := by
      apply hsub.mem
      decide +kernel
    rw [List.append_nil, linesOf_append, ← List.count_pos_iff, List.count_append] at hmem
    have hsum := h₂.symm.trans hnone
    have hfirst : ((Shrunk.desk [] Shrunk.stale).next readObject Shrunk.metaDir
        (.ingest Shrunk.call)).machine.db.plays.length = _ := h₁
    have hsum : ((Shrunk.desk [] Shrunk.stale).next readObject Shrunk.metaDir
        (.ingest Shrunk.call)).machine.db.plays.length + _ = 0 := hsum
    omega

/-- A log that is found short until it is read from its start loses nothing. -/
theorem play_found_again :
    ∃ log, (Shrunk.desk [] Shrunk.stale).Explains readObject Shrunk.metaDir
        (Shrunk.regrown (Shrunk.ended 1) ++ [.ingest Shrunk.call]) log ∧
      (keptLines (((Shrunk.desk [] Shrunk.stale).after readObject Shrunk.metaDir
        (Shrunk.regrown (Shrunk.ended 1))).content Shrunk.metaDir Shrunk.relpath)).Sublist
          (linesOf Shrunk.relpath log) := by
  refine truncated_log_recovers Shrunk.owned (Shrunk.alwaysGrows _) ?_ ?_
  · intro _
    refine ⟨by decide +kernel, fun _ ↦ ⟨?_, trivial⟩⟩
    show List.length (Desk.content _ _ _) < Desk.offset _ _
    decide +kernel
  · exact Shrunk.undisturbed.succeeds (by decide) _

end Nocturne
