import Nocturne.Ingest.Calm

/-!
# Delivering lines one by one

A log grows by one line and an ingest command follows, again and again. Such a history ingests
exactly the lines delivered, in their order, whatever logs they are written to.
-/

namespace Nocturne

open Lib Lib.Records Proc

/-- A log has one kind. -/
theorem owns_unique {kind kind' : FileKind} {relpath : Path} (h : kind.owns relpath = true)
    (h' : kind'.owns relpath = true) : kind = kind' := by
  unfold FileKind.owns at h h'
  cases hlast : relpath.getLast? with
  | none =>
    rw [hlast] at h
    cases h
  | some name =>
    rw [hlast] at h h'
    simp only [Bool.and_eq_true, beq_iff_eq, List.isPrefixOf_iff_prefix] at h h'
    obtain ⟨⟨⟨hdir, hname⟩, -⟩, -⟩ := h
    obtain ⟨⟨⟨hdir', hname'⟩, -⟩, -⟩ := h'
    have hdirs : kind.pattern.1 = kind'.pattern.1 := List.append_cancel_right (hdir.symm.trans hdir')
    have hpre := List.prefix_or_prefix_of_prefix hname hname'
    cases kind <;> cases kind' <;> first
      | rfl
      | (exfalso; revert hdirs hpre; decide)

/-- A permutation of images is the image of a permutation. -/
theorem exists_perm_map {α β : Type} {f : α → β} {l : List β} {E : List α}
    (h : l.Perm (E.map f)) : ∃ E' : List α, E'.Perm E ∧ E'.map f = l := by
  induction l generalizing E with
  | nil =>
    rw [List.nil_perm, List.map_eq_nil_iff] at h
    exact ⟨[], by rw [h], rfl⟩
  | cons x l ih =>
    obtain ⟨e, he, rfl⟩ := List.mem_map.mp (h.subset (List.mem_cons_self ..))
    obtain ⟨s, t, rfl⟩ := List.append_of_mem he
    have hst : (s ++ e :: t).Perm (e :: (s ++ t)) := List.perm_middle
    have hl : l.Perm ((s ++ t).map f) := (h.trans (hst.map f)).cons_inv
    obtain ⟨E', hE', rfl⟩ := ih hl
    exact ⟨e :: E', (hE'.cons e).trans hst.symm, rfl⟩

section Delivery

variable {jsonLoadb : Text → Option Json} {metaDir : Path} {d : Desk} {c : IngestCall}

/-- Write a line to the end of a log. -/
def Logs.addLine (logs : Logs) (abs : Path) (line : Text) : Logs :=
  logs.put abs ((logs.get? abs).getD [] ++ (line ++ [newline]))

/-- Write each line to its log, and ingest it. -/
def delivery (metaDir : Path) (c : IngestCall) : Logs → List (Path × Text) → List DeskStep
  | _, [] => []
  | logs, (relpath, line) :: rest =>
    .append (logs.addLine (metaDir ++ relpath) line) :: .ingest c ::
      delivery metaDir c (logs.addLine (metaDir ++ relpath) line) rest

/-- Everything in the logs was ingested. -/
def Desk.UpToDate (d : Desk) (metaDir : Path) : Prop :=
  ∀ relpath, d.offset relpath = (d.content metaDir relpath).length

/-- A line that can be delivered. -/
structure Deliverable (kind : FileKind) (relpath : Path) (line : Text) : Prop where
  owned : kind.owns relpath = true
  one : newline ∉ line
  short : line.length ≤ jsonlMaxLine

theorem split_line {line : Text} (h : newline ∉ line) :
    split newline (line ++ [newline]) = ([line], []) := by
  rw [split_append_sep h]
  rfl

theorem keptLines_line {line : Text} (h : newline ∉ line) (hl : line.length ≤ jsonlMaxLine) :
    keptLines (line ++ [newline]) = [line] := by
  rw [keptLines, kept, split_line h]
  exact List.filter_cons_of_pos (by simpa using hl)

theorem takenText_line {line : Text} (h : newline ∉ line) :
    takenText (line ++ [newline]) = line ++ [newline] := by
  rw [takenText, taken, split_line h]
  rfl

theorem content_addLine (logs : Logs) (m : Machine) (relpath relpath' : Path) (line : Text) :
    Desk.content metaDir ⟨logs.addLine (metaDir ++ relpath) line, m⟩ relpath' =
      if relpath' = relpath then Desk.content metaDir ⟨logs, m⟩ relpath ++ (line ++ [newline])
      else Desk.content metaDir ⟨logs, m⟩ relpath' := by
  unfold Desk.content Logs.addLine
  dsimp only
  rw [Table.get?_put]
  by_cases h : relpath' = relpath
  · rw [h, if_pos rfl, if_pos rfl]
    rfl
  · rw [if_neg fun he ↦ h (List.append_cancel_left he), if_neg h]

/-- The entries of a log that is the only one with lines. -/
theorem eq_of_linesOf {relpath : Path} {now : List LogEntry}
    (h : ∀ relpath', relpath' ≠ relpath → linesOf relpath' now = []) :
    linesOf relpath now = now.map LogEntry.line := by
  unfold linesOf
  rw [List.filter_eq_self.mpr]
  intro e he
  by_contra hne
  have hmem : e.line ∈ linesOf e.relpath now :=
    List.mem_map_of_mem (List.mem_filter.mpr ⟨he, by simp⟩)
  rw [h e.relpath (by simpa using hne)] at hmem
  cases hmem

/-- A log that is up to date is not read. -/
theorem onePass_upToDate {logs : Logs} {db db' : Db} {relpath : Path} {lines : List Text}
    (h : OnePass logs metaDir relpath db db' lines)
    (hoff : db.storedOffset relpath = ((logs.get? (metaDir ++ relpath)).getD []).length) :
    lines = [] ∧ db'.storedOffset relpath = db.storedOffset relpath := by
  rcases h with h | ⟨content, hlog, hlines, hoff'⟩
  · exact h
  · rw [hlog, Option.getD_some] at hoff
    have hstart : passStart db relpath content = content.length := by
      rw [passStart, hoff]
      exact if_neg (Nat.lt_irrefl _)
    rw [hstart, List.drop_length] at hlines hoff'
    rw [hlines, hoff', hoff]
    exact ⟨rfl, rfl⟩

/-- A log with one new line has it read. -/
theorem onePass_line {logs : Logs} {db db' : Db} {relpath : Path} {lines : List Text}
    {old line : Text} (h : OnePass logs metaDir relpath db db' lines)
    (hlog : logs.get? (metaDir ++ relpath) = some (old ++ (line ++ [newline])))
    (hone : newline ∉ line) (hshort : line.length ≤ jsonlMaxLine)
    (hoff : db.storedOffset relpath = old.length)
    (hidle : takenText ((old ++ (line ++ [newline])).drop
      (passStart db' relpath (old ++ (line ++ [newline])))) = []) :
    lines = [line] ∧ db'.storedOffset relpath = (old ++ (line ++ [newline])).length := by
  have hstart : ∀ db'' : Db, db''.storedOffset relpath = old.length →
      passStart db'' relpath (old ++ (line ++ [newline])) = old.length := by
    intro db'' he
    rw [passStart, he]
    apply if_neg
    rw [List.length_append]
    omega
  rcases h with ⟨-, hsame⟩ | ⟨content, hlog', hlines, hoff'⟩
  · rw [hstart db' (hsame.trans hoff), List.drop_left, takenText_line hone] at hidle
    simp at hidle
  · rw [hlog] at hlog'
    cases hlog'
    rw [hstart db hoff, List.drop_left] at hlines hoff'
    rw [hlines, hoff', keptLines_line hone hshort, takenText_line hone, ← List.length_append]
    exact ⟨rfl, rfl⟩

/-- One line is delivered. -/
theorem deliver_line {kind : FileKind} {relpath : Path} {line : Text} (hmeta : metaDir ≠ [])
    (hc : c.Undisturbed) {t : Int} (ht : ∀ p n, c.clock p n = t) (hd : d.UpToDate metaDir)
    (hline : Deliverable kind relpath line) :
    let d₁ : Desk := ⟨d.logs.addLine (metaDir ++ relpath) line, d.machine⟩
    (d₁.next jsonLoadb metaDir (.ingest c)).UpToDate metaDir ∧
      Trail (d₁.job jsonLoadb metaDir c) d.machine.db
        (d₁.next jsonLoadb metaDir (.ingest c)).machine.db [⟨relpath, kind, t, line⟩] := by
  intro d₁
  have hcontent := @content_addLine metaDir d.logs d.machine relpath
  have hlog : d₁.logs.get? (metaDir ++ relpath) =
      some (d.content metaDir relpath ++ (line ++ [newline])) := Table.get?_put_self ..
  have hobeys : (ingestRun (d₁.job jsonLoadb metaDir c)).Obeys IngestSound (d₁.machine.start {})
      c.answers := by
    rw [hc.answers]
    exact obeys_nil _ ingestSound_ok _
  obtain ⟨now, htrail, hpass⟩ := d₁.ingest_trail hobeys
  have hok : d₁.Succeeds jsonLoadb metaDir c := hc.succeeds hmeta d₁
  have hidle := hok.idle hline.owned hlog
  have hthis := onePass_line (hpass relpath) hlog hline.one hline.short (hd relpath) hidle
  have hothers : ∀ relpath', relpath' ≠ relpath → linesOf relpath' now = [] ∧
      (d₁.next jsonLoadb metaDir (.ingest c)).machine.db.storedOffset relpath' =
        d.machine.db.storedOffset relpath' := by
    intro relpath' hne
    apply onePass_upToDate (hpass relpath')
    have hsame := hcontent relpath' line
    rw [if_neg hne] at hsame
    exact (hd relpath').trans (congrArg List.length hsame.symm)
  constructor
  · intro relpath'
    show (d₁.next jsonLoadb metaDir (.ingest c)).machine.db.storedOffset relpath' =
      (d₁.content metaDir relpath').length
    rw [hcontent relpath' line]
    by_cases he : relpath' = relpath
    · rw [if_pos he, he, hthis.2]
    · rw [if_neg he, (hothers relpath' he).2]
      exact hd relpath'
  · -- all that the command read is this line
    have hlines := hthis.1
    rw [eq_of_linesOf fun relpath' he ↦ (hothers relpath' he).1] at hlines
    obtain ⟨e, rfl, he⟩ := List.map_eq_singleton_iff.mp hlines
    obtain ⟨howns, -, -, i, -, -, hnow⟩ := htrail.source e (List.mem_singleton.mpr rfl)
    have hrel : e.relpath = relpath := by
      by_contra hne
      have hnil := (hothers e.relpath hne).1
      rw [linesOf, List.filter_cons_of_pos (by simp)] at hnil
      cases hnil
    have heq : e = ⟨relpath, kind, t, line⟩ := by
      obtain ⟨r, k, n', l⟩ := e
      dsimp only at hrel he hnow howns
      rw [hrel, he, hnow, owns_unique howns (by rw [hrel]; exact hline.owned)]
      congr 1
      exact ht _ _
    rw [← heq]
    exact htrail

/-- All lines are delivered, in their order. -/
theorem deliver_lines (hmeta : metaDir ≠ []) (hc : c.Undisturbed) {t : Int}
    (ht : ∀ p n, c.clock p n = t) (hd : d.UpToDate metaDir)
    {lines : List (FileKind × Path × Text)}
    (hlines : ∀ l ∈ lines, Deliverable l.1 l.2.1 l.2.2) :
    d.Explains jsonLoadb metaDir (delivery metaDir c d.logs (lines.map Prod.snd))
      (lines.map fun l ↦ ⟨l.2.1, l.1, t, l.2.2⟩) := by
  induction lines generalizing d with
  | nil => rfl
  | cons l rest ih =>
    obtain ⟨kind, relpath, line⟩ := l
    obtain ⟨hup, htrail⟩ := @deliver_line jsonLoadb metaDir d c kind relpath line hmeta hc t ht hd
      (hlines _ (List.mem_cons_self ..))
    exact ⟨[⟨relpath, kind, t, line⟩], _, rfl, htrail,
      ih hup fun l hl ↦ hlines l (List.mem_cons_of_mem _ hl)⟩

/-- A command at the time `t` that nothing disturbs. -/
def IngestCall.quiet (t : Int) : IngestCall := ⟨fun _ ↦ [], fun _ _ ↦ t, false, []⟩

theorem undisturbed_quiet (t : Int) : (IngestCall.quiet t).Undisturbed :=
  ⟨rfl, rfl, fun _ _ he ↦ by cases he⟩

/-- No logs, nothing ingested. -/
def Desk.fresh : Desk := ⟨.empty, .empty, .empty⟩

theorem upToDate_fresh : Desk.fresh.UpToDate metaDir := fun _ ↦ rfl

/-- The history that delivers some lines from the start. -/
def deliveryAt (metaDir : Path) (t : Int) (lines : List (FileKind × Path × Text)) :
    List DeskStep :=
  delivery metaDir (.quiet t) Table.empty (lines.map Prod.snd)

theorem deliver_fresh (hmeta : metaDir ≠ []) (t : Int) {lines : List (FileKind × Path × Text)}
    (hlines : ∀ l ∈ lines, Deliverable l.1 l.2.1 l.2.2) :
    Desk.fresh.Explains jsonLoadb metaDir (deliveryAt metaDir t lines)
      (lines.map fun l ↦ ⟨l.2.1, l.1, t, l.2.2⟩) :=
  deliver_lines hmeta (undisturbed_quiet t) (fun _ _ ↦ rfl) upToDate_fresh hlines

end Delivery

end Nocturne
