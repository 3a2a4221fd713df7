import Mathlib.Data.Int.Order.Basic
import Nocturne.Ingest.Delivery
import Nocturne.Lib.Lww

/-!
# Likes

Each row of `likes` is a register that the last writer wins, with `ts` as the stamp. A
multiset of like events leaves the same rows in whatever order it is ingested exactly when, for
each item, its newest events agree.
-/

namespace Nocturne

open Lib Lib.Records

/-! ### The table -/

theorem likes_pin (db : Db) (unit : ItemUnit) (id : Text) (pinned : Bool) (ts : Int) :
    (db.pin unit id pinned ts).likes = db.likes := by
  have hu : ∀ row, (db.upsertPin unit id row).likes = db.likes := by
    intro row
    unfold Db.upsertPin
    split
    · split <;> rfl
    · rfl
  unfold Db.pin
  dsimp only
  split
  · unfold Db.dropUnsync
    split <;> exact hu _
  · exact hu _

/-- Only likes and deletions touch `likes`. -/
theorem likes_apply {relpath : Path} {now : Int} {db : Db} {ev : Event} (hlike : ev.kind ≠ .likes)
    (hdel : ∀ unit id ts, ev ≠ .delete unit id ts) :
    (db.apply relpath now ev).likes = db.likes := by
  cases ev with
  | play ts kind track playedMs =>
    dsimp only [Db.apply, Db.play, Db.insertPlay]
    split <;> rfl
  | like unit id liked ts => exact absurd rfl hlike
  | pin unit id pinned ts =>
    dsimp only [Db.apply]
    split
    · rfl
    · exact likes_pin db unit id pinned ts
  | unsync unit id ts =>
    cases unit with
    | album => rfl
    | track =>
      dsimp only [Db.apply, Db.unsync, Db.putUnsync, Db.clearPin]
      split
      · rfl
      · split <;> rfl
  | delete unit id ts => exact absurd rfl (hdel unit id ts)

/-- A like is a write to the register of its item. -/
theorem get?_upsertLike (db : Db) (unit : ItemUnit) (id : Text) (row : LikeRow)
    (key : ItemUnit × Text) : (db.upsertLike unit id row).likes.get? key =
      if key = (unit, id) then Lww.write LikeRow.ts (db.likes.get? key) row
      else db.likes.get? key := by
  unfold Db.upsertLike
  by_cases hk : key = (unit, id)
  · subst hk
    rw [if_pos rfl]
    cases h : db.likes.get? (unit, id) with
    | none => exact Table.get?_put_self ..
    | some old =>
      dsimp only [Lww.write]
      split
      · exact Table.get?_put_self ..
      · exact h
  · rw [if_neg hk]
    split
    · split
      · exact Table.get?_put_ne _ _ hk
      · rfl
    · exact Table.get?_put_ne _ _ hk

/-! ### Multisets of likes -/

/-- A line that is one like event at any time from `t₀` on. -/
structure LikeLine (jsonLoadb : Text → Option Json) (t₀ : Int) where
  text : Text
  key : ItemUnit × Text
  row : LikeRow
  one : newline ∉ text
  short : text.length ≤ jsonlMaxLine
  parses : ∀ now, t₀ ≤ now →
    lineEvent jsonLoadb .likes now text = some (.like key.1 key.2 row.liked row.ts)

section Likes

variable {jsonLoadb : Text → Option Json} {metaDir : Path} {t₀ : Int}

/-- The rows that some like events write for an item, in their order. -/
def rowsFor (key : ItemUnit × Text) (E : List (LikeLine jsonLoadb t₀)) : List LikeRow :=
  (E.filter fun e ↦ e.key = key).map LikeLine.row

/-- What a history ingested: the like events `E`, in some order and from whatever logs, and
possibly other events, but no deletion. -/
structure CarriesLikes (E : List (LikeLine jsonLoadb t₀)) (log : List LogEntry) : Prop where
  timely : ∀ e ∈ log, t₀ ≤ e.now
  likes : ((log.filter fun e ↦ e.kind = .likes).map LogEntry.line).Perm (E.map LikeLine.text)
  noDelete : ∀ e ∈ log, ∀ unit id ts,
    lineEvent jsonLoadb e.kind e.now e.line ≠ some (.delete unit id ts)

/-- A multiset of like events converges: any two histories that ingest it end with the same
likes, and ingesting some of the events again changes nothing. -/
def LikesConverge (metaDir : Path) (E : List (LikeLine jsonLoadb t₀)) : Prop :=
  ∀ (d d' : Desk) (steps steps' : List DeskStep) (log log' : List LogEntry),
    d.machine.db.likes = d'.machine.db.likes →
    d.Explains jsonLoadb metaDir steps log → d'.Explains jsonLoadb metaDir steps' log' →
    CarriesLikes E log → CarriesLikes E log' →
    (∀ key, (d.after jsonLoadb metaDir steps).machine.db.likes.get? key =
      (d'.after jsonLoadb metaDir steps').machine.db.likes.get? key) ∧
    ∀ (more : List DeskStep) (again : List LogEntry) (E' : List (LikeLine jsonLoadb t₀)),
      (d.after jsonLoadb metaDir steps).Explains jsonLoadb metaDir more again →
      CarriesLikes E' again → (∀ e ∈ E', e ∈ E) →
      ∀ key, (((d.after jsonLoadb metaDir steps).after jsonLoadb metaDir more).machine.db.likes.get?
        key) = (d.after jsonLoadb metaDir steps).machine.db.likes.get? key

/-- For each item, the newest of the events agree. -/
def NewestAgree (E : List (LikeLine jsonLoadb t₀)) : Prop :=
  ∀ key, Lww.Agree LikeRow.ts (rowsFor key E)

/-- A replay writes the rows of the likes among its lines. -/
theorem replay_likes {E : List (LikeLine jsonLoadb t₀)} {log : List LogEntry}
    (htimely : ∀ e ∈ log, t₀ ≤ e.now)
    (hlikes : E.map LikeLine.text = (log.filter fun e ↦ e.kind = .likes).map LogEntry.line)
    (hdel : ∀ e ∈ log, ∀ unit id ts,
      lineEvent jsonLoadb e.kind e.now e.line ≠ some (.delete unit id ts))
    (db : Db) (key : ItemUnit × Text) :
    (replay jsonLoadb log db).likes.get? key =
      (rowsFor key E).foldl (Lww.write LikeRow.ts) (db.likes.get? key) := by
  induction log generalizing E db with
  | nil =>
    rw [List.filter_nil, List.map_nil, List.map_eq_nil_iff] at hlikes
    rw [hlikes]
    rfl
  | cons e log ih =>
    have ih := fun E h db ↦ ih (E := E) (fun e' he' ↦ htimely e' (List.mem_cons_of_mem _ he')) h
      (fun e' he' ↦ hdel e' (List.mem_cons_of_mem _ he')) db
    show (replay jsonLoadb log
      (db.applyLine jsonLoadb e.kind e.relpath e.now e.line)).likes.get? key = _
    by_cases hk : e.kind = .likes
    · rw [List.filter_cons_of_pos (by simpa using hk), List.map_cons] at hlikes
      cases E with
      | nil => cases hlikes
      | cons l E =>
        injection hlikes with hline hlikes
        have hparse := l.parses e.now (htimely e (List.mem_cons_self ..))
        have happly : db.applyLine jsonLoadb e.kind e.relpath e.now e.line =
            db.upsertLike l.key.1 l.key.2 l.row := by
          rw [Db.applyLine, hk, ← hline, hparse]
          rfl
        rw [happly, ih E hlikes, get?_upsertLike]
        by_cases hkey : key = l.key
        · rw [if_pos hkey, rowsFor, rowsFor, List.filter_cons_of_pos (by simp [hkey])]
          rfl
        · rw [if_neg hkey, rowsFor, rowsFor, List.filter_cons_of_neg (by simpa using Ne.symm hkey)]
    · rw [List.filter_cons_of_neg (by simpa using hk)] at hlikes
      have happly : (db.applyLine jsonLoadb e.kind e.relpath e.now e.line).likes = db.likes := by
        unfold Db.applyLine
        split
        · next ev hev =>
          apply likes_apply
          · rw [lineEvent_kind hev]
            exact hk
          · intro unit id ts he
            rw [he] at hev
            exact hdel e (List.mem_cons_self ..) unit id ts hev
        · rfl
      rw [ih E hlikes, happly]

/-- A replay writes the rows of the likes that it carries, in some order. -/
theorem CarriesLikes.replayed {E : List (LikeLine jsonLoadb t₀)} {log : List LogEntry}
    (h : CarriesLikes E log) : ∃ E', E'.Perm E ∧ ∀ db key,
      (replay jsonLoadb log db).likes.get? key =
        (rowsFor key E').foldl (Lww.write LikeRow.ts) (db.likes.get? key) := by
  obtain ⟨E', hE', htexts⟩ := exists_perm_map h.likes
  exact ⟨E', hE', fun db key ↦ replay_likes h.timely htexts h.noDelete db key⟩

theorem rowsFor_perm {E E' : List (LikeLine jsonLoadb t₀)} (h : E'.Perm E)
    (key : ItemUnit × Text) : (rowsFor key E').Perm (rowsFor key E) :=
  (h.filter _).map _

/-- A log of likes. -/
def likesLog : Path := [ascii "likes-phone-A.jsonl"]

/-- The lines of some like events, as one log has them. -/
def likeLines (E : List (LikeLine jsonLoadb t₀)) : List (FileKind × Path × Text) :=
  E.map fun e ↦ (.likes, likesLog, e.text)

theorem likesLog_owned : FileKind.likes.owns likesLog = true := by decide

theorem deliverable_likeLines (E : List (LikeLine jsonLoadb t₀)) :
    ∀ l ∈ likeLines E, Deliverable l.1 l.2.1 l.2.2 := by
  intro l hl
  obtain ⟨e, -, rfl⟩ := List.mem_map.mp hl
  exact ⟨likesLog_owned, e.one, e.short⟩

/-- What the delivery of some like events ingests. -/
theorem carries_delivered {E E' : List (LikeLine jsonLoadb t₀)} (h : E'.Perm E) :
    CarriesLikes E ((likeLines E').map fun l ↦ ⟨l.2.1, l.1, t₀, l.2.2⟩) := by
  have hentries : ∀ e ∈ (likeLines E').map fun l ↦ (⟨l.2.1, l.1, t₀, l.2.2⟩ : LogEntry),
      ∃ l ∈ E', e = ⟨likesLog, .likes, t₀, l.text⟩ := by
    intro e he
    simp only [likeLines, List.map_map, List.mem_map, Function.comp_apply] at he
    obtain ⟨l, hl, rfl⟩ := he
    exact ⟨l, hl, rfl⟩
  constructor
  · intro e he
    obtain ⟨l, -, rfl⟩ := hentries e he
    exact Int.le_refl _
  · rw [List.filter_eq_self.mpr]
    · simp only [likeLines, List.map_map]
      exact h.map _
    · intro e he
      obtain ⟨l, -, rfl⟩ := hentries e he
      rfl
  · intro e he unit id ts hdel
    obtain ⟨l, -, rfl⟩ := hentries e he
    rw [l.parses t₀ (Int.le_refl _)] at hdel
    cases hdel

/-- The rows that a delivery leaves. -/
theorem likes_delivered (hmeta : metaDir ≠ []) (E : List (LikeLine jsonLoadb t₀))
    (key : ItemUnit × Text) :
    (Desk.fresh.after jsonLoadb metaDir
      (deliveryAt metaDir t₀ (likeLines E))).machine.db.likes.get? key =
      (rowsFor key E).foldl (Lww.write LikeRow.ts) none := by
  have hexpl := @deliver_fresh jsonLoadb metaDir hmeta t₀ _ (deliverable_likeLines E)
  have hc := carries_delivered (List.Perm.refl E)
  rw [hexpl.replayed]
  apply replay_likes hc.timely ?_ hc.noDelete
  rw [List.filter_eq_self.mpr]
  · simp only [likeLines, List.map_map]
    rfl
  · intro e he
    simp only [likeLines, List.map_map, List.mem_map, Function.comp_apply] at he
    obtain ⟨l, -, rfl⟩ := he
    rfl

/-- Converging events have newest events that agree. -/
theorem LikesConverge.newestAgree {E : List (LikeLine jsonLoadb t₀)} (hmeta : metaDir ≠ [])
    (hconv : LikesConverge metaDir E) : NewestAgree E := by
  -- the events are delivered twice, with either of two newest ones last
  intro key r r' hr hr'
  have last : ∀ r, Lww.Newest LikeRow.ts (rowsFor key E) r → ∃ E', List.Perm E' E ∧
      (rowsFor key E').foldl (Lww.write LikeRow.ts) none = some r := by
    intro r hr
    obtain ⟨e, he, rfl⟩ := List.mem_map.mp hr.1
    obtain ⟨hmem, hkey⟩ := List.mem_filter.mp he
    obtain ⟨E₁, E₂, rfl⟩ := List.append_of_mem hmem
    have hperm : (E₁ ++ E₂ ++ [e]).Perm (E₁ ++ e :: E₂) := by
      rw [List.append_assoc]
      exact (List.perm_append_singleton e E₂).append_left E₁
    refine ⟨E₁ ++ E₂ ++ [e], hperm, ?_⟩
    have hrows : rowsFor key (E₁ ++ E₂ ++ [e]) = rowsFor key (E₁ ++ E₂) ++ [e.row] := by
      have hlast : [e].filter (fun e ↦ e.key = key) = [e] :=
        List.filter_eq_self.mpr (by simpa using hkey)
      rw [rowsFor, List.filter_append, List.map_append, hlast]
      rfl
    rw [hrows]
    apply Lww.foldl_concat_newest
    rw [← hrows]
    exact hr.perm (rowsFor_perm hperm key)
  obtain ⟨E₁, hperm₁, hlast₁⟩ := last r hr
  obtain ⟨E₂, hperm₂, hlast₂⟩ := last r' hr'
  have hsame := (hconv .fresh .fresh _ _ _ _ rfl
    (deliver_fresh hmeta t₀ (deliverable_likeLines E₁))
    (deliver_fresh hmeta t₀ (deliverable_likeLines E₂))
    (carries_delivered hperm₁) (carries_delivered hperm₂)).1 key
  rw [likes_delivered hmeta, likes_delivered hmeta, hlast₁, hlast₂] at hsame
  exact Option.some.inj hsame
/-- Events whose newest agree converge. -/
theorem NewestAgree.likesConverge {E : List (LikeLine jsonLoadb t₀)} (hagree : NewestAgree E) :
    LikesConverge metaDir E := by
  intro d d' steps steps' log log' hstart hexpl hexpl' hc hc'
  have final : ∀ {d : Desk} {steps : List DeskStep} {log : List LogEntry},
      d.Explains jsonLoadb metaDir steps log → CarriesLikes E log → ∀ key,
      (d.after jsonLoadb metaDir steps).machine.db.likes.get? key =
        (rowsFor key E).foldl (Lww.write LikeRow.ts) (d.machine.db.likes.get? key) := by
    intro d steps log hexpl hc key
    obtain ⟨E', hperm, hrows⟩ := hc.replayed
    rw [hexpl.replayed]
    exact (hrows _ key).trans ((hagree key).foldl_perm (rowsFor_perm hperm key) _)
  constructor
  · intro key
    rw [final hexpl hc, final hexpl' hc', hstart]
  · intro more again E' hmore hagain hsub key
    obtain ⟨E'', hperm, hrows⟩ := hagain.replayed
    rw [hmore.replayed]
    refine (hrows _ key).trans ?_
    rw [final hexpl hc]
    -- none of the rows changes the register
    have hall : ∀ r ∈ rowsFor key E'', r ∈ rowsFor key E := by
      intro r hr
      obtain ⟨e, he, rfl⟩ := List.mem_map.mp hr
      obtain ⟨hmem, hkey⟩ := List.mem_filter.mp he
      exact List.mem_map_of_mem (List.mem_filter.mpr ⟨hsub e (hperm.mem_iff.mp hmem), hkey⟩)
    revert hall
    generalize rowsFor key E'' = rows
    intro hall
    induction rows with
    | nil => rfl
    | cons r rows ih =>
      rw [List.foldl_cons, (hagree key).write_again (hall r (List.mem_cons_self ..))]
      exact ih fun r' hr' ↦ hall r' (List.mem_cons_of_mem _ hr')

end Likes

/-- Like events converge exactly when the newest events of each item agree. -/
theorem likes_converge_iff {jsonLoadb : Text → Option Json} {metaDir : Path} {t₀ : Int}
    (hmeta : metaDir ≠ []) (E : List (LikeLine jsonLoadb t₀)) :
    LikesConverge metaDir E ↔ NewestAgree E :=
  ⟨fun h ↦ h.newestAgree hmeta, fun h ↦ h.likesConverge⟩

namespace Tie

/-- The `n`-th millisecond of the events below. -/
def stamp (n : Fin 3) : Int := 1600000000000 + n.val

/-- A like or an unlike of an album. -/
def root (liked : Bool) (n : Fin 3) : List (Text × JsonValue) :=
  [(ascii "v", .integer 1), (ascii "ts", .integer (stamp n)), (ascii "unit", .string (ascii "album")),
    (ascii "id", .string (ascii "x")), (ascii "liked", .boolean liked)]

theorem parses (liked : Bool) (n : Fin 3) {now : Int} (h : 1600000000000 ≤ now) :
    lineEvent readObject .likes now (dumpObject (root liked n)) =
      some (.like .album (ascii "x") liked (stamp n)) := by
  have hread : readObject (dumpObject (root liked n)) = some (.object (root liked n)) := by
    apply readObject_dumpObject
    revert liked n
    decide +kernel
  have hts : tsPlausible now (stamp n) = true := by
    rw [tsPlausible, ingestTsMinMs, stamp, decide_eq_true_iff]
    omega
  have hitem : itemOf now (root liked n) = some (.album, ascii "x", stamp n) :=
    itemOf_eq_some rfl rfl rfl rfl rfl ⟨hts, by decide, fun h ↦ (by cases h)⟩
  rw [lineEvent, if_neg (dumpObject_ne_nil _), hread]
  show (itemOf now (root liked n)).bind _ = _
  rw [hitem]
  rfl

/-- The event of a line. -/
def event (liked : Bool) (n : Fin 3) : LikeLine readObject 1600000000000 where
  text := dumpObject (root liked n)
  key := (.album, ascii "x")
  row := ⟨liked, stamp n⟩
  one := newline_notMem_dumpObject _
  short := by
    revert liked n
    decide +kernel
  parses _ h := parses liked n h

/-- An older unlike, and a like and an unlike at the same time. -/
def events : List (LikeLine readObject 1600000000000) :=
  [event false 0, event true 1, event false 1]

/-- Older events, and two at the same time that agree. -/
def agreeing : List (LikeLine readObject 1600000000000) :=
  [event true 0, event false 1, event true 2, event true 2]

end Tie

/-- A like and an unlike of an album at the same time do not converge. -/
theorem equal_stamps_diverge : ¬ LikesConverge LostOffset.metaDir Tie.events := by
  intro h
  have hagree := h.newestAgree (by decide) (.album, ascii "x")
  have hsame := hagree ⟨true, 1600000000001⟩ ⟨false, 1600000000001⟩
    ⟨by decide, by decide⟩ ⟨by decide, by decide⟩
  cases hsame

/-- Events with different stamps converge, and so do equal stamps that agree. -/
theorem agreeing_likes_converge : LikesConverge LostOffset.metaDir Tie.agreeing := by
  apply (likes_converge_iff (by decide) _).mpr
  intro key r r' hr hr'
  have hnewest : ∀ r, Lww.Newest LikeRow.ts (rowsFor key Tie.agreeing) r →
      r = ⟨true, 1600000000002⟩ := by
    intro r ⟨hmem, hle⟩
    by_cases hkey : (.album, ascii "x") = key
    · subst hkey
      have hrows : rowsFor (.album, ascii "x") Tie.agreeing = [⟨true, 1600000000000⟩,
          ⟨false, 1600000000001⟩, ⟨true, 1600000000002⟩, ⟨true, 1600000000002⟩] := by
        decide +kernel
      rw [hrows] at hmem hle
      have hlast := hle ⟨true, 1600000000002⟩ (by simp)
      simp only [List.mem_cons, List.not_mem_nil, or_false] at hmem
      rcases hmem with rfl | rfl | rfl | rfl
      · exact absurd hlast (by decide)
      · exact absurd hlast (by decide)
      · rfl
      · rfl
    · obtain ⟨e, he, -⟩ := List.mem_map.mp hmem
      obtain ⟨hin, he⟩ := List.mem_filter.mp he
      have hof : e.key = (.album, ascii "x") := by
        simp only [Tie.agreeing, List.mem_cons, List.not_mem_nil, or_false] at hin
        rcases hin with rfl | rfl | rfl | rfl <;> rfl
      rw [hof] at he
      exact absurd (of_decide_eq_true he) hkey
  rw [hnewest r hr, hnewest r' hr']

end Nocturne
