import Nocturne.Scan.Walk

/-!
# Path collisions

The column `tracks.path` is unique, and a visit that moves a row to a path which another row
holds runs into it. A visit goes through exactly when it does not collide in that way, so a
scan completes exactly when no file collides at its turn.
-/

namespace Nocturne

open Lib

/-- The content of the file has a row, and another row holds the path of the file. -/
def Collides (digest : Content → Sha) (fs : Tree) (db : Db) (rec : TagRecord) : Prop :=
  ∃ hex, Examined digest fs db rec hex ∧ db.tracks.get? hex ≠ none ∧
    ∃ holder, HoldsPath db holder rec.path ∧ holder ≠ hex

variable {digest : Content → Sha} {isoNow : Text} {fs : Tree} {db : Db} {rec : TagRecord}

/-- Deleting the row that holds a path frees the path for new content. -/
theorem insertTrack_deleteTrack {old sha : Sha} {row : TrackRow}
    (hold : HoldsPath db old row.path) (hsha : db.tracks.get? sha = none) :
    ∃ db', (db.deleteTrack old).insertTrack sha row = some db' := by
  apply Option.isSome_iff_exists.mp
  rw [Db.insertTrack_isSome, Db.get?_deleteTrack, UniqueTable.find?_eq_none]
  constructor
  · split
    · rfl
    · exact hsha
  · intro s r hr hp
    rw [Db.get?_deleteTrack] at hr
    split at hr
    · cases hr
    · next hne => exact hne (HoldsPath.unique ⟨r, hr, hp⟩ hold)

/-- An update of a row goes through unless another row holds its path. -/
theorem updateTrack_eq_none {sha : Sha} {row : TrackRow} (hsha : db.tracks.get? sha ≠ none) :
    db.updateTrack sha row = none ↔ ∃ holder, HoldsPath db holder row.path ∧ holder ≠ sha := by
  rw [← Option.not_isSome_iff_eq_none, Db.updateTrack_isSome]
  constructor
  · intro h
    by_contra hc
    push Not at hc
    exact h ⟨hsha, fun s r hs hp ↦ hc s ⟨r, hs, hp⟩⟩
  · rintro ⟨holder, ⟨r, hr, hp⟩, hne⟩ ⟨-, h⟩
    exact hne (h holder r hr hp)

/-- Storing a file fails only as an update. -/
private theorem run_store_eq_none {hex : Sha} {m s : Int} :
    (Verdict.store db hex (trackRowOf rec m s isoNow)
        ((db.tracks.find? rec.path).map Prod.fst)).run isoNow db = none ↔
      db.tracks.get? hex ≠ none ∧ ∃ holder, HoldsPath db holder rec.path ∧ holder ≠ hex := by
  unfold Verdict.store
  cases hx : db.tracks.get? hex with
  | some r =>
    simp only [Option.isSome_some, if_true, Verdict.run]
    rw [updateTrack_eq_none (by rw [hx]; simp)]
    simp [trackRowOf]
  | none =>
    simp only [Option.isSome_none, Bool.false_eq_true, if_false, ne_eq, not_true_eq_false,
      false_and, iff_false]
    cases hf : (db.tracks.find? rec.path).map Prod.fst with
    | none =>
      have hfree : db.tracks.find? (trackRowOf rec m s isoNow).path = none :=
        Option.map_eq_none_iff.mp hf
      have hins := Option.isSome_iff_exists.mp (Db.insertTrack_isSome.mpr ⟨hx, hfree⟩)
      obtain ⟨db', hdb⟩ := hins
      simp [Verdict.run, hdb]
    | some old =>
      have hold : HoldsPath db old (trackRowOf rec m s isoNow).path := holder_eq_some.mp hf
      obtain ⟨db', hdb⟩ := insertTrack_deleteTrack hold hx
      simp [Verdict.run, hdb]

/-- Only a collision stops a visit. -/
theorem run_eq_none_iff (isoNow : Text) :
    (Verdict.of digest isoNow fs db rec).run isoNow db = none ↔ Collides digest fs db rec := by
  rcases Verdict.of_cases digest isoNow fs db rec with ⟨hv, -, hno⟩ | ⟨sha, hu, hv⟩ | ⟨hex, m, s, he, -, hv⟩
  · rw [hv]
    refine iff_of_false (by simp [Verdict.run]) ?_
    rintro ⟨hex, he, -⟩
    exact hno hex he
  · rw [hv]
    obtain ⟨db', hdb, -⟩ := Db.markSeen_ok db sha isoNow
    refine iff_of_false (by simp [Verdict.run, hdb]) ?_
    rintro ⟨hex, he, -⟩
    exact he.2.1 sha hu
  · rw [hv, run_store_eq_none]
    constructor
    · exact fun h ↦ ⟨hex, he, h⟩
    · rintro ⟨hex', he', h⟩
      have hh := he.2.2.1.symm.trans he'.2.2.1
      injection hh with hh
      subst hh
      exact h

/-! ### Whole scans -/

/-- The file collides with what the walk has made of the database before it comes to it. -/
def CollidesAfter (digest : Content → Sha) (isoNow : Text) (w : World ScanCtx)
    (pre : List TagRecord) (rec : TagRecord) : Prop :=
  Collides digest (walkState digest isoNow w pre).fs (walkState digest isoNow w pre).conn.view rec

theorem goesOn_walkState_iff {w : World ScanCtx} {pre : List TagRecord} :
    GoesOn digest isoNow (walkState digest isoNow w pre) rec ↔
      ¬ CollidesAfter digest isoNow w pre rec := by
  rw [goesOn_iff, CollidesAfter, ← run_eq_none_iff isoNow]

/-- A full scan completes exactly when no file of its walk collides at its turn. -/
theorem scan_completes_iff (digest : Content → Sha) (m : Machine) (libraryRoot : Path)
    (isoNow : Text) (walk : List TagRecord) (hroot : m.fs.stat? libraryRoot = some .dir) :
    ((scanResult digest (scanJob libraryRoot isoNow walk) m).2.out.hardError = false ∧
        0 ≤ (scanResult digest (scanJob libraryRoot isoNow walk) m).1) ↔
      ∀ pre rec post, walk = pre ++ rec :: post →
        ¬ CollidesAfter digest isoNow (begun (m.start {})) pre rec := by
  have heval := eval_scanRunInternal digest (scanJob libraryRoot isoNow walk) (m.start {}) rfl hroot
  have h₀ : (begun (m.start ({} : ScanCtx))).out.hardError = false := rfl
  have hflag := walkState_hardError digest isoNow walk h₀
  simp only [goesOn_walkState_iff] at hflag
  rw [← hflag, scanResult, heval]
  have hrc : 0 ≤ scanRc (accounted digest (scanJob libraryRoot isoNow walk) (m.start {})).out := by
    unfold scanRc
    split <;> omega
  constructor
  · rintro ⟨hout, hpos⟩
    cases hf : (walked digest (scanJob libraryRoot isoNow walk) (m.start {})).out.hardError with
    | false => exact hf
    | true =>
      rw [hf] at hpos
      simp at hpos
  · intro hf
    have hf' : (walked digest (scanJob libraryRoot isoNow walk) (m.start {})).out.hardError =
        false := hf
    rw [hf', if_neg Bool.false_ne_true]
    dsimp only
    exact ⟨accounted_hardError.trans hf', hrc⟩

/-- A digest for concrete runs: the bytes themselves. -/
def rawDigest : Content → Sha
  | .plain bytes => bytes
  | _ => []

namespace MoveOver

/-- The library of the runs below. -/
def root : Path := [ascii "music"]

def pathA : Path := root ++ [ascii "a.flac"]
def pathB : Path := root ++ [ascii "b.flac"]

/-- Two tracks. -/
def before : Tree :=
  ((Tree.empty.addDir root).addFile pathA ⟨.plain [1], 1, 1⟩).addFile pathB ⟨.plain [2], 2, 1⟩

/-- `mv b.flac a.flac`. -/
def after : Tree := (Tree.empty.addDir root).addFile pathA ⟨.plain [2], 2, 1⟩

/-- The scan of both tracks. -/
def firstScan : ScanJob := scanJob root [1] [.untagged pathA, .untagged pathB]

/-- The machine when the second scan starts. -/
def machine : Machine := ⟨after, (afterScan rawDigest firstScan ⟨before, .empty⟩).db⟩

end MoveOver

/-- Moving one scanned track over another stops the next scan. -/
theorem scan_stops_on_move_over :
    ¬ ∀ (digest : Content → Sha) (m : Machine), ScanReachable digest m →
      ∀ (libraryRoot : Path) (isoNow : Text) (walk : List TagRecord),
        m.fs.stat? libraryRoot = some .dir → Lists m.fs libraryRoot walk →
        (scanResult digest (scanJob libraryRoot isoNow walk) m).2.out.hardError = false := by
  intro h
  have hreach : ScanReachable rawDigest MoveOver.machine :=
    .edit MoveOver.after (.scan MoveOver.firstScan (.fresh MoveOver.before))
  have hlists : Lists MoveOver.after MoveOver.root [.untagged MoveOver.pathA] := by
    refine ⟨by decide, fun p ↦ ?_⟩
    simp only [MoveOver.after, Tree.addDir, Fs.node?_addFile, Fs.node?_place, List.map_cons,
      List.map_nil, List.mem_singleton]
    constructor
    · rintro rfl
      exact ⟨by decide, 0, rfl⟩
    · rintro ⟨-, i, hi⟩
      split at hi
      · next hp => exact hp
      · split at hi <;> cases hi
  have hfalse := h rawDigest MoveOver.machine hreach MoveOver.root [2]
    [.untagged MoveOver.pathA] (by decide) hlists
  revert hfalse
  decide +kernel

/-- The first scan of a library goes through, and no file of it collides. -/
theorem first_scan_no_collision :
    0 ≤ (scanResult rawDigest MoveOver.firstScan ⟨MoveOver.before, .empty⟩).1 ∧
      ∀ pre rec post, [TagRecord.untagged MoveOver.pathA, .untagged MoveOver.pathB] =
          pre ++ rec :: post →
        ¬ CollidesAfter rawDigest [1] (begun (Machine.start ⟨MoveOver.before, .empty⟩ {})) pre
          rec := by
  have hpos : 0 ≤ (scanResult rawDigest MoveOver.firstScan ⟨MoveOver.before, .empty⟩).1 := by
    decide +kernel
  have hout : (scanResult rawDigest MoveOver.firstScan
      ⟨MoveOver.before, .empty⟩).2.out.hardError = false := by
    decide +kernel
  exact ⟨hpos, (scan_completes_iff rawDigest ⟨MoveOver.before, .empty⟩ MoveOver.root [1]
    [.untagged MoveOver.pathA, .untagged MoveOver.pathB] (by decide)).mp ⟨hout, hpos⟩⟩

end Nocturne
