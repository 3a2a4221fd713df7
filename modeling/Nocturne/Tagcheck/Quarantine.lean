import Nocturne.Lib.JsonString
import Nocturne.Lib.Proc
import Nocturne.Lib.Whereabouts
import Nocturne.Numbers

/-!
# The quarantine

`quarantine_move` renames a file of the library to its place in the quarantine, or to a free name
beside it where the place is taken. It takes a place for free also when `lstat` has failed for
another reason than that nothing is there; `quarantine_conserves` is about the runs in which that
does not happen to a place that is taken.
-/

namespace Nocturne

open Lib

namespace Tagcheck

/-! ### The state -/

/-- `struct quarantine_ctx` without the log and the counters. -/
structure QuarantineCtx where
  libraryRoot : Path
  quarantineRoot : Path
  dryRun : Bool
  deriving DecidableEq, Repr

/-- What a call reports: a line of the log, a line of a dry run, or a complaint. -/
inductive MoveReport where
  | moved (src target : Path)
  | wouldMove (src target : Path)
  | failed (src : Path)
  deriving DecidableEq, Repr

/-- The source of the call. -/
def MoveReport.src : MoveReport → Path
  | moved src _ | wouldMove src _ | failed src => src

/-- The move of a call that has made one. -/
def MoveReport.move? : MoveReport → Option (Path × Path)
  | moved src target => some (src, target)
  | wouldMove _ _ | failed _ => none

/-- The files, the counters of the context, and what has been reported. -/
structure Quarantine where
  fs : Tree
  movedCount : Nat
  failedMoves : Nat
  reports : List MoveReport

/-- Before the first call. -/
def Quarantine.start (fs : Tree) : Quarantine := ⟨fs, 0, 0, []⟩

/-- What an attempt at a free name finds: the time, a random number, and whether there is memory for
the name. -/
structure Stamp where
  ts : Int
  rand : UInt32
  memory : Bool
  deriving DecidableEq, Repr

/-- A call: the path of the record, and what the attempts find. -/
structure MoveRequest where
  src : Path
  stamps : Nat → Stamp

/-- The system calls. The first look at a target is told from those at other names. -/
inductive QuarantineCall where
  | mkdir (path : Path)
  | lstatTarget (path : Path)
  | lstatCandidate (path : Path)
  | rename (old new : Path)
  deriving DecidableEq, Repr

/-- How a system call fails. That nothing is there is an answer about the files, and no failure. -/
def QuarantineFault := { e : Errno // e ≠ .ENOENT }

/-- Code of the quarantine. -/
abbrev QuarantineProc := Proc Quarantine QuarantineCall QuarantineFault

/-! ### System calls -/

/-- `mkdir(2)`. -/
def qMkdir (path : Path) : QuarantineProc (Except Errno Unit) :=
  Proc.ask (.mkdir path) fun s fault ↦
    match fault with
    | some e => (.error e.val, s)
    | none =>
      match s.fs.mkdir path with
      | .ok fs => (.ok (), { s with fs := fs })
      | .error e => (.error e, s)

/-- `lstat(2)`. -/
def qLstat (call : QuarantineCall) (path : Path) : QuarantineProc (Except Errno Unit) :=
  Proc.ask call fun s fault ↦
    match fault with
    | some e => (.error e.val, s)
    | none => (if s.fs.node? path = none then .error .ENOENT else .ok (), s)

/-- `rename(2)`. -/
def qRename (old new : Path) : QuarantineProc (Except Errno Unit) :=
  Proc.ask (.rename old new) fun s fault ↦
    match fault with
    | some e => (.error e.val, s)
    | none =>
      match s.fs.rename old new with
      | .ok fs => (.ok (), { s with fs := fs })
      | .error e => (.error e, s)

/-! ### The functions -/

/-- `compute_target`, `quarantine.c:308–327`. -/
def computeTarget (src libRoot quarRoot : Path) : Option Path :=
  if libRoot ≠ [] ∧ libRoot.isPrefixOf src ∧ src.drop libRoot.length ≠ [] then
    some (quarRoot ++ src.drop libRoot.length)
  else none

/-- The loop of `mkdir_p_for_file`: a directory that is there is fine. -/
def mkdirAll : List Path → QuarantineProc Bool
  | [] => pure true
  | dir :: dirs => do
    match ← qMkdir dir with
    | .ok () => mkdirAll dirs
    | .error e => if e = .EEXIST then mkdirAll dirs else pure false

/-- `mkdir_p_for_file`, `quarantine.c:216–259`: the directories on the way to a file. -/
def mkdirPForFile (target : Path) : QuarantineProc Bool := mkdirAll target.dropLast.inits.tail

/-- `%04x` of a number of 16 bits. -/
def salt4 (n : UInt32) : Text :=
  [12, 8, 4, 0].map fun shift : UInt32 ↦ JsonString.digit ((n >>> shift) &&& 15).toUInt8

/-- The name that an attempt tries, `quarantine.c:341–352`. -/
def dupName (target : Path) (attempt : Nat) (stamp : Stamp) : Path :=
  let salt := (stamp.rand ^^^ attempt.toUInt32) &&& 0xFFFF
  let tail := ascii ".dup-" ++ decimal stamp.ts ++ if attempt = 0 then [] else 45 :: salt4 salt
  target.dropLast ++ [target.getLast?.getD [] ++ tail]

/-- The attempts of `resolve_collision`, from one on. -/
def tryNames (target : Path) (stamps : Nat → Stamp) (attempt : Nat) :
    Nat → QuarantineProc (Option Path)
  | 0 => pure none
  | left + 1 =>
    let stamp := stamps attempt
    let candidate := dupName target attempt stamp
    if !stamp.memory then pure none
    else do
      match ← qLstat (.lstatCandidate candidate) candidate with
      | .ok () => tryNames target stamps (attempt + 1) left
      | .error e =>
        if e = .ENOENT then pure (some candidate) else tryNames target stamps (attempt + 1) left

/-- `resolve_collision`, `quarantine.c:332–357`. -/
def resolveCollision (target : Path) (stamps : Nat → Stamp) : QuarantineProc (Option Path) := do
  match ← qLstat (.lstatTarget target) target with
  -- whatever the error is
  | .error _ => pure (some target)
  | .ok () => tryNames target stamps 0 16

/-- A move that has failed. -/
def refuse (src : Path) : QuarantineProc Unit :=
  Proc.modify fun s ↦
    { s with failedMoves := s.failedMoves + 1, reports := s.reports ++ [.failed src] }

/-- A move that has been made, or would be made by a run that is not dry. -/
def report (r : MoveReport) : QuarantineProc Unit :=
  Proc.modify fun s ↦ { s with movedCount := s.movedCount + 1, reports := s.reports ++ [r] }

/-- `quarantine_move`, `quarantine.c:359–452`. -/
def quarantineMove (ctx : QuarantineCtx) (m : MoveRequest) : QuarantineProc Unit :=
  match computeTarget m.src ctx.libraryRoot ctx.quarantineRoot with
  | none => refuse m.src
  | some target =>
    if ctx.dryRun then report (.wouldMove m.src target)
    else do
      if !(← mkdirPForFile target) then refuse m.src
      else
        match ← resolveCollision target m.stamps with
        | none => refuse m.src
        | some final =>
          match ← qRename m.src final with
          | .ok () => report (.moved m.src final)
          | .error _ => refuse m.src

/-- Calls one after another. -/
def quarantineAll (ctx : QuarantineCtx) (requests : List MoveRequest) : QuarantineProc Unit :=
  Proc.each (quarantineMove ctx) requests

/-! ### Conservation -/

/-- The moves that have been made. -/
def movesOf (reports : List MoveReport) : List (Path × Path) := reports.filterMap MoveReport.move?

/-- Every file and symbolic link `n` of the tree `fs₀` is there, with its contents, where the
reported moves lead, and so is every source at the target that was reported for it. What no call has
moved, and the source of a call that has failed or was dry, is where it was. -/
structure Conserved (fs₀ : Tree) (s : Quarantine) : Prop where
  contents : s.fs.data = fs₀.data
  kept : ∀ p n, n ≠ .dir → fs₀.node? p = some n →
    s.fs.node? (whereabouts (movesOf s.reports) p) = some n
  untouched : ∀ p n, n ≠ .dir → fs₀.node? p = some n →
    (∀ target, .moved p target ∉ s.reports) → s.fs.node? p = some n
  moved : ∀ before src target after, s.reports = before ++ .moved src target :: after →
    ∃ p n, n ≠ .dir ∧ fs₀.node? p = some n ∧ whereabouts (movesOf before) p = src ∧
      s.fs.node? (whereabouts (movesOf after) target) = some n
  inPlace : ∀ before r after, s.reports = before ++ r :: after → r.move? = none →
    ∀ p n, n ≠ .dir → fs₀.node? p = some n → whereabouts (movesOf before) p = r.src →
      s.fs.node? (whereabouts (movesOf after) r.src) = some n

/-- The first look at a target fails only where nothing is. -/
def LooksSucceed (s : Quarantine) (call : QuarantineCall) (reply : Reply QuarantineFault) : Prop :=
  ∀ target e, call = .lstatTarget target → reply = .fail e → s.fs.node? target = none

/-! ### What stands -/

/-- The files and symbolic links of a tree. -/
def filesOf (fs : Tree) (p : Path) : Option (Node Name) := (fs.node? p).filter fun n ↦ n ≠ .dir

/-- The files of the tree `fs₀` after the reported moves. -/
structure Stands (fs₀ : Tree) (s : Quarantine) : Prop where
  contents : s.fs.data = fs₀.data
  relocated : Relocated (filesOf fs₀) (movesOf s.reports) (filesOf s.fs)

section Standing

variable {fs fs' fs₀ : Tree} {s : Quarantine} {p : Path} {n : Node Name} {r : MoveReport}
  {before after : List MoveReport}

/-- The files are the entries that are no directories. -/
theorem filesOf_eq_some : filesOf fs p = some n ↔ fs.node? p = some n ∧ n ≠ .dir := by
  unfold filesOf
  rw [Option.filter_eq_some_iff, decide_eq_true_eq]

/-- Where nothing is, no file is. -/
theorem filesOf_eq_none (h : fs.node? p = none) : filesOf fs p = none := by
  unfold filesOf
  rw [h]
  rfl

/-- Moves are listed in their order. -/
theorem movesOf_append : movesOf (before ++ after) = movesOf before ++ movesOf after :=
  List.filterMap_append

/-- At the start nothing has moved. -/
theorem Stands.start (fs : Tree) : Stands fs (.start fs) := ⟨rfl, Relocated.refl _⟩

/-- Where the files stand as moved, none is lost and none is written over. -/
theorem Stands.conserved (h : Stands fs₀ s) : Conserved fs₀ s := by
  have hkept : ∀ p n, n ≠ .dir → fs₀.node? p = some n →
      s.fs.node? (whereabouts (movesOf s.reports) p) = some n := fun p n hn hp ↦
    (filesOf_eq_some.mp (h.relocated.kept p n (filesOf_eq_some.mpr ⟨hp, hn⟩))).1
  refine ⟨h.contents, hkept, ?_, ?_, ?_⟩
  · intro p n hn hp hnever
    have hwhere : whereabouts (movesOf s.reports) p = p := by
      apply whereabouts_of_not_moved
      intro target hmem
      obtain ⟨r, hr, hmove⟩ := List.mem_filterMap.mp hmem
      cases r with
      | moved src target' =>
        cases hmove
        exact hnever target hr
      | wouldMove src target' => cases hmove
      | failed src => cases hmove
    have hnow := hkept p n hn hp
    rwa [hwhere] at hnow
  · intro before src target after heq
    have hmoves : movesOf s.reports = movesOf before ++ (src, target) :: movesOf after := by
      rw [heq, movesOf_append]
      rfl
    obtain ⟨p, n, hp, hwhere⟩ := h.relocated.source _ _ _ _ hmoves
    obtain ⟨hp, hn⟩ := filesOf_eq_some.mp hp
    refine ⟨p, n, hn, hp, hwhere, ?_⟩
    have hnow := hkept p n hn hp
    have hlead : whereabouts ((src, target) :: movesOf after) src =
        whereabouts (movesOf after) target := by
      show whereabouts (movesOf after) (if src = src then target else src) = _
      rw [if_pos rfl]
    rwa [hmoves, whereabouts_append, hwhere, hlead] at hnow
  · intro before r after heq hr p n hn hp hwhere
    have hmoves : movesOf s.reports = movesOf before ++ movesOf after := by
      rw [heq, movesOf_append]
      unfold movesOf
      rw [List.filterMap_cons_none hr]
    have hnow := hkept p n hn hp
    rwa [hmoves, whereabouts_append, hwhere] at hnow

/-- A directory is made where nothing is. -/
theorem filesOf_mkdir (h : fs.mkdir p = .ok fs') :
    filesOf fs' = filesOf fs ∧ fs'.data = fs.data := by
  unfold Fs.mkdir at h
  split at h
  · next hnone =>
    cases h
    refine ⟨?_, rfl⟩
    funext q
    unfold filesOf
    rw [Fs.node?_place]
    split
    · next hq =>
      rw [hq, hnone]
      rfl
    · rfl
  · cases h

/-- A report that is no move says nothing of where the files are. -/
theorem Stands.note (h : Stands fs₀ s) (hr : r.move? = none) (moved failed : Nat) :
    Stands fs₀ ⟨s.fs, moved, failed, s.reports ++ [r]⟩ := by
  refine ⟨h.contents, ?_⟩
  show Relocated (filesOf fs₀) (movesOf (s.reports ++ [r])) (filesOf s.fs)
  have hmoves : movesOf (s.reports ++ [r]) = movesOf s.reports := by
    rw [movesOf_append]
    unfold movesOf
    rw [List.filterMap_cons_none hr, List.filterMap_nil, List.append_nil]
  rw [hmoves]
  exact h.relocated

/-- A rename to a path where nothing is, and its report. -/
theorem Stands.rename {src target : Path} (h : Stands fs₀ s) (hfree : s.fs.node? target = none)
    (hrename : s.fs.rename src target = .ok fs) (moved failed : Nat) :
    Stands fs₀ ⟨fs, moved, failed, s.reports ++ [.moved src target]⟩ := by
  obtain ⟨n, hsrc, hn, hdata, hsame | hmoved⟩ := Fs.rename_ok hrename
  · rw [hfree] at hsame
    cases hsame.1
  · refine ⟨hdata.trans h.contents, ?_⟩
    show Relocated (filesOf fs₀) (movesOf (s.reports ++ [.moved src target])) (filesOf fs)
    rw [movesOf_append]
    apply h.relocated.move (filesOf_eq_some.mpr ⟨hsrc, hn⟩) (filesOf_eq_none hfree)
    intro q
    unfold filesOf
    rw [hmoved]
    split
    · rfl
    · split
      · exact Option.filter_some_pos (by simpa using hn)
      · rfl

end Standing

/-! ### Runs -/

section Runs

variable {fs₀ : Tree} {s : Quarantine}

/-- Making a directory moves no file. -/
theorem wp_qMkdir (path : Path) (h : Stands fs₀ s) :
    Proc.wp LooksSucceed (qMkdir path)
      (fun _ t ↦ Stands fs₀ t ∧ t.reports = s.reports) (Stands fs₀) s := by
  refine (Proc.wp_ask _ _).mpr ⟨fun _ ↦ h, fun _ ↦ ?_, fun _ _ ↦ ⟨h, rfl⟩⟩
  dsimp only
  split
  · next fs hfs =>
    obtain ⟨hfiles, hdata⟩ := filesOf_mkdir hfs
    refine ⟨⟨hdata.trans h.contents, ?_⟩, rfl⟩
    show Relocated (filesOf fs₀) (movesOf s.reports) (filesOf fs)
    rw [hfiles]
    exact h.relocated
  · exact ⟨h, rfl⟩

/-- Making directories moves no file. -/
theorem wp_mkdirAll (dirs : List Path) (h : Stands fs₀ s) :
    Proc.wp LooksSucceed (mkdirAll dirs)
      (fun _ t ↦ Stands fs₀ t ∧ t.reports = s.reports) (Stands fs₀) s := by
  induction dirs generalizing s with
  | nil => exact ⟨h, rfl⟩
  | cons dir dirs ih =>
    rw [mkdirAll, Proc.wp_bind]
    apply Proc.wp_mono (wp_qMkdir dir h) _ fun _ ht ↦ ht
    intro answer t ht
    obtain ⟨ht, hreports⟩ := ht
    have hrest := ih ht
    rw [hreports] at hrest
    cases answer with
    | ok _ => exact hrest
    | error e =>
      dsimp only
      split
      · exact hrest
      · exact ⟨ht, hreports⟩

/-- An attempt gives a name that is free. -/
theorem wp_tryNames (target : Path) (stamps : Nat → Stamp) (attempt left : Nat) (h : Stands fs₀ s) :
    Proc.wp LooksSucceed (tryNames target stamps attempt left)
      (fun name t ↦ t = s ∧ ∀ p, name = some p → s.fs.node? p = none) (Stands fs₀) s := by
  induction left generalizing attempt with
  | zero => exact ⟨rfl, nofun⟩
  | succ left ih =>
    rw [tryNames]
    split
    · exact ⟨rfl, nofun⟩
    · rw [Proc.wp_bind]
      refine (Proc.wp_ask _ _).mpr ⟨fun _ ↦ h, fun _ ↦ ?_, fun e _ ↦ ?_⟩
      · dsimp only
        by_cases hfree : s.fs.node? (dupName target attempt (stamps attempt)) = none
        · simp only [if_pos hfree, if_true]
          refine ⟨rfl, ?_⟩
          intro p hp
          rw [← Option.some.inj hp]
          exact hfree
        · rw [if_neg hfree]
          exact ih (attempt + 1)
      · dsimp only
        rw [if_neg e.property]
        exact ih (attempt + 1)

/-- The name that is chosen is free, where `lstat` tells the truth. -/
theorem wp_resolveCollision (target : Path) (stamps : Nat → Stamp) (h : Stands fs₀ s) :
    Proc.wp LooksSucceed (resolveCollision target stamps)
      (fun name t ↦ t = s ∧ ∀ p, name = some p → s.fs.node? p = none) (Stands fs₀) s := by
  rw [resolveCollision, Proc.wp_bind]
  refine (Proc.wp_ask _ _).mpr ⟨fun _ ↦ h, fun _ ↦ ?_, fun e hlook ↦ ?_⟩
  · dsimp only
    by_cases hfree : s.fs.node? target = none
    · rw [if_pos hfree]
      refine ⟨rfl, ?_⟩
      intro p hp
      rw [← Option.some.inj hp]
      exact hfree
    · rw [if_neg hfree]
      exact wp_tryNames target stamps 0 16 h
  · refine ⟨rfl, ?_⟩
    intro p hp
    rw [← Option.some.inj hp]
    exact hlook target e rfl rfl

/-- A call keeps every file, and reports once. -/
theorem wp_quarantineMove (ctx : QuarantineCtx) (m : MoveRequest) (h : Stands fs₀ s) :
    Proc.wp LooksSucceed (quarantineMove ctx m)
      (fun _ t ↦ Stands fs₀ t ∧
        t.reports.map MoveReport.src = s.reports.map MoveReport.src ++ [m.src])
      (Stands fs₀) s := by
  have hrefuse : ∀ t, Stands fs₀ t → t.reports = s.reports →
      Proc.wp LooksSucceed (refuse m.src) (fun _ t ↦ Stands fs₀ t ∧
        t.reports.map MoveReport.src = s.reports.map MoveReport.src ++ [m.src]) (Stands fs₀) t := by
    intro t ht hreports
    exact ⟨ht.note rfl _ _, by simp [hreports, MoveReport.src]⟩
  unfold quarantineMove
  split
  · exact hrefuse s h rfl
  · next target htarget =>
    split
    · exact ⟨h.note rfl _ _, by simp [MoveReport.src]⟩
    · rw [Proc.wp_bind]
      apply Proc.wp_mono (wp_mkdirAll _ h) _ fun _ ht ↦ ht
      intro made t ht
      obtain ⟨ht, hreports⟩ := ht
      split
      · exact hrefuse t ht hreports
      · rw [Proc.wp_bind]
        apply Proc.wp_mono (wp_resolveCollision target m.stamps ht) _ fun _ ht ↦ ht
        intro name u hu
        obtain ⟨rfl, hfree⟩ := hu
        cases name with
        | none => exact hrefuse u ht hreports
        | some final =>
          dsimp only
          rw [Proc.wp_bind]
          refine (Proc.wp_ask _ _).mpr ⟨fun _ ↦ ht, fun _ ↦ ?_, fun _ _ ↦ hrefuse u ht hreports⟩
          cases hrename : u.fs.rename m.src final with
          | ok fs =>
            exact ⟨ht.rename (hfree final rfl) hrename _ _, by simp [hreports, MoveReport.src]⟩
          | error e => exact hrefuse u ht hreports

/-- In a run in which the first look at a target never fails where something is, every file is kept
at any time, and in the end each call has reported. -/
theorem quarantine_conserves (ctx : QuarantineCtx) (fs : Tree) (requests : List MoveRequest)
    (replies : List (Reply QuarantineFault))
    (h : (quarantineAll ctx requests).Obeys LooksSucceed (.start fs) replies) :
    (∃ s rest, (quarantineAll ctx requests).run (.start fs) replies = .done () s rest ∧
        Conserved fs s ∧ s.reports.map MoveReport.src = requests.map MoveRequest.src) ∨
      ∃ s, (quarantineAll ctx requests).run (.start fs) replies = .dead s ∧ Conserved fs s := by
  have hall : Proc.wp LooksSucceed (quarantineAll ctx requests)
      (fun _ s ↦ Stands fs s ∧ s.reports.map MoveReport.src ++ [] =
        requests.map MoveRequest.src) (Stands fs) (.start fs) := by
    apply Proc.wp_each_rest (I := fun rest s ↦ Stands fs s ∧
      s.reports.map MoveReport.src ++ rest.map MoveRequest.src = requests.map MoveRequest.src)
    · intro m rest s hs
      apply Proc.wp_mono (wp_quarantineMove ctx m hs.1) _ fun _ ht ↦ ht
      intro _ t ht
      refine ⟨ht.1, ?_⟩
      rw [ht.2, ← hs.2]
      simp
    · exact ⟨Stands.start fs, rfl⟩
  rcases Proc.run_of_wp hall h with ⟨_, s, rest, hrun, hs, hreports⟩ | ⟨s, hrun, hs⟩
  · exact Or.inl ⟨s, rest, hrun, hs.conserved, by simpa using hreports⟩
  · exact Or.inr ⟨s, hrun, hs.conserved⟩

/-- A library and its quarantine. -/
def mirrored : QuarantineCtx := ⟨[ascii "l"], [ascii "q"], false⟩

/-- The library and the quarantine have a file of the same name. -/
def sameName : Tree :=
  ((Tree.empty.addDir [ascii "q"]).addFile [ascii "l", ascii "a"] ⟨.plain [1], 0, 0⟩).addFile
    [ascii "q", ascii "a"] ⟨.plain [2], 0, 0⟩

/-- A call for the file of the library. -/
def moveA : MoveRequest := ⟨[ascii "l", ascii "a"], fun _ ↦ ⟨0, 0, true⟩⟩

/-- A move to a name that is taken. -/
theorem collision_conserved :
    (∃ s rest, (quarantineAll mirrored [moveA]).run (.start sameName) [] = .done () s rest ∧
        Conserved sameName s ∧ s.reports.map MoveReport.src = [moveA].map MoveRequest.src) ∨
      ∃ s, (quarantineAll mirrored [moveA]).run (.start sameName) [] = .dead s ∧
        Conserved sameName s := by
  apply quarantine_conserves mirrored sameName [moveA] []
  apply Proc.obeys_nil
  exact fun _ _ _ _ _ h ↦ by cases h

/-- `lstat` fails with `EIO`, and the file of the quarantine is gone. -/
theorem file_overwritten : ¬ Conserved sameName
    ((quarantineAll mirrored [moveA]).run (.start sameName)
      [.ok, .fail ⟨.other 5, by decide⟩, .ok]).state := by
  intro h
  have hkept := h.kept [ascii "q", ascii "a"] (.file 1) (by decide) (by decide +kernel)
  revert hkept
  decide +kernel

end Runs

end Tagcheck

end Nocturne
