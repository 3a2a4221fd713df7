import Nocturne.Lib.Within
import Nocturne.Rotate.Run

/-!
# The side work of a rotation

Making directories, copying, linking covers and the sweeps change the tree within bounds, whatever
their calls are answered and wherever the process dies. They do not touch the database.
-/

namespace Nocturne

open Lib Proc

/-- Which entries may change: the path, and what stands there before. -/
abbrev Bounds := Path → Option (Node Name) → Prop

/-- The tree has changed within bounds, and the database not at all. -/
structure Beside {ω : Type} (E : Bounds) (w w' : World ω) : Prop where
  tree : Fs.Within E w.fs w'.fs
  conn : w'.conn = w.conn

variable {ω α β : Type} {A : World ω → Call → Reply Fault → Prop} {E E' : Bounds}
  {w w' w'' : World ω} {path : Path}

theorem Beside.refl (E : Bounds) (w : World ω) : Beside E w w := ⟨Fs.Within.refl E w.fs, rfl⟩

/-- Changes within the same bounds compose. -/
theorem Beside.trans (h : Beside E w w') (h' : Beside E w' w'') : Beside E w w'' :=
  ⟨h.tree.trans h'.tree, h'.conn.trans h.conn⟩

/-- Wider bounds allow more. -/
theorem Beside.mono (h : Beside E w w') (hE : ∀ p n, E p n → E' p n) : Beside E' w w' :=
  ⟨h.tree.mono hE, h.conn⟩

/-- A file that is outside of the bounds keeps its content. -/
theorem Beside.holds (h : Beside E w w') {c : Content} (hp : Holds w.fs path c)
    (hE : ∀ i, ¬ E path (some (.file i))) : Holds w'.fs path c := by
  obtain ⟨i, hi, hc⟩ := hp
  obtain ⟨hi', hd⟩ := h.tree.file hi (hE i)
  exact ⟨i, hi', by rw [hd, hc]⟩

/-- A call to the database. -/
def Call.isSql : Call → Bool
  | .sql _ => true
  | _ => false

/-- Wherever the process stops, it has worked within bounds. -/
def Bounded (A : World ω → Call → Reply Fault → Prop) (E : Bounds) (p : Sys ω α) : Prop :=
  ∀ w : World ω, p.wp A (fun _ ↦ Beside E w) (Beside E w) w

/-- Only statements fail, no call on the tree. -/
structure FilesCalm (A : World ω → Call → Reply Fault → Prop) : Prop where
  sql : ∀ {w call fault}, A w call (.fail fault) → call.isSql = true

/-! ### Rules -/

section Rules

theorem bounded_pure (a : α) : Bounded A E (pure a : Sys ω α) := Beside.refl E

/-- Sequencing. -/
theorem bounded_bind {p : Sys ω α} {k : α → Sys ω β} (hp : Bounded A E p)
    (hk : ∀ a, Bounded A E (k a)) : Bounded A E (p >>= k) := by
  intro w
  rw [wp_bind]
  refine wp_mono (hp w) (fun a w' h ↦ ?_) fun _ h ↦ h
  exact wp_mono (hk a w') (fun _ _ h' ↦ h.trans h') fun _ h' ↦ h.trans h'

theorem bounded_ite {c : Prop} [Decidable c] {p q : Sys ω α} (hp : Bounded A E p)
    (hq : Bounded A E q) : Bounded A E (if c then p else q) := by
  split
  · exact hp
  · exact hq

/-- Wider bounds allow more. -/
theorem Bounded.mono {p : Sys ω α} (h : Bounded A E p) (hE : ∀ p n, E p n → E' p n) :
    Bounded A E' p := by
  intro w
  exact wp_mono (h w) (fun _ _ hw ↦ hw.mono hE) fun _ hw ↦ hw.mono hE

theorem bounded_gets (f : World ω → α) : Bounded A E (Proc.gets f) := Beside.refl E

/-- A reading call changes nothing. -/
theorem bounded_sysRead (call : Call) (f : Tree → Except Errno α) :
    Bounded A E (sysRead call f : Sys ω _) := by
  intro w
  have h := Beside.refl E w
  exact (wp_ask _ _).mpr ⟨fun _ ↦ h, fun _ ↦ h, fun _ _ ↦ h⟩

/-- A call works within the bounds of its effect on the tree. -/
theorem bounded_sysCall {call : Call} {f : Tree → Except Errno Tree}
    (hf : ∀ fs fs', f fs = .ok fs' → Fs.Within E fs fs') :
    Bounded A E (sysCall call f : Sys ω _) := by
  intro w
  have h := Beside.refl E w
  refine (wp_ask _ _).mpr ⟨fun _ ↦ h, fun _ ↦ ?_, fun _ _ ↦ h⟩
  dsimp only
  cases hfs : f w.fs with
  | ok fs => exact ⟨hf _ _ hfs, rfl⟩
  | error e => exact h

/-- A loop, by its body. -/
theorem bounded_each {body : β → Sys ω Unit} {xs : List β}
    (hb : ∀ x ∈ xs, Bounded A E (body x)) : Bounded A E (Proc.each body xs) := by
  intro w
  refine wp_each (fun x hx s hs ↦ ?_) (Beside.refl E w)
  exact wp_mono (hb x hx s) (fun _ _ h ↦ hs.trans h) fun _ h ↦ hs.trans h

end Rules

/-! ### Directories and copies -/

/-- New entries. -/
def New : Bounds := fun _ n ↦ n = none

/-- New entries at the given paths. -/
def Adds (D : Path → Prop) : Bounds := fun p n ↦ n = none ∧ D p

/-- The directories above a path. -/
def DirOf (path q : Path) : Prop := q <+: path.dropLast

/-- Making the parents of a path only adds entries. -/
theorem bounded_mkparents : Bounded A New (mkparents path : Sys ω Bool) := by
  have one : ∀ dir, Bounded A New (mkdirOne dir : Sys ω Bool) := by
    intro dir
    refine bounded_bind (bounded_sysCall fun fs fs' h ↦ ?_) fun r ↦ ?_
    · obtain ⟨q, -, hmk⟩ := Fs.ok_of_bind h
      exact Fs.Within.mkdir hmk rfl
    · split
      · exact bounded_pure _
      · exact bounded_pure _
      · exact bounded_bind (bounded_sysRead _ _) fun _ ↦ bounded_pure _
  have each : ∀ dirs : List Path, Bounded A New (mkdirEach mkdirOne dirs : Sys ω Bool) := by
    intro dirs
    induction dirs with
    | nil => exact bounded_pure _
    | cons dir dirs ih =>
      exact bounded_bind (one dir) fun _ ↦ bounded_ite ih (bounded_pure _)
  exact each _

/-- A file that is new since `w` stands at `q`, and nothing else has changed. -/
structure Copying (w : World ω) (q : Path) (ino : Nat) (w' : World ω) : Prop where
  beside : Beside (Adds (· = q)) w w'
  node : w'.fs.node? q = some (.file ino)
  isNew : w.fs.next ≤ ino
  out : w'.out = w.out

section Copies

variable {q dst : Path} {ino : Nat} {now : Int} {d : FileData}

/-- The new file is opened. -/
theorem Copying.start (hq : w.fs.node? q = none) :
    Copying w q w.fs.next { w with fs := w.fs.addFile q d } := by
  refine ⟨⟨Fs.Within.addFile ⟨hq, rfl⟩, rfl⟩, ?_, Nat.le_refl _, rfl⟩
  rw [Fs.node?_addFile, if_pos rfl]

/-- A write into the new file touches no other. -/
theorem Copying.write (h : Copying w q ino w') (d : FileData) :
    Copying w q ino { w' with fs := w'.fs.write ino d } :=
  ⟨⟨h.beside.tree.write h.isNew, h.beside.conn⟩, h.node, h.isNew, h.out⟩

/-- The new file is unlinked again. -/
theorem Copying.clear (h : Copying w q ino w') (hq : w.fs.node? q = none) :
    Beside (Adds (· = q)) w { w' with fs := w'.fs.clear q } := by
  refine ⟨⟨fun p hp ↦ ?_, h.beside.tree.data, h.beside.tree.next, h.beside.tree.device⟩,
    h.beside.conn⟩
  show (w'.fs.clear q).node? p = _
  rw [Fs.node?_clear]
  by_cases hpq : p = q
  · rw [if_pos hpq, hpq, hq]
  · rw [if_neg hpq]
    exact h.beside.tree.node p hp

/-- The blocks reach the new file in order; behind the last one it is complete. -/
theorem wp_copyBlocks {k : Nat} (left : Nat) (h : Copying w q ino w') (hk : k + left = d.blocks)
    (hd : (w'.fs.data ino).content = (d.upTo now k).content) :
    wp A (copyBlocks now d dst ino k left) (fun ok w'' ↦ Copying w q ino w'' ∧
      (ok = true → (w''.fs.data ino).content = d.content) ∧ (FilesCalm A → ok = true))
      (fun w'' ↦ Copying w q ino w'') w' := by
  induction left generalizing k w' with
  | zero =>
    refine ⟨h, fun _ ↦ ?_, fun _ ↦ rfl⟩
    have hlast : ¬ k < d.blocks := by omega
    rw [hd]
    exact if_neg hlast
  | succ left ih =>
    unfold copyBlocks
    rw [wp_bind]
    refine (wp_ask _ _).mpr ⟨fun _ ↦ h, fun _ ↦ ?_, fun e he ↦
      ⟨h, fun hok ↦ (by cases hok), fun hA ↦ (by cases hA.sql he)⟩⟩
    apply ih (h.write _)
    · omega
    · exact congrArg FileData.content (Function.update_self _ _ _)

/-- A file that is written and flushed is complete. -/
theorem wp_fillCopy (h : Copying w q ino w')
    (hd : (w'.fs.data ino).content = (d.upTo now 0).content) :
    wp A (fillCopy now d dst ino) (fun ok w'' ↦ Copying w q ino w'' ∧
      (ok = true → (w''.fs.data ino).content = d.content) ∧ (FilesCalm A → ok = true))
      (fun w'' ↦ Copying w q ino w'') w' := by
  unfold fillCopy
  rw [wp_bind]
  apply wp_mono (wp_copyBlocks d.blocks h (Nat.zero_add _) hd) _ fun _ h' ↦ h'
  intro written w₁ h₁
  cases written with
  | false => exact ⟨h₁.1, fun hok ↦ (by cases hok), h₁.2.2⟩
  | true =>
    rw [if_pos rfl]
    unfold fsync
    rw [wp_bind]
    refine (wp_ask _ _).mpr ⟨fun _ ↦ h₁.1, fun _ ↦ ?_, fun e he ↦ ?_⟩
    · exact ⟨h₁.1, fun _ ↦ h₁.2.1 rfl, fun _ ↦ rfl⟩
    · exact ⟨h₁.1, fun hok ↦ (by cases hok), fun hA ↦ (by cases hA.sql he)⟩

/-- A copy goes into a new file where the path leads to, or into none. -/
theorem wp_copyOnly (now : Int) (src dst : Path) (w : World ω) :
    wp A (copyOnly now src dst) (fun ok w' ↦ Beside (Adds fun p ↦ w.fs.entry dst = .ok p) w w' ∧
      (ok = true → ∃ q d, w.fs.entry dst = .ok q ∧ w.fs.node? q = none ∧
        w.fs.readAt src = .ok d ∧ Holds w'.fs q d.content))
      (Beside (Adds fun p ↦ w.fs.entry dst = .ok p) w) w := by
  have idle := Beside.refl (Adds fun p ↦ w.fs.entry dst = .ok p) w
  have noCopy : ∀ {P : Prop}, false = true → P := fun he ↦ by cases he
  unfold copyOnly
  rw [wp_bind]
  refine (wp_ask _ _).mpr ⟨fun _ ↦ idle, fun _ ↦ ?_, fun e _ ↦ ⟨idle, noCopy⟩⟩
  dsimp only
  cases hread : w.fs.readAt src with
  | error e => exact ⟨idle, noCopy⟩
  | ok d =>
    dsimp only
    rw [wp_bind, wp_gets, wp_bind]
    refine (wp_ask _ _).mpr ⟨fun _ ↦ idle, fun _ ↦ ?_, fun e _ ↦ ⟨idle, noCopy⟩⟩
    dsimp only
    cases hcreate : w.fs.createExclAt dst (d.upTo now 0) with
    | error e => exact ⟨idle, noCopy⟩
    | ok fs =>
      obtain ⟨q, hq, hnew⟩ := Fs.ok_of_bind hcreate
      obtain ⟨hfree, rfl⟩ := Fs.createExcl_ok hnew
      have weaken : ∀ p n, Adds (· = q) p n → Adds (fun p ↦ w.fs.entry dst = .ok p) p n := by
        rintro p n ⟨hn, rfl⟩
        exact ⟨hn, hq⟩
      dsimp only
      rw [wp_bind]
      apply wp_mono (wp_fillCopy (Copying.start hfree) (congrArg FileData.content
        Fs.data_addFile_self)) _ fun w₁ h₁ ↦ h₁.beside.mono weaken
      rintro written w₁ ⟨h₁, hdone, -⟩
      have hbeside := h₁.beside.mono weaken
      cases written with
      | true => exact ⟨hbeside, fun _ ↦ ⟨q, d, hq, hfree, rfl, w.fs.next, h₁.node, hdone rfl⟩⟩
      | false =>
        rw [if_neg Bool.false_ne_true, wp_bind]
        refine (wp_ask _ _).mpr ⟨fun _ ↦ hbeside, fun _ ↦ ?_, fun e _ ↦ ⟨hbeside, noCopy⟩⟩
        -- the path still leads to the new file
        have hq₁ : w₁.fs.entry dst = .ok q :=
          Fs.entry_keeps (h₁.beside.tree.keepsWays fun _ _ hE ↦ hE.1) hq
        dsimp only
        rw [Fs.unlinkAt_file hq₁ h₁.node]
        exact ⟨(h₁.clear hfree).mono weaken, noCopy⟩

/-- A copy is a new entry. -/
theorem bounded_copyOnly (now : Int) (src dst : Path) :
    Bounded A New (copyOnly now src dst : Sys ω Bool) := by
  intro w
  exact wp_mono (wp_copyOnly now src dst w) (fun _ _ h ↦ h.1.mono fun _ _ hE ↦ hE.1)
    fun _ h ↦ h.mono fun _ _ hE ↦ hE.1

end Copies

/-! ### Covers -/

/-- A link is a new entry. -/
theorem bounded_doLink (src dst : Path) : Bounded A New (doLink src dst : Sys ω _) := by
  apply bounded_sysCall
  intro fs fs' h
  obtain ⟨p, -, h⟩ := Fs.ok_of_bind h
  obtain ⟨q, -, h⟩ := Fs.ok_of_bind h
  exact Fs.Within.link h rfl

/-- Linking the covers of an album only adds entries. -/
theorem bounded_linkAlbumCovers (now : Int) (archiveAudio residentAudio : Path) :
    Bounded A New (linkAlbumCovers now archiveAudio residentAudio : Sys ω Unit) := by
  refine bounded_each fun name _ ↦ ?_
  unfold linkCover
  refine bounded_bind (bounded_bind (bounded_sysRead _ _) fun _ ↦ bounded_pure _) fun _ ↦ ?_
  refine bounded_ite ?_ (bounded_pure _)
  refine bounded_bind (bounded_bind (bounded_sysRead _ _) fun _ ↦ bounded_pure _) fun _ ↦ ?_
  refine bounded_ite (bounded_pure _) (bounded_bind bounded_mkparents fun _ ↦ ?_)
  refine bounded_ite (bounded_bind (bounded_doLink _ _) fun r ↦ ?_) (bounded_pure _)
  split
  · exact bounded_bind (bounded_copyOnly _ _ _) fun _ ↦ bounded_pure _
  · exact bounded_pure _

/-! ### Sweeps -/

section Sweeps

variable {A : World RotateStats → Call → Reply Fault → Prop} {E : Bounds}

/-- A path with the name of a cover. -/
def IsCover (path : Path) : Prop := ∃ name ∈ coverSidecarNames, path.getLast? = some name

instance (path : Path) : Decidable (IsCover path) :=
  inferInstanceAs (Decidable (∃ name ∈ coverSidecarNames, _))

/-- An entry has the name that the path has. -/
theorem isCover_entry {fs : Tree} {p q : Path} (h : fs.entry p = .ok q) :
    IsCover q ↔ IsCover p := by
  unfold IsCover
  rw [Fs.getLast?_entry h]

/-- Directories and covers. -/
def Swept : Bounds := fun p n ↦ n = some .dir ∨ IsCover p

/-- A pass over the entries, by what it does with one. -/
theorem bounded_anyKeeps {keeps : Name → Sys RotateStats Bool} (names : List Name)
    (h : ∀ name, Bounded A E (keeps name)) : Bounded A E (anyKeeps keeps names) := by
  induction names with
  | nil => exact bounded_pure _
  | cons name names ih =>
    exact bounded_bind (h name) fun _ ↦ bounded_bind ih fun _ ↦ bounded_pure _

/-- The second pass of `prune_dir` takes covers away. -/
theorem bounded_keepsSidecar (dir : Path) (name : Name) :
    Bounded A Swept (keepsSidecar dir name) := by
  unfold keepsSidecar
  by_cases hname : isCoverSidecarName name = true
  · rw [if_pos hname]
    have hcover : IsCover (dir ++ [name]) :=
      ⟨name, of_decide_eq_true hname, List.getLast?_concat⟩
    refine bounded_bind (bounded_sysRead _ _) fun r ↦ ?_
    split
    · refine bounded_bind (bounded_sysCall fun fs fs' h ↦ ?_) fun _ ↦ bounded_pure _
      exact Fs.Within.unlink h fun _ _ ↦ Or.inr hcover
    · exact bounded_pure _
  · rw [if_neg hname]
    exact bounded_pure _

/-- `prune_dir` takes directories and covers away, at any depth. -/
theorem bounded_pruneDir (depth : Nat) (dir : Path) : Bounded A Swept (pruneDir depth dir) := by
  induction depth generalizing dir with
  | zero => exact bounded_pure _
  | succ depth ih =>
    have first : ∀ name, Bounded A Swept (keepsDir (pruneDir depth) dir name) := by
      intro name
      refine bounded_ite (bounded_pure _) (bounded_bind (bounded_sysRead _ _) fun r ↦ ?_)
      split
      · exact bounded_pure _
      · exact bounded_bind (ih _) fun _ ↦ bounded_pure _
      · exact bounded_pure _
      · exact bounded_pure _
    unfold pruneDir
    refine bounded_bind (bounded_sysRead _ _) fun names ↦ ?_
    cases names with
    | error e => exact bounded_pure _
    | ok names =>
      refine bounded_bind (bounded_anyKeeps _ first) fun b ↦ bounded_ite (bounded_pure _) ?_
      refine bounded_bind (bounded_sysRead _ _) fun names ↦ ?_
      cases names with
      | error e => exact bounded_pure _
      | ok names =>
        refine bounded_bind (bounded_anyKeeps _ fun name ↦ bounded_keepsSidecar dir name)
          fun b ↦ bounded_ite (bounded_pure _) ?_
        refine bounded_bind (bounded_sysCall fun fs fs' h ↦ ?_) fun _ ↦ bounded_pure _
        exact Fs.Within.rmdir h (Or.inl rfl)

/-- The sweep of `resident/` takes directories and covers away. -/
theorem bounded_pruneResidentTree (root : Path) : Bounded A Swept (pruneResidentTree root) := by
  refine bounded_bind (bounded_gets _) fun depth ↦ bounded_bind (bounded_gets _) fun root ↦ ?_
  cases root with
  | none => exact bounded_pure _
  | some root =>
    refine bounded_bind (bounded_sysRead _ _) fun names ↦ ?_
    cases names with
    | error e => exact bounded_pure _
    | ok names =>
      refine bounded_each fun name _ ↦ bounded_ite (bounded_pure _) ?_
      refine bounded_bind (bounded_sysRead _ _) fun r ↦ ?_
      split
      · exact bounded_bind (bounded_pruneDir _ _) fun _ ↦ bounded_pure _
      · exact bounded_pure _

/-- `.nomedia` is a new entry, if it is not there. -/
theorem bounded_ensureResidentNomedia (job : RotateJob) :
    Bounded A New (ensureResidentNomedia job) := by
  unfold ensureResidentNomedia
  refine bounded_ite (bounded_bind (bounded_sysCall fun fs fs' h ↦ ?_) fun _ ↦ bounded_pure _)
    (bounded_pure _)
  obtain ⟨q, -, h⟩ := Fs.ok_of_bind h
  split at h
  · next hnone =>
    cases h
    exact Fs.Within.addFile hnone
  · cases h
    exact Fs.Within.refl _ _
  · cases h

end Sweeps

end Nocturne
