import Nocturne.Level.Run

/-!
# What the levelling of copies changes

All that a run does before the one `rename` happens below its own directory, whose files have no
other names. What is outside of it is as it was, or it is a copy that was due and is now a finished
encode of its source.
-/

namespace Nocturne.Level

open Lib Proc

variable {ff : Ffmpeg} {job : LevelJob} {fs fs' fs'' : AudioTree} {p q tmp : Path} {a : Audio}
  {s₀ s s' : LevelWorld} {task task' : LevelTask}

/-! ### Below the directory -/

/-- A path below the directory for encodes on their way. -/
def InTmp (job : LevelJob) (p : Path) : Prop := isUnder job.tmpDir p = true

/-- Nothing below the directory is a symbolic link, or has another name. -/
def Isolated (job : LevelJob) (fs : AudioTree) : Prop :=
  ∀ p n, InTmp job p → fs.node? p = some n → (∀ target, n ≠ .symlink target) ∧
    ∀ i, n = .file i → ∀ q, fs.node? q = some (.file i) → q = p

/-- The entry is the same, and so is the file that it may be. -/
def SameAt (fs fs' : AudioTree) (p : Path) : Prop :=
  fs'.node? p = fs.node? p ∧ ∀ i, fs.node? p = some (.file i) → fs'.data i = fs.data i

/-- What is the same in two steps. -/
theorem SameAt.trans (h : SameAt fs fs' p) (h' : SameAt fs' fs'' p) : SameAt fs fs'' p := by
  refine ⟨h'.1.trans h.1, fun i hi ↦ ?_⟩
  rw [h'.2 i (h.1.trans hi), h.2 i hi]

/-- A path that is the same holds the same. -/
theorem SameAt.has (h : SameAt fs fs' p) (ha : fs.Has p a) : fs'.Has p a := by
  obtain ⟨i, hi, hdata⟩ := ha
  exact ⟨i, h.1.trans hi, (h.2 i hi).trans hdata⟩

/-- Changes below the directory, and the directory itself. -/
structure Staged (job : LevelJob) (fs fs' : AudioTree) : Prop where
  outside : ∀ p, ¬ InTmp job p → p ≠ job.tmpDir → SameAt fs fs' p
  isolated : Isolated job fs'
  device : fs'.device = fs.device
  dirs : ∀ p, InTmp job p → fs'.node? p = some .dir → fs.node? p = some .dir
  tmpDir : fs'.node? job.tmpDir = fs.node? job.tmpDir ∨ fs'.node? job.tmpDir = some .dir

/-- The temporary directory is not below itself. -/
theorem not_inTmp_tmpDir : ¬ InTmp job job.tmpDir := by
  unfold InTmp
  rw [isUnder_iff]
  rintro ⟨tail, htail, heq⟩
  exact htail (List.append_right_eq_self.mp heq.symm)

theorem Staged.refl (h : Isolated job fs) : Staged job fs fs :=
  ⟨fun _ _ _ ↦ ⟨rfl, fun _ _ ↦ rfl⟩, h, rfl, fun _ _ hdir ↦ hdir, .inl rfl⟩

/-- Two steps of staging in a row. -/
theorem Staged.trans (h : Staged job fs fs') (h' : Staged job fs' fs'') : Staged job fs fs'' where
  outside p hp hne := (h.outside p hp hne).trans (h'.outside p hp hne)
  isolated := h'.isolated
  device := h'.device.trans h.device
  dirs p hp hdir := h.dirs p hp (h'.dirs p hp hdir)
  tmpDir := by
    rcases h'.tmpDir with heq | hdir
    · rw [heq]
      exact h.tmpDir
    · exact .inr hdir

/-- `unlink` of an entry below the directory. -/
theorem staged_unlink (h : Isolated job fs) (hp : InTmp job p) (hfs : fs.unlink p = .ok fs') :
    Staged job fs fs' := by
  obtain ⟨-, rfl⟩ := Fs.unlink_ok hfs
  have left : ∀ {q n}, (fs.clear p).node? q = some n → fs.node? q = some n := by
    intro q n hq
    rw [Fs.node?_clear] at hq
    split at hq
    · cases hq
    · exact hq
  refine ⟨fun q hq _ ↦ ⟨?_, fun _ _ ↦ rfl⟩, fun q n hq hn ↦ ?_, rfl, fun q _ hdir ↦ left hdir,
    .inl ?_⟩
  · rw [Fs.node?_clear, if_neg]
    exact fun heq ↦ hq (heq ▸ hp)
  · obtain ⟨hlink, hname⟩ := h q n hq (left hn)
    exact ⟨hlink, fun i hi q' hq' ↦ hname i hi q' (left hq')⟩
  · rw [Fs.node?_clear, if_neg]
    exact fun heq ↦ not_inTmp_tmpDir (heq ▸ hp)

/-- `mkdir` of the directory. -/
theorem staged_mkdir (h : Isolated job fs) (hfs : fs.mkdirIn job.tmpDir = .ok fs') :
    Staged job fs fs' ∧ fs'.node? job.tmpDir = some .dir := by
  replace hfs := (Fs.mkdir_of_mkdirIn hfs).2
  unfold Fs.mkdir at hfs
  split at hfs
  · cases hfs
    have hmade : (fs.place job.tmpDir .dir nofun).node? job.tmpDir = some .dir := by
      rw [Fs.node?_place, if_pos rfl]
    refine ⟨⟨fun q _ hne ↦ ⟨?_, fun _ _ ↦ rfl⟩, fun q n hq hn ↦ ?_, rfl, fun q hq hdir ↦ ?_,
      .inr hmade⟩, hmade⟩
    · rw [Fs.node?_place, if_neg hne]
    · have hne : q ≠ job.tmpDir := fun heq ↦ not_inTmp_tmpDir (heq ▸ hq)
      rw [Fs.node?_place, if_neg hne] at hn
      obtain ⟨hlink, hname⟩ := h q n hq hn
      refine ⟨hlink, fun i hi q' hq' ↦ ?_⟩
      rw [Fs.node?_place] at hq'
      split at hq'
      · cases hq'
      · exact hname i hi q' hq'
    · have hne : q ≠ job.tmpDir := fun heq ↦ not_inTmp_tmpDir (heq ▸ hq)
      rwa [Fs.node?_place, if_neg hne] at hdir
  · cases hfs

/-- A file below the directory that is opened and written has no other name. -/
theorem staged_overwrite (h : Isolated job fs) (hp : InTmp job p)
    (hfs : fs.overwrite p a = .ok fs') : Staged job fs fs' ∧ fs'.Has p a := by
  have hlocate : fs.locate (Fs.maxSymlinks + 1) p = some p := by
    unfold Fs.locate
    split
    · next target hn => exact absurd rfl ((h p _ hp hn).1 target)
    · rfl
  have hne : p ≠ job.tmpDir := fun heq ↦ not_inTmp_tmpDir (heq ▸ hp)
  unfold Fs.overwrite at hfs
  rw [hlocate] at hfs
  dsimp only at hfs
  split at hfs
  · next hnone =>
    cases hfs
    refine ⟨⟨fun q hq _ ↦ ⟨?_, fun i hi ↦ Fs.data_addFile hi⟩, fun q n hq hn ↦ ?_, rfl,
      fun q _ hdir ↦ ?_, .inl ?_⟩, fs.next, ?_, Fs.data_addFile_self⟩
    · rw [Fs.node?_addFile, if_neg]
      exact fun heq ↦ hq (heq ▸ hp)
    · rw [Fs.node?_addFile] at hn
      split at hn
      · next heq =>
        cases hn
        refine ⟨nofun, fun i hi q' hq' ↦ ?_⟩
        cases hi
        rw [Fs.node?_addFile] at hq'
        split at hq'
        · next heq' => rw [heq', heq]
        · exact absurd (fs.fresh hq') (Nat.lt_irrefl _)
      · obtain ⟨hlink, hname⟩ := h q n hq hn
        refine ⟨hlink, fun i hi q' hq' ↦ ?_⟩
        rw [Fs.node?_addFile] at hq'
        split at hq'
        · cases hq'
          exact absurd (fs.fresh (hi ▸ hn)) (Nat.lt_irrefl _)
        · exact hname i hi q' hq'
    · rw [Fs.node?_addFile] at hdir
      split at hdir
      · cases hdir
      · exact hdir
    · rw [Fs.node?_addFile, if_neg hne.symm]
    · rw [Fs.node?_addFile, if_pos rfl]
  · next i hi =>
    cases hfs
    refine ⟨⟨fun q hq _ ↦ ⟨rfl, fun j hj ↦ ?_⟩, h, rfl, fun _ _ hdir ↦ hdir, .inl rfl⟩, i, hi, ?_⟩
    · rw [Fs.data_write, Function.update_of_ne]
      rintro rfl
      exact hq ((h p _ hp hi).2 j rfl q hj ▸ hp)
    · rw [Fs.data_write, Function.update_self]
  · cases hfs

/-- An encode leaves the directory for a place outside. -/
theorem rename_staged (h : Isolated job fs) (htmp : InTmp job tmp) (hout : ¬ InTmp job p)
    (ha : fs.Has tmp a) (hfs : fs.renameInto tmp p = .ok fs') :
    fs'.Has p a ∧ Isolated job fs' ∧ fs'.device = fs.device ∧
      (∀ q, ¬ InTmp job q → q ≠ p → SameAt fs fs' q) ∧
      (∀ q, InTmp job q → fs'.node? q = some .dir → fs.node? q = some .dir) := by
  obtain ⟨i, hi, hdata⟩ := ha
  replace hfs := (Fs.rename_of_renameInto hfs).2
  have hother : fs.node? p ≠ some (.file i) := fun hp ↦ hout ((h tmp _ htmp hi).2 i rfl p hp ▸ htmp)
  obtain ⟨n, hn, -, hsame, ⟨hthere, -⟩ | hnode⟩ := Fs.rename_ok hfs
  · rw [hi] at hn
    cases hn
    exact absurd hthere hother
  · rw [hi] at hn
    cases hn
    have hmoved : p ≠ tmp := fun heq ↦ hout (heq ▸ htmp)
    refine ⟨⟨i, ?_, by rw [hsame, hdata]⟩, fun q n hq hnq ↦ ?_, ?_, fun q hq hqp ↦ ⟨?_, ?_⟩,
      fun q hq hdir ↦ ?_⟩
    · rw [hnode, if_neg hmoved, if_pos rfl]
    · have hqp : q ≠ p := fun heq ↦ hout (heq ▸ hq)
      rw [hnode, if_neg hqp] at hnq
      split at hnq
      · cases hnq
      · next hqt =>
        obtain ⟨hlink, hname⟩ := h q n hq hnq
        refine ⟨hlink, fun j hj q' hq' ↦ ?_⟩
        rw [hnode] at hq'
        split at hq'
        · cases hq'
        · split at hq'
          · cases hq'
            exact absurd (hname _ hj tmp hi).symm hqt
          · exact hname j hj q' hq'
    · unfold Fs.rename at hfs
      split at hfs
      · cases hfs
      · repeat' split at hfs
        all_goals first
          | cases hfs; rfl
          | cases hfs
    · have hqt : q ≠ tmp := fun heq ↦ hq (heq ▸ htmp)
      rw [hnode, if_neg hqt, if_neg hqp]
    · exact fun j _ ↦ congrFun hsame j
    · have hqp : q ≠ p := fun heq ↦ hout (heq ▸ hq)
      rw [hnode, if_neg hqp] at hdir
      split at hdir
      · cases hdir
      · exact hdir

end Nocturne.Level
