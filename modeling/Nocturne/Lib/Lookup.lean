import Mathlib.Data.List.Induction
import Nocturne.Lib.Within

/-!
# Looking up paths

What the kernel makes of a path: each name but the last one has to lead to a directory, through
symbolic links or not, of which there are at most forty on the whole way. A call on a path is the
call on the entry that the path names.
-/

namespace Lib.Fs

variable {ν κ : Type} [DecidableEq ν]

/-- Where the names `todo` lead to from the directory `done` on: an entry, or the place of one that is
not there. `follow` goes on behind a symbolic link. -/
def walk (fs : Fs ν κ) (follow : List ν → Except Errno (List ν)) :
    List ν → List ν → Except Errno (List ν)
  | done, [] => .ok done
  | done, n :: todo =>
    match fs.node? (done ++ [n]) with
    | some (.symlink target) => follow (target ++ todo)
    | some .dir => walk fs follow (done ++ [n]) todo
    | some (.file _) => if todo = [] then .ok (done ++ [n]) else .error .ENOTDIR
    | none => if todo = [] then .ok (done ++ [n]) else .error .ENOENT

/-- Where a path leads to, with at most `fuel` symbolic links. -/
def lookup (fs : Fs ν κ) : (fuel : Nat) → List ν → Except Errno (List ν)
  | 0, p => fs.walk (fun _ ↦ .error .ELOOP) [] p
  | fuel + 1, p => fs.walk (lookup fs fuel) [] p

/-- Where a path leads to. -/
def follow (fs : Fs ν κ) (p : List ν) : Except Errno (List ν) := fs.lookup maxSymlinks p

/-- The directory that a path leads to. -/
def chdir (fs : Fs ν κ) (p : List ν) : Except Errno (List ν) := do
  let d ← fs.follow p
  if fs.IsDir d then return d
  else if fs.node? d = none then throw .ENOENT
  else throw .ENOTDIR

/-- The entry that a path names: its last name is not followed. -/
def entry (fs : Fs ν κ) (p : List ν) : Except Errno (List ν) :=
  match p.getLast? with
  | none => .ok []
  | some n => (fs.chdir p.dropLast).map (· ++ [n])

/-! ### Calls on paths -/

/-- `lstat(2)`. -/
def lstatAt (fs : Fs ν κ) (p : List ν) : Except Errno (Node ν) := do
  let q ← fs.entry p
  match fs.node? q with
  | some n => return n
  | none => throw .ENOENT

/-- `stat(2)`. -/
def statAt (fs : Fs ν κ) (p : List ν) : Except Errno (Node ν) := do
  let q ← fs.follow p
  match fs.node? q with
  | some n => return n
  | none => if q = [] then return .dir else throw .ENOENT

/-- `stat(2)` succeeds and `S_ISREG` holds. -/
def isRegAt (fs : Fs ν κ) (p : List ν) : Bool :=
  match fs.statAt p with
  | .ok (.file _) => true
  | _ => false

/-- `open(2)` for reading, and what the file holds. -/
def readAt (fs : Fs ν κ) (p : List ν) : Except Errno κ := do
  match ← fs.statAt p with
  | .file i => return fs.data i
  | _ => throw .EISDIR

/-- `link(2)`. -/
def linkAt (fs : Fs ν κ) (old new : List ν) : Except Errno (Fs ν κ) := do
  fs.link (← fs.entry old) (← fs.entry new)

/-- `unlink(2)`. -/
def unlinkAt (fs : Fs ν κ) (p : List ν) : Except Errno (Fs ν κ) := do
  fs.unlink (← fs.entry p)

/-- `rename(2)` of an entry that is not a directory. -/
def renameAt (fs : Fs ν κ) (old new : List ν) : Except Errno (Fs ν κ) := do
  fs.rename (← fs.entry old) (← fs.entry new)

/-- `mkdir(2)`. -/
def mkdirAt (fs : Fs ν κ) (p : List ν) : Except Errno (Fs ν κ) := do
  fs.mkdir (← fs.entry p)

/-- `open(2)` with `O_CREAT | O_EXCL`. -/
def createExclAt (fs : Fs ν κ) (p : List ν) (d : κ) : Except Errno (Fs ν κ) := do
  fs.createExcl (← fs.entry p) d

/-- `open(2)` with `O_CREAT`: a file that is there is left as it is. -/
def createAt (fs : Fs ν κ) (p : List ν) (d : κ) : Except Errno (Fs ν κ) := do
  let q ← fs.follow p
  match fs.node? q with
  | none => return fs.addFile q d
  | some (.file _) => return fs
  | some _ => throw .EISDIR

/-- `open(2)` with `O_CREAT | O_TRUNC` and a write of the whole contents. -/
def overwriteAt (fs : Fs ν κ) (p : List ν) (d : κ) : Except Errno (Fs ν κ) := do
  let q ← fs.follow p
  match fs.node? q with
  | none => return fs.addFile q d
  | some (.file i) => return fs.write i d
  | some _ => throw .EISDIR

variable {fs fs' : Fs ν κ} {p q d : List ν} {n : Node ν} {i : Nat}

/-- What goes through goes through step by step. -/
theorem ok_of_bind {α β : Type} {x : Except Errno α} {f : α → Except Errno β} {b : β}
    (h : x >>= f = .ok b) : ∃ a, x = .ok a ∧ f a = .ok b := by
  cases x with
  | error e => cases h
  | ok a => exact ⟨a, rfl, h⟩

/-! ### Directories and entries -/

/-- The directory that a path leads to is what it leads to. -/
theorem chdir_eq_ok : fs.chdir p = .ok d ↔ fs.follow p = .ok d ∧ fs.IsDir d := by
  unfold chdir
  constructor
  · intro h
    obtain ⟨q, hq, h⟩ := ok_of_bind h
    by_cases hdir : fs.IsDir q
    · rw [if_pos hdir] at h
      cases h
      exact ⟨hq, hdir⟩
    · rw [if_neg hdir] at h
      split at h <;> cases h
  · rintro ⟨hd, hdir⟩
    rw [hd]
    exact if_pos hdir

/-- A name behind a path is looked up in the directory that the path leads to. -/
theorem entry_concat {name : ν} : fs.entry (p ++ [name]) = (fs.chdir p).map (· ++ [name]) := by
  unfold entry
  rw [List.getLast?_concat, List.dropLast_concat]

/-- The entry that a path names has the last name of the path. -/
theorem entry_concat_eq_ok {name : ν} :
    fs.entry (p ++ [name]) = .ok q ↔ ∃ d, fs.chdir p = .ok d ∧ q = d ++ [name] := by
  rw [entry_concat]
  cases fs.chdir p with
  | error e => simp [Except.map]
  | ok d => simp [Except.map, eq_comm]

/-- An entry has the last name of the path that names it. -/
theorem getLast?_entry (h : fs.entry p = .ok q) : q.getLast? = p.getLast? := by
  rcases List.eq_nil_or_concat p with rfl | ⟨l, name, rfl⟩
  · cases h
    rfl
  · rw [List.concat_eq_append] at h ⊢
    obtain ⟨d, -, rfl⟩ := entry_concat_eq_ok.mp h
    rw [List.getLast?_concat, List.getLast?_concat]

/-- What a path names is in a directory. -/
theorem hasDir_entry (h : fs.entry p = .ok q) : fs.HasDir q := by
  rcases List.eq_nil_or_concat p with rfl | ⟨l, name, rfl⟩
  · cases h
    exact .inl rfl
  · rw [List.concat_eq_append] at h
    obtain ⟨d, hd, rfl⟩ := entry_concat_eq_ok.mp h
    unfold HasDir
    rw [List.dropLast_concat]
    exact (chdir_eq_ok.mp hd).2

/-- Behind a directory one more name leads to its entry, where that is no symbolic link. -/
theorem lookup_concat {fuel : Nat} {name : ν} {l : List ν} (h : fs.lookup fuel l = .ok d)
    (hd : fs.IsDir d) (hlink : ∀ target, fs.node? (d ++ [name]) ≠ some (.symlink target)) :
    fs.lookup fuel (l ++ [name]) = .ok (d ++ [name]) := by
  have last : ∀ follow, fs.walk follow d [name] = .ok (d ++ [name]) := by
    intro follow
    unfold walk
    cases hn : fs.node? (d ++ [name]) with
    | none => rfl
    | some n =>
      cases n with
      | symlink target => exact absurd hn (hlink target)
      | dir => rfl
      | file i => rfl
  -- the links on the way are the same, and so is what is behind each of them
  have walked : ∀ follow, (∀ l, follow l = .ok d → follow (l ++ [name]) = .ok (d ++ [name])) →
      ∀ done l, fs.walk follow done l = .ok d →
        fs.walk follow done (l ++ [name]) = .ok (d ++ [name]) := by
    intro follow hfollow done l
    induction l generalizing done with
    | nil =>
      intro hwalk
      cases hwalk
      exact last follow
    | cons m l ih =>
      intro hwalk
      rw [List.cons_append]
      unfold walk at hwalk ⊢
      cases hn : fs.node? (done ++ [m]) with
      | none =>
        rw [hn] at hwalk
        dsimp only at hwalk
        split at hwalk
        · cases hwalk
          rcases hd with hroot | hdir
          · simp at hroot
          · rw [hn] at hdir
            cases hdir
        · cases hwalk
      | some n =>
        rw [hn] at hwalk
        cases n with
        | symlink target =>
          dsimp only at hwalk ⊢
          rw [← List.append_assoc]
          exact hfollow _ hwalk
        | dir => exact ih _ hwalk
        | file i =>
          dsimp only at hwalk
          split at hwalk
          · cases hwalk
            rcases hd with hroot | hdir
            · simp at hroot
            · rw [hn] at hdir
              cases hdir
          · cases hwalk
  induction fuel generalizing l with
  | zero => exact walked _ (fun _ hl ↦ by cases hl) [] l h
  | succ fuel ih => exact walked _ (fun _ hl ↦ ih hl) [] l h

/-- A path leads to the entry that it names, where that is no symbolic link. -/
theorem follow_entry (h : fs.entry p = .ok q)
    (hlink : ∀ target, fs.node? q ≠ some (.symlink target)) : fs.follow p = .ok q := by
  rcases List.eq_nil_or_concat p with rfl | ⟨l, name, rfl⟩
  · cases h
    rfl
  · rw [List.concat_eq_append] at h ⊢
    obtain ⟨d, hd, rfl⟩ := entry_concat_eq_ok.mp h
    obtain ⟨hfollow, hdir⟩ := chdir_eq_ok.mp hd
    exact lookup_concat hfollow hdir hlink

/-- What a path leads to is behind a directory. -/
theorem entry_of_follow (h : fs.follow p = .ok q) : ∃ e, fs.entry p = .ok e := by
  have walked : ∀ follow name, (∀ l, (∃ q, follow (l ++ [name]) = .ok q) →
        ∃ d, follow l = .ok d ∧ fs.IsDir d) →
      ∀ done l, fs.IsDir done → (∃ q, fs.walk follow done (l ++ [name]) = .ok q) →
        ∃ d, fs.walk follow done l = .ok d ∧ fs.IsDir d := by
    intro follow name hfollow done l
    induction l generalizing done with
    | nil => exact fun hdone _ ↦ ⟨done, rfl, hdone⟩
    | cons m l ih =>
      rintro hdone ⟨q, hwalk⟩
      have hne : l ++ [name] ≠ [] := by simp
      rw [List.cons_append] at hwalk
      unfold walk at hwalk ⊢
      cases hn : fs.node? (done ++ [m]) with
      | none => simp [hn, hne] at hwalk
      | some n =>
        rw [hn] at hwalk
        cases n with
        | symlink target =>
          dsimp only at hwalk ⊢
          rw [← List.append_assoc] at hwalk
          exact hfollow _ ⟨q, hwalk⟩
        | dir => exact ih _ (.inr hn) ⟨q, hwalk⟩
        | file i => simp [hne] at hwalk
  have looked : ∀ name fuel l, (∃ q, fs.lookup fuel (l ++ [name]) = .ok q) →
      ∃ d, fs.lookup fuel l = .ok d ∧ fs.IsDir d := by
    intro name fuel
    induction fuel with
    | zero =>
      intro l
      apply walked _ name _ [] l (.inl rfl)
      rintro _ ⟨q, hq⟩
      cases hq
    | succ fuel ih => exact fun l ↦ walked _ name ih [] l (.inl rfl)
  rcases List.eq_nil_or_concat p with rfl | ⟨l, name, rfl⟩
  · exact ⟨[], rfl⟩
  · rw [List.concat_eq_append] at h ⊢
    obtain ⟨d, hd⟩ := looked name _ l ⟨q, h⟩
    exact ⟨d ++ [name], entry_concat_eq_ok.mpr ⟨d, chdir_eq_ok.mpr hd, rfl⟩⟩

theorem lstatAt_entry (h : fs.entry p = .ok q) (hq : fs.node? q = some n) :
    fs.lstatAt p = .ok n := by
  simp only [lstatAt, h, bind, Except.bind, hq]
  rfl

/-- `lstat` that goes through has found an entry. -/
theorem entry_of_lstatAt (h : fs.lstatAt p = .ok n) :
    ∃ q, fs.entry p = .ok q ∧ fs.node? q = some n := by
  obtain ⟨q, hq, h⟩ := ok_of_bind h
  refine ⟨q, hq, ?_⟩
  split at h
  · next m hm =>
    cases h
    exact hm
  · cases h

/-- `stat` sees the file that a path names. -/
theorem statAt_file (h : fs.entry p = .ok q) (hq : fs.node? q = some (.file i)) :
    fs.statAt p = .ok (.file i) := by
  have hfollow := follow_entry h fun target he ↦ by
    rw [hq] at he
    cases he
  simp only [statAt, hfollow, bind, Except.bind, hq]
  rfl

/-- A file that `stat` sees is where the path leads to. -/
theorem file_of_statAt (h : fs.statAt p = .ok (.file i)) :
    ∃ q, fs.follow p = .ok q ∧ fs.node? q = some (.file i) := by
  obtain ⟨q, hq, h⟩ := ok_of_bind h
  refine ⟨q, hq, ?_⟩
  split at h
  · next n hn =>
    cases h
    exact hn
  · split at h <;> cases h

/-- What is read is what the named file holds. -/
theorem readAt_file (h : fs.entry p = .ok q) (hq : fs.node? q = some (.file i)) :
    fs.readAt p = .ok (fs.data i) := by
  unfold readAt
  rw [statAt_file h hq]
  rfl

/-- A file that a path names is unlinked there. -/
theorem unlinkAt_file (h : fs.entry p = .ok q) (hq : fs.node? q = some (.file i)) :
    fs.unlinkAt p = .ok (fs.clear q) := by
  unfold unlinkAt
  rw [h]
  exact unlink_file hq fun he ↦ by cases he

/-! ### Changes that do not touch the ways -/

/-- Directories and symbolic links are still there. -/
def KeepsWays (fs fs' : Fs ν κ) : Prop :=
  ∀ p n, fs.node? p = some n → (∀ i, n ≠ .file i) → fs'.node? p = some n

theorem KeepsWays.isDir (h : KeepsWays fs fs') (hd : fs.IsDir d) : fs'.IsDir d :=
  hd.imp_right fun hdir ↦ h _ _ hdir fun _ he ↦ by cases he

/-- New entries are in nobody's way. -/
theorem Within.keepsWays {E : List ν → Option (Node ν) → Prop} (h : Within E fs fs')
    (hE : ∀ p n, E p n → n = none) : KeepsWays fs fs' := by
  intro p n hn _
  rw [h.node p fun he ↦ ?_, hn]
  have hnone := hE p _ he
  rw [hn] at hnone
  cases hnone

/-- A path goes on leading to a directory. -/
theorem lookup_keeps (h : KeepsWays fs fs') (hd : fs.IsDir d) {fuel : Nat}
    (hl : fs.lookup fuel p = .ok d) : fs'.lookup fuel p = .ok d := by
  have walked : ∀ follow follow', (∀ l, follow l = .ok d → follow' l = .ok d) →
      ∀ done l, fs.walk follow done l = .ok d → fs'.walk follow' done l = .ok d := by
    intro follow follow' hfollow done l
    induction l generalizing done with
    | nil => exact fun hwalk ↦ hwalk
    | cons m l ih =>
      intro hwalk
      unfold walk at hwalk ⊢
      cases hn : fs.node? (done ++ [m]) with
      | none =>
        rw [hn] at hwalk
        dsimp only at hwalk
        split at hwalk
        · cases hwalk
          rcases hd with hroot | hdir
          · simp at hroot
          · rw [hn] at hdir
            cases hdir
        · cases hwalk
      | some n =>
        rw [hn] at hwalk
        cases n with
        | symlink target =>
          rw [h _ _ hn fun _ he ↦ by cases he]
          exact hfollow _ hwalk
        | dir =>
          rw [h _ _ hn fun _ he ↦ by cases he]
          exact ih _ hwalk
        | file i =>
          dsimp only at hwalk
          split at hwalk
          · cases hwalk
            rcases hd with hroot | hdir
            · simp at hroot
            · rw [hn] at hdir
              cases hdir
          · cases hwalk
  induction fuel generalizing p with
  | zero => exact walked _ _ (fun _ hl ↦ by cases hl) [] p hl
  | succ fuel ih => exact walked _ _ (fun _ hl ↦ ih hl) [] p hl

/-- A path goes on naming the entry that it names. -/
theorem entry_keeps (h : KeepsWays fs fs') (he : fs.entry p = .ok q) : fs'.entry p = .ok q := by
  rcases List.eq_nil_or_concat p with rfl | ⟨l, name, rfl⟩
  · exact he
  · rw [List.concat_eq_append] at he ⊢
    obtain ⟨d, hd, rfl⟩ := entry_concat_eq_ok.mp he
    obtain ⟨hfollow, hdir⟩ := chdir_eq_ok.mp hd
    have hd' : fs'.chdir l = .ok d := chdir_eq_ok.mpr ⟨lookup_keeps h hdir hfollow, h.isDir hdir⟩
    exact entry_concat_eq_ok.mpr ⟨d, hd', rfl⟩

/-! ### Plain ways -/

/-- No symbolic link is above the path. -/
def Straight (fs : Fs ν κ) (p : List ν) : Prop :=
  ∀ d target, d <+: p → d ≠ p → fs.node? d ≠ some (.symlink target)

/-- Every entry is in a directory. -/
def Grounded (fs : Fs ν κ) : Prop := ∀ p n, fs.node? p = some n → fs.HasDir p

/-- Where no symbolic link is above it, a path names no other entry than itself. -/
theorem Straight.entry_eq (h : fs.Straight p) (he : fs.entry p = .ok q) : q = p := by
  have walked : ∀ follow done l d,
      (∀ k target, k ≠ [] → k <+: l → fs.node? (done ++ k) ≠ some (.symlink target)) →
      fs.walk follow done l = .ok d → d = done ++ l := by
    intro follow done l d
    induction l generalizing done with
    | nil =>
      rintro - hwalk
      cases hwalk
      rw [List.append_nil]
    | cons m l ih =>
      intro hplain hwalk
      unfold walk at hwalk
      split at hwalk
      · next target hn =>
        exact absurd hn (hplain [m] target (List.cons_ne_nil _ _) (List.prefix_append [m] l))
      · rw [ih (done ++ [m]) (fun k target hk hkl ↦ ?_) hwalk, List.append_assoc]
        · rfl
        · rw [List.append_assoc]
          exact hplain (m :: k) target (List.cons_ne_nil _ _) ((List.prefix_cons_inj m).mpr hkl)
      · split at hwalk
        · next hl =>
          cases hwalk
          rw [hl]
        · cases hwalk
      · split at hwalk
        · next hl =>
          cases hwalk
          rw [hl]
        · cases hwalk
  rcases List.eq_nil_or_concat p with rfl | ⟨l, name, rfl⟩
  · cases he
    rfl
  · rw [List.concat_eq_append] at h he ⊢
    obtain ⟨d, hd, rfl⟩ := entry_concat_eq_ok.mp he
    have hplain : ∀ k target, k ≠ [] → k <+: l → fs.node? ([] ++ k) ≠ some (.symlink target) := by
      intro k target _ hk
      apply h k target (hk.trans (List.prefix_append l [name]))
      rintro rfl
      have hlen := hk.length_le
      rw [List.length_append, List.length_singleton] at hlen
      omega
    have hl : d = [] ++ l := walked _ [] l d hplain (chdir_eq_ok.mp hd).1
    rw [hl, List.nil_append]

/-- What is above an entry is a directory. -/
theorem Grounded.isDir (h : fs.Grounded) (hn : fs.node? p = some n) (hd : d <+: p) (hne : d ≠ p) :
    fs.IsDir d := by
  obtain ⟨l, rfl⟩ := hd
  induction l using List.reverseRecOn generalizing n with
  | nil => exact absurd (List.append_nil d).symm hne
  | append_singleton l name ih =>
    have hdir := h _ _ hn
    unfold HasDir at hdir
    rw [← List.append_assoc, List.dropLast_concat] at hdir
    by_cases hl : l = []
    · rwa [hl, List.append_nil] at hdir
    · rcases hdir with hroot | hdir
      · exact .inl (List.append_eq_nil_iff.mp hroot).1
      · apply ih hdir
        intro he
        exact hl (List.append_right_eq_self.mp he.symm)

/-- The path of an entry names it. -/
theorem Grounded.entry (h : fs.Grounded) (hn : fs.node? p = some n) : fs.entry p = .ok p := by
  have walked : ∀ l, (∀ k, k <+: l → fs.IsDir k) → fs.follow l = .ok l := by
    intro l
    induction l using List.reverseRecOn with
    | nil => exact fun _ ↦ rfl
    | append_singleton l name ih =>
      intro hdirs
      have hl := hdirs l (List.prefix_append l [name])
      refine lookup_concat (ih fun k hk ↦ hdirs k (hk.trans (List.prefix_append l [name]))) hl ?_
      intro target hlink
      rcases hdirs _ List.prefix_rfl with hroot | hdir
      · simp at hroot
      · rw [hlink] at hdir
        cases hdir
  rcases List.eq_nil_or_concat p with rfl | ⟨l, name, rfl⟩
  · rfl
  · rw [List.concat_eq_append] at hn ⊢
    have hdirs : ∀ k, k <+: l → fs.IsDir k := by
      intro k hk
      apply h.isDir hn (hk.trans (List.prefix_append l [name]))
      rintro rfl
      have hlen := hk.length_le
      rw [List.length_append, List.length_singleton] at hlen
      omega
    have hl := chdir_eq_ok.mpr ⟨walked l hdirs, hdirs l List.prefix_rfl⟩
    exact entry_concat_eq_ok.mpr ⟨l, hl, rfl⟩

/-- Directories stay, and what is new is in one of them. -/
theorem Grounded.step (h : fs.Grounded)
    (hdirs : ∀ d, fs.node? d = some .dir → fs'.node? d = some .dir)
    (hnew : ∀ p n, fs'.node? p = some n → fs.node? p = none → fs.HasDir p) : fs'.Grounded := by
  intro p n hn
  have hdir : fs.HasDir p := by
    cases hold : fs.node? p with
    | none => exact hnew p n hn hold
    | some m => exact h p m hold
  exact hdir.imp_right (hdirs _)

/-- A new entry in a directory. -/
theorem Grounded.place (h : fs.Grounded) (hp : fs.HasDir p) (hfree : fs.node? p = none)
    (hn : ∀ i, n = .file i → i < fs.next) : (fs.place p n hn).Grounded := by
  apply h.step
  · intro d hd
    rw [node?_place, if_neg]
    · exact hd
    · rintro rfl
      rw [hfree] at hd
      cases hd
  · intro q m hq hold
    rw [node?_place] at hq
    split at hq
    · next he =>
      rw [he]
      exact hp
    · rw [hold] at hq
      cases hq

/-- An entry that is no directory is gone. -/
theorem Grounded.clear (h : fs.Grounded) (hp : fs.node? p ≠ some .dir) :
    (fs.clear p).Grounded := by
  apply h.step
  · intro d hd
    rw [node?_clear, if_neg]
    · exact hd
    · rintro rfl
      exact hp hd
  · intro q m hq hold
    rw [node?_clear] at hq
    split at hq
    · cases hq
    · rw [hold] at hq
      cases hq

end Lib.Fs
