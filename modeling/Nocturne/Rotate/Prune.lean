import Nocturne.Lib.Subtree
import Nocturne.Rotate.Side

/-!
# Empty shells under resident

`prune_dir` removes a directory whose subtree has nothing in it but directories and cover sidecars,
none of them under a name that starts with a dot. Of any other directory it removes the shells that
it comes to below, and nothing else.
-/

namespace Nocturne

open Lib Lib.Fs Proc

namespace Prune

/-- An entry that does not keep the directories above it. -/
structure Fits (fs : Tree) (q : Path) : Prop where
  entry : fs.node? q = some .dir ∨ (∃ i, fs.node? q = some (.file i)) ∧ IsCover q
  name : ∀ name, q.getLast? = some name → isDotName name = false

/-- A directory with nothing below it but such entries. -/
def Shell (fs : Tree) (dir : Path) : Prop := ∀ q, Under fs dir q → Fits fs q

/-- A directory that is reached from another one without passing a dot entry. -/
inductive Visited (fs : Tree) : Path → Path → Prop
  | here {dir : Path} : Visited fs dir dir
  | into {dir d : Path} {name : Name} (hname : isDotName name = false)
    (h : fs.node? (dir ++ [name]) = some .dir) (hd : Visited fs (dir ++ [name]) d) :
    Visited fs dir d

/-- A path that a pruning of a directory removes. -/
def Gone (fs : Tree) (dir q : Path) : Prop :=
  ∃ d, Visited fs dir d ∧ Shell fs d ∧ (q = d ∨ Under fs d q)

variable {fs fs' : Tree} {dir q : Path} {name : Name}

/-! ### Subtrees -/

/-- Only the entry itself matters. -/
theorem Fits.congr (h : Fits fs q) (hsame : fs'.node? q = fs.node? q) : Fits fs' q :=
  ⟨by rw [hsame]; exact h.entry, h.name⟩

/-- Only what is below the directory matters. -/
theorem Shell.congr (h : Shell fs dir) (hsame : ∀ p, dir <+: p → fs'.node? p = fs.node? p) :
    Shell fs' dir := by
  intro q hq
  have hq' := hq.congr fun p hp ↦ (hsame p hp).symm
  obtain ⟨name, hname⟩ := hq'.isPrefix
  exact (h q hq').congr (hsame q ((List.prefix_append _ _).trans hname))

/-- What is visited is below the directory. -/
theorem Visited.isPrefix {d : Path} (h : Visited fs dir d) : dir <+: d := by
  induction h with
  | here => exact List.prefix_rfl
  | into _ _ _ ih => exact (List.prefix_append _ _).trans ih

/-- Only what is below the directory matters. -/
theorem Visited.congr {d : Path} (h : Visited fs dir d)
    (hsame : ∀ p, dir <+: p → fs'.node? p = fs.node? p) : Visited fs' dir d := by
  induction h with
  | here => exact .here
  | @into dir d name hname h _ ih =>
    apply Visited.into hname
    · rw [hsame _ (List.prefix_append _ _), h]
    · exact ih fun p hp ↦ hsame p ((List.prefix_append _ _).trans hp)

/-- What goes is below the directory. -/
theorem Gone.isPrefix (h : Gone fs dir q) : dir <+: q := by
  obtain ⟨d, hd, -, rfl | hq⟩ := h
  · exact hd.isPrefix
  · obtain ⟨name, hname⟩ := hq.isPrefix
    exact (hd.isPrefix.trans (List.prefix_append _ _)).trans hname

/-- Only what is below the directory matters. -/
theorem Gone.congr (h : Gone fs dir q) (hsame : ∀ p, dir <+: p → fs'.node? p = fs.node? p) :
    Gone fs' dir q := by
  obtain ⟨d, hd, hshell, hq⟩ := h
  have hsame' : ∀ p, d <+: p → fs'.node? p = fs.node? p := fun p hp ↦ hsame p (hd.isPrefix.trans hp)
  exact ⟨d, hd.congr hsame, hshell.congr hsame', hq.imp id fun hq ↦ hq.congr hsame'⟩

/-- What an entry has to be for its directory to be a shell. -/
def FitsBelow (fs : Tree) (q : Path) : Prop :=
  Fits fs q ∧ (fs.node? q = some .dir → Shell fs q)

/-- A shell is a directory of which every entry fits. -/
theorem shell_iff : Shell fs dir ↔ ∀ name ∈ fs.children dir, FitsBelow fs (dir ++ [name]) := by
  constructor
  · intro h name hname
    have hentry := Under.entry (mem_children.mp hname)
    exact ⟨h _ hentry, fun hdir q hq ↦ h q (.deeper hdir hq)⟩
  · intro h q hq
    cases hq with
    | entry hnode => exact (h _ (mem_children.mpr hnode)).1
    | deeper hdir hq =>
      have hname := mem_children.mpr (by rw [hdir]; exact Option.some_ne_none _)
      exact (h _ hname).2 hdir q hq

/-- A path is removed with its directory, or by the pruning of a directory in it. -/
theorem gone_iff : Gone fs dir q ↔ Shell fs dir ∧ (q = dir ∨ Under fs dir q) ∨
    ∃ name ∈ fs.children dir, isDotName name = false ∧
      fs.node? (dir ++ [name]) = some .dir ∧ Gone fs (dir ++ [name]) q := by
  constructor
  · rintro ⟨d, hd, hshell, hq⟩
    cases hd with
    | here => exact .inl ⟨hshell, hq⟩
    | @into _ _ name hname hdir hd =>
      have hmem := mem_children.mpr (by rw [hdir]; exact Option.some_ne_none _)
      exact .inr ⟨name, hmem, hname, hdir, d, hd, hshell, hq⟩
  · rintro (⟨hshell, hq⟩ | ⟨name, -, hname, hdir, d, hd, hshell, hq⟩)
    · exact ⟨dir, .here, hshell, hq⟩
    · exact ⟨d, .into hname hdir hd, hshell, hq⟩

/-- The subtrees of two entries of a directory have no path in common. -/
theorem not_both_below {name' : Name} (hne : name ≠ name') (h : dir ++ [name] <+: q) :
    ¬ dir ++ [name'] <+: q := by
  intro h'
  obtain ⟨s, rfl⟩ := h
  obtain ⟨t, ht⟩ := h'
  rw [List.append_assoc, List.append_assoc] at ht
  have hcons := List.append_cancel_left ht
  cases hcons
  exact hne rfl

/-! ### The first pass -/

/-- A cover is known by its name. -/
theorem isCover_concat : IsCover (dir ++ [name]) ↔ isCoverSidecarName name = true := by
  unfold IsCover isCoverSidecarName
  simp

/-- What fits is a directory or a cover, under a name without a dot. -/
theorem fits_concat : Fits fs (dir ++ [name]) ↔ isDotName name = false ∧
    (fs.node? (dir ++ [name]) = some .dir ∨
      (∃ i, fs.node? (dir ++ [name]) = some (.file i)) ∧ isCoverSidecarName name = true) := by
  rw [← isCover_concat]
  constructor
  · exact fun h ↦ ⟨h.name name List.getLast?_concat, h.entry⟩
  · rintro ⟨hname, hentry⟩
    refine ⟨hentry, fun name' hlast ↦ ?_⟩
    rw [List.getLast?_concat] at hlast
    cases hlast
    exact hname

/-- `lstat` in a run in which no call fails. -/
theorem eval_lstatNode {w : World RotateStats} {path : Path} {n : Node Name}
    (h : w.fs.node? path = some n) : (lstatNode path).eval w = (.ok n, w) := by
  unfold lstatNode
  rw [eval_sysRead, h]

/-- What is proved of `prune_dir`: whether it says that the directory is gone, and what it
leaves. -/
structure PrunesTo (depth : Nat) (dir : Path) (w : World RotateStats) : Prop where
  removed : ((pruneDir depth dir).eval w).1 = true ↔ Shell w.fs dir
  world : ((pruneDir depth dir).eval w).2 = { w with fs := ((pruneDir depth dir).eval w).2.fs }
  tree : Without (Gone w.fs dir) w.fs ((pruneDir depth dir).eval w).2.fs

/-- No path at or below a directory is longer than the recursion goes. -/
def Deep (fs : Tree) (dir : Path) (depth : Nat) : Prop :=
  ∀ q, dir <+: q → fs.node? q ≠ none → q.length < dir.length + depth

section Passes

variable {depth : Nat} {w : World RotateStats}

/-- One entry of the first pass. -/
theorem eval_keepsDir (ih : ∀ dir w, w.fs.node? dir = some .dir → Deep w.fs dir depth →
    PrunesTo depth dir w) (hnode : fs.node? (dir ++ [name]) ≠ none)
    (hdeep : Deep fs dir (depth + 1))
    (hsame : ∀ q, dir ++ [name] <+: q → w.fs.node? q = fs.node? q) :
    let r := (keepsDir (pruneDir depth) dir name).eval w
    (r.1 = false ↔ FitsBelow fs (dir ++ [name])) ∧ r.2 = { w with fs := r.2.fs } ∧
      Without (fun q ↦ isDotName name = false ∧ fs.node? (dir ++ [name]) = some .dir ∧
        Gone fs (dir ++ [name]) q) w.fs r.2.fs := by
  unfold keepsDir FitsBelow
  rw [fits_concat]
  by_cases hdot : isDotName name = true
  · rw [if_pos hdot]
    refine ⟨?_, rfl, Without.refl fun q h ↦ ?_⟩
    · simp [hdot]
    · rw [hdot] at h
      cases h.1
  · rw [if_neg hdot, eval_bind]
    obtain ⟨n, hn⟩ := Option.ne_none_iff_exists'.mp hnode
    have hnw : w.fs.node? (dir ++ [name]) = some n := by rw [hsame _ List.prefix_rfl, hn]
    rw [eval_lstatNode hnw, hn]
    have hnone : n ≠ .dir → Without (fun q ↦ isDotName name = false ∧
        some n = some .dir ∧ Gone fs (dir ++ [name]) q) w.fs w.fs := by
      intro hdir
      exact Without.refl fun q h ↦ hdir (Option.some.inj h.2.1)
    cases n with
    | file i =>
      refine ⟨?_, rfl, hnone (by simp)⟩
      simp [hdot]
    | symlink target =>
      refine ⟨?_, rfl, hnone (by simp)⟩
      simp
    | dir =>
      have hback : ∀ q, dir ++ [name] <+: q → fs.node? q = w.fs.node? q := fun q hq ↦
        (hsame q hq).symm
      have hdeep' : Deep w.fs (dir ++ [name]) depth := by
        intro q hq hnode
        rw [hsame q hq] at hnode
        have hlt := hdeep q ((List.prefix_append _ _).trans hq) hnode
        rw [List.length_append, List.length_singleton]
        omega
      have hprunes := ih (dir ++ [name]) w hnw hdeep'
      simp only [eval_bind, eval_pure]
      refine ⟨?_, hprunes.world, hprunes.tree.congr fun q ↦ ?_⟩
      · have hshell : Shell w.fs (dir ++ [name]) ↔ Shell fs (dir ++ [name]) :=
          ⟨fun h ↦ h.congr hback, fun h ↦ h.congr hsame⟩
        have hremoved := hprunes.removed.trans hshell
        simpa [hdot] using hremoved
      · have hgone : Gone w.fs (dir ++ [name]) q ↔ Gone fs (dir ++ [name]) q :=
          ⟨fun h ↦ h.congr hback, fun h ↦ h.congr hsame⟩
        simpa [hdot] using hgone

/-- The first pass. -/
theorem eval_firstPass (ih : ∀ dir w, w.fs.node? dir = some .dir → Deep w.fs dir depth →
    PrunesTo depth dir w) {names : List Name} (hnodup : names.Nodup)
    (hnode : ∀ name ∈ names, fs.node? (dir ++ [name]) ≠ none) (hdeep : Deep fs dir (depth + 1))
    (hsame : ∀ name ∈ names, ∀ q, dir ++ [name] <+: q → w.fs.node? q = fs.node? q) :
    let r := (anyKeeps (keepsDir (pruneDir depth) dir) names).eval w
    (r.1 = false ↔ ∀ name ∈ names, FitsBelow fs (dir ++ [name])) ∧ r.2 = { w with fs := r.2.fs } ∧
      Without (fun q ↦ ∃ name ∈ names, isDotName name = false ∧
        fs.node? (dir ++ [name]) = some .dir ∧ Gone fs (dir ++ [name]) q) w.fs r.2.fs := by
  induction names generalizing w with
  | nil => exact ⟨by simp [anyKeeps], rfl, Without.refl (by simp)⟩
  | cons name names ihnames =>
    obtain ⟨hfresh, hnodup⟩ := List.nodup_cons.mp hnodup
    obtain ⟨hkeeps, hworld, htree⟩ := eval_keepsDir ih (hnode name List.mem_cons_self) hdeep
      (hsame name List.mem_cons_self)
    have hsame' : ∀ name' ∈ names, ∀ q, dir ++ [name'] <+: q →
        ((keepsDir (pruneDir depth) dir name).eval w).2.fs.node? q = fs.node? q := by
      intro name' hname' q hq
      rw [htree.kept, hsame name' (List.mem_cons_of_mem _ hname') q hq]
      intro hgone
      have hne : name ≠ name' := by
        rintro rfl
        exact hfresh hname'
      exact not_both_below hne hgone.2.2.isPrefix hq
    obtain ⟨hrest, hworld', htree'⟩ := ihnames hnodup
      (fun name' h ↦ hnode name' (List.mem_cons_of_mem _ h)) hsame'
    rw [anyKeeps, eval_bind, eval_bind]
    refine ⟨?_, ?_, (htree.trans htree').congr fun q ↦ ?_⟩
    · rw [List.forall_mem_cons, ← hkeeps, ← hrest]
      exact Bool.or_eq_false_iff
    · show _ = { w with fs := _ }
      rw [eval_pure]
      dsimp only
      rw [hworld', hworld]
    · simp

/-! ### The second pass -/

/-- The second pass over entries that are all sidecars removes them. -/
theorem eval_secondPass {names : List Name} (hnodup : names.Nodup)
    (hfile : ∀ name ∈ names, isCoverSidecarName name = true ∧
      ∃ i, w.fs.node? (dir ++ [name]) = some (.file i)) :
    let r := (anyKeeps (keepsSidecar dir) names).eval w
    r.1 = false ∧ r.2 = { w with fs := r.2.fs } ∧
      Without (fun q ↦ ∃ name ∈ names, q = dir ++ [name]) w.fs r.2.fs := by
  induction names generalizing w with
  | nil => exact ⟨rfl, rfl, Without.refl (by simp)⟩
  | cons name names ih =>
    obtain ⟨hfresh, hnodup⟩ := List.nodup_cons.mp hnodup
    obtain ⟨hcover, i, hi⟩ := hfile name List.mem_cons_self
    have hone : (keepsSidecar dir name).eval w =
        (false, { w with fs := w.fs.clear (dir ++ [name]) }) := by
      unfold keepsSidecar sysUnlink
      rw [if_pos hcover, eval_bind, eval_lstatNode hi]
      dsimp only
      rw [eval_bind, eval_sysCall, Fs.unlink_file hi (by simp)]
      rfl
    have hfile' : ∀ name' ∈ names, isCoverSidecarName name' = true ∧
        ∃ i, (w.fs.clear (dir ++ [name])).node? (dir ++ [name']) = some (.file i) := by
      intro name' hname'
      obtain ⟨hcover', j, hj⟩ := hfile name' (List.mem_cons_of_mem _ hname')
      refine ⟨hcover', j, ?_⟩
      rw [node?_clear, if_neg, hj]
      intro heq
      have hcons := List.append_cancel_left heq
      cases hcons
      exact hfresh hname'
    obtain ⟨hkeeps, hworld, htree⟩ := @ih { w with fs := w.fs.clear (dir ++ [name]) } hnodup hfile'
    rw [anyKeeps, eval_bind, hone, eval_bind]
    refine ⟨?_, ?_, ((Without.clear w.fs (dir ++ [name])).trans htree).congr fun q ↦ ?_⟩
    · exact hkeeps
    · exact hworld
    · simp

/-! ### The recursion -/

/-- `readdir` in a run in which no call fails. -/
theorem eval_readDir {dir : Path} (h : w.fs.node? dir = some .dir) :
    (readDir dir).eval w = (.ok (w.fs.children dir), w) := by
  unfold readDir
  rw [eval_sysRead, if_pos h]

/-- The directories below a directory that the first pass removes, with what they have. -/
def GoneBelow (fs : Tree) (dir q : Path) : Prop :=
  ∃ name ∈ fs.children dir, isDotName name = false ∧
    fs.node? (dir ++ [name]) = some .dir ∧ Gone fs (dir ++ [name]) q

/-- A directory is not below itself. -/
theorem not_goneBelow_self : ¬ GoneBelow fs dir dir := by
  rintro ⟨name, -, -, -, hgone⟩
  have hle := hgone.isPrefix.length_le
  rw [List.length_append, List.length_singleton] at hle
  omega

/-- Behind the first pass over a shell its entries are sidecars. -/
theorem sidecar_of_left (hshell : Shell fs dir) (htree : Without (GoneBelow fs dir) fs fs')
    (hname : name ∈ fs'.children dir) : isCoverSidecarName name = true ∧
      ∃ i, fs'.node? (dir ++ [name]) = some (.file i) := by
  obtain ⟨n, hn⟩ := Option.ne_none_iff_exists'.mp (mem_children.mp hname)
  have hn₀ := htree.node_of_some hn
  have hmem : name ∈ fs.children dir := mem_children.mpr (by rw [hn₀]; exact Option.some_ne_none _)
  obtain ⟨hfits, hbelow⟩ := shell_iff.mp hshell name hmem
  obtain ⟨hdot, hdir | ⟨⟨i, hi⟩, hcover⟩⟩ := fits_concat.mp hfits
  · have hgone : GoneBelow fs dir (dir ++ [name]) :=
      ⟨name, hmem, hdot, hdir, dir ++ [name], .here, hbelow hdir, .inl rfl⟩
    rw [htree.gone _ hgone] at hn
    cases hn
  · refine ⟨hcover, i, ?_⟩
    rw [hn, ← hn₀, hi]

/-- What the two passes and `rmdir` remove of a shell is all of it. -/
theorem gone_of_shell (hshell : Shell fs dir) (htree : Without (GoneBelow fs dir) fs fs') :
    ((GoneBelow fs dir q ∨ ∃ name ∈ fs'.children dir, q = dir ++ [name]) ∨ q = dir) ↔
      Gone fs dir q := by
  rw [gone_iff]
  constructor
  · rintro ((hgone | ⟨name, hname, rfl⟩) | rfl)
    · exact .inr hgone
    · obtain ⟨-, i, hi⟩ := sidecar_of_left hshell htree hname
      have hi₀ := htree.node_of_some hi
      exact .inl ⟨hshell, .inr (.entry (by rw [hi₀]; exact Option.some_ne_none _))⟩
    · exact .inl ⟨hshell, .inl rfl⟩
  · rintro (⟨-, rfl | hunder⟩ | hgone)
    · exact .inr rfl
    · left
      have hbelow : ∀ {name q}, fs.node? (dir ++ [name]) = some .dir →
          q = dir ++ [name] ∨ Under fs (dir ++ [name]) q → GoneBelow fs dir q := by
        intro name q hdir hq
        have hmem := mem_children.mpr (by rw [hdir]; exact Option.some_ne_none _)
        obtain ⟨hfits, hbelow⟩ := shell_iff.mp hshell name hmem
        exact ⟨name, hmem, (fits_concat.mp hfits).1, hdir, _, .here, hbelow hdir, hq⟩
      cases hunder with
      | @entry _ name hnode =>
        by_cases hdir : fs.node? (dir ++ [name]) = some .dir
        · exact .inl (hbelow hdir (.inl rfl))
        · right
          refine ⟨name, mem_children.mpr ?_, rfl⟩
          rwa [htree.kept]
          rintro ⟨name', -, -, hdir', hgone⟩
          by_cases hne : name' = name
          · exact hdir (hne ▸ hdir')
          · exact not_both_below hne hgone.isPrefix List.prefix_rfl
      | deeper hdir hq => exact .inl (hbelow hdir (.inr hq))
    · exact .inl (.inl hgone)

/-- What `prune_dir` does after it went through the directories. -/
theorem eval_pruneDir (hdir : w.fs.node? dir = some .dir) : (pruneDir (depth + 1) dir).eval w =
    (let r := (anyKeeps (keepsDir (pruneDir depth) dir) (w.fs.children dir)).eval w
    if r.1 = true then (false, r.2) else
      (do
        match ← readDir dir with
        | .error _ => return false
        | .ok names =>
          if ← anyKeeps (keepsSidecar dir) names then return false
          else
            let r ← sysCall (.rmdir dir) fun fs ↦ fs.rmdir dir
            return r.isOk : Sys RotateStats Bool).eval r.2) := by
  rw [pruneDir, eval_bind, eval_readDir hdir]
  dsimp only
  rw [eval_bind, eval_ite]
  rfl

/-- A directory without its entries can be removed. -/
theorem rmdir_of_emptied (hdir : fs.node? dir = some .dir)
    (h : Without (fun q ↦ ∃ name ∈ fs.children dir, q = dir ++ [name]) fs fs') :
    fs'.rmdir dir = .ok (fs'.clear dir) := by
  have hdir' : fs'.node? dir = some .dir := by
    rw [h.kept, hdir]
    rintro ⟨name, -, heq⟩
    have hlength := congrArg List.length heq
    rw [List.length_append, List.length_singleton] at hlength
    omega
  have hempty : fs'.children dir = [] := by
    rw [List.eq_nil_iff_forall_not_mem]
    intro name hname
    obtain ⟨n, hn⟩ := Option.ne_none_iff_exists'.mp (mem_children.mp hname)
    have hmem : name ∈ fs.children dir := by
      rw [mem_children, h.node_of_some hn]
      exact Option.some_ne_none _
    rw [h.gone _ ⟨name, hmem, rfl⟩] at hn
    cases hn
  unfold Fs.rmdir
  rw [hdir']
  exact if_pos hempty

/-- `prune_dir` says that a directory is gone exactly where it is a shell, and removes it and the
shells that it comes to. -/
theorem prunesTo (depth : Nat) (dir : Path) (w : World RotateStats)
    (hdir : w.fs.node? dir = some .dir) (hdeep : Deep w.fs dir depth) : PrunesTo depth dir w := by
  induction depth generalizing dir w with
  | zero =>
    have hlt := hdeep dir List.prefix_rfl (by rw [hdir]; exact Option.some_ne_none _)
    omega
  | succ depth ih =>
    obtain ⟨hkeeps, hworld, htree⟩ := eval_firstPass ih (nodup_children w.fs dir)
      (fun name hname ↦ mem_children.mp hname) hdeep fun _ _ _ _ ↦ rfl
    have htree : Without (GoneBelow w.fs dir) w.fs
      ((anyKeeps (keepsDir (pruneDir depth) dir) (w.fs.children dir)).eval w).2.fs := htree
    rw [← shell_iff] at hkeeps
    have heval := @eval_pruneDir _ depth _ hdir
    generalize (anyKeeps (keepsDir (pruneDir depth) dir) (w.fs.children dir)).eval w = r at *
    obtain ⟨kept, w₁⟩ := r
    dsimp only at hkeeps hworld htree heval
    cases kept with
    | true =>
      rw [if_pos rfl] at heval
      have hnot : ¬ Shell w.fs dir := fun h ↦ by simpa using hkeeps.mpr h
      constructor
      · rw [heval]
        simp [hnot]
      · rw [heval]
        exact hworld
      · rw [heval]
        apply htree.congr
        intro q
        rw [gone_iff]
        exact ⟨.inr, fun h ↦ h.resolve_left fun h ↦ hnot h.1⟩
    | false =>
      have hshell := hkeeps.mp rfl
      rw [if_neg Bool.false_ne_true] at heval
      have hdir₁ : w₁.fs.node? dir = some .dir := by rw [htree.kept _ not_goneBelow_self, hdir]
      obtain ⟨hkept₂, hworld₂, htree₂⟩ := @eval_secondPass dir w₁ _ (nodup_children w₁.fs dir)
        fun name hname ↦ sidecar_of_left hshell htree hname
      rw [eval_bind, eval_readDir hdir₁] at heval
      dsimp only at heval
      rw [eval_bind] at heval
      generalize (anyKeeps (keepsSidecar dir) (w₁.fs.children dir)).eval w₁ = r at *
      obtain ⟨kept₂, w₂⟩ := r
      dsimp only at hkept₂ hworld₂ htree₂ heval
      rw [hkept₂, if_neg Bool.false_ne_true, eval_bind, eval_sysCall,
        rmdir_of_emptied hdir₁ htree₂] at heval
      have heval : (pruneDir (depth + 1) dir).eval w =
        (true, { w₂ with fs := w₂.fs.clear dir }) := heval
      constructor
      · rw [heval]
        simp [hshell]
      · rw [heval, hworld₂, hworld]
      · rw [heval]
        apply ((htree.trans htree₂).trans (Without.clear w₂.fs dir)).congr
        exact fun q ↦ gone_of_shell hshell htree

end Passes

/-! ### Every tree -/

/-- The greatest depth is no less than any. -/
theorem le_foldl_max {ns : List Nat} {n : Nat} (a : Nat) (h : n ≤ a ∨ n ∈ ns) :
    n ≤ ns.foldl max a := by
  induction ns generalizing a with
  | nil => simpa using h
  | cons m ns ih =>
    apply ih
    rcases h with h | h
    · exact .inl (Nat.le_trans h (Nat.le_max_left _ _))
    · rcases List.mem_cons.mp h with rfl | h
      · exact .inl (Nat.le_max_right _ _)
      · exact .inr h

/-- No path is longer than the tree is deep. -/
theorem length_le_treeDepth (h : fs.node? q ≠ none) : q.length ≤ treeDepth fs := by
  obtain ⟨n, hn⟩ := Option.ne_none_iff_exists'.mp h
  exact le_foldl_max 0 (.inr (List.mem_map.mpr ⟨(q, n), Table.mem_rows.mpr hn, rfl⟩))

/-- What `prune_dir` does to a tree, with what it returns. -/
structure PrunesShells (fs : Tree) (dir : Path) (removed : Bool) (fs' : Tree) : Prop where
  returns : removed = true ↔ Shell fs dir
  gone : fs'.node? dir = none ↔ Shell fs dir
  /-- Only shells are removed, and sidecars with their directory. -/
  only : ∀ q n, fs.node? q = some n → fs'.node? q = none → n = .dir ∧ Shell fs q ∨
    (∃ i, n = .file i) ∧ IsCover q ∧ fs.node? q.dropLast = some .dir ∧ fs'.node? q.dropLast = none
  /-- A directory that is kept keeps its files, the sidecars among them. -/
  files : ∀ d name i, fs'.node? d = some .dir → fs.node? (d ++ [name]) = some (.file i) →
    fs'.node? (d ++ [name]) = some (.file i)
  left : ∀ q n, fs'.node? q = some n → fs.node? q = some n
  outside : ∀ q, ¬ dir <+: q → fs'.node? q = fs.node? q
  data : fs'.data = fs.data

/-- What is visited is a directory. -/
theorem Visited.node {d : Path} (hd : Visited fs dir d) (hdir : fs.node? dir = some .dir) :
    fs.node? d = some .dir := by
  induction hd with
  | here => exact hdir
  | into _ h _ ih => exact ih h

/-- The directory itself goes where it is a shell. -/
theorem gone_self : Gone fs dir dir ↔ Shell fs dir := by
  rw [gone_iff]
  constructor
  · rintro (⟨h, -⟩ | hbelow)
    · exact h
    · exact (not_goneBelow_self hbelow).elim
  · exact fun h ↦ .inl ⟨h, .inl rfl⟩

/-- The directory of a file goes with it. -/
theorem Gone.parent {i : Nat} (h : Gone fs dir q) (hdir : fs.node? dir = some .dir)
    (hq : fs.node? q = some (.file i)) :
    IsCover q ∧ fs.node? q.dropLast = some .dir ∧ Gone fs dir q.dropLast := by
  obtain ⟨d, hd, hshell, rfl | hunder⟩ := h
  · rw [hd.node hdir] at hq
    cases hq
  · have hcover : IsCover q := by
      rcases (hshell q hunder).entry with h | h
      · rw [hq] at h
        cases h
      · exact h.2
    rcases hunder.parent with heq | ⟨hparent, hnode⟩
    · rw [heq]
      exact ⟨hcover, hd.node hdir, d, hd, hshell, .inl rfl⟩
    · exact ⟨hcover, hnode, d, hd, hshell, .inr hparent⟩

/-- A directory that goes is a shell. -/
theorem Gone.shell (h : Gone fs dir q) (hq : fs.node? q = some .dir) : Shell fs q := by
  obtain ⟨d, -, hshell, rfl | hunder⟩ := h
  · exact hshell
  · exact fun p hp ↦ hshell p (hunder.trans hq hp)

/-- What is removed is a directory or a file. -/
theorem Gone.node (h : Gone fs dir q) (hdir : fs.node? dir = some .dir) :
    fs.node? q = some .dir ∨ ∃ i, fs.node? q = some (.file i) := by
  obtain ⟨d, hd, hshell, rfl | hunder⟩ := h
  · exact .inl (hd.node hdir)
  · exact (hshell q hunder).entry.imp id And.left

/-- The tree without what goes is pruned as the property says. -/
theorem prunesShells_of_without {removed : Bool} (hdir : fs.node? dir = some .dir)
    (hremoved : removed = true ↔ Shell fs dir) (h : Without (Gone fs dir) fs fs') :
    PrunesShells fs dir removed fs' where
  returns := hremoved
  gone := by
    rw [← gone_self]
    constructor
    · intro hnone
      by_contra hgone
      rw [h.kept _ hgone, hdir] at hnone
      cases hnone
    · exact h.gone dir
  only := by
    intro q n hq hnone
    have hgone : Gone fs dir q := by
      by_contra hgone
      rw [h.kept _ hgone, hq] at hnone
      cases hnone
    rcases hgone.node hdir with hnode | ⟨i, hi⟩
    · rw [hq] at hnode
      cases hnode
      exact .inl ⟨rfl, hgone.shell hq⟩
    · obtain ⟨hcover, hparent, hgone'⟩ := hgone.parent hdir hi
      rw [hq] at hi
      cases hi
      exact .inr ⟨⟨i, rfl⟩, hcover, hparent, h.gone _ hgone'⟩
  files := by
    intro d name i hd hi
    rw [h.kept, hi]
    intro hgone
    have hparent := (hgone.parent hdir hi).2.2
    rw [List.dropLast_concat] at hparent
    rw [h.gone _ hparent] at hd
    cases hd
  left _ _ hq := h.node_of_some hq
  outside q hq := h.kept q fun hgone ↦ hq hgone.isPrefix
  data := h.data

/-- A tree that is no deeper than the fuel is walked to its end. -/
theorem deep_of_lt {depth : Nat} (h : treeDepth fs < dir.length + depth) : Deep fs dir depth := by
  intro q _ hq
  have hle := length_le_treeDepth hq
  omega

/-- `prune_dir` removes only empty shells, in every tree and with no call failing: `depth` bounds
the recursion, and is enough for the tree. -/
theorem pruneDir_exact (w : World RotateStats) (dir : Path) (depth : Nat)
    (hdir : w.fs.node? dir = some .dir) (hdepth : treeDepth w.fs < depth) :
    let r := (pruneDir depth dir).eval w
    r.2 = { w with fs := r.2.fs } ∧ PrunesShells w.fs dir r.1 r.2.fs := by
  have h := prunesTo depth dir w hdir (deep_of_lt (by omega))
  exact ⟨h.world, prunesShells_of_without hdir h.removed h.tree⟩

/-- An album with a shell and a directory with a track. -/
def sampleAlbum : World RotateStats := Machine.start ⟨
  ((((Tree.empty.addDir [ascii "album"]).addDir [ascii "album", ascii "scans"]).addDir
    [ascii "album", ascii "disc"]).addFile [ascii "album", ascii "scans", ascii "cover.jpg"]
    ⟨.plain [1], 0, 1⟩).addFile [ascii "album", ascii "disc", ascii "x.opus"] ⟨.plain [2], 0, 1⟩,
  .empty⟩ {}

/-- The album loses its shell and keeps the directory with the track. -/
theorem pruneDir_sampleAlbum :
    let r := (pruneDir 4 [ascii "album"]).eval sampleAlbum
    r.2 = { sampleAlbum with fs := r.2.fs } ∧
      PrunesShells sampleAlbum.fs [ascii "album"] r.1 r.2.fs :=
  pruneDir_exact sampleAlbum [ascii "album"] 4 (by decide +kernel) (by decide +kernel)

/-! ### The resident tree -/

/-- Two passes with the same effects. -/
theorem eval_each_eq {body : Name → Sys RotateStats Unit} {keeps : Name → Sys RotateStats Bool}
    (h : ∀ name w, ((body name).eval w).2 = ((keeps name).eval w).2) (names : List Name)
    (w : World RotateStats) :
    ((Proc.each body names).eval w).2 = ((anyKeeps keeps names).eval w).2 := by
  induction names generalizing w with
  | nil => rfl
  | cons name names ih =>
    rw [Proc.each, eval_bind, anyKeeps, eval_bind, eval_bind, eval_pure]
    rw [ih, h]

/-- `prune_resident_tree` removes the shells that it comes to below the directory that `resident/`
leads to, and nothing else; the directory itself stays. -/
theorem pruneResidentTree_exact (w : World RotateStats) (libraryRoot root : Path)
    (hfollow : w.fs.follow (libraryRoot ++ [residentSeg]) = .ok root)
    (hroot : w.fs.node? root = some .dir) :
    let w' := ((pruneResidentTree libraryRoot).eval w).2
    w' = { w with fs := w'.fs } ∧ Without (GoneBelow w.fs root) w.fs w'.fs ∧
      w'.fs.node? root = some .dir := by
  have heval : ((pruneResidentTree libraryRoot).eval w).2 =
      ((anyKeeps (keepsDir (pruneDir (treeDepth w.fs)) root) (w.fs.children root)).eval w).2 := by
    unfold pruneResidentTree
    rw [eval_bind, eval_gets, eval_bind, treeRoot, eval_gets, hfollow]
    dsimp only [Except.toOption]
    rw [eval_bind, eval_readDir hroot]
    apply eval_each_eq
    intro name w'
    unfold keepsDir
    rw [eval_ite, eval_ite]
    split
    · rfl
    · rw [eval_bind, eval_bind, lstatNode, eval_sysRead]
      cases w'.fs.node? (root ++ [name]) with
      | none => rfl
      | some n =>
        cases n with
        | dir =>
          dsimp only
          rw [eval_bind, eval_bind]
          rfl
        | file i => rfl
        | symlink target => rfl
  obtain ⟨-, hworld, htree⟩ := eval_firstPass (prunesTo (treeDepth w.fs))
    (nodup_children w.fs root) (fun _ hname ↦ mem_children.mp hname)
    (deep_of_lt (by omega)) fun _ _ _ _ ↦ rfl
  rw [heval]
  refine ⟨hworld, htree, ?_⟩
  rw [htree.kept _ not_goneBelow_self, hroot]

end Prune

end Nocturne
