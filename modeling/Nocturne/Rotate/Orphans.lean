import Nocturne.Rotate.Prune

/-!
# Transcodes without a reference

`remove_orphan_transcodes` reads the references into an array of device and inode numbers, sorts it
and walks the resident tree. An array of references, however long and in whatever order, is
searched for exactly what is in it, and so the walk removes exactly the transcodes that no reference
leads to.
-/

namespace Nocturne

open Lib Lib.Fs Proc

namespace Orphans

open Prune

/-! ### The array of the references -/

/-- One field of the comparison. -/
theorem ite_eq_then (m n : Nat) (o : Ordering) :
    (if m ≠ n then if m < n then .lt else .gt else o) = (compare m n).then o := by
  rcases Nat.lt_trichotomy m n with hlt | rfl | hgt
  · rw [if_pos (by omega), if_pos hlt, Nat.compare_eq_lt.mpr hlt]
    rfl
  · rw [if_neg (by omega), Nat.compare_eq_eq.mpr rfl]
    rfl
  · rw [if_pos (by omega), if_neg (by omega), Nat.compare_eq_gt.mpr hgt]
    rfl

/-- The comparison is by the device, and then by the number. -/
theorem fileIdCmp_eq_then (x y : DevIno) :
    fileIdCmp x y = (compare x.dev y.dev).then (compare x.ino y.ino) := by
  unfold fileIdCmp
  rw [ite_eq_then, ite_eq_then, Ordering.then_eq]

instance : Std.TransCmp fileIdCmp := by
  have heq : fileIdCmp = compareLex (compareOn DevIno.dev) (compareOn DevIno.ino) := by
    funext x y
    exact fileIdCmp_eq_then x y
  rw [heq]
  infer_instance

/-- Two identities are equal where they compare so. -/
theorem fileIdCmp_eq_iff {x y : DevIno} : fileIdCmp x y = .eq ↔ x = y := by
  rw [fileIdCmp_eq_then, Ordering.then_eq_eq, Nat.compare_eq_eq, Nat.compare_eq_eq]
  cases x
  cases y
  simp

/-- Behind `qsort` the array is ascending. -/
theorem pairwise_sorted (s : FileIdSet) :
    s.sorted.v.Pairwise fun x y ↦ (fileIdCmp x y).isLE = true := by
  unfold FileIdSet.sorted
  split
  · exact pairwise_sortedWith s.v
  · next hle =>
    match hv : s.v with
    | [] => exact .nil
    | [x] => exact List.pairwise_singleton _ x
    | x :: y :: rest =>
      rw [hv] at hle
      simp at hle

/-- Sorting keeps the members. -/
theorem mem_sorted (s : FileIdSet) {id : DevIno} : id ∈ s.sorted.v ↔ id ∈ s.v := by
  unfold FileIdSet.sorted
  split
  · exact mem_sortedWith
  · rfl

/-- The sorted array is found to have what was pushed. -/
theorem fileIdSetHas_sorted (s : FileIdSet) (id : DevIno) :
    fileIdSetHas s.sorted id = true ↔ id ∈ s.v := by
  unfold fileIdSetHas
  rw [Bool.and_eq_true, decide_eq_true_iff, bsearch_isSome_iff (pairwise_sorted s), ← mem_sorted]
  simp only [fileIdCmp_eq_iff, exists_eq_right']
  constructor
  · exact And.right
  · exact fun hid ↦ ⟨List.length_pos_of_mem hid |>.ne', hid⟩

/-- A path of the table leads to a file. -/
def Referenced (fs : Tree) (paths : List Path) (id : DevIno) : Prop :=
  ∃ path ∈ paths, statId fs path = .ok id

/-- Reading the references collects what they lead to, and changes nothing. -/
theorem eval_collectIds (paths : List Path) (refs : FileIdSet) (w : World RotateStats) :
    ∃ refs', (collectIds paths refs).eval w = (refs', w) ∧
      ∀ id, id ∈ refs'.v ↔ id ∈ refs.v ∨ Referenced w.fs paths id := by
  induction paths generalizing refs with
  | nil => exact ⟨refs, rfl, by simp [Referenced]⟩
  | cons path paths ih =>
    rw [collectIds, eval_bind, eval_sysRead]
    dsimp only
    cases hstat : statId w.fs path with
    | error e =>
      obtain ⟨refs', heval, hmem⟩ := ih refs
      refine ⟨refs', heval, fun id ↦ ?_⟩
      rw [hmem]
      simp [Referenced, hstat]
    | ok id' =>
      obtain ⟨refs', heval, hmem⟩ := ih (refs.push id')
      refine ⟨refs', heval, fun id ↦ ?_⟩
      rw [hmem]
      simp [Referenced, hstat, FileIdSet.push, or_assoc, eq_comm]

/-! ### The walk -/

/-- A regular file with the name of a transcode, reached from a directory without passing a dot
entry, whose device and inode are not among the given ones. -/
def Unreferenced (fs : Tree) (keep : DevIno → Prop) (dir q : Path) : Prop :=
  ∃ d name i, Visited fs dir d ∧ isDotName name = false ∧ q = d ++ [name] ∧
    fs.node? q = some (.file i) ∧ isTranscodeOutputName name = true ∧ ¬ keep ⟨fs.device q, i⟩

variable {fs fs' : Tree} {keep : DevIno → Prop} {dir q : Path} {name : Name} {depth : Nat}
  {w w' : World RotateStats}

/-- An entry of a directory that is removed, or in which something is. -/
def UnreferencedIn (fs : Tree) (keep : DevIno → Prop) (dir : Path) (name : Name) (q : Path) :
    Prop :=
  isDotName name = false ∧
    (fs.node? (dir ++ [name]) = some .dir ∧ Unreferenced fs keep (dir ++ [name]) q ∨
      q = dir ++ [name] ∧ ∃ i, fs.node? q = some (.file i) ∧
        isTranscodeOutputName name = true ∧ ¬ keep ⟨fs.device q, i⟩)

/-- What is unreferenced under a directory is so in one of its entries. -/
theorem unreferenced_iff : Unreferenced fs keep dir q ↔
    ∃ name ∈ fs.children dir, UnreferencedIn fs keep dir name q := by
  constructor
  · rintro ⟨d, name, i, hd, hdot, rfl, hi, hrest⟩
    cases hd with
    | here =>
      refine ⟨name, mem_children.mpr ?_, hdot, .inr ⟨rfl, i, hi, hrest⟩⟩
      rw [hi]
      exact Option.some_ne_none _
    | @into _ _ name' hdot' hdir hd =>
      refine ⟨name', mem_children.mpr ?_, hdot', .inl ⟨hdir, d, name, i, hd, hdot, rfl, hi, hrest⟩⟩
      rw [hdir]
      exact Option.some_ne_none _
  · rintro ⟨name, -, hdot, ⟨hdir, d, name', i, hd, hrest⟩ | ⟨rfl, i, hi, hrest⟩⟩
    · exact ⟨d, name', i, .into hdot hdir hd, hrest⟩
    · exact ⟨dir, name, i, .here, hdot, rfl, hi, hrest⟩

/-- What is unreferenced under a directory is below it. -/
theorem Unreferenced.isPrefix (h : Unreferenced fs keep dir q) : dir <+: q := by
  obtain ⟨d, name, i, hd, -, rfl, -⟩ := h
  exact hd.isPrefix.trans (List.prefix_append _ _)

/-- What is unreferenced in an entry is at or below it. -/
theorem UnreferencedIn.isPrefix (h : UnreferencedIn fs keep dir name q) : dir ++ [name] <+: q := by
  rcases h.2 with ⟨-, h⟩ | ⟨rfl, -⟩
  · exact h.isPrefix
  · exact List.prefix_rfl

/-- Only what is below the directory matters. -/
theorem Unreferenced.congr (h : Unreferenced fs keep dir q)
    (hsame : ∀ p, dir <+: p → fs'.node? p = fs.node? p) (hdevice : fs'.device = fs.device) :
    Unreferenced fs' keep dir q := by
  have hq := h.isPrefix
  obtain ⟨d, name, i, hd, hdot, rfl, hi, hname, hkeep⟩ := h
  refine ⟨d, name, i, hd.congr hsame, hdot, rfl, ?_, hname, ?_⟩
  · rw [hsame _ hq, hi]
  · rwa [hdevice]

/-- What a part of the sweep leaves: the tree less some files, and a count. -/
structure SweepsTo (G : Path → Prop) (w w' : World RotateStats) : Prop where
  tree : Without G w.fs w'.fs
  conn : w'.conn = w.conn
  out : ∃ n, w'.out = { w.out with orphansRemoved := n }

theorem SweepsTo.refl {G : Path → Prop} (h : ∀ p, ¬ G p) : SweepsTo G w w :=
  ⟨Without.refl h, rfl, w.out.orphansRemoved, rfl⟩

/-- Only what the bounds say matters. -/
theorem SweepsTo.congr {G G' : Path → Prop} (h : SweepsTo G w w') (hG : ∀ p, G p ↔ G' p) :
    SweepsTo G' w w' :=
  ⟨h.tree.congr hG, h.conn, h.out⟩

/-- Two sweeps in a row. -/
theorem SweepsTo.trans {G G' : Path → Prop} {w'' : World RotateStats} (h : SweepsTo G w w')
    (h' : SweepsTo G' w' w'') : SweepsTo (fun p ↦ G p ∨ G' p) w w'' := by
  obtain ⟨n, hn⟩ := h.out
  obtain ⟨n', hn'⟩ := h'.out
  exact ⟨h.tree.trans h'.tree, h'.conn.trans h.conn, n', by rw [hn', hn]⟩

/-- `lstat` in a run in which no call fails. -/
theorem eval_lstatDev {path : Path} {n : Node Name} (h : w.fs.node? path = some n) :
    (lstatDev path).eval w = (.ok (n, w.fs.device path), w) := by
  unfold lstatDev
  rw [eval_sysRead, h]

section Walk

variable {refs : FileIdSet}

/-- Nothing is looked at behind a symbolic link. -/
theorem not_unreferencedIn_of_symlink {target : Path}
    (hn : fs.node? (dir ++ [name]) = some (.symlink target)) :
    ¬ UnreferencedIn fs keep dir name q := by
  rintro ⟨-, ⟨hdir, -⟩ | ⟨rfl, i, hi, -⟩⟩
  · rw [hn] at hdir
    cases hdir
  · rw [hn] at hi
    cases hi

/-- Of a directory it is what is unreferenced under it. -/
theorem unreferencedIn_of_dir (hn : fs.node? (dir ++ [name]) = some .dir)
    (hdot : isDotName name = false) :
    UnreferencedIn fs keep dir name q ↔ Unreferenced fs keep (dir ++ [name]) q := by
  constructor
  · rintro ⟨-, ⟨-, h⟩ | ⟨rfl, i, hi, -⟩⟩
    · exact h
    · rw [hn] at hi
      cases hi
  · exact fun h ↦ ⟨hdot, .inl ⟨hn, h⟩⟩

/-- Of a file it is the file itself, when it has the name of a transcode and is not kept. -/
theorem unreferencedIn_of_file {i : Nat} (hn : fs.node? (dir ++ [name]) = some (.file i))
    (hdot : isDotName name = false) : UnreferencedIn fs keep dir name q ↔ q = dir ++ [name] ∧
      isTranscodeOutputName name = true ∧ ¬ keep ⟨fs.device (dir ++ [name]), i⟩ := by
  constructor
  · rintro ⟨-, ⟨hdir, -⟩ | ⟨rfl, j, hj, hrest⟩⟩
    · rw [hn] at hdir
      cases hdir
    · rw [hn] at hj
      cases hj
      exact ⟨rfl, hrest⟩
  · rintro ⟨rfl, hrest⟩
    exact ⟨hdot, .inr ⟨rfl, i, hn, hrest⟩⟩

/-- One entry. -/
theorem eval_removeOrphan (hkeep : ∀ id, fileIdSetHas refs id = true ↔ keep id)
    (ih : ∀ dir w, w.fs.node? dir = some .dir → Deep w.fs dir depth →
      SweepsTo (Unreferenced w.fs keep dir) w ((removeOrphansIn refs depth dir).eval w).2)
    (hnode : fs.node? (dir ++ [name]) ≠ none) (hdeep : Deep fs dir (depth + 1))
    (hsame : ∀ q, dir ++ [name] <+: q → w.fs.node? q = fs.node? q)
    (hdevice : w.fs.device = fs.device) : SweepsTo (UnreferencedIn fs keep dir name) w
      ((removeOrphan (removeOrphansIn refs depth) refs dir name).eval w).2 := by
  unfold removeOrphan
  by_cases hdot : isDotName name = true
  · rw [if_pos hdot]
    refine SweepsTo.refl fun q h ↦ ?_
    rw [h.1] at hdot
    cases hdot
  · rw [if_neg hdot, eval_bind]
    have hdot : isDotName name = false := by simpa using hdot
    obtain ⟨n, hn⟩ := Option.ne_none_iff_exists'.mp hnode
    have hnw : w.fs.node? (dir ++ [name]) = some n := by rw [hsame _ List.prefix_rfl, hn]
    rw [eval_lstatDev hnw]
    cases n with
    | symlink target => exact SweepsTo.refl fun q h ↦ not_unreferencedIn_of_symlink hn h
    | dir =>
      have hdeep' : Deep w.fs (dir ++ [name]) depth := by
        intro q hq hnode
        rw [hsame q hq] at hnode
        have hlt := hdeep q ((List.prefix_append _ _).trans hq) hnode
        rw [List.length_append, List.length_singleton]
        omega
      apply (ih (dir ++ [name]) w hnw hdeep').congr
      intro q
      rw [unreferencedIn_of_dir hn hdot]
      constructor
      · exact fun h ↦ h.congr (fun p hp ↦ (hsame p hp).symm) hdevice.symm
      · exact fun h ↦ h.congr hsame hdevice
    | file i =>
      have hin : ∀ q, UnreferencedIn fs keep dir name q ↔ q = dir ++ [name] ∧
          isTranscodeOutputName name = true ∧ ¬ keep ⟨w.fs.device (dir ++ [name]), i⟩ := by
        intro q
        rw [hdevice]
        exact unreferencedIn_of_file hn hdot
      dsimp only
      by_cases horphan : (isTranscodeOutputName name &&
          !fileIdSetHas refs ⟨w.fs.device (dir ++ [name]), i⟩) = true
      · rw [if_pos horphan]
        simp only [Bool.and_eq_true, Bool.not_eq_true', ← Bool.not_eq_true, hkeep] at horphan
        rw [eval_bind, sysUnlink, eval_sysCall, Fs.unlink_file hnw (by simp)]
        refine ⟨(Without.clear w.fs (dir ++ [name])).congr fun q ↦ ?_, rfl, _, rfl⟩
        rw [hin]
        exact (and_iff_left horphan).symm
      · rw [if_neg horphan]
        simp only [Bool.and_eq_true, Bool.not_eq_true', ← Bool.not_eq_true, hkeep] at horphan
        refine SweepsTo.refl fun q h ↦ ?_
        rw [hin] at h
        exact horphan h.2

/-- The loop over the entries of a directory. -/
theorem eval_removeOrphans (hkeep : ∀ id, fileIdSetHas refs id = true ↔ keep id)
    (ih : ∀ dir w, w.fs.node? dir = some .dir → Deep w.fs dir depth →
      SweepsTo (Unreferenced w.fs keep dir) w ((removeOrphansIn refs depth dir).eval w).2)
    {names : List Name} (hnodup : names.Nodup)
    (hnode : ∀ name ∈ names, fs.node? (dir ++ [name]) ≠ none) (hdeep : Deep fs dir (depth + 1))
    (hsame : ∀ name ∈ names, ∀ q, dir ++ [name] <+: q → w.fs.node? q = fs.node? q)
    (hdevice : w.fs.device = fs.device) :
    SweepsTo (fun q ↦ ∃ name ∈ names, UnreferencedIn fs keep dir name q) w
      ((Proc.each (removeOrphan (removeOrphansIn refs depth) refs dir) names).eval w).2 := by
  induction names generalizing w with
  | nil => exact SweepsTo.refl (by simp)
  | cons name names ihnames =>
    obtain ⟨hfresh, hnodup⟩ := List.nodup_cons.mp hnodup
    have hone := eval_removeOrphan hkeep ih (hnode name List.mem_cons_self) hdeep
      (hsame name List.mem_cons_self) hdevice
    have hrest := ihnames hnodup (fun name' h ↦ hnode name' (List.mem_cons_of_mem _ h))
      (fun name' hname' q hq ↦ by
        rw [hone.tree.kept, hsame name' (List.mem_cons_of_mem _ hname') q hq]
        intro hgone
        have hne : name ≠ name' := by
          rintro rfl
          exact hfresh hname'
        exact not_both_below hne hgone.isPrefix hq)
      (hone.tree.device.trans hdevice)
    rw [Proc.each, eval_bind]
    apply (hone.trans hrest).congr
    simp

/-- The walk removes what is unreferenced, and nothing else. -/
theorem eval_removeOrphansIn (hkeep : ∀ id, fileIdSetHas refs id = true ↔ keep id) (depth : Nat)
    (dir : Path) (w : World RotateStats) (hdir : w.fs.node? dir = some .dir)
    (hdeep : Deep w.fs dir depth) :
    SweepsTo (Unreferenced w.fs keep dir) w ((removeOrphansIn refs depth dir).eval w).2 := by
  induction depth generalizing dir w with
  | zero =>
    have hlt := hdeep dir List.prefix_rfl (by rw [hdir]; exact Option.some_ne_none _)
    omega
  | succ depth ih =>
    rw [removeOrphansIn, eval_bind, eval_readDir hdir]
    apply (eval_removeOrphans hkeep ih (nodup_children w.fs dir)
      (fun _ hname ↦ mem_children.mp hname) hdeep (fun _ _ _ _ ↦ rfl) rfl).congr
    exact fun q ↦ unreferenced_iff.symm

end Walk

/-! ### The sweep -/

/-- A transcode below `resident/` that no path of the table leads to. -/
def Orphaned (fs : Tree) (paths : List Path) (libraryRoot q : Path) : Prop :=
  ∃ root, fs.follow (libraryRoot ++ [residentSeg]) = .ok root ∧
    fs.node? root = some .dir ∧ Unreferenced fs (Referenced fs paths) root q

/-- The sweep removes exactly the transcodes that no path of the table leads to; where the paths
cannot be read it removes nothing. -/
theorem removeOrphanTranscodes_exact (w : World RotateStats) (libraryRoot : Path) :
    SweepsTo (Orphaned w.fs w.conn.view.transcodePaths libraryRoot) w
        ((removeOrphanTranscodes libraryRoot).eval w).2 ∧
      ∀ fault replies, (removeOrphanTranscodes libraryRoot).run w (.fail fault :: replies) =
        .done () { w with conn := w.conn.failed fault } replies := by
  constructor
  · obtain ⟨refs, hrefs, hmem⟩ := eval_collectIds w.conn.view.transcodePaths .empty w
    have hkeep : ∀ id, fileIdSetHas refs.sorted id = true ↔
        Referenced w.fs w.conn.view.transcodePaths id := by
      intro id
      rw [fileIdSetHas_sorted, hmem]
      exact or_iff_right List.not_mem_nil
    unfold removeOrphanTranscodes
    rw [eval_bind, eval_gets, eval_bind, eval_query]
    dsimp only
    rw [eval_bind, hrefs, eval_bind, treeRoot, eval_gets]
    cases hroot : w.fs.follow (libraryRoot ++ [residentSeg]) with
    | error e =>
      refine SweepsTo.refl ?_
      rintro q ⟨root, hroot', -⟩
      rw [hroot] at hroot'
      cases hroot'
    | ok root =>
      have horphaned : ∀ q, Orphaned w.fs w.conn.view.transcodePaths libraryRoot q ↔
          w.fs.node? root = some .dir ∧
            Unreferenced w.fs (Referenced w.fs w.conn.view.transcodePaths) root q := by
        intro q
        unfold Orphaned
        simp [hroot]
      by_cases hdir : w.fs.node? root = some .dir
      · apply (eval_removeOrphansIn hkeep _ root w hdir (deep_of_lt (by omega))).congr
        intro q
        rw [horphaned]
        exact (and_iff_right hdir).symm
      · have hread : (readDir root).eval w = (.error .ENOENT, w) := by
          unfold readDir
          rw [eval_sysRead, if_neg hdir]
        dsimp only [Except.toOption]
        rw [removeOrphansIn, eval_bind, hread]
        refine SweepsTo.refl fun q h ↦ ?_
        exact hdir ((horphaned q).mp h).1
  · intro fault replies
    rfl

end Orphans

end Nocturne
