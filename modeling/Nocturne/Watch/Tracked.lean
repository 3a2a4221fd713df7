import Nocturne.Watch.Tree

/-!
# What leads the watcher to a directory

Each plain directory has its watch, or something still leads the walk of the watcher to it: a
directory above it, or itself, waits in the recursion or was announced by an event that is not
delivered yet. Changes of the tree keep this, unless they move a directory to a plain path.
-/

namespace Nocturne

open Lib Lib.Steps

namespace WatchedTree

/-! ### The invariant -/

/-- An event in the queue will lead to a directory. The watch it came through keeps its path in the
map: no notice before the event ends it, and its inode is not elsewhere. -/
structure Announced (libraryRoot : Path) (s : WatchedTree) (parent : Path) (name : Name) : Prop where
  under : libraryRoot <+: parent
  name_ne : name ≠ []
  event : ∃ wd a b, s.queue = a ++ ⟨wd, inCreate ||| inIsdir, name⟩ :: b ∧
    (∀ e ∈ a, e.wd = wd → e.has inIgnored = false) ∧ s.wdm.get? wd = some parent ∧
    ∀ i, s.watches.get? i = some wd → s.dirs.get? parent = some i

/-- The recursion will come to the directory `q`, or has come to it and will come to `p` below. -/
inductive Waits (s : WatchedTree) (q p : Path) : Prop
  | todo (h : q ∈ s.todo)
  | opened (inode : Nat) (h : s.phase = .opened q inode) (hq : s.dirs.get? q = some inode)
  | watched (inode : Nat) (h : s.phase = .watched q inode) (hq : s.dirs.get? q = some inode)
      (hne : q ≠ p)

/-- The directory `q` leads to `p`. -/
inductive Reason (libraryRoot : Path) (s : WatchedTree) (q p : Path) : Prop
  | waits (h : s.Waits q p)
  | announced (parent : Path) (name : Name) (h : q = parent ++ [name])
      (hevent : s.Announced libraryRoot parent name)

/-- The directory is watched under its path. -/
def Watched (s : WatchedTree) (p : Path) (i : Nat) : Prop :=
  ∃ wd, s.watches.get? i = some wd ∧ s.wdm.get? wd = some p

/-- The directory is watched, or will be. -/
def Tracked (libraryRoot : Path) (s : WatchedTree) (p : Path) (i : Nat) : Prop :=
  s.Watched p i ∨ ∃ q, libraryRoot <+: q ∧ q <+: p ∧ s.Reason libraryRoot q p

/-- The plain part of a tree. -/
structure PlainTree (libraryRoot : Path) (dirs : Table Path Nat) : Prop where
  closed : ∀ p i, isPlainPath libraryRoot p = true → dirs.get? p = some i →
    ∀ q, libraryRoot <+: q → q <+: p → (dirs.get? q).isSome
  unique : ∀ p q i, isPlainPath libraryRoot p = true → dirs.get? p = some i →
    dirs.get? q = some i → p = q
  fits : ∀ p i, isPlainPath libraryRoot p = true → dirs.get? p = some i → fitsPath p = true

/-- What is kept: descriptors are unique and count up, a notice ends a watch that is gone, and plain
directories are tracked. -/
structure Sound (libraryRoot : Path) (s : WatchedTree) : Prop where
  plain : PlainTree libraryRoot s.dirs
  live : ∀ i j wd, s.watches.get? i = some wd → s.watches.get? j = some wd → i = j
  pos : 0 < s.nextWd
  fresh : ∀ i wd, s.watches.get? i = some wd → wd < s.nextWd
  known : ∀ wd d, s.wdm.get? wd = some d → wd < s.nextWd
  old : ∀ e ∈ s.queue, e.wd < s.nextWd
  gone : ∀ e ∈ s.queue, e.has inIgnored = true → ∀ i, s.watches.get? i ≠ some e.wd
  tracked : ∀ p i, isPlainPath libraryRoot p = true → s.dirs.get? p = some i →
    s.Tracked libraryRoot p i

variable {libraryRoot : Path} {s : WatchedTree} {p q : Path} {i : Nat}

/-! ### Plain paths -/

theorem isPlainPath_iff : isPlainPath libraryRoot p = true ↔
    ∃ t, p = libraryRoot ++ t ∧ ∀ name ∈ t, name.head? ≠ some dot := by
  unfold isPlainPath isHidden
  rw [Bool.and_eq_true, List.isPrefixOf_iff_prefix]
  constructor
  · rintro ⟨⟨t, rfl⟩, h⟩
    refine ⟨t, rfl, fun name hname hdot ↦ ?_⟩
    rw [List.drop_left, Bool.not_eq_true', List.any_eq_false] at h
    exact h name hname (by simp [hdot])
  · rintro ⟨t, rfl, h⟩
    refine ⟨List.prefix_append .., ?_⟩
    rw [List.drop_left, Bool.not_eq_true', List.any_eq_false]
    intro name hname
    simpa using h name hname

theorem isPlainPath_above (h : isPlainPath libraryRoot p = true) (hroot : libraryRoot <+: q)
    (hq : q <+: p) : isPlainPath libraryRoot q = true := by
  obtain ⟨t, rfl, hnames⟩ := isPlainPath_iff.mp h
  obtain ⟨r, rfl⟩ := hroot
  obtain ⟨u, hu⟩ := hq
  rw [List.append_assoc] at hu
  refine isPlainPath_iff.mpr ⟨r, rfl, fun name hname ↦ hnames name ?_⟩
  rw [← List.append_cancel_left hu]
  exact List.mem_append_left _ hname

/-- The next component of a plain path does not start with a dot. -/
theorem head?_ne_dot {name : Name} {t : Path} (hroot : libraryRoot <+: q)
    (h : isPlainPath libraryRoot (q ++ name :: t) = true) : name.head? ≠ some dot := by
  obtain ⟨r, rfl⟩ := hroot
  obtain ⟨u, hu, hnames⟩ := isPlainPath_iff.mp h
  rw [List.append_assoc] at hu
  exact hnames name (by rw [← List.append_cancel_left hu]; simp)

theorem PlainTree.closed' {dirs : Table Path Nat} (h : PlainTree libraryRoot dirs)
    (hp : isPlainPath libraryRoot p = true) (hi : dirs.get? p = some i) (hroot : libraryRoot <+: q)
    (hq : q <+: p) : ∃ j, dirs.get? q = some j :=
  Option.isSome_iff_exists.mp (h.closed p i hp hi q hroot hq)

/-- Nothing plain is lost with directories that are not plain or not there. -/
theorem notMem_of_not_anyPlain (h : s.Sound libraryRoot) {paths : List Path}
    (hlost : s.anyPlain libraryRoot paths = false) (hp : isPlainPath libraryRoot p = true)
    (hi : s.dirs.get? p = some i) (hroot : libraryRoot <+: q) (hq : q <+: p) : q ∉ paths := by
  intro hmem
  have hq' := List.any_eq_false.mp hlost q hmem
  rw [isPlainPath_above hp hroot hq, h.plain.closed p i hp hi q hroot hq] at hq'
  exact hq' rfl

/-! ### The queue -/

/-- A queue grows at its end, by the event or by that of an overflow. -/
theorem push_eq (maxQueued taken : Nat) (queue : List InotifyEvent) (e : InotifyEvent) :
    ∃ c, push maxQueued taken queue e = queue ++ c ∧ ∀ e' ∈ c, e' = e ∨ e' = overflowed := by
  have hnil : queue = queue ++ [] := (List.append_nil queue).symm
  unfold push
  split
  · split
    · exact ⟨[], hnil, by simp⟩
    · exact ⟨[overflowed], rfl, by simp⟩
  · split
    · exact ⟨[], hnil, by simp⟩
    · exact ⟨[e], rfl, by simp⟩

theorem enqueue_eq (s : WatchedTree) (events : List InotifyEvent) :
    ∃ c, s.enqueue events = s.queue ++ c ∧ ∀ e ∈ c, e ∈ events ∨ e = overflowed := by
  unfold enqueue
  generalize s.queue = queue
  induction events generalizing queue with
  | nil => exact ⟨[], (List.append_nil queue).symm, by simp⟩
  | cons e events ih =>
    obtain ⟨c, hc, hmem⟩ := push_eq s.maxQueued s.taken queue e
    obtain ⟨d, hd, hmem'⟩ := ih (push s.maxQueued s.taken queue e)
    refine ⟨c ++ d, ?_, fun e' he' ↦ ?_⟩
    · rw [List.foldl_cons, hd, hc, List.append_assoc]
    · rcases List.mem_append.mp he' with he' | he'
      · exact (hmem e' he').imp_left fun (heq : e' = e) ↦ heq ▸ List.mem_cons_self
      · exact (hmem' e' he').imp_left (List.mem_cons_of_mem e)

/-- Where the queue of the kernel has room, an event is in it. -/
theorem mem_push {maxQueued taken : Nat} {queue : List InotifyEvent} (e : InotifyEvent)
    (h : (queue.drop taken).length < maxQueued) :
    ∃ a b, push maxQueued taken queue e = a ++ e :: b ∧ ∀ e' ∈ a, e' ∈ queue := by
  unfold push
  rw [if_neg (Nat.not_le.mpr h)]
  split
  · next hlast =>
    have hmem : e ∈ queue := List.mem_of_mem_drop (List.mem_of_getLast? hlast.1)
    obtain ⟨a, b, hq⟩ := List.append_of_mem hmem
    exact ⟨a, b, hq, fun e' he' ↦ hq ▸ List.mem_append_left _ he'⟩
  · exact ⟨queue, [], rfl, fun _ he' ↦ he'⟩

/-! ### Changes of the tree -/

theorem queue_edit (dirs : Table Path Nat) (notices : List (Option Nat × UInt32 × Name)) :
    ∀ e ∈ (s.edit dirs notices).queue, e ∈ s.queue ∨ e = overflowed ∨
      ∃ n ∈ notices, e.mask = n.2.1 ∧ ∃ i, s.watches.get? i = some e.wd := by
  intro e he
  obtain ⟨c, hc, hmem⟩ := s.enqueue_eq (s.events notices)
  change e ∈ s.enqueue (s.events notices) at he
  rw [hc, List.mem_append] at he
  refine he.imp_right fun hnew ↦ (hmem e hnew).symm.imp_right fun hevent ↦ ?_
  obtain ⟨n, hn, hsome⟩ := List.mem_filterMap.mp hevent
  obtain ⟨wd, hwd, rfl⟩ := Option.map_eq_some_iff.mp hsome
  obtain ⟨i, -, hi⟩ := Option.bind_eq_some_iff.mp hwd
  exact ⟨n, hn, rfl, i, hi⟩

/-- What leads to a directory still does after a change elsewhere. -/
theorem Reason.edit (h : s.Reason libraryRoot q p) {dirs : Table Path Nat}
    (notices : List (Option Nat × UInt32 × Name)) (hroot : libraryRoot <+: q)
    (hsame : ∀ r, libraryRoot <+: r → r <+: q → dirs.get? r = s.dirs.get? r) :
    (s.edit dirs notices).Reason libraryRoot q p := by
  have hq := hsame q hroot List.prefix_rfl
  cases h with
  | waits h =>
    cases h with
    | todo h => exact .waits (.todo h)
    | opened inode h hi => exact .waits (.opened inode h (hq.trans hi))
    | watched inode h hi hne => exact .waits (.watched inode h (hq.trans hi) hne)
  | announced parent name h hevent =>
    subst h
    obtain ⟨wd, a, b, hqueue, hbefore, hmap, hinode⟩ := hevent.event
    obtain ⟨c, hc, -⟩ := s.enqueue_eq (s.events notices)
    refine .announced parent name rfl ⟨hevent.under, hevent.name_ne, wd, a, b ++ c, ?_, hbefore,
      hmap, ?_⟩
    · show s.enqueue _ = _
      rw [hc, hqueue, List.append_assoc, List.cons_append]
    · intro i hi
      exact (hsame parent hevent.under (List.prefix_append ..)).trans (hinode i hi)

/-- A change of the tree is sound when its plain part is, and each plain directory of it was there at
the same place, or is tracked. -/
theorem sound_edit (h : s.Sound libraryRoot) {dirs : Table Path Nat}
    {notices : List (Option Nat × UInt32 × Name)} (hplain : PlainTree libraryRoot dirs)
    (hmask : (notices.all fun n ↦ n.2.1 &&& inIgnored == 0) = true)
    (hdirs : ∀ p i, isPlainPath libraryRoot p = true → dirs.get? p = some i →
      (s.dirs.get? p = some i ∧
        ∀ q, libraryRoot <+: q → q <+: p → dirs.get? q = s.dirs.get? q) ∨
      (s.edit dirs notices).Tracked libraryRoot p i) :
    (s.edit dirs notices).Sound libraryRoot where
  plain := hplain
  live := h.live
  pos := h.pos
  fresh := h.fresh
  known := h.known
  old e he := by
    rcases queue_edit dirs notices e he with he | rfl | ⟨n, -, -, i, hi⟩
    · exact h.old e he
    · exact Int.lt_trans (by decide) h.pos
    · exact h.fresh i e.wd hi
  gone e he hign := by
    rcases queue_edit dirs notices e he with he | rfl | ⟨n, hn, hmaskEq, -⟩
    · exact h.gone e he hign
    · exact absurd hign (by decide)
    · unfold InotifyEvent.has at hign
      rw [hmaskEq, beq_iff_eq.mp (List.all_eq_true.mp hmask n hn)] at hign
      cases hign
  tracked p i hp hi := by
    rcases hdirs p i hp hi with ⟨hold, hsame⟩ | htracked
    · rcases h.tracked p i hp hold with hwatched | ⟨q, hroot, hq, hreason⟩
      · exact Or.inl hwatched
      · refine Or.inr ⟨q, hroot, hq, hreason.edit notices hroot fun r hr hrq ↦ ?_⟩
        exact hsame r hr (hrq.trans hq)
    · exact htracked

/-- A change that only takes plain directories away, each with what is below it. -/
theorem sound_edit_shrink (h : s.Sound libraryRoot) {dirs : Table Path Nat}
    {notices : List (Option Nat × UInt32 × Name)} (hmask : (notices.all fun n ↦ n.2.1 &&& inIgnored == 0) = true)
    (hdirs : ∀ p i, isPlainPath libraryRoot p = true → dirs.get? p = some i →
      s.dirs.get? p = some i ∧ ∀ q, libraryRoot <+: q → q <+: p → dirs.get? q = s.dirs.get? q)
    (hunique : ∀ p q i, isPlainPath libraryRoot p = true → dirs.get? p = some i →
      dirs.get? q = some i → s.dirs.get? q = some i) :
    (s.edit dirs notices).Sound libraryRoot := by
  refine sound_edit h ⟨?_, ?_, ?_⟩ hmask fun p i hp hi ↦ Or.inl (hdirs p i hp hi)
  · intro p i hp hi q hroot hq
    obtain ⟨hold, hsame⟩ := hdirs p i hp hi
    rw [hsame q hroot hq]
    exact h.plain.closed p i hp hold q hroot hq
  · intro p q i hp hi hj
    exact h.plain.unique p q i hp (hdirs p i hp hi).1 (hunique p q i hp hi hj)
  · intro p i hp hi
    exact h.plain.fits p i hp (hdirs p i hp hi).1

theorem isUnder_iff {root path : Path} :
    isUnder root path = true ↔ root <+: path ∧ path ≠ root := by
  unfold isUnder
  rw [Bool.and_eq_true, List.isPrefixOf_iff_prefix, decide_eq_true_eq]
  constructor
  · rintro ⟨hpre, hlt⟩
    exact ⟨hpre, fun he ↦ absurd hlt (by rw [he]; exact Nat.lt_irrefl _)⟩
  · rintro ⟨hpre, hne⟩
    refine ⟨hpre, Nat.lt_of_le_of_ne hpre.length_le fun hlen ↦ hne ?_⟩
    exact (hpre.eq_of_length hlen).symm

theorem sound_rmdir (h : s.Sound libraryRoot) (dir : Path) :
    (s.rmdir libraryRoot dir).Sound libraryRoot := by
  unfold rmdir
  split
  · next hguard =>
    rw [Bool.and_eq_true, List.all_eq_true] at hguard
    have hempty : ∀ p i, s.dirs.get? p = some i → dir <+: p → p = dir := by
      intro p i hi hp
      by_contra hne
      have := hguard.2 (p, i) (Table.mem_rows.mpr hi)
      rw [isUnder_iff.mpr ⟨hp, hne⟩] at this
      cases this
    have hget : ∀ p i, (s.dirs.drop dir).get? p = some i → p ≠ dir ∧ s.dirs.get? p = some i := by
      intro p i hi
      rw [Table.get?_drop] at hi
      split at hi
      · cases hi
      · next hne => exact ⟨hne, hi⟩
    refine sound_edit_shrink h (by simp only [List.all_cons, List.all_nil]; decide) ?_ ?_
    · intro p i hp hi
      obtain ⟨hne, hold⟩ := hget p i hi
      refine ⟨hold, fun q _ hq ↦ Table.get?_drop_ne _ fun he ↦ hne ?_⟩
      exact hempty p i hold (he ▸ hq)
    · exact fun p q i _ _ hj ↦ (hget q i hj).2
  · exact h

theorem sound_file (h : s.Sound libraryRoot) (dir : Path) (mask : UInt32) (name : Name) :
    (s.file dir mask name).Sound libraryRoot := by
  unfold file
  split
  · next hmask =>
    have hflag : inIgnored =
        (inIsdir ||| inIgnored ||| inDeleteSelf ||| inMoveSelf) &&& inIgnored := by decide
    have hign : mask &&& inIgnored = 0 := by
      rw [hflag, ← UInt32.and_assoc, hmask, UInt32.zero_and]
    refine sound_edit_shrink h (by simp [hign]) ?_ fun p q i _ _ hj ↦ hj
    exact fun p i _ hi ↦ ⟨hi, fun _ _ _ ↦ rfl⟩
  · exact h

theorem sound_moveOut (h : s.Sound libraryRoot) (src : Path) :
    (s.moveOut libraryRoot src).Sound libraryRoot := by
  unfold moveOut
  split
  · have hget : ∀ p i, (cutDir s.dirs src).get? p = some i →
        ¬ src <+: p ∧ s.dirs.get? p = some i := by
      intro p i hi
      rw [get?_cutDir] at hi
      split at hi
      · cases hi
      · next hnot => exact ⟨hnot, hi⟩
    refine sound_edit_shrink h (by simp only [List.all_cons, List.all_nil]; decide) ?_ ?_
    · intro p i _ hi
      obtain ⟨hnot, hold⟩ := hget p i hi
      refine ⟨hold, fun q _ hq ↦ ?_⟩
      rw [get?_cutDir, if_neg fun hsrc ↦ hnot (hsrc.trans hq)]
    · exact fun p q i _ _ hj ↦ (hget q i hj).2
  · exact h

/-- Directories that are added below a path that is not plain are not plain. -/
theorem notMem_of_hidden {dst : Path} (hroot : libraryRoot <+: dst)
    (hdst : isPlainPath libraryRoot dst = false) {rows : List (Path × Nat)}
    (hrows : ∀ r ∈ rows, dst <+: r.1) (hp : isPlainPath libraryRoot p = true) :
    p ∉ rows.map Prod.fst := by
  intro hmem
  obtain ⟨r, hr, rfl⟩ := List.mem_map.mp hmem
  rw [isPlainPath_above hp hroot (hrows r hr)] at hdst
  cases hdst

theorem sound_rename (h : s.Sound libraryRoot) (src : Path) {dst : Path}
    (hdst : isPlainPath libraryRoot dst = false) :
    (s.rename libraryRoot src dst).Sound libraryRoot := by
  unfold rename
  split
  · next hguard =>
    simp only [Bool.and_eq_true] at hguard
    have hroot := (isUnder_iff.mp hguard.1.1.1.1.2).1
    have hnot : ∀ {p}, isPlainPath libraryRoot p = true →
        p ∉ (movedRows s.dirs src dst).map Prod.fst := by
      refine fun hp ↦ notMem_of_hidden hroot hdst (fun r hr ↦ ?_) hp
      obtain ⟨t, -, he⟩ := mem_movedRows.mp (show (r.1, r.2) ∈ _ from hr)
      rw [he]
      exact List.prefix_append ..
    have hget : ∀ p, isPlainPath libraryRoot p = true →
        (graftDirs (cutDir s.dirs src) (movedRows s.dirs src dst)).get? p =
          if src <+: p then none else s.dirs.get? p := by
      intro p hp
      rw [get?_graftDirs_of_notMem (hnot hp), get?_cutDir]
    refine sound_edit_shrink h (by simp only [List.all_cons, List.all_nil]; decide) ?_ ?_
    · intro p i hp hi
      rw [hget p hp] at hi
      split at hi
      · cases hi
      · next hsrc =>
        refine ⟨hi, fun q hq hqp ↦ ?_⟩
        rw [hget q (isPlainPath_above hp hq hqp), if_neg fun hsrcq ↦ hsrc (hsrcq.trans hqp)]
    · intro p q i hp hi hj
      rw [hget p hp] at hi
      split at hi
      · cases hi
      · next hsrc =>
        rcases get?_graftDirs _ hj with hmoved | hold
        · obtain ⟨t, ht, -⟩ := mem_movedRows.mp hmoved
          exact absurd ⟨t, (h.plain.unique p _ i hp hi ht).symm⟩ hsrc
        · rw [get?_cutDir] at hold
          split at hold
          · cases hold
          · exact hold
  · exact h

theorem sound_moveIn (h : s.Sound libraryRoot) (subtree : DirTree []) {dst : Path}
    (hdst : isPlainPath libraryRoot dst = false) :
    (s.moveIn libraryRoot dst subtree).Sound libraryRoot := by
  unfold moveIn
  split
  · next hguard =>
    simp only [Bool.and_eq_true, List.all_eq_true] at hguard
    have hroot := (isUnder_iff.mp hguard.1.1.1).1
    have hnot : ∀ {p}, isPlainPath libraryRoot p = true →
        p ∉ (subtree.dirs.rows.map fun r ↦ (dst ++ r.1, r.2)).map Prod.fst := by
      refine fun hp ↦ notMem_of_hidden hroot hdst (fun r hr ↦ ?_) hp
      obtain ⟨r', -, rfl⟩ := List.mem_map.mp hr
      exact List.prefix_append ..
    refine sound_edit_shrink h (by simp only [List.all_cons, List.all_nil]; decide) ?_ ?_
    · intro p i hp hi
      rw [get?_graftDirs_of_notMem (hnot hp)] at hi
      exact ⟨hi, fun q hq hqp ↦ get?_graftDirs_of_notMem (hnot (isPlainPath_above hp hq hqp)) _⟩
    · intro p q i hp hi hj
      rw [get?_graftDirs_of_notMem (hnot hp)] at hi
      rcases get?_graftDirs _ hj with hnew | hold
      · obtain ⟨r, hr, he⟩ := List.mem_map.mp hnew
        obtain ⟨-, rfl⟩ := Prod.mk.inj he
        have hother := hguard.2 r hr (p, r.2) (Table.mem_rows.mpr hi)
        simp at hother
      · exact hold
  · exact h

/-- What waits does not depend on the rest of the state. -/
theorem Waits.of_eq {s' : WatchedTree} (h : s.Waits q p) (hdirs : s'.dirs = s.dirs)
    (htodo : s'.todo = s.todo) (hphase : s'.phase = s.phase) : s'.Waits q p := by
  cases h with
  | todo h => exact .todo (htodo ▸ h)
  | opened inode h hq => exact .opened inode (hphase.trans h) (hdirs ▸ hq)
  | watched inode h hq hne => exact .watched inode (hphase.trans h) (hdirs ▸ hq) hne

/-- Between two walks nothing waits. -/
theorem not_waits (hphase : s.phase = .idle) (htodo : s.todo = []) : ¬ s.Waits q p := by
  intro h
  cases h with
  | todo h =>
    rw [htodo] at h
    cases h
  | opened inode h =>
    rw [hphase] at h
    cases h
  | watched inode h =>
    rw [hphase] at h
    cases h

/-- A directory that leads to another one leads to what is below that. -/
theorem Reason.below (h : s.Reason libraryRoot q p) {p' : Path} (hne : q ≠ p') :
    s.Reason libraryRoot q p' := by
  cases h with
  | waits h =>
    cases h with
    | todo h => exact .waits (.todo h)
    | opened inode h hq => exact .waits (.opened inode h hq)
    | watched inode h hq _ => exact .waits (.watched inode h hq hne)
  | announced parent name h hevent => exact .announced parent name h hevent

theorem prefix_concat {parent : Path} {name : Name} (h : q <+: parent ++ [name]) :
    q = parent ++ [name] ∨ q <+: parent := List.prefix_concat_iff.mp h

/-- A directory is not above the one that it is in. -/
theorem ne_concat {parent : Path} (h : q <+: parent) (name : Name) : q ≠ parent ++ [name] := by
  intro he
  have hlen := h.length_le
  rw [he, List.length_append, List.length_singleton] at hlen
  omega

/-- The event of a directory is heard, or the recursion comes to it. -/
theorem heard_cases {parent : Path} (h : s.heard libraryRoot parent = true) :
    (s.queue.drop s.taken).length < s.maxQueued ∨
      (s.dirs.get? parent).bind s.watches.get? = none ∨
      ∃ q, libraryRoot <+: q ∧ q <+: parent ∧ ∀ name, s.Waits q (parent ++ [name]) := by
  unfold heard at h
  rw [Bool.or_eq_true, Bool.or_eq_true, decide_eq_true_iff, Option.isNone_iff_eq_none] at h
  rcases h with (hroom | hnone) | hcomes
  · exact Or.inl hroom
  · exact Or.inr (Or.inl hnone)
  · refine Or.inr (Or.inr ?_)
    unfold comesTo at hcomes
    rw [Bool.or_eq_true, List.any_eq_true] at hcomes
    rcases hcomes with ⟨q, hmem, hq⟩ | hphase
    · rw [Bool.and_eq_true, List.isPrefixOf_iff_prefix, List.isPrefixOf_iff_prefix] at hq
      exact ⟨q, hq.1, hq.2, fun _ ↦ .todo hmem⟩
    · split at hphase
      · cases hphase
      · next q inode hp =>
        simp only [Bool.and_eq_true, List.isPrefixOf_iff_prefix, decide_eq_true_iff] at hphase
        exact ⟨q, hphase.1.1, hphase.1.2, fun _ ↦ .opened inode hp hphase.2⟩
      · next q inode hp =>
        simp only [Bool.and_eq_true, List.isPrefixOf_iff_prefix, decide_eq_true_iff] at hphase
        exact ⟨q, hphase.1.1, hphase.1.2, fun name ↦
          .watched inode hp hphase.2 (ne_concat hphase.1.2 name)⟩

/-- No directory has a number that is free. -/
theorem ne_of_isFree {inode : Nat} (h : s.isFree inode = true) : s.dirs.get? q ≠ some inode := by
  intro hq
  unfold isFree at h
  simp only [Bool.and_eq_true, List.all_eq_true] at h
  have hne := h.1.1 (q, inode) (Table.mem_rows.mpr hq)
  simp at hne

section Mkdir

variable {parent : Path} {name : Name} {inode j : Nat}

/-- A new directory in one that is there. -/
theorem PlainTree.put {dirs : Table Path Nat} (h : PlainTree libraryRoot dirs)
    (hroot : libraryRoot <+: parent) (hj : dirs.get? parent = some j)
    (hfree : ∀ q, dirs.get? q ≠ some inode)
    (hfits : isPlainPath libraryRoot (parent ++ [name]) = true →
      fitsPath (parent ++ [name]) = true) :
    PlainTree libraryRoot (dirs.put (parent ++ [name]) inode) := by
  have hold : ∀ {p i}, p ≠ parent ++ [name] →
      (dirs.put (parent ++ [name]) inode).get? p = some i → dirs.get? p = some i := by
    intro p i hne hi
    rwa [Table.get?_put_ne _ _ hne] at hi
  refine ⟨?_, ?_, ?_⟩
  · intro p i hp hi q hq hqp
    have hput : (dirs.get? q).isSome → ((dirs.put (parent ++ [name]) inode).get? q).isSome := by
      intro hsome
      rw [Table.get?_put]
      split
      · rfl
      · exact hsome
    by_cases he : p = parent ++ [name]
    · subst he
      rcases prefix_concat hqp with rfl | hqp
      · rw [Table.get?_put_self]
        rfl
      · have hplain := isPlainPath_above hp hroot (List.prefix_append ..)
        exact hput (h.closed parent j hplain hj q hq hqp)
    · exact hput (h.closed p i hp (hold he hi) q hq hqp)
  · intro p q i hp hi hq
    by_cases hpe : p = parent ++ [name] <;> by_cases hqe : q = parent ++ [name]
    · rw [hpe, hqe]
    · rw [hpe, Table.get?_put_self] at hi
      cases hi
      exact absurd (hold hqe hq) (hfree q)
    · rw [hqe, Table.get?_put_self] at hq
      cases hq
      exact absurd (hold hpe hi) (hfree p)
    · exact h.unique p q i hp (hold hpe hi) (hold hqe hq)
  · intro p i hp hi
    by_cases he : p = parent ++ [name]
    · rw [he] at hp ⊢
      exact hfits hp
    · exact h.fits p i hp (hold he hi)

/-- A new directory whose event is heard is tracked: what leads to its parent, or to a directory above,
leads to what is below, and a parent that is watched announces it. -/
theorem tracked_mkdir (h : s.Sound libraryRoot) (hroot : libraryRoot <+: parent) (hname : name ≠ [])
    (hplain : isPlainPath libraryRoot parent = true) (hj : s.dirs.get? parent = some j)
    (hheard : s.heard libraryRoot parent = true) :
    (s.edit (s.dirs.put (parent ++ [name]) inode)
      [(s.dirs.get? parent, inCreate ||| inIsdir, name)]).Tracked libraryRoot
        (parent ++ [name]) i := by
  have hsame : ∀ r, libraryRoot <+: r → r <+: parent →
      (s.dirs.put (parent ++ [name]) inode).get? r = s.dirs.get? r :=
    fun r _ hr ↦ Table.get?_put_ne _ _ (ne_concat hr name)
  have hbelow : ∀ q, libraryRoot <+: q → q <+: parent → s.Reason libraryRoot q parent ∨
      s.Waits q (parent ++ [name]) → (s.edit (s.dirs.put (parent ++ [name]) inode)
        [(s.dirs.get? parent, inCreate ||| inIsdir, name)]).Tracked libraryRoot
          (parent ++ [name]) i := by
    intro q hq hqp hreason
    have hreason' : s.Reason libraryRoot q (parent ++ [name]) :=
      hreason.elim (fun h ↦ h.below (ne_concat hqp name)) .waits
    exact Or.inr ⟨q, hq, hqp.trans (List.prefix_append ..),
      hreason'.edit _ hq fun r hr hrq ↦ hsame r hr (hrq.trans hqp)⟩
  rcases h.tracked parent j hplain hj with ⟨wd, hwd, hmap⟩ | ⟨q, hq, hqp, hreason⟩
  · rcases heard_cases hheard with hroom | hnone | ⟨q, hq, hqp, hwaits⟩
    · obtain ⟨a, b, hqueue, hbefore⟩ := mem_push ⟨wd, inCreate ||| inIsdir, name⟩ hroom
      refine Or.inr ⟨parent ++ [name], hroot.trans (List.prefix_append ..), List.prefix_rfl,
        .announced parent name rfl ⟨hroot, hname, wd, a, b, ?_, ?_, hmap, ?_⟩⟩
      · show s.enqueue (s.events _) = _
        rw [← hqueue]
        simp [events, hj, hwd, enqueue]
      · intro e he hewd
        by_contra hign
        exact h.gone e (hbefore e he) (by simpa using hign) j (hewd ▸ hwd)
      · intro i hi
        rw [h.live i j wd hi hwd]
        exact (hsame parent hroot List.prefix_rfl).trans hj
    · rw [hj, Option.bind_some, hwd] at hnone
      cases hnone
    · exact hbelow q hq hqp (Or.inr (hwaits name))
  · exact hbelow q hq hqp (Or.inl hreason)

/-- A directory is created. -/
theorem sound_mkdir (h : s.Sound libraryRoot) (inode : Nat)
    (hfollowed : isPlainPath libraryRoot (parent ++ [name]) = true →
      fitsPath (parent ++ [name]) = true ∧ s.heard libraryRoot parent = true) :
    (s.mkdir libraryRoot parent name inode).Sound libraryRoot := by
  unfold mkdir
  split
  · next hguard =>
    simp only [Bool.and_eq_true, bne_iff_ne, Option.isNone_iff_eq_none] at hguard
    obtain ⟨⟨⟨⟨hunder, hparent⟩, hnew⟩, hname⟩, hfree⟩ := hguard
    obtain ⟨hunder, hnotRoot⟩ := isUnder_iff.mp hunder
    have hroot : libraryRoot <+: parent :=
      (prefix_concat hunder).resolve_left fun he ↦ hnotRoot he.symm
    obtain ⟨j, hj⟩ := Option.isSome_iff_exists.mp hparent
    refine sound_edit h (h.plain.put hroot hj (fun _ ↦ ne_of_isFree hfree) fun hp ↦ (hfollowed hp).1)
      (by simp only [List.all_cons, List.all_nil]; decide) ?_
    intro p i hp hi
    by_cases he : p = parent ++ [name]
    · right
      subst he
      have hplain := isPlainPath_above hp hroot (List.prefix_append ..)
      exact tracked_mkdir h hroot hname hplain hj (hfollowed hp).2
    · left
      rw [Table.get?_put_ne _ _ he] at hi
      refine ⟨hi, fun q hq hqp ↦ Table.get?_put_ne _ _ fun hqe ↦ ?_⟩
      obtain ⟨k, hk⟩ := h.plain.closed' hp hi hq hqp
      rw [hqe, hnew] at hk
      cases hk
  · exact h

end Mkdir

end WatchedTree

end Nocturne
