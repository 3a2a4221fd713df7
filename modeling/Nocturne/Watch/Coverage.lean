import Nocturne.Watch.Tracked

/-!
# Which directories are watched

The steps of the watcher keep each directory that they come to tracked. No move of a directory to a
plain path is followed: `directories_watched` says that nothing else is missed.
-/

namespace Nocturne

open Lib Lib.Steps

namespace WatchedTree

variable {libraryRoot : Path} {s : WatchedTree} {p q : Path} {i : Nat}

/-! ### The steps of the watcher -/

/-- An announcement outlives what leaves the tree and its own entry of the map alone. -/
theorem Announced.imp {parent : Path} {name : Name} (h : s.Announced libraryRoot parent name)
    {s' : WatchedTree} (hdirs : s'.dirs = s.dirs) (hqueue : ∃ c, s'.queue = s.queue ++ c)
    (hmap : ∀ wd, s.wdm.get? wd = some parent →
      (∀ i, s.watches.get? i = some wd → s.dirs.get? parent = some i) →
      s'.wdm.get? wd = some parent ∧
        ∀ i, s'.watches.get? i = some wd → s.watches.get? i = some wd) :
    s'.Announced libraryRoot parent name := by
  obtain ⟨wd, a, b, hq, hbefore, hwd, hinode⟩ := h.event
  obtain ⟨c, hc⟩ := hqueue
  obtain ⟨hwd', hwatches⟩ := hmap wd hwd hinode
  refine ⟨h.under, h.name_ne, wd, a, b ++ c, ?_, hbefore, hwd', fun i hi ↦ ?_⟩
  · rw [hc, hq, List.append_assoc, List.cons_append]
  · rw [hdirs]
    exact hinode i (hwatches i hi)

theorem sound_release (h : s.Sound libraryRoot) (inode : Nat) :
    (s.release inode).Sound libraryRoot := by
  unfold release
  split
  · next wd hwd =>
    split
    · next hgone =>
      have hnot : ∀ p, s.dirs.get? p ≠ some inode := by
        intro p hp
        have := List.all_eq_true.mp hgone (p, inode) (Table.mem_rows.mpr hp)
        simp at this
      have hdrop : ∀ {i w}, (s.watches.drop inode).get? i = some w →
          i ≠ inode ∧ s.watches.get? i = some w := by
        intro i w hi
        rw [Table.get?_drop] at hi
        split at hi
        · cases hi
        · next hne => exact ⟨hne, hi⟩
      obtain ⟨c, hc, hmem⟩ := s.enqueue_eq [⟨wd, inDeleteSelf, []⟩, ⟨wd, inIgnored, []⟩]
      have hqueue : ∀ e ∈ s.enqueue [⟨wd, inDeleteSelf, []⟩, ⟨wd, inIgnored, []⟩],
          e ∈ s.queue ∨ e = overflowed ∨ e.wd = wd := by
        intro e he
        rw [hc] at he
        refine (List.mem_append.mp he).imp_right fun hnew ↦ (hmem e hnew).symm.imp_right fun hnew ↦ ?_
        simp only [List.mem_cons, List.not_mem_nil, or_false] at hnew
        rcases hnew with rfl | rfl <;> rfl
      refine ⟨h.plain, ?_, h.pos, ?_, h.known, ?_, ?_, ?_⟩
      · exact fun i j w hi hj ↦ h.live i j w (hdrop hi).2 (hdrop hj).2
      · exact fun i w hi ↦ h.fresh i w (hdrop hi).2
      · intro e he
        rcases hqueue e he with he | rfl | he
        · exact h.old e he
        · exact Int.lt_trans (by decide) h.pos
        · rw [he]
          exact h.fresh inode wd hwd
      · intro e he hign i hi
        rcases hqueue e he with he | rfl | he
        · exact h.gone e he hign i (hdrop hi).2
        · exact absurd hign (by decide)
        · rw [he] at hi
          exact (hdrop hi).1 (h.live i inode wd (hdrop hi).2 hwd)
      · intro p i hp hi
        rcases h.tracked p i hp hi with ⟨w, hw, hmap⟩ | ⟨q, hq, hqp, hreason⟩
        · refine Or.inl ⟨w, ?_, hmap⟩
          show (s.watches.drop inode).get? i = some w
          rw [Table.get?_drop_ne _ fun he : i = inode ↦ hnot p (he ▸ hi), hw]
        · refine Or.inr ⟨q, hq, hqp, ?_⟩
          cases hreason with
          | waits h => exact .waits (h.of_eq rfl rfl rfl)
          | announced parent name he hevent =>
            refine .announced parent name he (hevent.imp rfl ⟨c, hc⟩ fun w hw _ ↦ ⟨hw, ?_⟩)
            exact fun i hi ↦ (hdrop hi).2
    · exact h
  · exact h

/-- Handling an event leaves those behind it announced, when it takes no entry of the map but that of
a watch that is gone, and comes to the directory that it announces. -/
theorem sound_next (h : s.Sound libraryRoot) {e : InotifyEvent} {queue : List InotifyEvent}
    (hqueue : s.queue = e :: queue) (hphase : s.phase = .idle) (htodo : s.todo = [])
    {wdm : Table Int Path} {todo : List Path} {hardError : Bool} {taken : Nat}
    (hkeeps : ∀ wd, (wd = e.wd → e.has inIgnored = false) → wdm.get? wd = s.wdm.get? wd)
    (hsub : ∀ wd d, wdm.get? wd = some d → s.wdm.get? wd = some d)
    (hnew : ∀ parent, s.wdm.get? e.wd = some parent → e.mask = inCreate ||| inIsdir →
      e.name ≠ [] → fitsPath (parent ++ [e.name]) = true → parent ++ [e.name] ∈ todo) :
    ({ s with
        queue := queue
        taken := taken
        wdm := wdm
        todo := todo
        hardError := hardError } : WatchedTree).Sound libraryRoot where
  plain := h.plain
  live := h.live
  pos := h.pos
  fresh := h.fresh
  known wd d hd := h.known wd d (hsub wd d hd)
  old e' he' := h.old e' (hqueue ▸ List.mem_cons_of_mem e he')
  gone e' he' := h.gone e' (hqueue ▸ List.mem_cons_of_mem e he')
  tracked p i hp hi := by
    rcases h.tracked p i hp hi with ⟨wd, hwd, hmap⟩ | ⟨q, hq, hqp, hreason⟩
    · refine Or.inl ⟨wd, hwd, (hkeeps wd fun he ↦ ?_).trans hmap⟩
      by_contra hign
      exact h.gone e (hqueue ▸ List.mem_cons_self) (by simpa using hign) i (he ▸ hwd)
    · refine Or.inr ⟨q, hq, hqp, ?_⟩
      cases hreason with
      | waits h => exact absurd h (not_waits hphase htodo)
      | announced parent name he hevent =>
        subst he
        obtain ⟨wd, a, b, hsplit, hbefore, hmap, hinode⟩ := hevent.event
        rw [hqueue] at hsplit
        cases a with
        | nil =>
          obtain ⟨rfl, rfl⟩ := List.cons.inj hsplit
          obtain ⟨j, hj⟩ := h.plain.closed' hp hi hq hqp
          have hfits := h.plain.fits _ j (isPlainPath_above hp hq hqp) hj
          exact .waits (.todo (hnew parent hmap rfl hevent.name_ne hfits))
        | cons e' a =>
          obtain ⟨rfl, rfl⟩ := List.cons.inj hsplit
          refine .announced parent name rfl ⟨hevent.under, hevent.name_ne, wd, a, b, rfl, ?_, ?_,
            hinode⟩
          · exact fun e' he' ↦ hbefore e' (List.mem_cons_of_mem _ he')
          · exact (hkeeps wd fun he ↦ hbefore e List.mem_cons_self he.symm).trans hmap

theorem sound_deliver (h : s.Sound libraryRoot) : (s.deliver libraryRoot).Sound libraryRoot := by
  unfold deliver
  split
  · next taken e queue hrun hphase htodo htaken hqueue =>
    split
    · next hnone =>
      refine sound_next h hqueue hphase htodo (fun _ _ ↦ rfl) (fun _ _ hd ↦ hd) ?_
      intro parent hparent
      rw [hnone] at hparent
      cases hparent
    · next dir hdir =>
      split
      · next hself =>
        refine sound_next h hqueue hphase htodo (fun _ _ ↦ rfl) (fun _ _ hd ↦ hd) ?_
        intro parent _ hmask
        unfold InotifyEvent.has at hself
        rw [hmask] at hself
        exact absurd hself (by rw [Bool.and_eq_true]; exact fun hc ↦ absurd hc.1 (by decide))
      · refine sound_next h hqueue hphase htodo ?_ ?_ ?_
        · intro wd hwd
          split
          · next hign =>
            refine Table.get?_drop_ne _ fun he ↦ ?_
            rw [hwd he] at hign
            cases hign
          · rfl
        · intro wd d hd
          split at hd
          · rw [Table.get?_drop] at hd
            split at hd
            · cases hd
            · exact hd
          · exact hd
        · intro parent hparent hmask hname hfits
          rw [hdir] at hparent
          cases hparent
          have hcreated : e.created dir = some (dir ++ [e.name]) := by
            unfold InotifyEvent.created InotifyEvent.has
            rw [hmask, hfits]
            refine if_pos ?_
            have hflags : ((inCreate ||| inIsdir) &&& inCreate != 0) = true ∧
                ((inCreate ||| inIsdir) &&& inIsdir != 0) = true := by decide
            rw [hflags.1, hflags.2]
            simpa using hname
          rw [hcreated]
          exact List.mem_singleton.mpr rfl
  · exact h

/-- A step of the recursion is sound when what waits goes on to wait. -/
theorem sound_walk (h : s.Sound libraryRoot) {todo : List Path} {phase : WalkPhase}
    (hwaits : ∀ p i q, isPlainPath libraryRoot p = true → s.dirs.get? p = some i →
      libraryRoot <+: q → q <+: p → s.Waits q p → ∃ q', libraryRoot <+: q' ∧ q' <+: p ∧
        ({ s with todo := todo, phase := phase } : WatchedTree).Waits q' p) :
    ({ s with todo := todo, phase := phase } : WatchedTree).Sound libraryRoot where
  plain := h.plain
  live := h.live
  pos := h.pos
  fresh := h.fresh
  known := h.known
  old := h.old
  gone := h.gone
  tracked p i hp hi := by
    refine (h.tracked p i hp hi).imp_right fun ⟨q, hq, hqp, hreason⟩ ↦ ?_
    cases hreason with
    | waits hw =>
      obtain ⟨q', hq', hqp', hw'⟩ := hwaits p i q hp hi hq hqp hw
      exact ⟨q', hq', hqp', .waits hw'⟩
    | announced parent name he hevent =>
      refine ⟨q, hq, hqp, .announced parent name he (hevent.imp rfl ⟨[], ?_⟩ fun _ hwd _ ↦ ?_)⟩
      · exact (List.append_nil _).symm
      · exact ⟨hwd, fun _ hi ↦ hi⟩

theorem sound_opendir (h : s.Sound libraryRoot) {reply : OpendirReply}
    (hf : s.Followed libraryRoot (.opendir reply) = true) :
    (s.opendir reply).Sound libraryRoot := by
  unfold opendir
  split
  · next dir todo hphase htodo =>
    -- the phase is idle, so only a directory of the recursion waits
    have hwaits : ∀ {q p}, s.Waits q p → q = dir ∨ q ∈ todo := by
      intro q p hw
      cases hw with
      | todo hmem =>
        rw [htodo] at hmem
        exact List.mem_cons.mp hmem
      | opened inode hph =>
        rw [hphase] at hph
        cases hph
      | watched inode hph =>
        rw [hphase] at hph
        cases hph
    split
    · next hnone =>
      refine sound_walk h fun p i q hp hi hq hqp hw ↦ ⟨q, hq, hqp, ?_⟩
      rcases hwaits hw with rfl | hmem
      · obtain ⟨j, hj⟩ := h.plain.closed' hp hi hq hqp
        rw [hnone] at hj
        cases hj
      · exact .todo hmem
    · next inode hdir =>
      refine sound_walk h fun p i q hp hi hq hqp hw ↦ ⟨q, hq, hqp, ?_⟩
      rcases hwaits hw with rfl | hmem
      · exact .opened inode rfl hdir
      · exact .todo hmem
    · next inode hdir =>
      refine sound_walk h fun p i q hp hi hq hqp hw ↦ ⟨q, hq, hqp, ?_⟩
      rcases hwaits hw with rfl | hmem
      · have hlost : s.anyPlain libraryRoot (s.todo.take 1) = false := by simpa [Followed] using hf
        rw [htodo] at hlost
        exact absurd (by simp) (notMem_of_not_anyPlain h hlost hp hi hq hqp)
      · exact .todo hmem
    · next inode hdir =>
      refine sound_walk h fun p i q hp hi hq hqp hw ↦ ?_
      have hlost : s.anyPlain libraryRoot s.todo = false := by simpa [Followed] using hf
      have hnot := notMem_of_not_anyPlain h hlost hp hi hq hqp
      rw [htodo] at hnot
      exact absurd (List.mem_cons.mpr (hwaits hw)) hnot
  · exact h

/-- A watch of the inode that a path leads to, new or not, is entered under the path. -/
theorem sound_watch (h : s.Sound libraryRoot) {dir : Path} {inode i : Nat} {wd next : Int}
    {watches : Table Nat Int} (hphase : s.phase = .opened dir inode)
    (hdir : s.dirs.get? dir = some i)
    (hwatches : ∀ j, watches.get? j = if j = i then some wd else s.watches.get? j)
    (hother : ∀ j, j ≠ i → s.watches.get? j ≠ some wd) (hnext : s.nextWd ≤ next)
    (hwd : wd < next) (hentry : ∀ d, s.wdm.get? wd = some d → s.watches.get? i = some wd)
    (hgone : ∀ e ∈ s.queue, e.has inIgnored = true → e.wd ≠ wd) :
    ({ s with
        watches := watches
        nextWd := next
        wdm := s.wdm.put wd dir
        phase := .watched dir inode } : WatchedTree).Sound libraryRoot := by
  have hold : ∀ {j w}, watches.get? j = some w → j = i ∧ w = wd ∨
      j ≠ i ∧ s.watches.get? j = some w := by
    intro j w hj
    rw [hwatches] at hj
    split at hj
    · next he =>
      cases hj
      exact Or.inl ⟨he, rfl⟩
    · next hne => exact Or.inr ⟨hne, hj⟩
  refine ⟨h.plain, ?_, Int.lt_of_lt_of_le h.pos hnext, ?_, ?_, ?_, ?_, ?_⟩
  · intro j k w hj hk
    rcases hold hj with ⟨rfl, rfl⟩ | ⟨hji, hj⟩ <;> rcases hold hk with ⟨rfl, he⟩ | ⟨hki, hk⟩
    · rfl
    · exact absurd hk (hother k hki)
    · exact absurd (he ▸ hj) (hother j hji)
    · exact h.live j k w hj hk
  · intro j w hj
    rcases hold hj with ⟨-, rfl⟩ | ⟨-, hj⟩
    · exact hwd
    · exact Int.lt_of_lt_of_le (h.fresh j w hj) hnext
  · intro w d hd
    by_cases he : w = wd
    · exact he ▸ hwd
    · exact Int.lt_of_lt_of_le (h.known w d (by rwa [Table.get?_put_ne _ _ he] at hd)) hnext
  · exact fun e he ↦ Int.lt_of_lt_of_le (h.old e he) hnext
  · intro e he hign j hj
    rcases hold hj with ⟨-, hw⟩ | ⟨-, hj⟩
    · exact hgone e he hign hw
    · exact h.gone e he hign j hj
  · intro p k hp hk
    have hself : k = i → p = dir := by
      rintro rfl
      exact h.plain.unique p dir k hp hk hdir
    rcases h.tracked p k hp hk with ⟨w, hw, hmap⟩ | ⟨q, hq, hqp, hreason⟩
    · by_cases hki : k = i
      · refine Or.inl ⟨wd, (hwatches k).trans (if_pos hki), ?_⟩
        rw [hself hki]
        exact Table.get?_put_self ..
      · refine Or.inl ⟨w, ((hwatches k).trans (if_neg hki)).trans hw, ?_⟩
        refine (Table.get?_put_ne _ _ fun he ↦ ?_).trans hmap
        exact hother k hki (he ▸ hw)
    · cases hreason with
      | waits hw =>
        cases hw with
        | todo hmem => exact Or.inr ⟨q, hq, hqp, .waits (.todo hmem)⟩
        | watched j hph =>
          rw [hphase] at hph
          cases hph
        | opened j hph hj =>
          rw [hphase] at hph
          cases hph
          by_cases hne : dir = p
          · have hki : k = i := by
              rw [← hne, hdir] at hk
              exact (Option.some.inj hk).symm
            refine Or.inl ⟨wd, (hwatches k).trans (if_pos hki), ?_⟩
            rw [← hne]
            exact Table.get?_put_self ..
          · exact Or.inr ⟨dir, hq, hqp, .waits (.watched _ rfl hj hne)⟩
      | announced parent name he hevent =>
        subst he
        have hparent : isPlainPath libraryRoot parent = true :=
          isPlainPath_above hp hevent.under ((List.prefix_append ..).trans hqp)
        refine Or.inr ⟨_, hq, hqp, .announced parent name rfl
          (hevent.imp rfl ⟨[], (List.append_nil _).symm⟩ fun w hw hinode ↦ ⟨?_, ?_⟩)⟩
        · by_cases hwe : w = wd
          · subst hwe
            have hi := hinode i (hentry parent hw)
            rw [h.plain.unique parent dir i hparent hi hdir]
            exact Table.get?_put_self ..
          · exact (Table.get?_put_ne _ _ hwe).trans hw
        · intro j hj
          rcases hold hj with ⟨rfl, rfl⟩ | ⟨-, hj⟩
          · exact hentry parent hw
          · exact hj

theorem sound_addWatch (h : s.Sound libraryRoot) {fails : Bool}
    (hf : s.Followed libraryRoot (.addWatch fails) = true) :
    (s.addWatch fails).Sound libraryRoot := by
  unfold addWatch
  split
  · next dir inode hphase =>
    unfold Followed at hf
    simp only [hphase] at hf
    split
    · next i hdir =>
      split
      · next wd hwd =>
        refine sound_watch h hphase hdir (fun j ↦ ?_) (fun j hne hj ↦ hne ?_) (Int.le_refl _)
          (h.fresh i wd hwd) (fun _ _ ↦ hwd) fun e he hign hewd ↦ h.gone e he hign i (hewd ▸ hwd)
        · split
          · next he => rw [he, hwd]
          · rfl
        · exact h.live j i wd hj hwd
      · next hnone =>
        refine sound_watch h hphase hdir (fun j ↦ Table.get?_put ..) (fun j _ hj ↦ ?_) (by omega)
          (by omega) (fun d hd ↦ ?_) fun e he _ hewd ↦ ?_
        · exact Int.lt_irrefl _ (h.fresh j _ hj)
        · exact absurd (h.known _ d hd) (Int.lt_irrefl _)
        · exact Int.lt_irrefl _ (hewd ▸ h.old e he)
    · next hbad =>
      have hlost : s.anyPlain libraryRoot (dir :: s.todo) = false := by
        rw [Bool.or_eq_true] at hf
        rcases hf with hok | hlost
        · rw [Bool.and_eq_true, Bool.not_eq_true', Option.isSome_iff_exists] at hok
          obtain ⟨hfails, i, hi⟩ := hok
          exact absurd hfails (hbad i hi)
        · simpa using hlost
      refine sound_walk h fun p i q hp hi hq hqp hw ↦ ?_
      have hnot := notMem_of_not_anyPlain h hlost hp hi hq hqp
      cases hw with
      | todo hmem => exact absurd (List.mem_cons_of_mem _ hmem) hnot
      | opened j hph =>
        rw [hphase] at hph
        cases hph
        exact absurd List.mem_cons_self hnot
      | watched j hph =>
        rw [hphase] at hph
        cases hph
  · exact h

theorem sound_readdir (h : s.Sound libraryRoot) : s.readdir.Sound libraryRoot := by
  unfold readdir
  split
  · next dir inode hphase =>
    refine sound_walk h fun p i q hp hi hq hqp hw ↦ ?_
    cases hw with
    | todo hmem => exact ⟨q, hq, hqp, .todo (List.mem_append_right _ hmem)⟩
    | opened j hph =>
      rw [hphase] at hph
      cases hph
    | watched j hph hdir hne =>
      rw [hphase] at hph
      cases hph
      obtain ⟨t, rfl⟩ := hqp
      cases t with
      | nil => exact absurd (List.append_nil _).symm hne
      | cons name t =>
        have hstep : dir ++ [name] <+: dir ++ name :: t := ⟨t, by simp⟩
        have hroot : libraryRoot <+: dir ++ [name] := hq.trans (List.prefix_append ..)
        obtain ⟨k, hk⟩ := h.plain.closed' hp hi hroot hstep
        refine ⟨dir ++ [name], hroot, hstep, .todo (List.mem_append_left _ ?_)⟩
        refine List.mem_map.mpr ⟨name, List.mem_filter.mpr ⟨mem_dirNames hdir hk, ?_⟩, rfl⟩
        rw [h.plain.fits _ k (isPlainPath_above hp hroot hstep) hk, Bool.and_true, bne_iff_ne]
        exact head?_ne_dot hq hp
  · exact h

/-- What the watcher has read leads where it led before. -/
theorem sound_read (h : s.Sound libraryRoot) (count : Nat) : (s.read count).Sound libraryRoot := by
  unfold read
  split
  · refine ⟨h.plain, h.live, h.pos, h.fresh, h.known, h.old, h.gone, fun p i hp hi ↦ ?_⟩
    refine (h.tracked p i hp hi).imp_right fun ⟨q, hq, hqp, hreason⟩ ↦ ⟨q, hq, hqp, ?_⟩
    cases hreason with
    | waits hw => exact .waits (hw.of_eq rfl rfl rfl)
    | announced parent name he hevent =>
      refine .announced parent name he (hevent.imp rfl ⟨[], ?_⟩ fun _ hwd _ ↦ ⟨hwd, fun _ hi ↦ hi⟩)
      exact (List.append_nil _).symm
  · exact h

/-! ### Runs -/

theorem Sound.step (h : s.Sound libraryRoot) (a : CoverStep)
    (hf : s.Followed libraryRoot a = true) : (s.step libraryRoot a).Sound libraryRoot := by
  cases a with
  | mkdir parent name inode =>
    refine sound_mkdir h inode fun hplain ↦ ?_
    simpa [Followed, hplain, Bool.and_eq_true] using hf
  | rmdir dir => exact sound_rmdir h dir
  | rename src dst => exact sound_rename h src (by simpa [Followed] using hf)
  | moveIn dst subtree => exact sound_moveIn h subtree (by simpa [Followed] using hf)
  | moveOut src => exact sound_moveOut h src
  | release inode => exact sound_release h inode
  | file dir mask name => exact sound_file h dir mask name
  | read count => exact sound_read h count
  | deliver => exact sound_deliver h
  | opendir reply => exact sound_opendir h hf
  | addWatch fails => exact sound_addWatch h hf
  | readdir => exact sound_readdir h

theorem Sound.covers (h : s.Sound libraryRoot) : s.Covers libraryRoot := by
  intro hqueue hphase htodo p i hp hi
  rcases h.tracked p i hp hi with hwatched | ⟨q, -, -, hreason⟩
  · exact hwatched
  · cases hreason with
    | waits hw => exact absurd hw (not_waits hphase htodo)
    | announced parent name he hevent =>
      obtain ⟨wd, a, b, hsplit, -⟩ := hevent.event
      rw [hqueue] at hsplit
      exact absurd hsplit (by simp)

theorem sound_init (library : DirTree libraryRoot) (maxQueued : Nat)
    (hfits : ∀ p i, isPlainPath libraryRoot p = true → library.dirs.get? p = some i →
      fitsPath p = true) : (init library maxQueued).Sound libraryRoot where
  plain := ⟨fun p i _ hi ↦ library.closed p i hi, fun p q i _ ↦ library.unique p q i, hfits⟩
  live i j wd hi _ := by cases hi
  pos := Int.one_pos
  fresh i wd hi := by cases hi
  known wd d hd := by cases hd
  old e he := by cases he
  gone e he := by cases he
  tracked p i hp hi :=
    Or.inr ⟨libraryRoot, List.prefix_rfl, library.below p i hi, .waits (.todo List.mem_cons_self)⟩

/-- Once all events are handled each plain directory is watched under its path, in every run that moves
no directory to a plain path, loses no event of a new one, and no directory to a call that fails. -/
theorem directories_watched {libraryRoot : Path} (library : DirTree libraryRoot) (maxQueued : Nat)
    (hfits : ∀ p i, isPlainPath libraryRoot p = true → library.dirs.get? p = some i →
      fitsPath p = true) (run : List CoverStep)
    (h : Meets (step libraryRoot) (fun s a ↦ s.Followed libraryRoot a = true)
      (init library maxQueued) run) :
    Always (step libraryRoot) (Covers libraryRoot) (init library maxQueued) run :=
  always_of_inv (fun _ hs ↦ Sound.covers hs) (fun _ a hs ha ↦ Sound.step hs a ha)
    (sound_init library maxQueued hfits) h

namespace Moved

/-- The library, with nothing in it. -/
def library : DirTree [ascii "lib"] := .single [ascii "lib"] 1

/-- A directory elsewhere. -/
def album : DirTree [] := .single [] 7

/-- A directory is visited: opened, watched and read. -/
def visit : List CoverStep := [.opendir .ok, .addWatch false, .readdir]

/-- `/lib/a` is created, and the watcher handles the event. -/
def created : List CoverStep :=
  visit ++ [.mkdir [ascii "lib"] (ascii "a") 2, .read 256, .deliver] ++ visit

end Moved

/-- A new directory is watched. -/
theorem created_watched : Always (step [ascii "lib"]) (Covers [ascii "lib"])
    (init Moved.library 16384) Moved.created := by
  refine directories_watched Moved.library 16384 ?_ Moved.created (by decide +kernel)
  intro p i _ hi
  by_contra hnot
  have hne : p ≠ [ascii "lib"] := fun he ↦ hnot (he ▸ by decide +kernel)
  rw [show Moved.library.dirs = Table.empty.put [ascii "lib"] 1 from rfl,
    Table.get?_put_ne _ _ hne] at hi
  cases hi

/-- A directory that is moved in has no watch, and one that is renamed is still under its old path in
the map. -/
theorem moved_not_watched :
    ¬ Always (step [ascii "lib"]) (Covers [ascii "lib"]) (init Moved.library 16384)
        (Moved.visit ++ [.moveIn [ascii "lib", ascii "b"] Moved.album, .read 256, .deliver]) ∧
      ¬ Always (step [ascii "lib"]) (Covers [ascii "lib"]) (init Moved.library 16384)
        (Moved.created ++ [.rename [ascii "lib", ascii "a"] [ascii "lib", ascii "b"], .read 256,
          .deliver, .deliver, .deliver]) := by
  constructor
  · intro h
    obtain ⟨wd, hwd, -⟩ := h.last (by decide +kernel) (by decide +kernel) (by decide +kernel)
      [ascii "lib", ascii "b"] 7 (by decide +kernel) (by decide +kernel)
    revert hwd
    rw [show (after (step [ascii "lib"]) (init Moved.library 16384) (Moved.visit ++
      [.moveIn [ascii "lib", ascii "b"] Moved.album, .read 256, .deliver])).watches.get? 7 = none by
        decide +kernel]
    exact fun hwd ↦ by cases hwd
  · intro h
    obtain ⟨wd, hwd, hmap⟩ := h.last (by decide +kernel) (by decide +kernel) (by decide +kernel)
      [ascii "lib", ascii "b"] 2 (by decide +kernel) (by decide +kernel)
    rw [show (after (step [ascii "lib"]) (init Moved.library 16384) (Moved.created ++
      [.rename [ascii "lib", ascii "a"] [ascii "lib", ascii "b"], .read 256, .deliver, .deliver,
        .deliver])).watches.get? 2 = some 2 by decide +kernel] at hwd
    cases hwd
    rw [show (after (step [ascii "lib"]) (init Moved.library 16384) (Moved.created ++
      [.rename [ascii "lib", ascii "a"] [ascii "lib", ascii "b"], .read 256, .deliver, .deliver,
        .deliver])).wdm.get? 2 = some [ascii "lib", ascii "a"] by decide +kernel] at hmap
    exact absurd hmap (by decide +kernel)

/-- A queue for one event loses the second of two new directories. -/
example : ¬ Covers [ascii "lib"] (after (step [ascii "lib"]) (init Moved.library 1)
    (Moved.visit ++ [.mkdir [ascii "lib"] (ascii "a") 2, .mkdir [ascii "lib"] (ascii "b") 3,
      .read 256, .deliver] ++ Moved.visit ++ [.deliver])) := by
  intro h
  obtain ⟨wd, hwd, -⟩ := h (by decide +kernel) (by decide +kernel) (by decide +kernel)
    [ascii "lib", ascii "b"] 3 (by decide +kernel) (by decide +kernel)
  revert hwd
  rw [show (after (step [ascii "lib"]) (init Moved.library 1)
    (Moved.visit ++ [.mkdir [ascii "lib"] (ascii "a") 2, .mkdir [ascii "lib"] (ascii "b") 3,
      .read 256, .deliver] ++ Moved.visit ++ [.deliver])).watches.get? 3 = none by decide +kernel]
  exact fun hwd ↦ by cases hwd

end WatchedTree

end Nocturne
