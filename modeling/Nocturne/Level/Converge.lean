import Nocturne.Level.Standing
import Nocturne.Lib.Lookup

/-!
# Levelling converges

Whatever the calls of a run are answered, and wherever it dies, each copy is the old one or a
finished encode of its track's source, and a row with a gain tells the truth about its copy. A run
that reports no error leaves no track behind, and a run without incident reports none.
-/

namespace Nocturne.Level

open Lib Proc Lib.Steps

variable {ff : Ffmpeg} {job : LevelJob} {fs fs' : AudioTree} {p tmp : Path} {a source : Audio}
  {result : TranscodeResult} {s₀ s s' s'' : LevelWorld} {task task' : LevelTask} {sha : Sha}
  {row : LevelRow}

/-! ### The work list -/

/-- A row is a task when its track has a path and the row a copy. -/
theorem taskOf_eq_some : s.taskOf sha row = some task ↔ task.sha = sha ∧
    s.tracks.get? sha = some task.src ∧ row.transcodePath = some task.dst ∧
    task.format = row.transcodeFormat ∧ row.location = .resident ∧ row.transcodeGainDb = none := by
  obtain ⟨tsha, src, dst, format⟩ := task
  unfold LevelWorld.taskOf
  cases s.tracks.get? sha with
  | none => simp
  | some src' =>
    cases row.transcodePath with
    | none => simp
    | some dst' =>
      dsimp only
      rw [Option.ite_none_right_eq_some, Option.some.injEq, LevelTask.mk.injEq]
      constructor
      · rintro ⟨⟨hloc, hgain⟩, rfl, rfl, rfl, rfl⟩
        exact ⟨rfl, rfl, rfl, rfl, hloc, hgain⟩
      · rintro ⟨rfl, hsrc, hdst, rfl, hloc, hgain⟩
        cases hsrc
        cases hdst
        exact ⟨⟨hloc, hgain⟩, rfl, rfl, rfl, rfl⟩

/-- The tasks are the rows that are one. -/
theorem mem_tasks : task ∈ s.tasks ↔ ∃ row, s.residency.get? task.sha = some row ∧
    s.taskOf task.sha row = some task := by
  unfold LevelWorld.tasks
  rw [List.mem_mergeSort, List.mem_filterMap]
  constructor
  · rintro ⟨⟨sha, row⟩, hr, htask⟩
    have hsha : task.sha = sha := (taskOf_eq_some.mp htask).1
    rw [hsha]
    exact ⟨row, Table.mem_rows.mp hr, htask⟩
  · rintro ⟨row, hrow, htask⟩
    exact ⟨(task.sha, row), Table.mem_rows.mpr hrow, htask⟩

/-- Each row comes up once. -/
theorem nodup_tasks (s : LevelWorld) : (s.tasks.map LevelTask.sha).Nodup := by
  have hperm := List.mergeSort_perm (s.residency.rows.filterMap fun r ↦ s.taskOf r.1 r.2)
    fun a b ↦ decide (a.sha ≤ b.sha)
  refine (hperm.map LevelTask.sha).nodup_iff.mpr ?_
  have hkeys := s.residency.nodup_keys
  unfold List.Nodup at hkeys ⊢
  rw [List.pairwise_map] at hkeys ⊢
  apply List.Pairwise.filterMap _ _ hkeys
  intro r r' hne x hx y hy
  rw [(taskOf_eq_some.mp hx).1, (taskOf_eq_some.mp hy).1]
  exact hne

/-! ### Between two runs -/

/-- A track of the work list whose copy has the configured format. -/
structure Due (job : LevelJob) (s : LevelWorld) (task : LevelTask) : Prop where
  mem : task ∈ s.tasks
  format : task.format = some job.format

/-- The copy of a track is a finished encode of its source, at the gain that was measured, or at
0 dB where the measurement failed. -/
structure Copied (ff : Ffmpeg) (job : LevelJob) (s₀ : LevelWorld) (fs : AudioTree)
    (task : LevelTask) (source : Audio) (result : TranscodeResult) : Prop where
  read : s₀.fs.read? task.src = some source
  gain : result = levelResult job (ff.measure source) ∨ result = levelResult job none
  copy : fs.Has task.dst (job.encode source result)

/-- Where the runs have come to from a state: a file outside the directory, and a row, is as it was,
or it is that of a track that was due and has been levelled. -/
structure Partway (ff : Ffmpeg) (job : LevelJob) (s₀ s : LevelWorld) : Prop where
  isolated : Isolated job s.fs
  device : s.fs.device = s₀.fs.device
  dirs : ∀ p, InTmp job p → s.fs.node? p = some .dir → s₀.fs.node? p = some .dir
  tmpDir : s.fs.node? job.tmpDir = s₀.fs.node? job.tmpDir ∨ s.fs.node? job.tmpDir = some .dir
  tracks : s.tracks = s₀.tracks
  files : ∀ p, ¬ InTmp job p → p ≠ job.tmpDir → SameAt s₀.fs s.fs p ∨
    ∃ task source result, Due job s₀ task ∧ task.dst = p ∧ Copied ff job s₀ s.fs task source result
  rows : ∀ sha, s.residency.get? sha = s₀.residency.get? sha ∨
    ∃ task row source result, Due job s₀ task ∧ task.sha = sha ∧
      s₀.residency.get? sha = some row ∧ Copied ff job s₀ s.fs task source result ∧
      s.residency.get? sha = some (row.record (ff.size (job.encode source result)) result)

/-- A library whose copies can be levelled: nothing else uses the directory, a source is no symbolic
link and nobody's copy, no two tracks share a copy, and there is no symbolic link on the way to the
directory, a source or a copy. -/
structure LevelLibrary (job : LevelJob) (s : LevelWorld) : Prop where
  isolated : Isolated job s.fs
  straight : ∀ task, Due job s task →
    s.fs.Straight (tempPathFor job.tmpDir task.sha task.dst) ∧ s.fs.Straight task.src ∧
      s.fs.Straight task.dst
  original : ∀ task, Due job s task → ¬ InTmp job task.src ∧ task.src ≠ job.tmpDir ∧
    ∀ target, s.fs.node? task.src ≠ some (.symlink target)
  copy : ∀ task, Due job s task → ¬ InTmp job task.dst ∧ task.dst ≠ job.tmpDir
  apart : ∀ task task', Due job s task → Due job s task' → task.src ≠ task'.dst
  own : ∀ task task', Due job s task → Due job s task' → task.dst = task'.dst → task = task'

/-- A run starts in the middle of itself. -/
theorem Partway.start (h : LevelLibrary job s₀) : Partway ff job s₀ s₀ :=
  ⟨h.isolated, rfl, fun _ _ hdir ↦ hdir, .inl rfl, rfl, fun _ _ _ ↦ .inl ⟨rfl, fun _ _ ↦ rfl⟩,
    fun _ ↦ .inl rfl⟩

theorem Partway.stats (h : Partway ff job s₀ s) (c : LevelStats) :
    Partway ff job s₀ { s with stats := c } := { h with }

/-- A copy that is still there. -/
theorem Copied.mono (h : Copied ff job s₀ fs task source result)
    (hsame : ∀ a, fs.Has task.dst a → fs'.Has task.dst a) :
    Copied ff job s₀ fs' task source result :=
  ⟨h.read, h.gain, hsame _ h.copy⟩

/-- A step that changes nothing but what is below the directory. -/
structure Aside (job : LevelJob) (s s' : LevelWorld) : Prop where
  tree : Staged job s.fs s'.fs
  tracks : s'.tracks = s.tracks
  residency : s'.residency = s.residency
  stats : s'.stats = s.stats

theorem Aside.refl (h : Isolated job s.fs) : Aside job s s := ⟨.refl h, rfl, rfl, rfl⟩

/-- Changes below the directory compose. -/
theorem Aside.trans (h : Aside job s s') (h' : Aside job s' s'') : Aside job s s'' :=
  ⟨h.tree.trans h'.tree, h'.tracks.trans h.tracks, h'.residency.trans h.residency,
    h'.stats.trans h.stats⟩

theorem Aside.of_staged (h : Staged job s.fs fs') : Aside job s { s with fs := fs' } :=
  ⟨h, rfl, rfl, rfl⟩

/-- What is done below the directory is nothing to the copies and the rows. -/
theorem Partway.aside (hlib : LevelLibrary job s₀) (h : Partway ff job s₀ s) (ha : Aside job s s') :
    Partway ff job s₀ s' where
  isolated := ha.tree.isolated
  device := ha.tree.device.trans h.device
  dirs p hp hdir := h.dirs p hp (ha.tree.dirs p hp hdir)
  tmpDir := by
    rcases ha.tree.tmpDir with heq | hdir
    · rw [heq]
      exact h.tmpDir
    · exact .inr hdir
  tracks := ha.tracks.trans h.tracks
  files p hp hne := by
    rcases h.files p hp hne with hsame | ⟨task, source, result, hdue, rfl, hcopied⟩
    · exact .inl (hsame.trans (ha.tree.outside p hp hne))
    · exact .inr ⟨task, source, result, hdue, rfl,
        hcopied.mono fun _ ↦ (ha.tree.outside _ hp hne).has⟩
  rows sha := by
    rw [ha.residency]
    rcases h.rows sha with hsame | ⟨task, row, source, result, hdue, hsha, hrow, hcopied, hrec⟩
    · exact .inl hsame
    · obtain ⟨hp, hne⟩ := hlib.copy task hdue
      exact .inr ⟨task, row, source, result, hdue, hsha, hrow,
        hcopied.mono fun _ ↦ (ha.tree.outside _ hp hne).has, hrec⟩

/-- What is on the list now was on it from the start, with the same row. -/
theorem Partway.due (h : Partway ff job s₀ s) (htask : task ∈ s.tasks) :
    task ∈ s₀.tasks ∧ s.residency.get? task.sha = s₀.residency.get? task.sha := by
  obtain ⟨row, hrow, hof⟩ := mem_tasks.mp htask
  rcases h.rows task.sha with hsame | ⟨_, old, source, result, -, -, -, -, hrec⟩
  · refine ⟨mem_tasks.mpr ⟨row, hsame ▸ hrow, ?_⟩, hsame⟩
    unfold LevelWorld.taskOf at hof ⊢
    rw [h.tracks] at hof
    exact hof
  · obtain ⟨-, -, -, -, -, hgain⟩ := taskOf_eq_some.mp hof
    rw [hrow] at hrec
    cases hrec
    cases hgain

/-- The sources are never touched. -/
theorem Partway.original (hlib : LevelLibrary job s₀) (h : Partway ff job s₀ s)
    (hdue : Due job s₀ task) :
    s.fs.read? task.src = s₀.fs.read? task.src ∧ s.fs.stat? task.src = s₀.fs.stat? task.src := by
  obtain ⟨hp, hne, hlink⟩ := hlib.original task hdue
  have hsame : SameAt s₀.fs s.fs task.src := by
    rcases h.files _ hp hne with hsame | ⟨task', _, _, hdue', hdst, -⟩
    · exact hsame
    · exact absurd hdst.symm (hlib.apart task task' hdue hdue')
  have hstat : s.fs.stat? task.src = s₀.fs.stat? task.src := by
    cases hn : s₀.fs.node? task.src with
    | none => rw [Fs.stat?_none hn, Fs.stat?_none (hsame.1.trans hn)]
    | some n =>
      have hplain : ∀ target, n ≠ .symlink target := fun target heq ↦ hlink target (heq ▸ hn)
      rw [Fs.stat?_of_node hn hplain, Fs.stat?_of_node (hsame.1.trans hn) hplain]
  refine ⟨?_, hstat⟩
  unfold Fs.read?
  rw [hstat]
  cases hn : s₀.fs.node? task.src with
  | none => rw [Fs.stat?_none hn]
  | some n =>
    rw [Fs.stat?_of_node hn fun target heq ↦ hlink target (heq ▸ hn)]
    cases n with
    | file i => exact congrArg some (hsame.2 i hn)
    | symlink target => rfl
    | dir => rfl

/-! ### Calls -/

section Calls

variable {α : Type} {A : LevelWorld → LevelCall → Reply Errno → Prop} {C : LevelWorld → Prop}

/-- No call fails. -/
def Unfailing (A : LevelWorld → LevelCall → Reply Errno → Prop) : Prop :=
  ∀ s call e, ¬ A s call (.fail e)

/-- A call that changes the tree, by its answers. -/
theorem wp_changeTree {call : LevelCall} {f : AudioTree → Except Errno AudioTree}
    {Q : Except Errno Unit → LevelWorld → Prop} (hdie : C s)
    (hok : ∀ fs', f s.fs = .ok fs' → Q (.ok ()) { s with fs := fs' })
    (herror : ∀ e, f s.fs = .error e → Q (.error e) s)
    (hfail : ∀ e, A s call (.fail e) → Q (.error e) s) : wp A (changeTree call f) Q C s := by
  refine (wp_ask _ _).mpr ⟨fun _ ↦ hdie, fun _ ↦ ?_, hfail⟩
  dsimp only
  cases hf : f s.fs with
  | ok fs' => exact hok fs' hf
  | error e => exact herror e hf

/-- A call that reads, by its answers. -/
theorem wp_look {call : LevelCall} {f : LevelWorld → Option α} {Q : Option α → LevelWorld → Prop}
    (hdie : C s) (hok : Q (f s) s) (hfail : ∀ e, A s call (.fail e) → Q none s) :
    wp A (look call f) Q C s :=
  (wp_ask _ _).mpr ⟨fun _ ↦ hdie, fun _ ↦ hok, hfail⟩

/-- What is removed is below the directory. -/
theorem wp_remove (h : Isolated job s.fs) (hp : InTmp job p) :
    wp A (remove p) (fun _ ↦ Aside job s) (Aside job s) s := by
  unfold remove
  rw [wp_bind]
  apply wp_changeTree (.refl h)
  · exact fun fs' hfs ↦ .of_staged (staged_unlink h hp hfs)
  · exact fun _ _ ↦ .refl h
  · exact fun _ _ ↦ .refl h

/-- What `transcode_audio` leaves below the directory. Where it fails, a call has failed, or it could
not have gone through. -/
structure Encoded (A : LevelWorld → LevelCall → Reply Errno → Prop) (ff : Ffmpeg) (job : LevelJob)
    (src tmp : Path) (s : LevelWorld) (r : Option TranscodeResult) (s' : LevelWorld) : Prop where
  aside : Aside job s s'
  done : ∀ result, r = some result → ∃ source, s.fs.read? src = some source ∧
    (result = levelResult job (ff.measure source) ∨ result = levelResult job none) ∧
    s'.fs.Has tmp (job.encode source result)
  failed : r = none → Unfailing A → hasCodec job.format = true → s.fs.read? src ≠ none →
    s.fs.node? tmp = some .dir

/-- Behind a call that fails nothing is said about the output. -/
theorem Encoded.of_fail {call : LevelCall} {e : Errno} {src : Path} (ha : Aside job s s'')
    (he : A s' call (.fail e)) : Encoded A ff job src tmp s none s'' :=
  ⟨ha, nofun, fun _ hA ↦ absurd he (hA _ _ _)⟩

/-- The encoder writes its output below the directory, and to its end where it ends well. -/
theorem wp_runFfmpeg {src : Path} (h : Isolated job s.fs) (hp : InTmp job tmp)
    (hresult : ∀ source, s.fs.read? src = some source →
      result = levelResult job (ff.measure source) ∨ result = levelResult job none) :
    wp A (runFfmpeg job src tmp result) (Encoded A ff job src tmp s) (Aside job s) s := by
  have hrefl : Aside job s s := .refl h
  -- an output can be opened, unless it is a directory
  have blocked : ∀ {t : LevelWorld} {e : Errno} {a : Audio}, Aside job s t →
      t.fs.overwrite tmp a = .error e → s.fs.node? tmp = some .dir := by
    intro t e a ht herror
    apply ht.tree.dirs tmp hp
    unfold Fs.overwrite Fs.locate at herror
    cases hn : t.fs.node? tmp with
    | none => simp [hn] at herror
    | some n =>
      cases n with
      | file i => simp [hn] at herror
      | dir => rfl
      | symlink target => exact absurd rfl ((ht.tree.isolated tmp _ hp hn).1 target)
  unfold runFfmpeg
  rw [wp_bind]
  apply wp_look hrefl
  · cases hread : s.fs.read? src with
    | none => exact ⟨hrefl, by intros; contradiction, fun _ _ _ hsome ↦ absurd hread hsome⟩
    | some source =>
      dsimp only
      rw [wp_bind]
      apply wp_changeTree hrefl
      · intro fs' hfs
        obtain ⟨hstaged, -⟩ := staged_overwrite h hp hfs
        have ha : Aside job s { s with fs := fs' } := .of_staged hstaged
        dsimp only
        rw [wp_bind]
        apply wp_changeTree ha
        · intro fs'' hfs'
          obtain ⟨hstaged', hhas⟩ := staged_overwrite hstaged.isolated hp hfs'
          refine ⟨ha.trans (.of_staged hstaged'), ?_, by intros; contradiction⟩
          rintro _ ⟨⟩
          exact ⟨source, hread, hresult source hread, hhas⟩
        · exact fun e herror ↦ ⟨ha, by intros; contradiction, fun _ _ _ _ ↦ blocked ha herror⟩
        · exact fun e he ↦ .of_fail ha he
      · exact fun e herror ↦ ⟨hrefl, by intros; contradiction, fun _ _ _ _ ↦ blocked hrefl herror⟩
      · exact fun e he ↦ .of_fail hrefl he
  · exact fun e he ↦ .of_fail hrefl he

/-- `transcode_audio` gives a finished encode of its input, or fails. -/
theorem wp_transcodeAudio {src : Path} (h : Isolated job s.fs) (hp : InTmp job tmp) :
    wp A (transcodeAudio ff job src tmp) (Encoded A ff job src tmp s) (Aside job s) s := by
  have hrefl : Aside job s s := .refl h
  unfold transcodeAudio
  by_cases hcodec : hasCodec job.format = true
  · rw [if_pos hcodec, wp_bind]
    apply wp_look hrefl
    · apply wp_runFfmpeg h hp
      intro source hread
      rw [hread]
      exact .inl rfl
    · exact fun _ _ ↦ wp_runFfmpeg h hp fun _ _ ↦ .inr rfl
  · rw [if_neg hcodec]
    exact ⟨hrefl, nofun, fun _ _ hc ↦ absurd hc hcodec⟩

/-! ### The turn of a track -/

/-- The row of a track has a gain, unless its copy has another format or its source is missing. -/
def Settled (job : LevelJob) (s₀ : LevelWorld) (task : LevelTask) (s : LevelWorld) : Prop :=
  task.format = some job.format → s₀.fs.stat? task.src ≠ none →
    ∃ row, s.residency.get? task.sha = some row ∧ row.transcodeGainDb ≠ none

/-- Nothing of the tree stands in the way of a track: its source is a file if it is there, neither its
copy nor the path of the encode is a directory, the directory of the copy is there, and a rename
leads from the one path to the other. -/
structure Workable (job : LevelJob) (s₀ : LevelWorld) (task : LevelTask) : Prop where
  codec : hasCodec job.format = true
  original : s₀.fs.stat? task.src ≠ none → s₀.fs.read? task.src ≠ none
  copy : s₀.fs.node? task.dst ≠ some .dir
  dir : s₀.fs.HasDir task.dst
  encode : s₀.fs.node? (tempPathFor job.tmpDir task.sha task.dst) ≠ some .dir
  device : s₀.fs.device (tempPathFor job.tmpDir task.sha task.dst) = s₀.fs.device task.dst

/-- A turn changes the row of its track only, and leaves the track behind only where a call fails or
the tree is in the way. -/
structure TurnEnd (A : LevelWorld → LevelCall → Reply Errno → Prop) (ff : Ffmpeg) (job : LevelJob)
    (s₀ : LevelWorld) (task : LevelTask) (s s' : LevelWorld) : Prop where
  partway : Partway ff job s₀ s'
  others : ∀ sha, sha ≠ task.sha → s'.residency.get? sha = s.residency.get? sha
  smooth : Unfailing A → job.apply = true → (∀ task, Due job s₀ task → Workable job s₀ task) →
    s'.stats.errors = s.stats.errors ∧ Settled job s₀ task s'

/-- The path of an encode is below the directory. -/
theorem inTmp_tempPathFor (job : LevelJob) (sha : Sha) (dst : Path) :
    InTmp job (tempPathFor job.tmpDir sha dst) := isUnder_iff.mpr ⟨_, List.cons_ne_nil _ _, rfl⟩

/-- A directory outside, when the runs began, is one still: nothing is renamed over a directory. -/
theorem Partway.dir (h : Partway ff job s₀ s) (hwork : ∀ task, Due job s₀ task → Workable job s₀ task)
    (hp : ¬ InTmp job p) (hne : p ≠ job.tmpDir) (hdir : s₀.fs.node? p = some .dir) :
    s.fs.node? p = some .dir := by
  rcases h.files p hp hne with hsame | ⟨task, _, _, hdue, rfl, -⟩
  · exact hsame.1.trans hdir
  · exact absurd hdir (hwork task hdue).copy

/-- The directory of an entry outside is there throughout. -/
theorem Partway.hasDir (h : Partway ff job s₀ s)
    (hwork : ∀ task, Due job s₀ task → Workable job s₀ task) (hp : ¬ InTmp job p)
    (hdir : s₀.fs.HasDir p) : s.fs.HasDir p := by
  rcases hdir with hroot | hdir
  · exact .inl hroot
  · rcases List.eq_nil_or_concat p with rfl | ⟨d, name, rfl⟩
    · exact .inl rfl
    · rw [List.concat_eq_append, List.dropLast_concat] at hdir
      have hbelow : isUnder d (d ++ [name]) = true := isUnder_iff.mpr ⟨_, List.cons_ne_nil _ _, rfl⟩
      refine .inr ?_
      rw [List.concat_eq_append, List.dropLast_concat]
      refine h.dir hwork (fun hd ↦ hp ?_) ?_ hdir
      · obtain ⟨tail, htail, rfl⟩ := isUnder_iff.mp hd
        refine isUnder_iff.mpr ⟨tail ++ [name], by simp, ?_⟩
        rw [List.concat_eq_append, List.append_assoc]
      · rintro rfl
        exact hp (by rw [List.concat_eq_append]; exact hbelow)

/-- A turn that is given up has changed no row. -/
theorem TurnEnd.of_error (h : Partway ff job s₀ s') (hres : s'.residency = s.residency)
    (hno : Unfailing A → ¬ ∀ task, Due job s₀ task → Workable job s₀ task) :
    TurnEnd A ff job s₀ task s s' :=
  ⟨h, fun _ _ ↦ by rw [hres], fun hA _ hwork ↦ absurd hwork (hno hA)⟩

/-- Giving up removes the encode, and counts an error. -/
theorem wp_fail (hlib : LevelLibrary job s₀) (h : Partway ff job s₀ s) (hs : Aside job s s')
    (hp : InTmp job tmp) (hno : Unfailing A → ¬ ∀ task, Due job s₀ task → Workable job s₀ task) :
    wp A (do remove tmp; countError) (fun _ ↦ TurnEnd A ff job s₀ task s) (Partway ff job s₀) s' := by
  rw [wp_bind]
  apply wp_mono (wp_remove hs.tree.isolated hp)
  · intro _ s'' ha
    exact .of_error ((h.aside hlib (hs.trans ha)).stats _) (hs.trans ha).residency hno
  · exact fun _ ha ↦ h.aside hlib (hs.trans ha)

/-- A finished encode goes over the old copy. -/
theorem Partway.renamed (hlib : LevelLibrary job s₀) (h : Partway ff job s₀ s)
    (htask : task ∈ s.tasks) (hdue : Due job s₀ task) (hp : InTmp job tmp)
    (hread : s₀.fs.read? task.src = some source)
    (hgain : result = levelResult job (ff.measure source) ∨ result = levelResult job none)
    (hhas : s.fs.Has tmp (job.encode source result)) (hfs : s.fs.renameInto tmp task.dst = .ok fs') :
    Partway ff job s₀ { s with fs := fs' } ∧ Copied ff job s₀ fs' task source result := by
  obtain ⟨hout, hne⟩ := hlib.copy task hdue
  obtain ⟨hcopy, hiso, hdevice, hsame, hdirs⟩ := rename_staged h.isolated hp hout hhas hfs
  have hcopied : Copied ff job s₀ fs' task source result := ⟨hread, hgain, hcopy⟩
  refine ⟨⟨hiso, hdevice.trans h.device, fun q hq hdir ↦ h.dirs q hq (hdirs q hq hdir), ?_, h.tracks,
    fun q hq hqne ↦ ?_, fun sha ↦ ?_⟩, hcopied⟩
  · dsimp only
    rw [(hsame _ not_inTmp_tmpDir hne.symm).1]
    exact h.tmpDir
  · by_cases hdst : q = task.dst
    · exact .inr ⟨task, source, result, hdue, hdst.symm, hcopied⟩
    · rcases h.files q hq hqne with hsame' | ⟨task', source', result', hdue', rfl, hcopied'⟩
      · exact .inl (hsame'.trans (hsame q hq hdst))
      · exact .inr ⟨task', source', result', hdue', rfl, hcopied'.mono fun _ ↦ (hsame _ hq hdst).has⟩
  · by_cases hsha : sha = task.sha
    · exact .inl (hsha ▸ (h.due htask).2)
    · rcases h.rows sha with heq | ⟨task', row, source', result', hdue', rfl, hrow, hcopied', hrec⟩
      · exact .inl heq
      · have hdst : task'.dst ≠ task.dst :=
          fun heq ↦ hsha (congrArg LevelTask.sha (hlib.own task' task hdue' hdue heq))
        exact .inr ⟨task', row, source', result', hdue', rfl, hrow,
          hcopied'.mono fun _ ↦ (hsame _ (hlib.copy task' hdue').1 hdst).has, hrec⟩

/-- The row of a copy that is there is written. -/
theorem Partway.recorded (h : Partway ff job s₀ s) (hdue : Due job s₀ task)
    (hrow : s₀.residency.get? task.sha = some row)
    (hcopied : Copied ff job s₀ s.fs task source result) :
    Partway ff job s₀ { s with
      residency := s.residency.put task.sha
        (row.record (ff.size (job.encode source result)) result) } := by
  refine { h with rows := fun sha ↦ ?_ }
  dsimp only
  rw [Table.get?_put]
  split
  · next hsha => exact .inr ⟨task, row, source, result, hdue, hsha.symm, hsha ▸ hrow, hcopied, rfl⟩
  · exact h.rows sha

/-- The copy is replaced by `rename`, and then the row is written. -/
theorem wp_replaceCopy (hlib : LevelLibrary job s₀) (h : Partway ff job s₀ s) (hs : Aside job s s')
    (htask : task ∈ s.tasks) (hdue : Due job s₀ task)
    (hread : s₀.fs.read? task.src = some source)
    (hgain : result = levelResult job (ff.measure source) ∨ result = levelResult job none)
    (hhas : s'.fs.Has (tempPathFor job.tmpDir task.sha task.dst) (job.encode source result)) :
    wp A (replaceCopy ff (tempPathFor job.tmpDir task.sha task.dst) task result)
      (fun _ ↦ TurnEnd A ff job s₀ task s) (Partway ff job s₀) s' := by
  have hp := inTmp_tempPathFor job task.sha task.dst
  have hpart : Partway ff job s₀ s' := h.aside hlib hs
  obtain ⟨i, hnode, hdata⟩ := hhas
  unfold replaceCopy
  rw [wp_bind]
  apply wp_look hpart
  · rw [Fs.read?_file hnode, hdata]
    dsimp only [Option.map_some]
    rw [wp_bind]
    apply wp_changeTree hpart
    · intro fs' hfs
      have htask' : task ∈ s'.tasks := by
        obtain ⟨row, hrow, hof⟩ := mem_tasks.mp htask
        refine mem_tasks.mpr ⟨row, hs.residency ▸ hrow, ?_⟩
        unfold LevelWorld.taskOf at hof ⊢
        rw [hs.tracks]
        exact hof
      obtain ⟨hrenamed, hcopied⟩ :=
        hpart.renamed hlib htask' hdue hp hread hgain ⟨i, hnode, hdata⟩ hfs
      obtain ⟨row, hrow, -⟩ := mem_tasks.mp hdue.mem
      have hcur : s'.residency.get? task.sha = some row := (hpart.due htask').2.trans hrow
      dsimp only
      rw [wp_bind]
      refine (wp_ask _ _).mpr ⟨fun _ ↦ hrenamed, fun _ ↦ ?_, fun e he ↦ ?_⟩
      · have herrors : s'.stats.errors = s.stats.errors := by rw [hs.stats]
        dsimp only
        rw [hcur]
        dsimp only
        rw [if_pos rfl]
        refine ⟨(hrenamed.recorded hdue hrow hcopied).stats _, fun sha hsha ↦ ?_, fun _ _ _ ↦ ?_⟩
        · exact (Table.get?_put_ne _ _ hsha).trans (by rw [hs.residency])
        · exact ⟨herrors, fun _ _ ↦ ⟨_, Table.get?_put_self _ _ _, Option.some_ne_none _⟩⟩
      · rw [if_neg Bool.false_ne_true]
        exact .of_error (hrenamed.stats _) hs.residency fun hA ↦ absurd he (hA _ _ _)
    · intro e herror
      apply wp_fail hlib h hs hp
      intro _ hwork
      have hdst : s'.fs.node? task.dst ≠ some .dir := by
        obtain ⟨hout, hne⟩ := hlib.copy task hdue
        rcases hpart.files _ hout hne with hsame | ⟨_, _, _, -, hdst, -, -, j, hj, -⟩
        · rw [hsame.1]
          exact (hwork task hdue).copy
        · rw [← hdst, hj]
          exact nofun
      have hdevice := (hwork task hdue).device
      rw [← hpart.device] at hdevice
      obtain ⟨fs', hfs⟩ := (Fs.rename_ok_iff hnode nofun).mpr ⟨hdst, hdevice⟩
      have hdir := hpart.hasDir hwork (hlib.copy task hdue).1 (hwork task hdue).dir
      rw [Fs.renameInto_of_hasDir hdir, hfs] at herror
      cases herror
    · exact fun e he ↦ wp_fail hlib h hs hp fun hA ↦ absurd he (hA _ _ _)
  · exact fun e he ↦ wp_fail hlib h hs hp fun hA ↦ absurd he (hA _ _ _)

/-- The turn of one track. -/
theorem wp_levelOne (hlib : LevelLibrary job s₀) (h : Partway ff job s₀ s) (htask : task ∈ s.tasks) :
    wp A (levelOne ff job task) (fun _ ↦ TurnEnd A ff job s₀ task s) (Partway ff job s₀) s := by
  have hmem := (h.due htask).1
  have hcount : ∀ c : LevelStats, (Unfailing A → job.apply = true →
      c.errors = s.stats.errors ∧ Settled job s₀ task s) →
      TurnEnd A ff job s₀ task s { s with stats := c } := fun c hset ↦
    ⟨h.stats c, fun _ _ ↦ rfl, fun hA happly _ ↦ hset hA happly⟩
  have hpart : Partway ff job s₀ { s with stats.planned := s.stats.planned + 1 } := h.stats _
  unfold levelOne
  rw [wp_bind]
  show wp A (if task.format ≠ some job.format then _ else _) _ _ _
  by_cases hformat : task.format = some job.format
  · rw [if_neg (not_not.mpr hformat), wp_bind]
    have hdue : Due job s₀ task := ⟨hmem, hformat⟩
    obtain ⟨hread, hstat⟩ := h.original hlib hdue
    apply wp_look hpart
    · dsimp only
      rw [hstat]
      cases hst : s₀.fs.stat? task.src with
      | none => exact hcount _ fun _ _ ↦ ⟨rfl, fun _ hsome ↦ absurd hst hsome⟩
      | some n =>
        dsimp only
        by_cases happly : job.apply = true
        · rw [if_pos happly, wp_bind]
          apply wp_look hpart
          · dsimp only
            rw [wp_bind]
            have hp := inTmp_tempPathFor job task.sha task.dst
            apply wp_mono (@wp_transcodeAudio ff job _ _ A _ hpart.isolated hp)
            · intro r s' hr
              have counted : ∀ t, TurnEnd A ff job s₀ task
                  { s with stats.planned := s.stats.planned + 1 } t → TurnEnd A ff job s₀ task s t :=
                fun t ht ↦ ⟨ht.partway, ht.others, ht.smooth⟩
              have hsome : s₀.fs.stat? task.src ≠ none := by
                rw [hst]
                exact nofun
              cases r with
              | none =>
                apply wp_mono (wp_fail hlib hpart hr.aside hp _) (fun _ ↦ counted) fun _ ht ↦ ht
                intro hA hwork
                apply (hwork task hdue).encode
                apply h.dirs _ hp
                apply hr.failed rfl hA (hwork task hdue).codec
                exact hread ▸ (hwork task hdue).original hsome
              | some result =>
                obtain ⟨source, hsource, hgain, hhas⟩ := hr.done result rfl
                exact wp_mono (wp_replaceCopy hlib hpart hr.aside htask hdue (hread ▸ hsource) hgain
                  hhas) (fun _ ↦ counted) fun _ ht ↦ ht
            · exact fun s' ha ↦ hpart.aside hlib ha
          · intro e he
            exact hcount _ fun hA ↦ absurd he (hA _ _ _)
        · rw [if_neg happly]
          exact hcount _ fun _ ha ↦ absurd ha happly
    · intro e he
      exact hcount _ fun hA ↦ absurd he (hA _ _ _)
  · rw [if_pos hformat]
    exact hcount _ fun _ _ ↦ ⟨rfl, fun hf ↦ absurd hf hformat⟩

/-! ### Runs -/

/-- A leftover is an entry of the directory itself. -/
theorem mem_leftovers {dir : Path} (hp : p ∈ leftovers fs dir) : ∃ name, p = dir ++ [name] := by
  obtain ⟨name, -, rfl⟩ := List.mem_map.mp hp
  exact ⟨name, rfl⟩

/-- The directory can be made, or is there. -/
structure Usable (job : LevelJob) (fs : AudioTree) : Prop where
  root : fs.HasDir job.tmpDir
  tmpDir : fs.node? job.tmpDir = none ∨ fs.node? job.tmpDir = some .dir

/-- The sweep works below the directory. -/
theorem wp_sweepTmpDir (hs : Aside job s s') :
    wp A (sweepTmpDir job.tmpDir)
      (fun ok t ↦ Aside job s t ∧
        (Unfailing A → s'.fs.node? job.tmpDir = some .dir → ok = true))
      (Aside job s) s' := by
  unfold sweepTmpDir
  rw [wp_bind]
  apply wp_look hs
  · split
    · next paths hsome =>
      obtain ⟨-, heq⟩ := Option.ite_none_right_eq_some.mp hsome
      cases heq
      rw [wp_bind]
      apply wp_mono (wp_each (I := Aside job s) _ hs)
      · exact fun _ t ht ↦ ⟨ht, fun _ _ ↦ rfl⟩
      · exact fun t ht ↦ ht
      · intro path hpath t ht
        obtain ⟨name, rfl⟩ := mem_leftovers hpath
        have hp : InTmp job (job.tmpDir ++ [name]) := isUnder_iff.mpr ⟨_, List.cons_ne_nil _ _, rfl⟩
        exact wp_mono (wp_remove ht.tree.isolated hp) (fun _ _ ha ↦ ht.trans ha)
          fun _ ha ↦ ht.trans ha
    · next hnone =>
      refine ⟨hs, fun _ hdir ↦ ?_⟩
      rw [if_pos (Fs.stat?_of_node hdir nofun)] at hnone
      cases hnone
  · exact fun e he ↦ ⟨hs, fun hA ↦ absurd he (hA _ _ _)⟩

/-- Preparing the directory makes it, or empties it. -/
theorem wp_prepareTmpDir (h : Isolated job s.fs) :
    wp A (prepareTmpDir job.tmpDir)
      (fun ok s' ↦ Aside job s s' ∧ (Unfailing A → Usable job s.fs → ok = true))
      (Aside job s) s := by
  unfold prepareTmpDir
  rw [wp_bind]
  apply wp_changeTree (.refl h)
  · intro fs' hfs
    obtain ⟨hstaged, hdir⟩ := staged_mkdir h hfs
    rw [if_pos (.inl rfl)]
    apply wp_mono (wp_sweepTmpDir (.of_staged hstaged)) _ fun _ ha ↦ ha
    exact fun ok t ⟨ha, hok⟩ ↦ ⟨ha, fun hA _ ↦ hok hA hdir⟩
  · intro e herror
    split
    · apply wp_mono (wp_sweepTmpDir (.refl h)) _ fun _ ha ↦ ha
      intro ok t ⟨ha, hok⟩
      refine ⟨ha, fun hA husable ↦ hok hA (husable.tmpDir.resolve_left fun hnone ↦ ?_)⟩
      rw [Fs.mkdirIn_of_hasDir husable.root] at herror
      unfold Fs.mkdir at herror
      rw [hnone] at herror
      cases herror
    · next hne =>
      refine ⟨.refl h, fun _ husable ↦ absurd (.inr ?_) hne⟩
      rw [Fs.mkdirIn_of_hasDir husable.root] at herror
      unfold Fs.mkdir at herror
      split at herror
      · cases herror
      · cases herror
        rfl
  · intro e he
    split
    · apply wp_mono (wp_sweepTmpDir (.refl h)) _ fun _ ha ↦ ha
      exact fun ok t ⟨ha, _⟩ ↦ ⟨ha, fun hA ↦ absurd he (hA _ _ _)⟩
    · exact ⟨.refl h, fun hA ↦ absurd he (hA _ _ _)⟩

/-- Where the list has come to. -/
structure Awaiting (A : LevelWorld → LevelCall → Reply Errno → Prop) (ff : Ffmpeg) (job : LevelJob)
    (s₀ s : LevelWorld) (rest : List LevelTask) (s' : LevelWorld) : Prop where
  partway : Partway ff job s₀ s'
  nodup : (rest.map LevelTask.sha).Nodup
  mem : ∀ task ∈ rest, task ∈ s'.tasks
  others : ∀ sha, sha ∉ s.tasks.map LevelTask.sha → s'.residency.get? sha = s.residency.get? sha
  smooth : Unfailing A → job.apply = true → (∀ task, Due job s₀ task → Workable job s₀ task) →
    s'.stats.errors = s.stats.errors ∧ ∀ task ∈ s.tasks, task ∈ rest ∨ Settled job s₀ task s'

/-- A turn behind which the others still wait. -/
theorem Awaiting.step {rest : List LevelTask} (h : Awaiting A ff job s₀ s (task :: rest) s')
    (htask : task ∈ s.tasks) (ht : TurnEnd A ff job s₀ task s' s'') :
    Awaiting A ff job s₀ s rest s'' := by
  have hnodup := List.nodup_cons.mp h.nodup
  refine ⟨ht.partway, hnodup.2, fun t hmem ↦ ?_, fun sha hsha ↦ ?_, fun hA happly hwork ↦ ?_⟩
  · have hne : t.sha ≠ task.sha := fun heq ↦ hnodup.1 (heq ▸ List.mem_map_of_mem hmem)
    obtain ⟨row, hrow, hof⟩ := mem_tasks.mp (h.mem t (.tail _ hmem))
    refine mem_tasks.mpr ⟨row, (ht.others _ hne).trans hrow, ?_⟩
    unfold LevelWorld.taskOf at hof ⊢
    rw [ht.partway.tracks, ← h.partway.tracks]
    exact hof
  · rw [ht.others sha fun heq ↦ hsha (heq ▸ List.mem_map_of_mem htask), h.others sha hsha]
  · obtain ⟨herrors, hsettled⟩ := h.smooth hA happly hwork
    obtain ⟨herrors', hsettled'⟩ := ht.smooth hA happly hwork
    refine ⟨herrors'.trans herrors, fun t hmem ↦ ?_⟩
    by_cases hsha : t.sha = task.sha
    · have heq : t = task := List.inj_on_of_nodup_map (nodup_tasks s) hmem htask hsha
      exact .inr (heq ▸ hsettled')
    · rcases hsettled t hmem with hin | hdone
      · rcases List.mem_cons.mp hin with rfl | hin
        · exact absurd rfl hsha
        · exact .inl hin
      · refine .inr fun hformat hsome ↦ ?_
        rw [ht.others _ hsha]
        exact hdone hformat hsome

/-- The turns one after another. -/
theorem wp_levelAll (hlib : LevelLibrary job s₀) (h : Partway ff job s₀ s) :
    wp A (levelAll ff job) (fun _ s' ↦ Partway ff job s₀ s' ∧ (Unfailing A →
        Awaiting A ff job s₀ s [] s')) (Partway ff job s₀) s := by
  unfold levelAll
  rw [wp_bind]
  apply wp_look h
  · have hloop : wp A (Proc.each (levelOne ff job) s.tasks)
        (fun _ s' ↦ Awaiting A ff job s₀ s [] s' ∧ ∀ task ∈ ([] : List LevelTask), task ∈ s.tasks)
        (Partway ff job s₀) s := by
      apply wp_each_rest (I := fun rest s' ↦ Awaiting A ff job s₀ s rest s' ∧
        ∀ task ∈ rest, task ∈ s.tasks)
      · intro task rest s' ⟨hw, hmem⟩
        apply wp_mono (wp_levelOne hlib hw.partway (hw.mem task (.head _))) _ fun _ ht ↦ ht
        exact fun _ s'' ht ↦ ⟨hw.step (hmem task (.head _)) ht, fun t hin ↦ hmem t (.tail _ hin)⟩
      · exact ⟨⟨h, nodup_tasks s, fun _ hin ↦ hin, fun _ _ ↦ rfl,
          fun _ _ _ ↦ ⟨rfl, fun _ hin ↦ .inl hin⟩⟩, fun _ hin ↦ hin⟩
    exact wp_mono hloop (fun _ s' hw ↦ ⟨hw.1.partway, fun _ ↦ hw.1⟩) fun _ ht ↦ ht
  · exact fun e he ↦ ⟨h.stats _, fun hA ↦ absurd he (hA _ _ _)⟩

/-- What a run comes to: it reports no error and leaves no track behind where no call fails and
nothing stands in the way. -/
def RunEnd (A : LevelWorld → LevelCall → Reply Errno → Prop) (ff : Ffmpeg) (job : LevelJob)
    (s₀ : LevelWorld) (rc : Nat) (s' : LevelWorld) : Prop :=
  Partway ff job s₀ s' ∧ (Unfailing A → job.apply = true → Usable job s₀.fs →
    (∀ task, Due job s₀ task → Workable job s₀ task) →
      rc = 0 ∧ ∀ task ∈ s₀.tasks, Settled job s₀ task s')

/-- The turns, and the exit status. -/
theorem wp_levelExit (hlib : LevelLibrary job s₀) (h : Partway ff job s₀ s)
    (hstats : s.stats = {}) : wp A (levelExit ff job) (RunEnd A ff job s₀) (Partway ff job s₀) s := by
  unfold levelExit
  rw [wp_bind]
  apply wp_mono (wp_levelAll hlib h) _ fun _ hp ↦ hp
  intro _ s' ⟨hp, hcalm⟩
  refine ⟨hp, fun hA happly _ hwork ↦ ?_⟩
  have hw := hcalm hA
  obtain ⟨herrors, hsettled⟩ := hw.smooth hA happly hwork
  rw [hstats] at herrors
  refine ⟨if_neg (by rw [herrors]; exact Nat.lt_irrefl 0), fun task htask ↦ ?_⟩
  by_cases hnow : task ∈ s.tasks
  · exact (hsettled task hnow).resolve_left nofun
  · intro _ _
    -- an earlier run has levelled it, and this one does not touch its row
    obtain ⟨row, hrow, hof⟩ := mem_tasks.mp htask
    have hsha : task.sha ∉ s.tasks.map LevelTask.sha := by
      intro hin
      obtain ⟨task', htask', heq⟩ := List.mem_map.mp hin
      have heq' : task' = task :=
        List.inj_on_of_nodup_map (nodup_tasks s₀) (h.due htask').1 htask heq
      exact hnow (heq' ▸ htask')
    have hkept := hw.others _ hsha
    rcases h.rows task.sha with hsame | ⟨_, old, _, _, -, -, -, -, hrec⟩
    · refine absurd (mem_tasks.mpr ⟨row, hsame.trans hrow, ?_⟩) hnow
      unfold LevelWorld.taskOf at hof ⊢
      rw [h.tracks]
      exact hof
    · exact ⟨_, hkept.trans hrec, Option.some_ne_none _⟩

/-- A whole run, from any point that a run may have left. -/
theorem wp_transcodeLevel (hlib : LevelLibrary job s₀) (h : Partway ff job s₀ s)
    (hstats : s.stats = {}) :
    wp A (transcodeLevel ff job) (RunEnd A ff job s₀) (Partway ff job s₀) s := by
  unfold transcodeLevel
  by_cases happly : job.apply = true
  · rw [if_pos happly, wp_bind]
    apply wp_mono (wp_prepareTmpDir h.isolated) _ fun _ ha ↦ h.aside hlib ha
    intro ok t ⟨ha, hok⟩
    have ht : Partway ff job s₀ t := h.aside hlib ha
    cases ok with
    | true => exact wp_levelExit hlib ht (ha.stats.trans hstats)
    | false =>
      refine ⟨ht, fun hA _ husable hwork ↦ absurd (hok hA ⟨?_, ?_⟩) Bool.false_ne_true⟩
      · exact h.hasDir hwork not_inTmp_tmpDir husable.root
      · rcases h.tmpDir with heq | hdir
        · rw [heq]
          exact husable.tmpDir
        · exact .inr hdir
  · rw [if_neg happly]
    exact wp_levelExit hlib h hstats

end Calls

/-! ### Histories -/

/-- One run goes on, wherever it is cut short. -/
theorem partway_levelled (hlib : LevelLibrary job s₀) (h : Partway ff job s₀ s)
    (answers : List (Reply Errno)) : Partway ff job s₀ (levelled ff job s answers) := by
  have hrun := run_of_wp (wp_transcodeLevel (A := fun _ _ _ ↦ True) hlib (h.stats {}) rfl)
    (obeys_of_forall (fun _ _ _ ↦ trivial) _ _ answers)
  unfold levelled
  obtain ⟨rc, t, rest, heq, hend⟩ | ⟨t, heq, ht⟩ := hrun
  · rw [heq]
    exact hend.1
  · rw [heq]
    exact ht

/-- Runs one after another, each cut short anywhere, are on the way from one start. -/
theorem partway_after (hlib : LevelLibrary job s₀) (runs : List (List (Reply Errno)))
    (h : Partway ff job s₀ s) : Partway ff job s₀ (after (levelled ff job) s runs) := by
  induction runs generalizing s with
  | nil => exact h
  | cons answers runs ih => exact ih (partway_levelled hlib h answers)

/-- Whatever the calls of any number of runs were answered, and wherever these died: a file outside
the directory is as it was, or it is the copy of a track that was due and is a finished encode of
its source; and a row is as it was, or its track was due, and the gain and the size in it are those
of the copy that is there. -/
theorem level_safe (hlib : LevelLibrary job s₀) (runs : List (List (Reply Errno))) :
    Partway ff job s₀ (after (levelled ff job) s₀ runs) :=
  partway_after hlib runs (.start hlib)

/-- The original of a track. -/
def oneSource : Path := [ascii "lib", ascii "archive", ascii "a.flac"]

/-- Its copy. -/
def oneCopy : Path := [ascii "lib", ascii "resident", ascii "a.opus"]

/-- The directories of the two. -/
def oneDirs : AudioTree :=
  (((Fs.empty fun _ ↦ .plain []).place [ascii "lib"] .dir nofun).place
    [ascii "lib", ascii "archive"] .dir nofun).place [ascii "lib", ascii "resident"] .dir nofun

/-- A library with one copy that has no gain. -/
def oneLibrary : LevelWorld where
  fs := (oneDirs.addFile oneSource (.plain [7])).addFile oneCopy (.plain [8])
  tracks := Table.empty.put (ascii "5f") oneSource
  residency := Table.empty.put (ascii "5f") {
    location := .resident
    updatedAt := ascii "2026-01-01T00:00:00Z"
    transcodePath := some oneCopy
    transcodeSizeBytes := some 1
    transcodeFormat := some (ascii "opus")
    transcodeGainDb := none
    transcodeLufs := none }
  stats := {}

/-- `transcode-level --apply` at −16 LUFS. -/
def oneJob : LevelJob := ⟨[ascii "lib"], ascii "opus", 128, -16, true⟩

/-- Everything is at −9 LUFS and peaks at −1 dBTP. -/
def oneFfmpeg : Ffmpeg := ⟨fun _ ↦ some (.fin (-9), .fin (-1)), fun _ ↦ 3⟩

theorem oneLibrary_due {task : LevelTask} (h : Due oneJob oneLibrary task) :
    task = ⟨ascii "5f", oneSource, oneCopy, some (ascii "opus")⟩ := by
  have htasks : oneLibrary.tasks = [⟨ascii "5f", oneSource, oneCopy, some (ascii "opus")⟩] := by
    decide +kernel
  exact List.mem_singleton.mp (htasks ▸ h.mem)

/-- The entries of the library. -/
theorem oneLibrary_node {p : Path} {n : Node Name} (h : oneLibrary.fs.node? p = some n) :
    n = .dir ∨ p = oneCopy ∧ n = .file 1 ∨ p = oneSource ∧ n = .file 0 := by
  have hrows : oneLibrary.fs.nodes.rows = [(oneCopy, .file 1), (oneSource, .file 0),
      ([ascii "lib", ascii "resident"], .dir), ([ascii "lib", ascii "archive"], .dir),
      ([ascii "lib"], .dir)] := by
    decide +kernel
  have hmem := Table.mem_rows.mpr h
  rw [hrows] at hmem
  simp only [List.mem_cons, Prod.mk.injEq, List.not_mem_nil, or_false] at hmem
  rcases hmem with hcopy | hsource | ⟨-, hdir⟩ | ⟨-, hdir⟩ | ⟨-, hdir⟩
  · exact .inr (.inl hcopy)
  · exact .inr (.inr hsource)
  · exact .inl hdir
  · exact .inl hdir
  · exact .inl hdir

theorem oneLibrary_straight (p : Path) : oneLibrary.fs.Straight p := by
  intro d target _ _ hlink
  rcases oneLibrary_node hlink with h | ⟨-, h⟩ | ⟨-, h⟩
  · cases h
  · cases h
  · cases h

theorem oneLibrary_ok : LevelLibrary oneJob oneLibrary where
  isolated p n hp hn := by
    rcases oneLibrary_node hn with rfl | ⟨rfl, -⟩ | ⟨rfl, -⟩
    · exact ⟨nofun, nofun⟩
    · exact absurd hp (by unfold InTmp; decide +kernel)
    · exact absurd hp (by unfold InTmp; decide +kernel)
  straight _ _ := ⟨oneLibrary_straight _, oneLibrary_straight _, oneLibrary_straight _⟩
  original task h := by
    rw [oneLibrary_due h]
    refine ⟨by unfold InTmp; decide +kernel, by decide +kernel, fun target htarget ↦ ?_⟩
    have hnode : oneLibrary.fs.node? oneSource = some (.file 0) := by decide +kernel
    rw [hnode] at htarget
    cases htarget
  copy task h := by
    rw [oneLibrary_due h]
    exact ⟨by unfold InTmp; decide +kernel, by decide +kernel⟩
  apart task task' h h' := by
    rw [oneLibrary_due h, oneLibrary_due h']
    decide +kernel
  own task task' h h' _ := by rw [oneLibrary_due h, oneLibrary_due h']

/-- A run dies in the encoder, and the next one before it can write the row. -/
theorem level_safe_killed :
    Partway oneFfmpeg oneJob oneLibrary (after (levelled oneFfmpeg oneJob) oneLibrary
      [List.replicate 8 .ok ++ [.die], List.replicate 12 .ok ++ [.die]]) :=
  level_safe oneLibrary_ok _

end Nocturne.Level
