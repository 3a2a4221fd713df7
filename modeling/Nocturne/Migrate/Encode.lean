import Nocturne.Migrate.Stages

/-!
# One track's turn in a migration to transcodes

Where calls do not fail, a pending track is taken to the end, and a track whose transcode is there
is left as it is. The lemmas follow the steps of `migrate_one`, with what a process that is killed
at each of them leaves.
-/

namespace Nocturne

open Lib Proc

variable {A : World TranscodeMigrateStats → Call → Reply Fault → Prop} {root : Path} {ext : Text}
  {T : ResidentTrack → Prop} {t : ResidentTrack} {job : TranscodeMigrateJob}
  {w w' w'' : World TranscodeMigrateStats}

/-- The process may be killed, and no call fails. -/
def Unfailing (A : World TranscodeMigrateStats → Call → Reply Fault → Prop) : Prop :=
  ∀ w call fault, ¬ A w call (.fail fault)

/-- The turn of a resident track, between two points of a run. -/
def ResidentTurned (root : Path) (ext : Text) (t : ResidentTrack) :
    World TranscodeMigrateStats → World TranscodeMigrateStats → Prop :=
  Turned (t.Own root ext) (t.Above root ext) t.sha

/-- A point at which the process may be killed during a turn. -/
def MidStage (root : Path) (ext : Text) (t : ResidentTrack) (w w' : World TranscodeMigrateStats) :
    Prop :=
  ResidentTurned root ext t w w' ∧ EncodeStage root ext w'.stop t

/-- A stage behind what was done before in the turn. -/
theorem MidStage.after (h : ResidentTurned root ext t w w') (h' : MidStage root ext t w' w'') :
    MidStage root ext t w w'' :=
  ⟨h.trans h'.1, h'.2⟩

/-! ### Calls -/

section Calls

variable {path dir : Path}

/-- Making directories above a path, where no call fails. -/
theorem wp_mkdirAll (hA : Unfailing A) {dirs : List Path} (hdirs : ∀ dir ∈ dirs, DirOf path dir) :
    wp A (mkdirAll dirs) (fun ok w' ↦ ok = true ∧ MadeDirs path w w') (MadeDirs path w) w := by
  induction dirs generalizing w with
  | nil => exact ⟨rfl, .refl path w⟩
  | cons dir dirs ih =>
    have hrest : ∀ w : World TranscodeMigrateStats, wp A (mkdirAll dirs)
        (fun ok w' ↦ ok = true ∧ MadeDirs path w w') (MadeDirs path w) w :=
      fun w ↦ ih fun d hd ↦ hdirs d (.tail _ hd)
    unfold mkdirAll
    rw [wp_bind]
    refine (wp_ask _ _).mpr ⟨fun _ ↦ .refl path w, fun _ ↦ ?_, fun e he ↦ absurd he (hA _ _ _)⟩
    dsimp only
    cases hmk : w.fs.mkdir dir with
    | ok fs' =>
      have hmade : MadeDirs path w { w with fs := fs' } := .mkdir (hdirs dir (.head _)) hmk
      apply wp_mono (hrest _)
      · exact fun _ _ h ↦ ⟨h.1, hmade.trans h.2⟩
      · exact fun _ h ↦ hmade.trans h
    | error e =>
      unfold Fs.mkdir at hmk
      split at hmk
      · cases hmk
      · cases hmk
        exact hrest w

/-- Making the parents of a path, where no call fails. -/
theorem wp_mkparentsOf (hA : Unfailing A) : wp A (mkparentsOf path)
    (fun ok w' ↦ ok = true ∧ MadeDirs path w w') (MadeDirs path w) w := by
  apply wp_mkdirAll hA
  intro dir hdir
  exact (List.mem_inits _ _).mp (List.mem_of_mem_tail hdir)

/-- What `statReg` finds. -/
def regSize (fs : Tree) (path : Path) : Option Int :=
  if fs.isReg path then (Migrate.statSize fs path).toOption else none

/-- `stat` of a path, where no call fails. -/
theorem wp_statReg (hA : Unfailing A) {Q : Option Int → World TranscodeMigrateStats → Prop}
    {C : World TranscodeMigrateStats → Prop} (hC : C w) (hQ : Q (regSize w.fs path) w) :
    wp A (statReg path) Q C w := by
  unfold statReg
  rw [wp_bind]
  refine (wp_ask _ _).mpr ⟨fun _ ↦ hC, fun _ ↦ ?_, fun e he ↦ absurd he (hA _ _ _)⟩
  unfold regSize at hQ
  dsimp only
  split
  · next hreg =>
    rw [if_pos hreg] at hQ
    exact hQ
  · next hreg =>
    rw [if_neg hreg] at hQ
    exact hQ

/-- The size of a file. -/
theorem statSize_file {fs : Tree} {i : Nat} (h : fs.node? path = some (.file i)) :
    Migrate.statSize fs path = .ok (fs.data i).sizeBytes := by
  unfold Migrate.statSize
  rw [Fs.read?_file h]

/-- A file is regular and has a size. -/
theorem regSize_file {fs : Tree} {i : Nat} (h : fs.node? path = some (.file i)) :
    regSize fs path = some (fs.data i).sizeBytes := by
  unfold regSize
  rw [if_pos (Fs.isReg_file h), statSize_file h]
  rfl

/-- Nothing is no regular file. -/
theorem regSize_none {fs : Tree} (h : fs.node? path = none) : regSize fs path = none := by
  apply if_neg
  intro hreg
  exact Fs.node?_of_isReg hreg h

/-- The encoder has opened its output. -/
def openedOutput (fs : Tree) (now : Int) (d : FileData) (dst : Path) : Tree :=
  fs.addFile dst ⟨.cut (.encode d.content) 0, now, 0⟩

/-- The encoder has written its output. -/
def writtenOutput (fs : Tree) (now : Int) (d : FileData) (dst : Path) : Tree :=
  (openedOutput fs now d dst).write fs.next ⟨.encode d.content, now, d.sizeBytes⟩

/-- The output of the encoder is a new file. -/
theorem node?_openedOutput {fs : Tree} {now : Int} {d : FileData} {dst p : Path} :
    (openedOutput fs now d dst).node? p = if p = dst then some (.file fs.next) else fs.node? p :=
  Fs.node?_addFile

/-- The encoder opens its output, then writes it. -/
theorem wp_transcodeAudio {cfg : TranscodeCfg} {now : Int} {src dst : Path} {d : FileData}
    {C : World TranscodeMigrateStats → Prop} {Q : Bool → World TranscodeMigrateStats → Prop}
    (hA : Unfailing A) (hcodec : codecForFormat cfg ≠ none) (hsrc : w.fs.read? src = some d)
    (hdst : w.fs.node? dst = none) (hC : C w)
    (hopen : C { w with fs := openedOutput w.fs now d dst })
    (hQ : Q true { w with fs := writtenOutput w.fs now d dst }) :
    wp A (Migrate.transcodeAudio cfg now src dst) Q C w := by
  obtain ⟨codec, hcodec⟩ := Option.ne_none_iff_exists'.mp hcodec
  have hread : Migrate.readFile w.fs src = .ok d := by
    unfold Migrate.readFile
    rw [hsrc]
  have hnew : w.fs.overwrite dst ⟨.cut (.encode d.content) 0, now, 0⟩ =
      .ok (openedOutput w.fs now d dst) := by
    unfold Fs.overwrite Fs.locate
    simp only [hdst]
    rfl
  have hnode : (openedOutput w.fs now d dst).node? dst = some (.file w.fs.next) := by
    rw [node?_openedOutput, if_pos rfl]
  have hfull : (openedOutput w.fs now d dst).overwrite dst
      ⟨.encode d.content, now, d.sizeBytes⟩ = .ok (writtenOutput w.fs now d dst) := by
    unfold Fs.overwrite Fs.locate
    simp only [hnode]
    rfl
  unfold Migrate.transcodeAudio transcodeWith
  rw [hcodec]
  dsimp only
  rw [wp_bind]
  refine (wp_ask _ _).mpr ⟨fun _ ↦ hC, fun _ ↦ ?_, fun e he ↦ absurd he (hA _ _ _)⟩
  dsimp only
  rw [hread]
  dsimp only
  rw [wp_bind]
  refine (wp_ask _ _).mpr ⟨fun _ ↦ hC, fun _ ↦ ?_, fun e he ↦ absurd he (hA _ _ _)⟩
  dsimp only
  rw [hnew]
  dsimp only
  rw [wp_bind]
  refine (wp_ask _ _).mpr ⟨fun _ ↦ hopen, fun _ ↦ ?_, fun e he ↦ absurd he (hA _ _ _)⟩
  dsimp only
  rw [hfull]
  exact hQ

end Calls

/-! ### Steps -/

/-- The original is in the archive too. -/
structure Twinned (root : Path) (t : ResidentTrack) (i : Nat)
    (w : World TranscodeMigrateStats) : Prop where
  idle : w.conn.txn = none
  row : w.stop.rowPath t.sha = some (t.cur root)
  source : w.fs.node? (t.cur root) = some (.file i)
  content : (w.fs.data i).content = t.content
  twin : Holds w.fs (t.archive root) t.content

/-- Between link and update the track is at a stage. -/
theorem Twinned.stage {i : Nat} (h : Twinned root t i w)
    (hfree : w.fs.node? (t.transcode root ext) = none) : EncodeStage root ext w.stop t :=
  .pending i h.row h.source h.content (Or.inr h.twin) (Or.inl hfree)

/-- The original is in the archive too, and the transcode is there. -/
structure Coded (root : Path) (ext : Text) (t : ResidentTrack) (i j : Nat)
    (w : World TranscodeMigrateStats) : Prop extends Twinned root t i w where
  output : w.fs.node? (t.transcode root ext) = some (.file j)
  encoded : (w.fs.data j).content = .encode t.content

/-- With its transcode whole and its row to be written, the track is at a stage. -/
theorem Coded.stage {i j : Nat} (h : Coded root ext t i j w) : EncodeStage root ext w.stop t :=
  .encoding i j h.row h.source h.content h.twin h.output

/-- The residency row of a track that is there is written. -/
theorem upsert_recorded {own above : Path → Prop} {sha : Sha} {m : Machine} {cur : Path}
    (hrow : m.rowPath sha = some cur) (iso : Text) (path : Path) (size : Int)
    (format : Option Text) : ∃ db, m.db.upsertResidencyTranscode sha iso path size format = some db ∧
      db.transcodePath sha = some path ∧ Turn own above sha m ⟨m.fs, db⟩ ∧
      ∀ s, (⟨m.fs, db⟩ : Machine).rowPath s = m.rowPath s := by
  have hsome : (m.db.tracks.get? sha).isSome := by
    unfold Machine.rowPath at hrow
    obtain ⟨row, hget, -⟩ := Option.map_eq_some_iff.mp hrow
    rw [hget]
    rfl
  refine ⟨_, if_pos (Or.inr hsome), ?_, ⟨fun _ _ ↦ Or.inl rfl, fun _ _ ↦ rfl, Nat.le_refl _, rfl,
    fun _ _ ↦ rfl, fun s hs ↦ Table.get?_put_ne _ _ hs⟩, fun _ ↦ rfl⟩
  unfold Db.transcodePath Db.putResidency
  rw [Table.get?_put_self]
  rfl

/-- What `stat` finds at the path of the transcode, where it is open. -/
theorem OutputOpen.cases (h : OutputOpen root ext w.fs t) :
    w.fs.node? (t.transcode root ext) = none ∧ regSize w.fs (t.transcode root ext) = none ∨
      w.fs.node? (t.archive root) = none ∧ ∃ j, w.fs.node? (t.transcode root ext) = some (.file j) ∧
        (w.fs.data j).content = .encode t.content ∧
        regSize w.fs (t.transcode root ext) = some (w.fs.data j).sizeBytes := by
  rcases h with hnone | ⟨htwin, j, hj, hc⟩
  · exact Or.inl ⟨hnone, regSize_none hnone⟩
  · exact Or.inr ⟨htwin, j, hj, hc, regSize_file hj⟩

section Steps

variable (hA : Unfailing A) (hT : ResidentApart root ext T) (ht : T t)
include hA hT ht

/-- Step 1: a track without a second name gets one. -/
theorem wp_linkTwin {i : Nat} (hidle : w.conn.txn = none)
    (hdevice : w.fs.device (t.cur root) = w.fs.device (t.archive root))
    (hrow : w.stop.rowPath t.sha = some (t.cur root))
    (hsource : w.fs.node? (t.cur root) = some (.file i))
    (hcontent : (w.fs.data i).content = t.content)
    (htwin : w.fs.node? (t.archive root) = none) (hout : OutputOpen root ext w.fs t) :
    wp A (linkTwin (t.cur root) (t.archive root))
      (fun ok w' ↦ ok = true ∧ ResidentTurned root ext t w w' ∧ Twinned root t i w' ∧
        w'.fs.node? (t.transcode root ext) = w.fs.node? (t.transcode root ext))
      (MidStage root ext t w) w := by
  have hstage : EncodeStage root ext w.stop t :=
    .pending i hrow hsource hcontent (Or.inl ⟨htwin, hdevice⟩) hout
  have habove : ∀ q, DirOf (t.archive root) q → t.Above root ext q := fun _ hq ↦ Or.inl hq
  have turned : ∀ {w'}, MadeDirs (t.archive root) w w' → ResidentTurned root ext t w w' :=
    fun h ↦ .of_dirs h habove hidle
  have mid : ∀ w', MadeDirs (t.archive root) w w' → MidStage root ext t w w' := fun w' h ↦
    ⟨turned h, hstage.kept (turned h).turn (fun _ hp ↦ hT.own_of_dirs ht habove h hp)
      (rowPath_of_conn h.beside.conn t.sha)⟩
  unfold linkTwin
  rw [wp_bind]
  apply wp_mono (wp_mkparentsOf hA) _ mid
  intro ok w' hw'
  obtain ⟨rfl, hmade⟩ := hw'
  have own := fun p (hp : t.Own root ext p) ↦ hT.own_of_dirs ht habove hmade hp
  have hsource' : w'.fs.node? (t.cur root) = some (.file i) := by rw [own _ (Or.inl rfl), hsource]
  have htwin' : w'.fs.node? (t.archive root) = none := by rw [own _ (Or.inr (Or.inl rfl)), htwin]
  have hdevice' : w'.fs.device (t.cur root) = w'.fs.device (t.archive root) := by
    rw [hmade.beside.tree.device, hdevice]
  obtain ⟨fs', hlink⟩ := Fs.link_free hsource' (by simp) htwin' hdevice'
  obtain ⟨n, hn, -, -, -, hnode, hdata, -⟩ := Fs.link_ok hlink
  rw [hsource'] at hn
  cases hn
  have hb : Beside (Adds (· = t.archive root)) w' { w' with fs := fs' } :=
    ⟨Fs.Within.link hlink ⟨rfl, rfl⟩, rfl⟩
  unfold Migrate.doLink
  rw [if_pos rfl, wp_bind]
  refine (wp_ask _ _).mpr ⟨fun _ ↦ mid w' hmade, fun _ ↦ ?_, fun e he ↦ absurd he (hA _ _ _)⟩
  dsimp only
  rw [hlink]
  have hidle' : w'.conn.txn = none := (turned hmade).idle
  have hcontent' : (w'.fs.data i).content = t.content := by
    rw [hmade.beside.tree.data i (w.fs.fresh hsource), hcontent]
  refine ⟨rfl, (turned hmade).trans (.of_beside hb (fun _ _ hp ↦ Or.inr (Or.inl hp.2)) hidle'),
    ⟨hidle', (rowPath_of_conn hmade.beside.conn t.sha).trans hrow, ?_, ?_, i, ?_, ?_⟩, ?_⟩
  · exact (hnode _).trans ((if_neg (cur_ne_archive t)).trans hsource')
  · show (fs'.data i).content = _
    rw [hdata, hcontent']
  · exact (hnode _).trans (if_pos rfl)
  · show (fs'.data i).content = _
    rw [hdata, hcontent']
  · refine (hnode _).trans ((if_neg (hT.ne_archive ht (hT.isLike_transcode ht))).trans ?_)
    exact own _ (Or.inr (Or.inr rfl))

/-- Step 2: the transcode. -/
theorem wp_encodeResident {i : Nat} (hcodec : codecForFormat job.cfg ≠ none)
    (h : Twinned root t i w) (hnone : w.fs.node? (t.transcode root ext) = none) :
    wp A (encodeResident job (t.cur root) (t.transcode root ext))
      (fun size w' ↦ size.isSome = true ∧ ResidentTurned root ext t w w' ∧
        ∃ j, Coded root ext t i j w') (MidStage root ext t w) w := by
  have habove : ∀ q, DirOf (t.transcode root ext) q → t.Above root ext q := fun _ hq ↦ Or.inr hq
  have turned : ∀ {w'}, MadeDirs (t.transcode root ext) w w' → ResidentTurned root ext t w w' :=
    fun hm ↦ .of_dirs hm habove h.idle
  have mid : ∀ w', MadeDirs (t.transcode root ext) w w' → MidStage root ext t w w' := fun w' hm ↦
    ⟨turned hm, (h.stage hnone).kept (turned hm).turn (fun _ hp ↦ hT.own_of_dirs ht habove hm hp)
      (rowPath_of_conn hm.beside.conn t.sha)⟩
  unfold encodeResident
  rw [wp_bind]
  apply wp_mono (wp_mkparentsOf hA) _ mid
  intro ok w' hw'
  obtain ⟨rfl, hmade⟩ := hw'
  have own := fun p (hp : t.Own root ext p) ↦ hT.own_of_dirs ht habove hmade hp
  have hsource : w'.fs.node? (t.cur root) = some (.file i) := by
    rw [own _ (Or.inl rfl), h.source]
  obtain ⟨k, htwin, hkc⟩ : Holds w'.fs (t.archive root) t.content :=
    (turned hmade).turn.holds (own _ (Or.inr (Or.inl rfl))) h.twin
  have hfree : w'.fs.node? (t.transcode root ext) = none := by
    rw [own _ (Or.inr (Or.inr rfl)), hnone]
  have hcontent : (w'.fs.data i).content = t.content := by
    rw [hmade.beside.tree.data i (w.fs.fresh h.source), h.content]
  have hrow : w'.stop.rowPath t.sha = some (t.cur root) :=
    (rowPath_of_conn hmade.beside.conn t.sha).trans h.row
  have hidle : w'.conn.txn = none := (turned hmade).idle
  have hold : i < w'.fs.next := w'.fs.fresh hsource
  -- the output is a new file
  have node : ∀ p, (openedOutput w'.fs job.now (w'.fs.data i) (t.transcode root ext)).node? p =
      if p = t.transcode root ext then some (.file w'.fs.next) else w'.fs.node? p :=
    fun _ ↦ node?_openedOutput
  have hcur := (node _).trans ((if_neg fun he ↦ hT.own ht ht he.symm).trans hsource)
  have harchive := (node _).trans
    ((if_neg fun he ↦ hT.ne_archive ht (hT.isLike_transcode ht) he.symm).trans htwin)
  have hout := (node _).trans (if_pos rfl)
  have opened : Fs.Within (fun p _ ↦ p = t.transcode root ext) w'.fs
      (openedOutput w'.fs job.now (w'.fs.data i) (t.transcode root ext)) := .addFile rfl
  have written : Fs.Within (fun p _ ↦ p = t.transcode root ext) w'.fs
      (writtenOutput w'.fs job.now (w'.fs.data i) (t.transcode root ext)) :=
    opened.write (Nat.le_refl _)
  have turned' : ∀ {fs'}, Fs.Within (fun p _ ↦ p = t.transcode root ext) w'.fs fs' →
      ResidentTurned root ext t w { w' with fs := fs' } := fun hw ↦
    (turned hmade).trans (.of_beside ⟨hw, rfl⟩ (fun _ _ hp ↦ Or.inr (Or.inr hp)) hidle)
  have hcoded : Coded root ext t i w'.fs.next { w' with
      fs := writtenOutput w'.fs job.now (w'.fs.data i) (t.transcode root ext) } := by
    refine ⟨⟨hidle, hrow, hcur, ?_, k, harchive, ?_⟩, hout, ?_⟩
    · dsimp only
      rw [written.data i hold, hcontent]
    · dsimp only
      rw [written.data k (w'.fs.fresh htwin), hkc]
    · unfold writtenOutput
      rw [Fs.data_write, Function.update_self, hcontent]
  rw [if_pos rfl, wp_bind]
  apply wp_transcodeAudio hA hcodec (Fs.read?_file hsource) hfree (mid w' hmade)
  · refine ⟨turned' opened, .encoding i w'.fs.next hrow hcur ?_ ⟨k, harchive, ?_⟩ hout⟩
    · show ((openedOutput w'.fs job.now (w'.fs.data i) (t.transcode root ext)).data i).content = _
      rw [opened.data i hold, hcontent]
    · show ((openedOutput w'.fs job.now (w'.fs.data i) (t.transcode root ext)).data k).content = _
      rw [opened.data k (w'.fs.fresh htwin), hkc]
  · rw [if_pos rfl, wp_bind]
    refine (wp_ask _ _).mpr ⟨fun _ ↦ ⟨turned' written, hcoded.stage⟩, fun _ ↦ ?_,
      fun e he ↦ absurd he (hA _ _ _)⟩
    dsimp only
    rw [statSize_file hcoded.output]
    exact ⟨rfl, turned' written, _, hcoded⟩

/-- Steps 3 to 5: the old name goes, and the rows follow. -/
theorem wp_finishTranscode {i j : Nat} {size : Int} (h : Coded root ext t i j w)
    (hfits : ¬ w.stop.Claimed t.sha (t.archive root)) :
    wp A (finishTranscode job t.sha (t.cur root) (t.archive root) (t.transcode root ext) size)
      (fun _ w' ↦ MidStage root ext t w w' ∧ Transcoded root ext w'.stop t)
      (MidStage root ext t w) w := by
  have hcleared : Fs.Within (fun p _ ↦ p = t.cur root) w.fs (w.fs.clear (t.cur root)) := .clear rfl
  have hturned : ResidentTurned root ext t w { w with fs := w.fs.clear (t.cur root) } :=
    .of_beside ⟨hcleared, rfl⟩ (fun _ _ hp ↦ Or.inl hp) h.idle
  have hcur : (w.fs.clear (t.cur root)).node? (t.cur root) = none :=
    Fs.node?_clear.trans (if_pos rfl)
  have horiginal : Holds (w.fs.clear (t.cur root)) (t.archive root) t.content := by
    obtain ⟨k, hk, hkc⟩ := h.twin
    exact ⟨k, Fs.node?_clear.trans ((if_neg fun he ↦ cur_ne_archive t he.symm).trans hk), hkc⟩
  have hnode : (w.fs.clear (t.cur root)).node? (t.transcode root ext) = some (.file j) :=
    Fs.node?_clear.trans ((if_neg (hT.own ht ht)).trans h.output)
  have houtput : Holds (w.fs.clear (t.cur root)) (t.transcode root ext) (.encode t.content) :=
    ⟨j, hnode, h.encoded⟩
  have hstage : EncodeStage root ext (World.stop { w with fs := w.fs.clear (t.cur root) }) t :=
    .dropped j h.row hcur horiginal hnode
  unfold finishTranscode
  rw [wp_bind]
  refine (wp_ask _ _).mpr ⟨fun _ ↦ ⟨.refl h.idle, h.stage⟩, fun _ ↦ ?_,
    fun e he ↦ absurd he (hA _ _ _)⟩
  dsimp only
  rw [Fs.unlink_file h.source (by simp)]
  unfold recordTranscode
  dsimp only
  rw [wp_bind]
  apply wp_trackRepoUpdatePath (w := { w with fs := w.fs.clear (t.cur root) }) h.idle h.row
    ⟨hturned, hstage⟩
  · exact fun e he ↦ absurd he (hA _ _ _)
  · exact fun hclaimed ↦ absurd hclaimed hfits
  · intro db _ hpath hresidency hturn
    have hturned' : ResidentTurned root ext t w
        { w with fs := w.fs.clear (t.cur root), conn := ⟨db, none⟩ } :=
      hturned.trans ⟨hturn _ _, rfl⟩
    have harchived : EncodeStage root ext ⟨w.fs.clear (t.cur root), db⟩ t :=
      .archived hpath hcur horiginal houtput
    rw [if_pos rfl, wp_bind]
    unfold upsertResidencyWithTranscode
    rw [wp_bind]
    refine (wp_ask _ _).mpr ⟨fun _ ↦ ⟨hturned', harchived⟩, fun _ ↦ ?_,
      fun e he ↦ absurd he (hA _ _ _)⟩
    obtain ⟨db', hup, hresidency', hturn', hpaths⟩ := @upsert_recorded (t.Own root ext)
      (t.Above root ext) _ _ _ hpath job.iso (t.transcode root ext) size job.cfg.format
    have hrow' : (⟨w.fs.clear (t.cur root), db'⟩ : Machine).rowPath t.sha =
        some (t.archive root) := by
      rw [hpaths, hpath]
    dsimp only [Conn.view]
    rw [hup]
    exact ⟨⟨hturned'.trans ⟨hturn', rfl⟩, .archived hrow' hcur horiginal houtput⟩, hrow',
      hresidency', horiginal, houtput⟩

/-- Steps 1 to 5 from a pending track. -/
theorem wp_applyTranscode {i : Nat} (hidle : w.conn.txn = none)
    (hfits : ¬ w.stop.Claimed t.sha (t.archive root)) (hcodec : codecForFormat job.cfg ≠ none)
    (hrow : w.stop.rowPath t.sha = some (t.cur root))
    (hsource : w.fs.node? (t.cur root) = some (.file i))
    (hcontent : (w.fs.data i).content = t.content)
    (harchive : ArchiveOpen root w.fs t) (hout : OutputOpen root ext w.fs t) :
    wp A (applyTranscode job t.sha (t.cur root) (t.archive root) (t.transcode root ext)
        (regSize w.fs (t.archive root)) (regSize w.fs (t.transcode root ext)))
      (fun _ w' ↦ MidStage root ext t w w' ∧ Transcoded root ext w'.stop t)
      (MidStage root ext t w) w := by
  have fits : ∀ {w₁}, ResidentTurned root ext t w w₁ →
      ¬ w₁.stop.Claimed t.sha (t.archive root) := by
    rintro w₁ hturned ⟨s, hs, hclaim⟩
    rw [hturned.turn.rowPath hs] at hclaim
    exact hfits ⟨s, hs, hclaim⟩
  -- with both files there, the old name goes and the rows follow
  have finish : ∀ w₁, ResidentTurned root ext t w w₁ → ∀ j, Coded root ext t i j w₁ → ∀ size,
      wp A (finishTranscode job t.sha (t.cur root) (t.archive root) (t.transcode root ext) size)
        (fun _ w' ↦ MidStage root ext t w w' ∧ Transcoded root ext w'.stop t)
        (MidStage root ext t w) w₁ := by
    intro w₁ hturned j hcoded size
    apply wp_mono (wp_finishTranscode hA hT ht hcoded (fits hturned))
    · exact fun _ _ h ↦ ⟨h.1.after hturned, h.2⟩
    · exact fun _ h ↦ h.after hturned
  -- without a transcode, the encoder runs before that
  have encode : ∀ w₁, ResidentTurned root ext t w w₁ → Twinned root t i w₁ →
      w₁.fs.node? (t.transcode root ext) = none → ∀ behind,
      (∀ size, behind (some size) =
        finishTranscode job t.sha (t.cur root) (t.archive root) (t.transcode root ext) size) →
      wp A (encodeResident job (t.cur root) (t.transcode root ext) >>= behind)
        (fun _ w' ↦ MidStage root ext t w w' ∧ Transcoded root ext w'.stop t)
        (MidStage root ext t w) w₁ := by
    intro w₁ hturned htwinned hnone behind hbehind
    rw [wp_bind]
    apply wp_mono (wp_encodeResident hA hT ht hcodec htwinned hnone) _ fun _ h ↦ h.after hturned
    intro size w₂ hw₂
    obtain ⟨hsize, hturned', j, hcoded⟩ := hw₂
    obtain ⟨size, rfl⟩ := Option.isSome_iff_exists.mp hsize
    rw [hbehind]
    exact finish w₂ (hturned.trans hturned') j hcoded size
  unfold applyTranscode
  by_cases htwin : w.fs.node? (t.archive root) = none
  · have hdevice : w.fs.device (t.cur root) = w.fs.device (t.archive root) := by
      rcases harchive with hopen | ⟨k, hk, -⟩
      · exact hopen.2
      · rw [htwin] at hk
        cases hk
    rw [regSize_none htwin, Option.isSome_none, if_neg Bool.false_ne_true, wp_bind]
    apply wp_mono (wp_linkTwin hA hT ht hidle hdevice hrow hsource hcontent htwin hout) _
      fun _ h ↦ h
    intro ok w₁ hw₁
    obtain ⟨rfl, hturned, htwinned, hsame⟩ := hw₁
    dsimp only
    rw [if_pos rfl]
    rcases hout.cases with ⟨hnone, hsize⟩ | ⟨-, j, hj, hc, hsize⟩
    · rw [hsize]
      exact encode w₁ hturned htwinned (hsame.trans hnone) _ fun _ ↦ rfl
    · rw [hsize, wp_bind]
      refine finish w₁ hturned j ⟨htwinned, hsame.trans hj, ?_⟩ _
      exact (hturned.turn.content hj).trans hc
  · obtain ⟨k, hk, hkc⟩ : Holds w.fs (t.archive root) t.content :=
      harchive.resolve_left fun h ↦ htwin h.1
    have hnone : w.fs.node? (t.transcode root ext) = none :=
      hout.resolve_right fun h ↦ htwin h.1
    rw [regSize_file hk, Option.isSome_some, if_pos rfl, regSize_none hnone]
    exact encode w (.refl hidle) ⟨hidle, hrow, hsource, hcontent, k, hk, hkc⟩ hnone _ fun _ ↦ rfl

/-- What a turn comes to, for a track whose row names its old path. -/
structure TurnEnd (root : Path) (ext : Text) (t : ResidentTrack) (w w' : World TranscodeMigrateStats) :
    Prop where
  mid : MidStage root ext t w w'
  done : OutputOpen root ext w.fs t → Transcoded root ext w'.stop t
  left : ¬ Resumable root ext w.stop t → w'.stop = w.stop

/-- The turn of a resident track. -/
theorem wp_transcodeMigrateOne (hidle : w.conn.txn = none)
    (hstage : EncodeStage root ext w.stop t)
    (hfits : ¬ w.stop.Claimed t.sha (t.archive root)) (hext : transcodeDstExt job.cfg = some ext)
    (hcodec : codecForFormat job.cfg ≠ none) (happly : job.apply = true)
    (hrow : w.stop.rowPath t.sha = some (t.cur root)) :
    wp A (transcodeMigrateOne job (t.sha, t.cur root)) (fun _ ↦ TurnEnd root ext t w)
      (MidStage root ext t w) w := by
  have here : MidStage root ext t w w := ⟨.refl hidle, hstage⟩
  have hswap : swapSegmentSimple residentSeg archiveSeg (t.cur root) = some (t.archive root) :=
    swapSegmentSimple_under (notMem_of_isLikeResident (hT.plain ht)) (hT.rest ht)
  -- both files are there: the turn is over
  have already : ∀ {j}, Holds w.fs (t.archive root) t.content →
      w.fs.node? (t.transcode root ext) = some (.file j) →
      wp A (transcodeMigrateOne job (t.sha, t.cur root)) (fun _ ↦ TurnEnd root ext t w)
        (MidStage root ext t w) w := by
    rintro j ⟨i, hi, -⟩ hj
    unfold transcodeMigrateOne
    dsimp only
    rw [hswap, hext]
    dsimp only
    rw [wp_bind]
    apply wp_statReg hA here
    rw [wp_bind]
    apply wp_statReg hA here
    have hj' : w.fs.node? (pathWithExt (t.cur root) ext) = some (.file j) := hj
    rw [regSize_file hi, regSize_file hj', Option.isSome_some, Option.isSome_some, Bool.and_true,
      if_pos rfl]
    refine ⟨⟨⟨here.1.turn, hidle⟩, hstage⟩, fun hout ↦ ?_, fun _ ↦ rfl⟩
    rcases hout with hnone | ⟨hnone, -⟩
    · rw [hj] at hnone
      cases hnone
    · rw [hi] at hnone
      cases hnone
  cases hstage with
  | pending i _ source content archive output =>
    have hnot : ((regSize w.fs (t.archive root)).isSome &&
        (regSize w.fs (t.transcode root ext)).isSome) = false := by
      rcases output.cases with ⟨-, hsize⟩ | ⟨htwin, -⟩
      · rw [hsize, Option.isSome_none, Bool.and_false]
      · rw [regSize_none htwin, Option.isSome_none, Bool.false_and]
    unfold transcodeMigrateOne
    dsimp only
    rw [hswap, hext]
    dsimp only
    rw [wp_bind]
    apply wp_statReg hA here
    rw [wp_bind]
    apply wp_statReg hA here
    have hnot' : ((regSize w.fs (t.archive root)).isSome &&
        (regSize w.fs (pathWithExt (t.cur root) ext)).isSome) = false := hnot
    rw [hnot', if_neg Bool.false_ne_true, wp_bind, wp_tally, if_pos happly]
    let w₁ : World TranscodeMigrateStats :=
      { w with out := { w.out with planned := w.out.planned + 1 } }
    apply wp_mono (wp_applyTranscode (w := w₁) hA hT ht hidle hfits hcodec hrow source content
      archive output)
    · refine fun _ w' hw' ↦ ⟨⟨⟨hw'.1.1.turn, hw'.1.1.idle⟩, hw'.1.2⟩, fun _ ↦ hw'.2, fun hne ↦ ?_⟩
      refine absurd (Or.inr ⟨hrow, ?_, output⟩) hne
      show w.fs.node? (t.cur root) ≠ none
      have hsource : w.fs.node? (t.cur root) = some (.file i) := source
      rw [hsource]
      exact Option.some_ne_none _
    · exact fun w' hw' ↦ ⟨⟨hw'.1.turn, hw'.1.idle⟩, hw'.2⟩
  | encoding i j _ source content twin output => exact already twin output
  | dropped j _ source original output => exact already original output
  | archived row _ _ _ =>
    rw [hrow] at row
    exact absurd (Option.some.inj row) (cur_ne_archive t)

end Steps

end Nocturne
