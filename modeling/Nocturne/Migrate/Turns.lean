import Nocturne.Migrate.Standing

/-!
# One track's turn in a migration

Where no call on the tree fails, the fate of a track is decided by how it stands. The lemmas
follow the calls of `migrateOne`, with what a process that dies at each of them leaves.
-/

namespace Nocturne

open Lib Proc

variable {ω : Type} {A : World MigrateStats → Call → Reply Fault → Prop} {root : Path}
  {T : FlatTrack → Prop} {t : FlatTrack} {job : MigrateJob} {w w' w'' : World MigrateStats}

/-- The turn of a flat track, between two points of a run. -/
def FlatTurned (root : Path) (t : FlatTrack) : World MigrateStats → World MigrateStats → Prop :=
  Turned (t.Own root) (DirOf (t.goal root)) t.sha

/-- The file is at its new path, and the row is as it was. -/
structure AtGoal (root : Path) (t : FlatTrack) (w w' : World MigrateStats) : Prop where
  turned : FlatTurned root t w w'
  conn : w'.conn = w.conn
  source : w'.fs.node? t.cur = none
  target : Holds w'.fs (t.goal root) t.content
  errors : w'.out.errors = w.out.errors

theorem AtGoal.standing (h : AtGoal root t w w') (hrow : w.stop.rowPath t.sha = some t.cur) :
    Standing root w'.stop t :=
  .stale ((rowPath_of_conn h.conn t.sha).trans hrow) h.source h.target

/-- The old name of a file goes. -/
theorem wp_dropSource {C : World MigrateStats → Prop} {cur : Path} {i : Nat} (hA : FilesCalm A)
    (hcur : w.fs.node? cur = some (.file i)) (hC : C w) :
    wp A (dropSource cur) (fun _ w' ↦ w'.fs = w.fs.clear cur ∧ w'.conn = w.conn ∧
      w'.out.errors = w.out.errors) C w := by
  unfold dropSource
  rw [wp_bind]
  refine (wp_ask _ _).mpr ⟨fun _ ↦ hC, fun _ ↦ ?_, fun e he ↦ (by cases hA.sql he)⟩
  dsimp only
  rw [Fs.unlink_file hcur (by simp)]
  exact ⟨rfl, rfl, rfl⟩

/-- Nothing has happened to the track. -/
structure Refused (w w' : World MigrateStats) : Prop where
  fs : w'.fs = w.fs
  conn : w'.conn = w.conn

/-- What bringing the file to its place comes to: it is there exactly when it was free. -/
def PlaceResult (root : Path) (t : FlatTrack) (w : World MigrateStats) (ok : Bool)
    (w' : World MigrateStats) : Prop :=
  if ok then Free root w.fs t ∧ AtGoal root t w w' else ¬ Free root w.fs t ∧ Refused w w'

/-- A point at which the process may die during a turn. -/
def MidTurn (root : Path) (t : FlatTrack) (w w' : World MigrateStats) : Prop :=
  FlatTurned root t w w' ∧ Standing root w'.stop t

theorem MidTurn.after (h : FlatTurned root t w w') (h' : MidTurn root t w' w'') :
    MidTurn root t w w'' :=
  ⟨h.trans h'.1, h'.2⟩

section Place

variable (hA : FilesCalm A) (hne : t.goal root ≠ t.cur) (hidle : w.conn.txn = none)
include hA hne hidle

/-- Both names are there: the old one goes. -/
theorem wp_dropSource_linked {i : Nat} (hrow : w.stop.rowPath t.sha = some t.cur)
    (hcur : w.fs.node? t.cur = some (.file i)) (hgoal : w.fs.node? (t.goal root) = some (.file i))
    (hcontent : (w.fs.data i).content = t.content) :
    wp A (dropSource t.cur) (fun _ w' ↦ AtGoal root t w w') (MidTurn root t w) w := by
  apply wp_mono (wp_dropSource hA hcur (C := MidTurn root t w) _) _ fun _ h ↦ h
  · exact ⟨.refl hidle, .linked i hrow hcur hgoal hcontent⟩
  · intro _ w' hw'
    obtain ⟨hfs, hconn, herrors⟩ := hw'
    have hwithin : Fs.Within (fun p _ ↦ p = t.cur) w.fs w'.fs := by
      rw [hfs]
      exact .clear rfl
    refine ⟨.of_beside ⟨hwithin, hconn⟩ (fun _ _ hp ↦ Or.inl hp) hidle, hconn, ?_, ?_, herrors⟩
    · rw [hfs, Fs.node?_clear, if_pos rfl]
    · refine ⟨i, ?_, ?_⟩
      · rw [hfs, Fs.node?_clear, if_neg hne, hgoal]
      · rw [hfs, Fs.data_clear, hcontent]

/-- The file is copied to another device: a copy that is not seen to its end stays there, beside
its source. -/
theorem wp_copyAndUnlink_free {i : Nat} (hrow : w.stop.rowPath t.sha = some t.cur)
    (hcur : w.fs.node? t.cur = some (.file i)) (hgoal : w.fs.node? (t.goal root) = none)
    (hcontent : (w.fs.data i).content = t.content) :
    wp A (Migrate.copyAndUnlink job.now t.cur (t.goal root))
      (fun ok w' ↦ ok = true ∧ AtGoal root t w w') (MidTurn root t w) w := by
  have turned : ∀ {w' : World MigrateStats}, Beside (Adds (· = t.goal root)) w w' →
      FlatTurned root t w w' := fun h ↦ .of_beside h (fun _ _ hp ↦ Or.inr hp.2) hidle
  have source : ∀ {w' : World MigrateStats}, Beside (Adds (· = t.goal root)) w w' →
      w'.fs.node? t.cur = some (.file i) ∧ w'.fs.data i = w.fs.data i := by
    intro w' h
    apply h.tree.file hcur
    rintro ⟨hnone, -⟩
    cases hnone
  have idle : MidTurn root t w w :=
    ⟨.refl hidle, .pending hrow ⟨i, hcur, hcontent⟩ hgoal⟩
  have mid : ∀ {w' : World MigrateStats}, Copying w (t.goal root) w.fs.next w' →
      MidTurn root t w w' := by
    intro w' h
    obtain ⟨hcur', hdata⟩ := source h.beside
    have hrow' := (rowPath_of_conn h.beside.conn t.sha).trans hrow
    refine ⟨turned h.beside, .torn i (.file w.fs.next) hrow' hcur' ?_ h.node ?_ ?_⟩
    · rw [← hcontent, ← hdata]
      rfl
    · intro he
      have hlt := w.fs.fresh hcur
      cases he
      omega
    · intro link he
      cases he
  have hread : Migrate.readFile w.fs t.cur = .ok (w.fs.data i) := by
    unfold Migrate.readFile
    rw [Fs.read?_file hcur]
  unfold Migrate.copyAndUnlink
  rw [wp_bind]
  refine (wp_ask _ _).mpr ⟨fun _ ↦ idle, fun _ ↦ ?_, fun e he ↦ (by cases hA.sql he)⟩
  dsimp only
  rw [hread]
  dsimp only
  rw [wp_bind, wp_gets, wp_bind]
  refine (wp_ask _ _).mpr ⟨fun _ ↦ idle, fun _ ↦ ?_, fun e he ↦ (by cases hA.sql he)⟩
  dsimp only
  rw [Fs.createExcl_free hgoal]
  dsimp only
  rw [wp_bind]
  apply wp_mono (wp_fillCopy (Copying.start hgoal) (congrArg FileData.content
    Fs.data_addFile_self)) _ fun _ h ↦ mid h
  rintro ok w' ⟨hcopy, hdone, hok⟩
  cases hok hA
  obtain ⟨hcur', -⟩ := source hcopy.beside
  rw [if_pos rfl, wp_bind]
  refine (wp_ask _ _).mpr ⟨fun _ ↦ mid hcopy, fun _ ↦ ?_, fun e he ↦ (by cases hA.sql he)⟩
  dsimp only
  rw [Fs.unlink_file hcur' (by simp)]
  have hclear : Beside (fun p _ ↦ p = t.cur) w' { w' with fs := w'.fs.clear t.cur } :=
    ⟨.clear rfl, rfl⟩
  have hidle' : w'.conn.txn = none := (turned hcopy.beside).idle
  refine ⟨rfl, (turned hcopy.beside).trans (.of_beside hclear (fun _ _ hp ↦ Or.inl hp) hidle'),
    hcopy.beside.conn, ?_, ?_, ?_⟩
  · exact Fs.node?_clear.trans (if_pos rfl)
  · refine ⟨w.fs.next, (Fs.node?_clear.trans (if_neg hne)).trans hcopy.node, ?_⟩
    exact (hdone rfl).trans hcontent
  · exact congrArg MigrateStats.errors hcopy.out

/-- A link to a free path of the same device is made. -/
theorem placed_of_link {i : Nat} {fs' : Tree} (hlink : w.fs.link t.cur (t.goal root) = .ok fs')
    (hrow : w.stop.rowPath t.sha = some t.cur) (hcur : w.fs.node? t.cur = some (.file i))
    (hcontent : (w.fs.data i).content = t.content) :
    wp A (dropSource t.cur) (fun _ w' ↦ AtGoal root t w w') (MidTurn root t w)
      { w with fs := fs' } := by
  have hb : Beside (Adds (· = t.goal root)) w { w with fs := fs' } :=
    ⟨Fs.Within.link hlink ⟨rfl, rfl⟩, rfl⟩
  have hturned : FlatTurned root t w { w with fs := fs' } :=
    .of_beside hb (fun _ _ hp ↦ Or.inr hp.2) hidle
  obtain ⟨n, hn, -, -, -, hnode, hdata, -⟩ := Fs.link_ok hlink
  rw [hcur] at hn
  cases hn
  have hcur' : fs'.node? t.cur = some (.file i) := by
    rw [hnode, if_neg fun he ↦ hne he.symm, hcur]
  have hgoal' : fs'.node? (t.goal root) = some (.file i) := by
    rw [hnode, if_pos rfl]
  apply wp_mono (wp_dropSource_linked (w := { w with fs := fs' }) hA hne hidle hrow hcur' hgoal' _)
  · intro _ w' h
    exact ⟨hturned.trans h.turned, h.conn, h.source, h.target, h.errors⟩
  · exact fun _ h ↦ h.after hturned
  · rw [hdata]
    exact hcontent

/-- Bringing a track to its place, by how it stands. -/
theorem wp_placeInArchive (hrow : w.stop.rowPath t.sha = some t.cur)
    (hs : Standing root w.stop t) : wp A (placeInArchive job t.cur (t.goal root))
      (PlaceResult root t w) (MidTurn root t w) w := by
  have here : MidTurn root t w w := ⟨.refl hidle, hs⟩
  have done : ∀ {w'}, Free root w.fs t → AtGoal root t w w' → PlaceResult root t w true w' :=
    fun hf hp ↦ ⟨hf, hp⟩
  have refused : ¬ Free root w.fs t → wp A (do countMigrateError; return false)
      (PlaceResult root t w) (MidTurn root t w) w := fun hf ↦ ⟨hf, rfl, rfl⟩
  have gone : w.fs.node? t.cur = none → wp A (placeInArchive job t.cur (t.goal root))
      (PlaceResult root t w) (MidTurn root t w) w := by
    intro hnone
    unfold placeInArchive Migrate.doLink
    rw [wp_bind]
    refine (wp_ask _ _).mpr ⟨fun _ ↦ here, fun _ ↦ ?_, fun e he ↦ (by cases hA.sql he)⟩
    dsimp only
    rw [Fs.link_missing hnone]
    apply refused
    intro hf
    obtain ⟨i, hi, -⟩ := hf
    rw [hnone] at hi
    cases hi
  have taken : ∀ {i : Nat} {n : Node Name}, w.fs.node? t.cur = some (.file i) →
      w.fs.node? (t.goal root) = some n →
      w.fs.link t.cur (t.goal root) = .error .EEXIST := by
    intro i n hi hn
    apply Fs.link_exists
    · rw [hi]
      exact Option.some_ne_none _
    · rw [hn]
      exact Option.some_ne_none _
  cases hs with
  | pending row source free =>
    obtain ⟨i, hi, hc⟩ := source
    have hcur : w.fs.node? t.cur = some (.file i) := hi
    have hnone : w.fs.node? (t.goal root) = none := free
    have hsome : w.fs.node? t.cur ≠ none := by
      rw [hcur]
      exact Option.some_ne_none _
    have hfree : Free root w.fs t := ⟨i, hcur, Or.inl hnone⟩
    unfold placeInArchive Migrate.doLink
    rw [wp_bind]
    refine (wp_ask _ _).mpr ⟨fun _ ↦ here, fun _ ↦ ?_, fun e he ↦ (by cases hA.sql he)⟩
    dsimp only
    by_cases hdev : w.fs.device t.cur = w.fs.device (t.goal root)
    · obtain ⟨fs', hlink⟩ := Fs.link_free hcur (by simp) hnone hdev
      rw [hlink]
      dsimp only
      rw [wp_bind]
      apply wp_mono (placed_of_link hA hne hidle hlink hrow hi hc) _ fun _ h ↦ h
      exact fun _ _ h ↦ done hfree h
    · rw [Fs.link_cross hsome hnone hdev]
      dsimp only
      rw [wp_bind]
      apply wp_mono (wp_copyAndUnlink_free hA hne hidle hrow hi free hc) _ fun _ h ↦ h
      intro ok w' hw'
      obtain ⟨rfl, hp⟩ := hw'
      rw [if_pos rfl]
      exact done hfree ⟨⟨hp.turned.turn, hp.turned.idle⟩, hp.conn, hp.source, hp.target, hp.errors⟩
  | linked i row source target content =>
    have hcur : w.fs.node? t.cur = some (.file i) := source
    have hgoal : w.fs.node? (t.goal root) = some (.file i) := target
    unfold placeInArchive Migrate.doLink
    rw [wp_bind]
    refine (wp_ask _ _).mpr ⟨fun _ ↦ here, fun _ ↦ ?_, fun e he ↦ (by cases hA.sql he)⟩
    dsimp only
    rw [taken hcur hgoal]
    dsimp only
    rw [wp_bind]
    apply wp_sameInode_file hA hcur hgoal (fun _ he ↦ (by cases he)) here
    rw [decide_eq_true rfl, if_pos rfl, wp_bind]
    apply wp_mono (wp_dropSource_linked hA hne hidle hrow hcur hgoal content) _ fun _ h ↦ h
    exact fun _ _ h ↦ done ⟨i, hcur, Or.inr hgoal⟩ h
  | torn i n row source content target other plain =>
    have hcur : w.fs.node? t.cur = some (.file i) := source
    have hgoal : w.fs.node? (t.goal root) = some n := target
    unfold placeInArchive Migrate.doLink
    rw [wp_bind]
    refine (wp_ask _ _).mpr ⟨fun _ ↦ here, fun _ ↦ ?_, fun e he ↦ (by cases hA.sql he)⟩
    dsimp only
    rw [taken hcur hgoal]
    dsimp only
    rw [wp_bind]
    apply wp_sameInode_file hA hcur hgoal plain here
    rw [decide_eq_false other, if_neg Bool.false_ne_true]
    apply refused
    intro hf
    obtain ⟨j, hj, hnone | hsame⟩ := hf
    · rw [hgoal] at hnone
      cases hnone
    · rw [hcur] at hj
      cases hj
      rw [hgoal] at hsame
      exact other (Option.some.inj hsame)
  | stale row source target => exact gone source
  | moved row source target => exact gone source

end Place

/-! ### The row -/

/-- What a turn comes to, for a track whose row names its old path. -/
structure TurnDone (A : World MigrateStats → Call → Reply Fault → Prop) (root : Path)
    (t : FlatTrack) (w w' : World MigrateStats) : Prop where
  mid : MidTurn root t w w'
  healed : (∀ w call e, ¬ A w call (.fail e)) → Free root w.fs t → ¬ w.stop.Claimed t.sha (t.goal root) →
    Migrated root w'.stop t ∧ w'.out.errors = w.out.errors
  lost : ¬ (Free root w.fs t ∧ ¬ w.stop.Claimed t.sha (t.goal root)) → ¬ Recoverable root w'.stop t

/-- A track whose file is gone from its old path, and whose row still names it. -/
theorem not_recoverable_of_stale {m : Machine} (hne : t.goal root ≠ t.cur)
    (hrow : m.rowPath t.sha = some t.cur) (hfree : ¬ Free root m.fs t) :
    ¬ Recoverable root m t := by
  rintro (hmoved | ⟨hf, -⟩)
  · rw [hrow] at hmoved
    exact hne (Option.some.inj hmoved).symm
  · exact hfree hf

theorem AtGoal.not_free (h : AtGoal root t w w') : ¬ Free root w'.fs t := by
  rintro ⟨i, hi, -⟩
  rw [h.source] at hi
  cases hi

theorem AtGoal.claimed (h : AtGoal root t w w') (path : Path) :
    w'.stop.Claimed t.sha path ↔ w.stop.Claimed t.sha path := by
  unfold Machine.Claimed
  simp only [rowPath_of_conn h.conn]

/-- The row follows the file, or stays behind. -/
theorem wp_recordPath (hne : t.goal root ≠ t.cur) (hrow : w.stop.rowPath t.sha = some t.cur)
    (hfree : Free root w.fs t) (h : AtGoal root t w w') :
    wp A (do if ← trackRepoUpdatePath t.sha (t.goal root) job.iso then pure ()
             else countMigrateError) (fun _ w'' ↦ TurnDone A root t w w'') (MidTurn root t w) w' := by
  have hrow' : w'.stop.rowPath t.sha = some t.cur := (rowPath_of_conn h.conn t.sha).trans hrow
  have hmid : MidTurn root t w w' := ⟨h.turned, h.standing hrow⟩
  have hstale : ¬ Recoverable root w'.stop t := not_recoverable_of_stale hne hrow' h.not_free
  -- the counter apart, the world is as it was
  have behind : ((∀ w call e, ¬ A w call (.fail e)) → w.stop.Claimed t.sha (t.goal root)) →
      TurnDone A root t w { w' with out := { w'.out with errors := w'.out.errors + 1 } } :=
    fun hclaimed ↦ ⟨⟨⟨h.turned.turn, h.turned.idle⟩, hmid.2⟩,
      fun hA _ hnot ↦ absurd (hclaimed hA) hnot, fun _ ↦ hstale⟩
  rw [wp_bind]
  apply wp_trackRepoUpdatePath h.turned.idle hrow' hmid
  · exact fun e he ↦ behind fun hA ↦ absurd he (hA _ _ _)
  · exact fun hclaimed ↦ behind fun _ ↦ (h.claimed _).mp hclaimed
  · intro db hfits hpath _ hturn
    have hmoved : Migrated root ⟨w'.fs, db⟩ t := ⟨hpath, h.source, h.target⟩
    refine ⟨⟨⟨h.turned.turn.trans (hturn _ _), rfl⟩, hmoved.standing⟩,
      fun _ _ _ ↦ ⟨hmoved, h.errors⟩, fun hnot ↦ ?_⟩
    exact absurd ⟨hfree, fun hclaimed ↦ hfits ((h.claimed _).mpr hclaimed)⟩ hnot

/-- The turn of a track. -/
theorem wp_migrateOne (hA : FilesCalm A) (hT : TracksApart root T) (ht : T t)
    (hidle : w.conn.txn = none) (hroot : job.libraryRoot = root)
    (hrow : w.stop.rowPath t.sha = some t.cur) (hs : Standing root w.stop t) :
    wp A (migrateOne job t.sha t.cur) (fun _ w' ↦ TurnDone A root t w w') (MidTurn root t w) w := by
  have hne := hT.goal_ne_cur ht ht
  have hgoal : computeArchivePath job.libraryRoot t.cur = t.goal root := by rw [hroot]; rfl
  have hidle' : ∀ {w'}, MadeDirs (t.goal root) w w' → w'.conn.txn = none := by
    intro w' h
    rw [h.beside.conn, hidle]
  -- the directories are neither the old nor the new path
  have hcur : ∀ {w'}, MadeDirs (t.goal root) w w' → w'.fs.node? t.cur = w.fs.node? t.cur :=
    fun h ↦ h.beside.tree.node _ fun he ↦ hT.above ht ht he.2
  have hnew : ∀ {w'}, MadeDirs (t.goal root) w w' →
      w'.fs.node? (t.goal root) = w.fs.node? (t.goal root) :=
    fun h ↦ h.beside.tree.node _ fun he ↦ hT.goal_below ht ht he.2
  have turned : ∀ {w'}, MadeDirs (t.goal root) w w' → FlatTurned root t w w' :=
    fun h ↦ .of_dirs h (fun _ hp ↦ hp) hidle
  have mid : ∀ w', MadeDirs (t.goal root) w w' → MidTurn root t w w' := fun w' h ↦
    ⟨turned h, hs.kept (turned h).turn (hcur h) (hnew h) (rowPath_of_conn h.beside.conn t.sha)⟩
  unfold migrateOne
  rw [hgoal]
  dsimp only
  rw [wp_bind]
  apply wp_mono (wp_mkparents hA) _ mid
  intro ok w' hw'
  obtain ⟨rfl, hmade⟩ := hw'
  have hrow' : w'.stop.rowPath t.sha = some t.cur :=
    (rowPath_of_conn hmade.beside.conn t.sha).trans hrow
  have hfree : Free root w'.fs t ↔ Free root w.fs t := by
    unfold Free
    rw [hcur hmade, hnew hmade]
  have hclaimed : w'.stop.Claimed t.sha (t.goal root) ↔ w.stop.Claimed t.sha (t.goal root) := by
    unfold Machine.Claimed
    simp only [rowPath_of_conn hmade.beside.conn]
  have after : ∀ {w''}, TurnDone A root t w' w'' → TurnDone A root t w w'' := by
    intro w'' h
    refine ⟨h.mid.after (turned hmade), fun hcalm hf hc ↦ ?_, fun hnot ↦ h.lost ?_⟩
    · rw [← hmade.out]
      exact h.healed hcalm (hfree.mpr hf) fun hc' ↦ hc (hclaimed.mp hc')
    · rw [hfree, hclaimed]
      exact hnot
  rw [if_pos rfl, wp_bind]
  apply wp_mono (wp_placeInArchive hA hne (hidle' hmade) hrow' (mid w' hmade).2)
  · intro ok w₁ hplace
    cases ok with
    | true =>
      obtain ⟨hf, hplaced⟩ := hplace
      rw [if_pos rfl]
      apply wp_mono (wp_recordPath hne hrow' hf hplaced)
      · exact fun _ _ h ↦ after h
      · exact fun _ h ↦ h.after (turned hmade)
    | false =>
      obtain ⟨hf, hrefused⟩ := hplace
      have hstop : w₁.stop = w'.stop := by
        unfold World.stop
        rw [hrefused.fs, hrefused.conn]
      have hmid : MidTurn root t w' w₁ := by
        refine ⟨⟨?_, by rw [hrefused.conn, hidle' hmade]⟩, ?_⟩
        · rw [hstop]
          exact .refl _ _ _ _
        · rw [hstop]
          exact (mid w' hmade).2
      rw [if_neg Bool.false_ne_true]
      refine after ⟨hmid, fun _ hf' _ ↦ absurd hf' hf, fun _ ↦ ?_⟩
      rw [hstop]
      exact not_recoverable_of_stale hne hrow' hf
  · exact fun _ h ↦ h.after (turned hmade)

end Nocturne
