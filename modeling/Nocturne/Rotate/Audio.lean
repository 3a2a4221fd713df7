import Nocturne.Lib.Steps
import Nocturne.Rotate.Turns

/-!
# A rotation of originals loses no audio

On every branch of `move_one` a second name or a complete copy stands before the source is
unlinked. The branch for an existing destination compares what the two paths lead to, so that a
symbolic link at the destination, or on the way to it, may lead back to the source itself.
-/

namespace Nocturne

open Lib Lib.Steps Proc

/-- A path that is no cover's holds the content. -/
def HasAudio (c : Content) (fs : Tree) : Prop := ∃ p, ¬ IsCover p ∧ Holds fs p c

/-- The content stands at another entry than the one that `cur` names. -/
def HasSpare (cur : Path) (c : Content) (fs : Tree) : Prop :=
  ∃ p, fs.entry cur ≠ .ok p ∧ ¬ IsCover p ∧ Holds fs p c

/-- Where `cur` names a file, the other path leads neither back to that entry, nor to a cover that is
one more name of the file. -/
def leadsApart (fs : Tree) (cur new : Path) : Bool :=
  match fs.entry cur, fs.follow new with
  | .ok p, .ok q =>
    match fs.node? p with
    | some (.file i) => decide (fs.node? q = some (.file i) → q ≠ p ∧ ¬ IsCover q)
    | _ => true
  | _, _ => true

/-- The answer leaves it to the tree whether the new name exists, or says that it does. -/
def mayExist : Reply Fault → Bool
  | .ok => true
  | .fail f => f.errno == .EEXIST
  | .die => false

/-- Where a track is linked to a name that exists, the name does not lead back to it. -/
def linkApart {ω : Type} (w : World ω) : Call → Reply Fault → Bool
  | .link cur new, r => !mayExist r || decide (IsCover cur) || leadsApart w.fs cur new
  | _, _ => true

/-- The answers under which no track is linked to a name that leads back to it. -/
def LinkApart {ω : Type} (w : World ω) (call : Call) (r : Reply Fault) : Prop :=
  linkApart w call r = true

instance {ω : Type} (w : World ω) (call : Call) (r : Reply Fault) :
    Decidable (LinkApart w call r) := inferInstanceAs (Decidable (_ = true))

variable {c : Content} {fs fs' : Tree} {cur new : Path} {fromSeg toSeg : Name} {job : RotateJob}
  {w : World RotateStats}

theorem leads_of_linkApart {r : Reply Fault} (h : LinkApart w (.link cur new) r)
    (hr : mayExist r = true) : ¬ IsCover cur → leadsApart w.fs cur new = true := by
  intro hcover
  simpa [LinkApart, linkApart, hr, hcover] using h

theorem HasSpare.hasAudio (h : HasSpare cur c fs) : HasAudio c fs := by
  obtain ⟨p, -, hp⟩ := h
  exact ⟨p, hp⟩

/-- Side work keeps the audio. -/
theorem HasAudio.aside (h : HasAudio c fs) (hw : Fs.Within Aside fs fs') : HasAudio c fs' := by
  obtain ⟨p, hp, i, hi, hc⟩ := h
  have houtside : ¬ Aside p (some (.file i)) := by
    intro ha
    rcases ha with ha | ha | ha
    · cases ha
    · cases ha
    · exact hp ha
  obtain ⟨hi', hd⟩ := hw.file hi houtside
  exact ⟨p, hp, i, hi', by rw [hd, hc]⟩

/-- A moved file keeps its name. -/
theorem isCover_swap (h : swapSegment job.libraryRoot cur fromSeg toSeg = some new) :
    IsCover new ↔ IsCover cur := by
  obtain ⟨tail, htail, hcur, hnew⟩ := swapSegment_eq_some.mp h
  have hlast : new.getLast? = cur.getLast? := by
    rw [hcur, hnew, List.getLast?_append_of_ne_nil _ (by simp),
      List.getLast?_append_of_ne_nil _ (by simp)]
    rw [List.getLast?_cons_of_ne_nil htail, List.getLast?_cons_of_ne_nil htail]
  unfold IsCover
  rw [hlast]

/-- With a spare elsewhere the source may go. -/
theorem wp_unlink_spare {A : World RotateStats → Call → Reply Fault → Prop}
    (h : HasSpare cur c w.fs) : wp A (unlinkPath cur)
      (fun _ w' ↦ HasAudio c w'.fs) (fun w' ↦ HasAudio c w'.fs) w := by
  refine (wp_ask _ _).mpr ⟨fun _ ↦ h.hasAudio, fun _ ↦ ?_, fun e _ ↦ h.hasAudio⟩
  dsimp only
  cases hu : w.fs.unlinkAt cur with
  | error e => exact h.hasAudio
  | ok fs =>
    obtain ⟨q, hq, hu⟩ := Fs.ok_of_bind hu
    obtain ⟨-, rfl⟩ := Fs.unlink_ok hu
    obtain ⟨p, hne, hp, i, hi, hc⟩ := h
    refine ⟨p, hp, i, ?_, hc⟩
    rw [Fs.node?_clear, if_neg]
    · exact hi
    · rintro rfl
      exact hne hq

theorem wp_unlinkSource {A : World RotateStats → Call → Reply Fault → Prop}
    (h : HasSpare cur c w.fs) : wp A (unlinkSource cur)
      (fun _ w' ↦ HasAudio c w'.fs) (fun w' ↦ HasAudio c w'.fs) w := by
  unfold unlinkSource
  rw [wp_bind]
  refine wp_mono (wp_unlink_spare h) (fun r w' h' ↦ ?_) fun _ h' ↦ h'
  split <;> exact h'

/-- A file that is linked has a spare. -/
theorem hasSpare_link (hcover : IsCover new ↔ IsCover cur) (hlink : fs.linkAt cur new = .ok fs')
    (h : HasAudio c fs) : HasSpare cur c fs' := by
  obtain ⟨source, hsource, hlink⟩ := Fs.ok_of_bind hlink
  obtain ⟨target, htarget, hlink⟩ := Fs.ok_of_bind hlink
  obtain ⟨n, hn, -, hfree, -, hnode, hdata, -⟩ := Fs.link_ok hlink
  have hsource' : fs'.entry cur = .ok source :=
    Fs.entry_keeps ((Fs.Within.link (E := New) hlink rfl).keepsWays fun _ _ h ↦ h) hsource
  obtain ⟨p, hp, i, hi, hc⟩ := h
  by_cases hps : p = source
  · rw [hps] at hi hp
    refine ⟨target, ?_, ?_, i, ?_, by rw [hdata, hc]⟩
    · rw [hsource']
      intro he
      cases he
      rw [hfree] at hi
      cases hi
    · rw [isCover_entry htarget, hcover, ← isCover_entry hsource]
      exact hp
    · rw [hn] at hi
      rw [hnode, if_pos rfl, hi]
  · refine ⟨p, ?_, hp, i, ?_, by rw [hdata, hc]⟩
    · rw [hsource']
      intro he
      cases he
      exact hps rfl
    · rw [hnode, if_neg]
      · exact hi
      · intro he
        rw [he, hfree] at hi
        cases hi

/-- A path that names a file has the identity of the file. -/
theorem fileId_file {i : Nat} {q : Path} (h : fs.entry cur = .ok q)
    (hi : fs.node? q = some (.file i)) : fileId fs cur = .ok (.file i) := by
  have hfollow : fs.follow cur = .ok q := by
    apply Fs.follow_entry h
    intro target he
    rw [hi] at he
    cases he
  unfold fileId
  rw [hfollow, Fs.statAt_file h hi]
  rfl

/-- What has the identity of a file leads to it. -/
theorem follow_of_fileId {i : Nat} (h : fileId fs new = .ok (.file i)) :
    ∃ q, fs.follow new = .ok q ∧ fs.node? q = some (.file i) := by
  obtain ⟨_, -, h⟩ := Fs.ok_of_bind h
  obtain ⟨n, hn, h⟩ := Fs.ok_of_bind h
  cases n with
  | file j =>
    cases h
    exact Fs.file_of_statAt hn
  | dir => cases h
  | symlink target => cases h

/-- Two names of one file, neither of which leads to the other, spare each other. -/
theorem hasSpare_same {a : FileId} (h : HasAudio c fs)
    (hapart : ¬ IsCover cur → leadsApart fs cur new = true)
    (hcur : fileId fs cur = .ok a) (hnew : fileId fs new = .ok a) : HasSpare cur c fs := by
  obtain ⟨p, hp, i, hi, hc⟩ := h
  by_cases hpc : fs.entry cur = .ok p
  · rw [fileId_file hpc hi] at hcur
    cases hcur
    obtain ⟨q, hq, hqi⟩ := follow_of_fileId hnew
    have hleads := hapart (by rwa [← isCover_entry hpc])
    unfold leadsApart at hleads
    simp only [hpc, hq, hi, decide_eq_true_eq] at hleads
    obtain ⟨hne, hcover⟩ := hleads hqi
    refine ⟨q, ?_, hcover, i, hqi, hc⟩
    rw [hpc]
    intro he
    cases he
    exact hne rfl
  · exact ⟨p, hpc, hp, i, hi, hc⟩

theorem wp_sameInode {A : World RotateStats → Call → Reply Fault → Prop}
    {C : World RotateStats → Prop} {Q : Bool → World RotateStats → Prop} (hdie : C w)
    (hno : Q false w) (hyes : ∀ a, fileId w.fs cur = .ok a → fileId w.fs new = .ok a → Q true w) :
    wp A (sameInode cur new) Q C w := by
  unfold sameInode sameInodeBy
  rw [wp_bind]
  refine (wp_ask _ _).mpr ⟨fun _ ↦ hdie, fun _ ↦ ?_, fun e _ ↦ hno⟩
  dsimp only
  cases ha : fileId w.fs cur with
  | error e => exact hno
  | ok a =>
    dsimp only
    rw [wp_bind]
    refine (wp_ask _ _).mpr ⟨fun _ ↦ hdie, fun _ ↦ ?_, fun e _ ↦ hno⟩
    dsimp only
    cases hb : fileId w.fs new with
    | error e => exact hno
    | ok b =>
      show Q (a == b) w
      by_cases hab : a = b
      · rw [hab, beq_self_eq_true]
        apply hyes b
        · rw [ha, hab]
        · exact hb
      · have hf : (a == b) = false := by simpa using hab
        rw [hf]
        exact hno

/-- A copy is a spare of its source. -/
theorem wp_copyAndUnlink {A : World RotateStats → Call → Reply Fault → Prop} {now : Int}
    (hcover : IsCover new ↔ IsCover cur) (h : HasAudio c w.fs) :
    wp A (copyAndUnlink now cur new) (fun _ w' ↦ HasAudio c w'.fs)
      (fun w' ↦ HasAudio c w'.fs) w := by
  unfold copyAndUnlink
  rw [wp_bind]
  have kept : ∀ w', Beside (Adds fun p ↦ w.fs.entry new = .ok p) w w' → HasAudio c w'.fs := by
    intro w' hb
    exact h.aside (hb.tree.mono fun _ _ hp ↦ Or.inl hp.1)
  refine wp_mono (wp_copyOnly now cur new w) (fun ok w' hw' ↦ ?_) fun w' hb ↦ kept w' hb
  obtain ⟨hb, hok⟩ := hw'
  cases ok with
  | false => exact kept w' hb
  | true =>
    rw [if_pos rfl, wp_bind]
    apply wp_unlink_spare
    obtain ⟨q, d, hq, hfree, hd, hnew⟩ := hok rfl
    obtain ⟨p, hp, hc⟩ := h
    obtain ⟨_, hn, -⟩ := Fs.ok_of_bind hd
    obtain ⟨_, hfollow, -⟩ := Fs.ok_of_bind hn
    obtain ⟨source, hsource⟩ := Fs.entry_of_follow hfollow
    have hsource' : w'.fs.entry cur = .ok source :=
      Fs.entry_keeps (hb.tree.keepsWays fun _ _ hE ↦ hE.1) hsource
    unfold HasSpare
    rw [hsource']
    by_cases hpc : p = source
    · obtain ⟨i, hi, hci⟩ := hc
      rw [hpc] at hi hp
      rw [Fs.readAt_file hsource hi] at hd
      cases hd
      rw [hci] at hnew
      refine ⟨q, ?_, ?_, hnew⟩
      · intro he
        cases he
        rw [hfree] at hi
        cases hi
      · rw [isCover_entry hq, hcover, ← isCover_entry hsource]
        exact hp
    · refine ⟨p, ?_, hp, hb.holds hc fun i ha ↦ ?_⟩
      · intro he
        cases he
        exact hpc rfl
      · cases ha.1

/-- Placing a file keeps every audio content, on every branch. -/
theorem upholdsTree_placeAt (hcover : IsCover new ↔ IsCover cur) :
    UpholdsTree LinkApart (HasAudio c) (placeAt job cur new) := by
  intro w h
  have error : ∀ w' : World RotateStats, HasAudio c w'.fs →
      wp LinkApart (do countError; return (none : Option Bool)) (fun _ w' ↦ HasAudio c w'.fs)
        (fun w' ↦ HasAudio c w'.fs) w' := fun w' h' ↦ h'
  have again : (¬ IsCover cur → leadsApart w.fs cur new = true) → wp LinkApart (do
        if ← sameInode cur new then
          countAlready
          unlinkSource cur
          return some true
        else
          countError
          return (none : Option Bool)) (fun _ w' ↦ HasAudio c w'.fs)
        (fun w' ↦ HasAudio c w'.fs) w := by
    intro hapart
    rw [wp_bind]
    refine wp_sameInode h (error w h) fun a hcur hnew ↦ ?_
    have hspare := hasSpare_same h hapart hcur hnew
    rw [if_pos rfl, wp_bind, countAlready, wp_tally, wp_bind]
    exact wp_unlinkSource hspare
  have across : wp LinkApart (do
      if ← copyAndUnlink job.now cur new then
        tally fun c ↦ { c with fallbackCopies := c.fallbackCopies + 1 }
        return some false
      else
        countError
        return (none : Option Bool)) (fun _ w' ↦ HasAudio c w'.fs)
      (fun w' ↦ HasAudio c w'.fs) w := by
    rw [wp_bind]
    refine wp_mono (wp_copyAndUnlink hcover h) (fun ok w' h' ↦ ?_) fun _ h' ↦ h'
    cases ok with
    | true => exact h'
    | false => exact h'
  unfold placeAt doLink
  rw [wp_bind]
  refine (wp_ask _ _).mpr ⟨fun _ ↦ h, fun hA ↦ ?_, fun e hA ↦ ?_⟩
  · dsimp only
    cases hlink : w.fs.linkAt cur new with
    | ok fs' =>
      dsimp only
      rw [wp_bind]
      exact wp_unlinkSource (w := { w with fs := fs' }) (hasSpare_link hcover hlink h)
    | error e =>
      cases e with
      | EEXIST => exact again (leads_of_linkApart hA rfl)
      | EXDEV => exact across
      | _ => exact error w h
  · dsimp only
    cases he : e.errno with
    | EEXIST => exact again (leads_of_linkApart hA (by rw [mayExist, he]; rfl))
    | EXDEV => exact across
    | _ => exact error w h

/-- A rotation of originals keeps every audio content, wherever it is cut short. -/
theorem upholdsTree_rotate (hmode : job.transcodeOn = none) :
    UpholdsTree LinkApart (HasAudio c) (rotateRunEx job) := by
  have hside : SideKeeps LinkApart (HasAudio c) job :=
    sideKeeps_of_aside fun _ _ h hw ↦ h.aside hw
  have move : ∀ fromSeg toSeg sha target,
      UpholdsTree LinkApart (HasAudio c) (moveOne job sha fromSeg toSeg target) := by
    intro fromSeg toSeg sha target
    refine upholdsTree_moveOne hside (fun cur new hswap ↦ ?_) sha target
    exact upholdsTree_placeAt (isCover_swap hswap)
  apply upholdsTree_rotateRunEx hside
  · rw [hmode]
    intro hnone
    cases hnone
  · rw [hmode]
    exact fun sha ↦ move _ _ sha _
  · rw [hmode]
    exact fun sha ↦ move _ _ sha _
  · rw [hmode]
    intro hnone
    cases hnone

/-! ### Runs -/

/-- The manifest is resolved anew, or a rotation runs with some answers to its calls. -/
inductive RotateStep where
  | manifest (manifest : Table Sha ManifestRow)
  | rotate (job : RotateJob) (answers : List (Reply Fault))

/-- The machine after a step. -/
def Machine.turn (m : Machine) : RotateStep → Machine
  | .manifest manifest => ⟨m.fs, { m.db with manifestCurrent := manifest }⟩
  | .rotate job answers => afterRotate job answers m

/-- A rotation of originals in which no new name leads back to the file. -/
def RotateStep.LinksApart (m : Machine) : RotateStep → Prop
  | .manifest _ => True
  | .rotate job answers => job.transcodeOn = none ∧
      (rotateRunEx job).Obeys LinkApart (m.start {}) answers

/-- Along rotations of originals, whatever their calls are answered and wherever they are cut
short, no audio content is lost. -/
theorem rotations_keep_audio (m : Machine) (run : List RotateStep)
    (h : Meets Machine.turn RotateStep.LinksApart m run) :
    Always Machine.turn (fun m' ↦ ∀ c, HasAudio c m.fs → HasAudio c m'.fs) m run := by
  refine always_of_inv (fun _ hm ↦ hm) (fun m' step hm hstep c hc ↦ ?_) (fun _ hc ↦ hc) h
  cases step with
  | manifest manifest => exact hm c hc
  | rotate job answers => exact (upholdsTree_rotate hstep.1).after hstep.2 (hm c hc)

namespace SymlinkBack

/-- The library of the runs below. -/
def root : Path := [ascii "music"]

def archived : Path := root ++ [archiveSeg, ascii "a.flac"]
def placed : Path := root ++ [residentSeg, ascii "a.flac"]

/-- A track in the archive. -/
def plainFs : Tree :=
  (((Tree.empty.addDir root).addDir (root ++ [archiveSeg])).addDir (root ++ [residentSeg])).addFile
    archived ⟨.plain [1], 0, 1⟩

/-- The same library, where the resident name of the track is a symbolic link to it. -/
def linkedFs : Tree := plainFs.place placed (.symlink archived) fun _ h ↦ by cases h

/-- The row of the track. -/
def row : TrackRow where
  path := archived
  mtimeNs := 0
  sizeBytes := 1
  format := none
  title := none
  artist := none
  album := none
  albumArtist := none
  trackNumber := none
  discNumber := none
  year := none
  genre := none
  durationMs := none
  tagsStatus := ascii "ok"
  tagWarning := none
  dateAdded := []
  lastSeenAt := []

/-- The track is scanned. -/
def db : Db :=
  { Db.empty with tracks := (UniqueTable.empty.insert? (ascii "5f") row).getD .empty }

/-- The manifest with the track. -/
def manifest : Table Sha ManifestRow := Table.empty.put (ascii "5f") ⟨[], 1⟩

/-- The track is put into the manifest, and a rotation runs. -/
def run (answers : List (Reply Fault)) : List RotateStep :=
  [.manifest manifest, .rotate ⟨root, none, [], 5⟩ answers]

end SymlinkBack

/-- A file with the content is among the entries. -/
theorem HasAudio.listed (h : HasAudio c fs) :
    (fs.nodes.rows.any fun r ↦ match r.2 with
      | .file i => decide ((fs.data i).content = c)
      | _ => false) = true := by
  obtain ⟨p, -, i, hi, hc⟩ := h
  rw [List.any_eq_true]
  refine ⟨(p, .file i), Table.mem_rows.mpr hi, ?_⟩
  simpa using hc

/-- A rotation unlinks the only name of a track whose resident name is a symbolic link to it. -/
theorem audio_lost_through_symlink : ¬ Always Machine.turn
    (fun m' ↦ ∀ c, HasAudio c SymlinkBack.linkedFs → HasAudio c m'.fs)
    ⟨SymlinkBack.linkedFs, SymlinkBack.db⟩ (SymlinkBack.run []) := by
  intro h
  have hbefore : HasAudio (.plain [1]) SymlinkBack.linkedFs :=
    ⟨SymlinkBack.archived, by decide, 0, by decide, by decide⟩
  have hafter := (h.last (.plain [1]) hbefore).listed
  revert hafter
  decide +kernel

/-- A rotation that dies between the link and the unlink has lost nothing. -/
theorem rotations_keep_audio_killed : Always Machine.turn
    (fun m' ↦ ∀ c, HasAudio c SymlinkBack.plainFs → HasAudio c m'.fs)
    ⟨SymlinkBack.plainFs, SymlinkBack.db⟩
    (SymlinkBack.run [.ok, .ok, .ok, .ok, .ok, .ok, .ok, .die]) :=
  rotations_keep_audio ⟨SymlinkBack.plainFs, SymlinkBack.db⟩
    (SymlinkBack.run [.ok, .ok, .ok, .ok, .ok, .ok, .ok, .die])
    ⟨trivial, ⟨rfl, by decide +kernel⟩, trivial⟩

end Nocturne
