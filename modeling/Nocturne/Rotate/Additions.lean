import Nocturne.Rotate.Traverse

/-!
# What the side work of a relocation adds

Making the parents of a path and linking the covers of its album add directories above the path and
entries with the names of covers, and take nothing away. Where no symbolic link is above the paths of
a relocation, none gets there.
-/

namespace Nocturne

open Lib Proc

/-! ### Calls that go through -/

/-- No directory and no `rename` fails. What is there already is no failure. -/
def goesThrough (fs : Tree) : Call → Bool
  | .mkdir path =>
    match fs.mkdirAt path with
    | .ok _ => true
    | .error e => e == .EEXIST
  | .rename cur expected => (fs.renameAt cur expected).isOk
  | _ => true

/-- The environment lets every call through, and the tree does not refuse it either. -/
def NoFailure {ω : Type} (w : World ω) (call : Call) (r : Reply Fault) : Prop :=
  r = .ok ∧ goesThrough w.fs call = true

instance {ω : Type} (w : World ω) (call : Call) (r : Reply Fault) :
    Decidable (NoFailure w call r) := inferInstanceAs (Decidable (_ ∧ _))

variable {α : Type} {es : Path → Prop} {e p : Path} {w w' w'' : World RotateStats}

/-- A call under which nothing fails. -/
theorem wp_noFailure {call : Call} {f : World RotateStats → Option Fault → α × World RotateStats}
    {Q : α → World RotateStats → Prop}
    (h : goesThrough w.fs call = true → Q (f w none).1 (f w none).2) :
    wp NoFailure (Proc.ask call f) Q (fun _ ↦ True) w :=
  (wp_ask _ _).mpr ⟨fun _ ↦ trivial, fun hA ↦ h hA.2, fun _ hA ↦ (by cases hA.1)⟩

/-- Where no directory fails, the parents of a path are made. -/
theorem wp_mkparents_true : wp NoFailure (mkparents p : Sys RotateStats Bool)
    (fun ok _ ↦ ok = true) (fun _ ↦ True) w := by
  have one : ∀ dir (w : World RotateStats), wp NoFailure (mkdirOne dir : Sys RotateStats Bool)
      (fun ok _ ↦ ok = true) (fun _ ↦ True) w := by
    intro dir w
    unfold mkdirOne mkdirOneBy
    rw [wp_bind]
    apply wp_noFailure
    intro hgoes
    dsimp only [goesThrough] at hgoes ⊢
    cases hmk : w.fs.mkdirAt dir with
    | ok fs => rfl
    | error err =>
      rw [hmk] at hgoes
      cases eq_of_beq hgoes
      rfl
  have each : ∀ dirs (w : World RotateStats),
      wp NoFailure (mkdirEach mkdirOne dirs : Sys RotateStats Bool) (fun ok _ ↦ ok = true)
        (fun _ ↦ True) w := by
    intro dirs
    induction dirs with
    | nil => exact fun _ ↦ rfl
    | cons dir dirs ih =>
      intro w
      rw [mkdirEach, wp_bind]
      apply wp_mono (one dir w) _ fun _ h ↦ h
      rintro ok w' rfl
      exact ih w'
  exact each _ w

/-! ### Plain ways -/

/-- Every entry is in a directory, and above the given paths there is no symbolic link. -/
structure Passable (es : Path → Prop) (fs : Tree) : Prop where
  grounded : fs.Grounded
  straight : ∀ p, es p → fs.Straight p

/-- The directories above a path are its proper prefixes. -/
theorem dirOf_iff (hp : p ≠ []) : DirOf p e ↔ e <+: p ∧ e ≠ p := by
  obtain ⟨l, name, rfl⟩ := (List.eq_nil_or_concat p).resolve_left hp
  unfold DirOf
  rw [List.concat_eq_append, List.dropLast_concat, List.prefix_concat_iff]
  constructor
  · intro h
    refine ⟨.inr h, ?_⟩
    rintro rfl
    have hlen := h.length_le
    rw [List.length_append, List.length_singleton] at hlen
    omega
  · rintro ⟨rfl | h, hne⟩
    · exact absurd rfl hne
    · exact h

/-- Directories above the path and covers have come, and nothing has gone. -/
structure Furnished (e : Path) (w w' : World RotateStats) : Prop where
  conn : w'.conn = w.conn
  kept : ∀ p n, w.fs.node? p = some n → w'.fs.node? p = some n
  new : ∀ p n, w'.fs.node? p = some n →
    w.fs.node? p = some n ∨ IsCover p ∨ n = .dir ∧ DirOf e p
  data : ∀ i, i < w.fs.next → w'.fs.data i = w.fs.data i
  next : w.fs.next ≤ w'.fs.next

namespace Furnished

theorem refl (e : Path) (w : World RotateStats) : Furnished e w w :=
  ⟨rfl, fun _ _ h ↦ h, fun _ _ h ↦ .inl h, fun _ _ ↦ rfl, Nat.le_refl _⟩

/-- What has been added twice has been added. -/
theorem trans (h : Furnished e w w') (h' : Furnished e w' w'') : Furnished e w w'' where
  conn := h'.conn.trans h.conn
  kept p n hn := h'.kept p n (h.kept p n hn)
  new p n hn := by
    rcases h'.new p n hn with hold | hnew
    · exact h.new p n hold
    · exact .inr hnew
  data i hi := by rw [h'.data i (Nat.lt_of_lt_of_le hi h.next), h.data i hi]
  next := Nat.le_trans h.next h'.next

end Furnished

/-- No directory above one of the paths has the name of a cover. -/
def NoCoverAbove (es : Path → Prop) : Prop := ∀ p, es p → p ≠ [] ∧ ∀ d, DirOf p d → ¬ IsCover d

/-- New entries where one path leads to, which are covers or directories above the other path. -/
theorem furnished_of_beside {path : Path} (hes : NoCoverAbove es) (hw : Passable es w.fs)
    (h : Beside (Adds fun p ↦ w.fs.entry path = .ok p) w w')
    (hnew : ∀ p n, w.fs.entry path = .ok p → w'.fs.node? p = some n →
      IsCover p ∨ n = .dir ∧ DirOf e p) : Passable es w'.fs ∧ Furnished e w w' := by
  have kept : ∀ p n, w.fs.node? p = some n → w'.fs.node? p = some n := by
    intro p n hn
    rw [h.tree.node p, hn]
    rintro ⟨hnone, -⟩
    rw [hn] at hnone
    cases hnone
  have furnished : Furnished e w w' := by
    refine ⟨h.conn, kept, fun p n hn ↦ ?_, h.tree.data, h.tree.next⟩
    by_cases hp : Adds (fun p ↦ w.fs.entry path = .ok p) p (w.fs.node? p)
    · exact .inr (hnew p n hp.2 hn)
    · left
      rw [← h.tree.node p hp, hn]
  refine ⟨⟨?_, fun p hp d target hd hne hlink ↦ ?_⟩, furnished⟩
  · apply hw.grounded.step fun d hd ↦ kept d _ hd
    intro p n hn hnone
    by_cases hp : Adds (fun p ↦ w.fs.entry path = .ok p) p (w.fs.node? p)
    · exact Fs.hasDir_entry hp.2
    · rw [h.tree.node p hp, hnone] at hn
      cases hn
  · rcases furnished.new d _ hlink with hold | hcover | ⟨hdir, -⟩
    · exact hw.straight p hp d target hd hne hold
    · exact (hes p hp).2 d ((dirOf_iff (hes p hp).1).mpr ⟨hd, hne⟩) hcover
    · cases hdir

/-- The process adds directories above the path and covers. -/
def Furnishes (es : Path → Prop) (e : Path) (p : Sys RotateStats α) : Prop :=
  ∀ w : World RotateStats, Passable es w.fs →
    p.wp NoFailure (fun _ w' ↦ Passable es w'.fs ∧ Furnished e w w') (fun _ ↦ True) w

/-- Parts that add the same compose. -/
theorem closed_furnishes : Closed (Furnishes es e) where
  pure _ w h := ⟨h, .refl e w⟩
  bind hp hk w h := by
    rw [wp_bind]
    apply wp_mono (hp w h) _ fun _ h ↦ h
    rintro a w' ⟨hw', hfirst⟩
    apply wp_mono (hk a w' hw') _ fun _ h ↦ h
    rintro _ w'' ⟨hw'', hsecond⟩
    exact ⟨hw'', hfirst.trans hsecond⟩
  gets _ w h := ⟨h, .refl e w⟩
  read _ _ w h := wp_noFailure fun _ ↦ ⟨h, .refl e w⟩
  query _ _ w h := wp_noFailure fun _ ↦ ⟨h, .refl e w⟩

/-- A call that changes the tree, where it goes through. -/
theorem furnishes_sysCall {call : Call} {f : Tree → Except Errno Tree}
    (hf : ∀ (w : World RotateStats) (fs : Tree), Passable es w.fs → f w.fs = .ok fs →
      Passable es fs ∧ Furnished e w { w with fs := fs }) :
    Furnishes es e (sysCall call f : Sys RotateStats _) := by
  intro w h
  apply wp_noFailure
  intro _
  dsimp only
  cases hfs : f w.fs with
  | ok fs => exact hf w fs h hfs
  | error err => exact ⟨h, .refl e w⟩

/-- A directory above the path is made at the very path. -/
theorem furnishes_mkdir {dir : Path} (hes : NoCoverAbove es) (he : es e) (hdir : DirOf e dir) :
    Furnishes es e (sysCall (.mkdir dir) fun fs ↦ fs.mkdirAt dir) := by
  apply furnishes_sysCall
  intro w fs hw h
  obtain ⟨q, hq, hmk⟩ := Fs.ok_of_bind h
  obtain ⟨habove, hne⟩ := (dirOf_iff (hes e he).1).mp hdir
  have hstraight : w.fs.Straight dir := by
    intro d target hd hdne
    apply hw.straight e he d target (hd.trans habove)
    rintro rfl
    exact hdne (hd.eq_of_length_le habove.length_le)
  have hb : Beside (Adds fun p ↦ w.fs.entry dir = .ok p) w { w with fs := fs } :=
    ⟨Fs.Within.mkdir hmk ⟨rfl, hq⟩, rfl⟩
  apply furnished_of_beside hes hw hb
  intro p n hp hn
  rw [hq] at hp
  cases hp
  unfold Fs.mkdir at hmk
  split at hmk
  · cases hmk
    rw [Fs.node?_place, if_pos rfl] at hn
    cases hn
    rw [hstraight.entry_eq hq]
    exact .inr ⟨rfl, hdir⟩
  · cases hmk

/-- Making the parents of a path adds directories above it. -/
theorem furnishes_mkparents (hes : NoCoverAbove es) (he : es e) :
    Furnishes es e (mkparents e : Sys RotateStats Bool) :=
  closed_mkparents closed_furnishes fun _ hdir ↦ furnishes_mkdir hes he hdir

/-- Linking the covers of an album adds covers, and directories above the track. -/
theorem furnishes_linkAlbumCovers (hes : NoCoverAbove es) (he : es e) (now : Int)
    (archiveAudio : Path) :
    Furnishes es e (linkAlbumCovers now archiveAudio e : Sys RotateStats Unit) := by
  apply closed_linkAlbumCovers closed_furnishes
  · exact fun _ hdir ↦ furnishes_mkdir hes he hdir
  · intro src dst hdst
    apply furnishes_sysCall
    intro w fs hw h
    obtain ⟨p, -, h⟩ := Fs.ok_of_bind h
    obtain ⟨q, hq, hlink⟩ := Fs.ok_of_bind h
    have hb : Beside (Adds fun p ↦ w.fs.entry dst = .ok p) w { w with fs := fs } :=
      ⟨Fs.Within.link hlink ⟨rfl, hq⟩, rfl⟩
    apply furnished_of_beside hes hw hb
    exact fun p _ hp _ ↦ .inl ((isCover_entry hp).mpr hdst)
  · intro now src dst hdst w hw
    have furnished : ∀ w' : World RotateStats,
        Beside (Adds fun p ↦ w.fs.entry dst = .ok p) w w' → Passable es w'.fs ∧ Furnished e w w' := by
      intro w' h
      apply furnished_of_beside hes hw h
      exact fun p _ hp _ ↦ .inl ((isCover_entry hp).mpr hdst)
    exact wp_mono (wp_copyOnly now src dst w) (fun _ w' h ↦ furnished w' h.1) fun _ _ ↦ trivial

end Nocturne
