import Nocturne.Rotate.Prune
import Nocturne.Scan.Walk

/-!
# The walk over a library

`walker_walk` of `walker.c` goes through a library with `fts(3)`, which shows it symbolic links as
such, and hands each audio file to a callback. `FtsIo` says which of the calls that `fts` makes for
a tree go through, and in which order the entries of a directory are read. TagLib is a parameter.
-/

namespace Nocturne

open Lib Lib.Fs

namespace Tagcheck

open Prune

/-! ### `fts` -/

/-- `fts_info` of an entry, with `FTS_PHYSICAL`: a directory before its entries, a regular file, a
symbolic link, a directory that cannot be read, an entry without `stat`. What stands for a directory
behind its entries is passed over. -/
inductive FtsInfo where
  | d
  | f
  | sl
  | dnr
  | ns
  deriving DecidableEq, Repr

/-- `FTSENT`. -/
structure FtsEnt where
  path : Path
  level : Nat
  info : FtsInfo
  deriving DecidableEq, Repr

/-- How the calls on the entries of a tree go. -/
structure FtsIo (fs : Tree) where
  stats : Path → Bool
  opens : Path → Bool
  resolves : Path → Bool
  order : Path → List Name
  perm : ∀ dir, (order dir).Perm (fs.children dir)

/-- `realpath`. -/
def realpath (fs : Tree) (path : Path) : Option Path :=
  (fs.follow path).toOption.filter fun target ↦ (fs.node? target).isSome

section Fts

variable {W : Type} {fs : Tree}

/-- The loop over `fts_read`, in a tree of bounded depth. The body says whether it sets `FTS_SKIP`;
once `stopped` holds no entry is read any more. -/
def ftsWalk (io : FtsIo fs) (stopped : W → Bool) (body : FtsEnt → W → W × Bool) :
    (depth level : Nat) → Path → W → W
  | 0, _, _, w => w
  | depth + 1, level, path, w =>
    if stopped w then w
    else if io.stats path then
      match fs.node? path with
      | none => w
      | some (.file _) => (body ⟨path, level, .f⟩ w).1
      | some (.symlink _) => (body ⟨path, level, .sl⟩ w).1
      | some .dir =>
        let (w, skip) := body ⟨path, level, .d⟩ w
        if stopped w || skip then w
        else if io.opens path then
          (io.order path).foldl
            (fun w name ↦ ftsWalk io stopped body depth (level + 1) (path ++ [name]) w) w
        else (body ⟨path, level, .dnr⟩ w).1
    else (body ⟨path, level, .ns⟩ w).1

end Fts

/-! ### `walker.c` -/

/-- `struct walk_stats`. -/
structure WalkStats where
  dirsVisited : Nat
  filesSeenTotal : Nat
  audioFilesSeen : Nat
  skippedNonAudio : Nat
  skippedDotfiles : Nat
  skippedSymlinksOutsideRoot : Nat
  taglibOpenFailures : Nat
  deriving DecidableEq, Repr

/-- What the loop of `walker_walk` changes. -/
structure Walk (σ : Type) where
  stats : WalkStats
  userdata : σ
  wr : WalkResult

/-- `basename_is_dotfile`, `walker.c:65–71`. -/
def basenameIsDotfile (path : Path) : Bool := path.getLast?.any isDotName

/-- `path_under_root`, `walker.c:49–62`. -/
def pathUnderRoot (candidate root : Path) : Bool := root.isPrefixOf candidate

section Walker

variable {σ : Type} {fs : Tree} (io : FtsIo fs) (tagsExtract : Path → Option TagRecord)
  (onFile : TagRecord → σ → WalkResult × σ) (rootReal : Path)

/-- The counters with one of them changed. -/
def Walk.tally (w : Walk σ) (f : WalkStats → WalkStats) : Walk σ := { w with stats := f w.stats }

/-- `process_audio_file`, `walker.c:91–110`. Without a record there was no memory for it. -/
def processAudioFile (path : Path) (w : Walk σ) : Walk σ :=
  let w := w.tally fun c ↦ { c with audioFilesSeen := c.audioFilesSeen + 1 }
  match tagsExtract path with
  | none => w.tally fun c ↦ { c with taglibOpenFailures := c.taglibOpenFailures + 1 }
  | some rec =>
    let w := if rec.tagReadFailed then
      w.tally fun c ↦ { c with taglibOpenFailures := c.taglibOpenFailures + 1 } else w
    let (wr, userdata) := onFile rec w.userdata
    { w with wr := wr, userdata := userdata }

/-- The extension filter, `walker.c:179–184` and `walker.c:207–213`. -/
def filterFormat (path : Path) (w : Walk σ) : Walk σ :=
  if tagsFormatFromPath path = .unknown then
    w.tally fun c ↦ { c with skippedNonAudio := c.skippedNonAudio + 1 }
  else processAudioFile tagsExtract onFile path w

/-- The target of a symbolic link, where it is inside the root, `walker.c:194–205`. -/
def linkTarget (path : Path) : Option Path :=
  (if io.resolves path then realpath fs path else none).filter fun target ↦
    pathUnderRoot target rootReal

/-- The body of the loop of `walker_walk`, `walker.c:159–228`. -/
def visitEnt (ent : FtsEnt) (w : Walk σ) : Walk σ × Bool :=
  match ent.info with
  | .d =>
    if 0 < ent.level ∧ basenameIsDotfile ent.path then
      (w.tally fun c ↦ { c with skippedDotfiles := c.skippedDotfiles + 1 }, true)
    else (w.tally fun c ↦ { c with dirsVisited := c.dirsVisited + 1 }, false)
  | .f =>
    let w := w.tally fun c ↦ { c with filesSeenTotal := c.filesSeenTotal + 1 }
    if basenameIsDotfile ent.path then
      (w.tally fun c ↦ { c with skippedDotfiles := c.skippedDotfiles + 1 }, false)
    else (filterFormat tagsExtract onFile ent.path w, false)
  | .sl =>
    let w := w.tally fun c ↦ { c with filesSeenTotal := c.filesSeenTotal + 1 }
    if basenameIsDotfile ent.path then
      (w.tally fun c ↦ { c with skippedDotfiles := c.skippedDotfiles + 1 }, false)
    else
      match linkTarget io rootReal ent.path with
      | none =>
        (w.tally fun c ↦
          { c with skippedSymlinksOutsideRoot := c.skippedSymlinksOutsideRoot + 1 }, false)
      | some target => (filterFormat tagsExtract onFile target w, false)
  | .dnr | .ns =>
    (w.tally fun c ↦ { c with taglibOpenFailures := c.taglibOpenFailures + 1 }, false)

/-- `walker_walk`, `walker.c:112–235`: its result, and what it leaves in the counters and for the
callback. -/
def walkerWalk (root : Path) (userdata : σ) : Int × Walk σ :=
  let w : Walk σ := ⟨⟨0, 0, 0, 0, 0, 0, 0⟩, userdata, .continue⟩
  match realpath fs root with
  | none => (1, w)
  | some rootReal =>
    if fs.stat? rootReal = some .dir then
      (0, ftsWalk io (fun w ↦ w.wr = .stop) (visitEnt io tagsExtract onFile rootReal)
        (treeDepth fs + 1) 0 rootReal w)
    else (1, w)

/-! ### What an entry is to the walk -/

/-- What the body of the loop makes of an entry. -/
inductive EntKind where
  | entered
  | hidden
  | outside
  | nonAudio
  | audio (path : Path)
  | unreadable
  deriving DecidableEq, Repr

/-- An audio file, or not. -/
def formatKind (path : Path) : EntKind :=
  if tagsFormatFromPath path = .unknown then .nonAudio else .audio path

/-- The kind of an entry. -/
def kindOf (ent : FtsEnt) : EntKind :=
  match ent.info with
  | .d => if 0 < ent.level ∧ basenameIsDotfile ent.path then .hidden else .entered
  | .f => if basenameIsDotfile ent.path then .hidden else formatKind ent.path
  | .sl =>
    if basenameIsDotfile ent.path then .hidden
    else (linkTarget io rootReal ent.path).elim .outside formatKind
  | .dnr | .ns => .unreadable

/-- The path that an entry hands over. -/
def EntKind.handed : EntKind → Option Path
  | audio path => some path
  | _ => none

/-- The entry is a file or a symbolic link. -/
def FtsEnt.isFile (ent : FtsEnt) : Bool := ent.info = .f || ent.info = .sl

/-- TagLib gives no tags for a file. -/
def tagsFail (path : Path) : Bool := (tagsExtract path).elim true TagRecord.tagReadFailed

/-- The entry counts as a failure. -/
def EntKind.failed : EntKind → Bool
  | audio path => tagsFail tagsExtract path
  | unreadable => true
  | _ => false

/-- The counters that some entries make. -/
def statsOf (ents : List FtsEnt) : WalkStats where
  dirsVisited := ents.countP fun e ↦ kindOf io rootReal e = .entered
  filesSeenTotal := ents.countP FtsEnt.isFile
  audioFilesSeen := ents.countP fun e ↦ (kindOf io rootReal e).handed.isSome
  skippedNonAudio := ents.countP fun e ↦ kindOf io rootReal e = .nonAudio
  skippedDotfiles := ents.countP fun e ↦ kindOf io rootReal e = .hidden
  skippedSymlinksOutsideRoot := ents.countP fun e ↦ kindOf io rootReal e = .outside
  taglibOpenFailures := ents.countP fun e ↦ (kindOf io rootReal e).failed tagsExtract

/-- The callback on some records, until it stops. -/
def callAll : List TagRecord → σ → WalkResult × σ
  | [], userdata => (.continue, userdata)
  | rec :: recs, userdata =>
    let r := onFile rec userdata
    if r.1 = .stop then r else callAll recs r.2

/-- The records of the entries, in their order. -/
def recordsOf (ents : List FtsEnt) : List TagRecord :=
  (ents.filterMap fun e ↦ (kindOf io rootReal e).handed).filterMap tagsExtract

/-! ### One entry -/

variable {io tagsExtract onFile rootReal} {w : Walk σ} {ent : FtsEnt} {path : Path}

/-- Some counters and others. -/
def WalkStats.plus (c c' : WalkStats) : WalkStats where
  dirsVisited := c.dirsVisited + c'.dirsVisited
  filesSeenTotal := c.filesSeenTotal + c'.filesSeenTotal
  audioFilesSeen := c.audioFilesSeen + c'.audioFilesSeen
  skippedNonAudio := c.skippedNonAudio + c'.skippedNonAudio
  skippedDotfiles := c.skippedDotfiles + c'.skippedDotfiles
  skippedSymlinksOutsideRoot := c.skippedSymlinksOutsideRoot + c'.skippedSymlinksOutsideRoot
  taglibOpenFailures := c.taglibOpenFailures + c'.taglibOpenFailures

theorem WalkStats.plus_assoc (c c' c'' : WalkStats) : (c.plus c').plus c'' = c.plus (c'.plus c'') := by
  simp [WalkStats.plus, Nat.add_assoc]

theorem statsOf_cons (ents : List FtsEnt) : statsOf io tagsExtract rootReal (ent :: ents) =
    (statsOf io tagsExtract rootReal [ent]).plus (statsOf io tagsExtract rootReal ents) := by
  simp [statsOf, WalkStats.plus, List.countP_cons, Nat.add_comm]

theorem visitEnt_skip : (visitEnt io tagsExtract onFile rootReal ent w).2 =
    decide (ent.info = .d ∧ 0 < ent.level ∧ basenameIsDotfile ent.path) := by
  unfold visitEnt
  cases hinfo : ent.info with
  | d => by_cases h : 0 < ent.level ∧ basenameIsDotfile ent.path <;> simp [h]
  | f => by_cases h : basenameIsDotfile ent.path <;> simp [h]
  | sl =>
    by_cases h : basenameIsDotfile ent.path
    · simp [h]
    · cases linkTarget io rootReal ent.path <;> simp [h]
  | dnr => simp
  | ns => simp

theorem callAll_singleton (rec : TagRecord) (u : σ) : callAll onFile [rec] u = onFile rec u := by
  unfold callAll
  dsimp only
  split
  · rfl
  · next hwr =>
    cases hr : onFile rec u with
    | mk wr u' =>
      cases wr with
      | «continue» => rfl
      | stop => exact absurd (by rw [hr]) hwr

/-- The callback is called for an audio file with a record. -/
theorem processAudioFile_spec (h : w.wr = .continue) :
    let w' := processAudioFile tagsExtract onFile path w
    (w'.wr, w'.userdata) = callAll onFile (tagsExtract path).toList w.userdata ∧
      w'.stats = { w.stats with
        audioFilesSeen := w.stats.audioFilesSeen + 1
        taglibOpenFailures :=
          w.stats.taglibOpenFailures + if tagsFail tagsExtract path then 1 else 0 } := by
  unfold processAudioFile tagsFail
  cases tagsExtract path with
  | none => exact ⟨by simp [callAll, Walk.tally, h], rfl⟩
  | some rec =>
    dsimp only
    rw [Option.toList_some, callAll_singleton]
    by_cases hfailed : rec.tagReadFailed = true
    · simp [hfailed, Walk.tally]
    · simp [hfailed, Walk.tally]

/-- What the visit of an entry does to a walk that goes on. -/
theorem visitEnt_spec (h : w.wr = .continue) :
    let w' := (visitEnt io tagsExtract onFile rootReal ent w).1
    (w'.wr, w'.userdata) = callAll onFile (recordsOf io tagsExtract rootReal [ent]) w.userdata ∧
      w'.stats = w.stats.plus (statsOf io tagsExtract rootReal [ent]) := by
  have hformat : ∀ (t : Walk σ) (file : Path), t.wr = .continue → t.userdata = w.userdata →
      t.stats = { w.stats with filesSeenTotal := w.stats.filesSeenTotal + 1 } →
      kindOf io rootReal ent = formatKind file → ent.isFile = true →
      let w' := filterFormat tagsExtract onFile file t
      (w'.wr, w'.userdata) = callAll onFile (recordsOf io tagsExtract rootReal [ent]) w.userdata ∧
        w'.stats = w.stats.plus (statsOf io tagsExtract rootReal [ent]) := by
    intro t file hwr hdata hstats hkind hfile
    unfold filterFormat
    unfold formatKind at hkind
    by_cases hknown : tagsFormatFromPath file = .unknown
    · rw [if_pos hknown] at hkind ⊢
      simp [recordsOf, statsOf, hkind, hfile, Walk.tally, hwr, hdata, hstats, EntKind.handed,
        EntKind.failed, callAll, WalkStats.plus]
    · rw [if_neg hknown] at hkind ⊢
      obtain ⟨hcalls, hcount⟩ := @processAudioFile_spec _ tagsExtract onFile t file hwr
      refine ⟨?_, ?_⟩
      · rw [hcalls, hdata]
        cases hrec : tagsExtract file <;> simp [recordsOf, hkind, EntKind.handed, hrec]
      · rw [hcount, hstats]
        simp [statsOf, hkind, hfile, EntKind.handed, EntKind.failed, WalkStats.plus,
          List.countP_cons]
  -- the other kinds call nothing
  have hquiet : ∀ t : Walk σ, t.wr = .continue → t.userdata = w.userdata →
      (kindOf io rootReal ent).handed = none →
      t.stats = w.stats.plus (statsOf io tagsExtract rootReal [ent]) →
      (t.wr, t.userdata) = callAll onFile (recordsOf io tagsExtract rootReal [ent]) w.userdata ∧
        t.stats = w.stats.plus (statsOf io tagsExtract rootReal [ent]) := by
    intro t hwr hdata hnone hstats
    refine ⟨?_, hstats⟩
    simp [recordsOf, hnone, callAll, hwr, hdata]
  unfold visitEnt
  cases hinfo : ent.info with
  | d =>
    by_cases hdot : 0 < ent.level ∧ basenameIsDotfile ent.path
    · have hkind : kindOf io rootReal ent = .hidden := by simp [kindOf, hinfo, hdot]
      apply hquiet
      all_goals simp [hdot, Walk.tally, h, hkind, EntKind.handed, statsOf, WalkStats.plus,
        FtsEnt.isFile, hinfo, EntKind.failed]
    · have hkind : kindOf io rootReal ent = .entered := by simp [kindOf, hinfo, hdot]
      apply hquiet
      all_goals simp [hdot, Walk.tally, h, hkind, EntKind.handed, statsOf, WalkStats.plus,
        FtsEnt.isFile, hinfo, EntKind.failed]
  | f =>
    have hfile : ent.isFile = true := by simp [FtsEnt.isFile, hinfo]
    by_cases hdot : basenameIsDotfile ent.path
    · have hkind : kindOf io rootReal ent = .hidden := by simp [kindOf, hinfo, hdot]
      apply hquiet
      all_goals simp [hdot, Walk.tally, h, hkind, EntKind.handed, statsOf, WalkStats.plus, hfile,
        EntKind.failed]
    · have hkind : kindOf io rootReal ent = formatKind ent.path := by simp [kindOf, hinfo, hdot]
      dsimp only
      rw [if_neg hdot]
      exact hformat _ ent.path h rfl rfl hkind hfile
  | sl =>
    have hfile : ent.isFile = true := by simp [FtsEnt.isFile, hinfo]
    by_cases hdot : basenameIsDotfile ent.path
    · have hkind : kindOf io rootReal ent = .hidden := by simp [kindOf, hinfo, hdot]
      apply hquiet
      all_goals simp [hdot, Walk.tally, h, hkind, EntKind.handed, statsOf, WalkStats.plus, hfile,
        EntKind.failed]
    · dsimp only
      rw [if_neg hdot]
      cases htarget : linkTarget io rootReal ent.path with
      | none =>
        have hkind : kindOf io rootReal ent = .outside := by simp [kindOf, hinfo, hdot, htarget]
        apply hquiet
        all_goals simp [Walk.tally, h, hkind, EntKind.handed, statsOf, WalkStats.plus, hfile,
          EntKind.failed]
      | some target =>
        have hkind : kindOf io rootReal ent = formatKind target := by
          simp [kindOf, hinfo, hdot, htarget]
        exact hformat _ target h rfl rfl hkind hfile
  | dnr =>
    have hkind : kindOf io rootReal ent = .unreadable := by simp [kindOf, hinfo]
    apply hquiet
    all_goals simp [Walk.tally, h, hkind, EntKind.handed, statsOf, WalkStats.plus, FtsEnt.isFile,
      hinfo, EntKind.failed]
  | ns =>
    have hkind : kindOf io rootReal ent = .unreadable := by simp [kindOf, hinfo]
    apply hquiet
    all_goals simp [Walk.tally, h, hkind, EntKind.handed, statsOf, WalkStats.plus, FtsEnt.isFile,
      hinfo, EntKind.failed]

end Walker

/-! ### The entries of a tree -/

section Entries

variable {W : Type} {fs : Tree} (io : FtsIo fs) (skip : FtsEnt → Bool)

/-- What `fts_read` returns, where the body sets `FTS_SKIP` for some entries and never stops. -/
def ftsEntries : (depth level : Nat) → Path → List FtsEnt
  | 0, _, _ => []
  | depth + 1, level, path =>
    if io.stats path then
      match fs.node? path with
      | none => []
      | some (.file _) => [⟨path, level, .f⟩]
      | some (.symlink _) => [⟨path, level, .sl⟩]
      | some .dir =>
        ⟨path, level, .d⟩ ::
          if skip ⟨path, level, .d⟩ then []
          else if io.opens path then
            (io.order path).flatMap fun name ↦ ftsEntries depth (level + 1) (path ++ [name])
          else [⟨path, level, .dnr⟩]
    else [⟨path, level, .ns⟩]

/-- The entries that are read of a tree from some path on. -/
inductive Reported : Nat → Path → FtsEnt → Prop
  | ns {level : Nat} {path : Path} (hstat : io.stats path = false) :
    Reported level path ⟨path, level, .ns⟩
  | f {level i : Nat} {path : Path} (hstat : io.stats path = true)
    (hnode : fs.node? path = some (.file i)) : Reported level path ⟨path, level, .f⟩
  | sl {level : Nat} {path target : Path} (hstat : io.stats path = true)
    (hnode : fs.node? path = some (.symlink target)) : Reported level path ⟨path, level, .sl⟩
  | d {level : Nat} {path : Path} (hstat : io.stats path = true)
    (hnode : fs.node? path = some .dir) : Reported level path ⟨path, level, .d⟩
  | dnr {level : Nat} {path : Path} (hstat : io.stats path = true)
    (hnode : fs.node? path = some .dir) (hskip : skip ⟨path, level, .d⟩ = false)
    (hopen : io.opens path = false) : Reported level path ⟨path, level, .dnr⟩
  | entry {level : Nat} {path : Path} {name : Name} {ent : FtsEnt} (hstat : io.stats path = true)
    (hnode : fs.node? path = some .dir) (hskip : skip ⟨path, level, .d⟩ = false)
    (hopen : io.opens path = true) (hname : name ∈ fs.children path)
    (h : Reported (level + 1) (path ++ [name]) ent) : Reported level path ent

/-- One entry comes before another one: it is above it, or they are below two names of a directory
of which the first is read before the second. -/
def Precedes (ent ent' : FtsEnt) : Prop :=
  ent.path <+: ent'.path ∨ ∃ dir name name', [name, name'].Sublist (io.order dir) ∧
    dir ++ [name] <+: ent.path ∧ dir ++ [name'] <+: ent'.path

/-- One turn of the loop. -/
def ftsTurn (stopped : W → Bool) (body : FtsEnt → W → W × Bool) (w : W) (ent : FtsEnt) : W :=
  if stopped w then w else (body ent w).1

variable {io skip} {stopped : W → Bool} {body : FtsEnt → W → W × Bool} {depth level : Nat}
  {path : Path} {ent : FtsEnt} {w : W}

theorem foldl_stopped (h : stopped w = true) (ents : List FtsEnt) :
    ents.foldl (ftsTurn stopped body) w = w := by
  induction ents with
  | nil => rfl
  | cons ent ents ih =>
    rw [List.foldl_cons, ftsTurn, if_pos h]
    exact ih

/-- The walk is a loop over the entries. -/
theorem ftsWalk_eq_foldl (hskip : ∀ ent w, (body ent w).2 = skip ent) (depth level : Nat)
    (path : Path) (w : W) : ftsWalk io stopped body depth level path w =
      (ftsEntries io skip depth level path).foldl (ftsTurn stopped body) w := by
  induction depth generalizing level path w with
  | zero => rfl
  | succ depth ih =>
    rw [ftsWalk]
    by_cases hstop : stopped w = true
    · rw [if_pos hstop, foldl_stopped hstop]
    have hone : ∀ ent, [ent].foldl (ftsTurn stopped body) w = (body ent w).1 :=
      fun ent ↦ if_neg hstop
    rw [if_neg hstop, ftsEntries]
    by_cases hstat : io.stats path = true
    · rw [if_pos hstat, if_pos hstat]
      cases hnode : fs.node? path with
      | none => rfl
      | some n =>
        cases n with
        | file i => exact (hone _).symm
        | symlink target => exact (hone _).symm
        | dir =>
          dsimp only
          rw [List.foldl_cons, hskip, ftsTurn, if_neg hstop]
          by_cases hstop' : stopped (body ⟨path, level, .d⟩ w).1 = true
          · rw [foldl_stopped hstop', hstop', Bool.true_or, if_pos rfl]
          · by_cases hskips : skip ⟨path, level, .d⟩ = true
            · rw [hskips, Bool.or_true, if_pos rfl, if_pos rfl]
              rfl
            · rw [if_neg (by simp [hstop', hskips]), if_neg hskips]
              by_cases hopen : io.opens path = true
              · rw [if_pos hopen, if_pos hopen, List.foldl_flatMap]
                congr 1
                funext w name
                exact ih (level + 1) (path ++ [name]) w
              · rw [if_neg hopen, if_neg hopen, List.foldl_cons, ftsTurn, if_neg hstop']
                rfl
    · rw [if_neg hstat, if_neg hstat]
      exact (hone _).symm

theorem deep_entry {name : Name} (h : Deep fs path (depth + 1)) : Deep fs (path ++ [name]) depth := by
  intro q hq hnode
  have hlt := h q ((List.prefix_append _ _).trans hq) hnode
  rw [List.length_append, List.length_singleton]
  omega

/-- The list has the entries that are read. -/
theorem mem_ftsEntries (hdeep : Deep fs path depth) (hnode : fs.node? path ≠ none) :
    ent ∈ ftsEntries io skip depth level path ↔ Reported io skip level path ent := by
  induction depth generalizing level path with
  | zero =>
    have hlt := hdeep path List.prefix_rfl hnode
    omega
  | succ depth ih =>
    rw [ftsEntries]
    by_cases hstat : io.stats path = true
    · rw [if_pos hstat]
      cases hn : fs.node? path with
      | none => exact absurd hn hnode
      | some n =>
        cases n with
        | file i =>
          rw [List.mem_singleton]
          constructor
          · rintro rfl
            exact .f hstat hn
          · intro h
            cases h <;> simp_all
        | symlink target =>
          rw [List.mem_singleton]
          constructor
          · rintro rfl
            exact .sl hstat hn
          · intro h
            cases h <;> simp_all
        | dir =>
          rw [List.mem_cons]
          by_cases hskips : skip ⟨path, level, .d⟩ = true
          · rw [if_pos hskips]
            constructor
            · rintro (rfl | h)
              · exact .d hstat hn
              · cases h
            · intro h
              cases h <;> simp_all
          · have hskips' : skip ⟨path, level, .d⟩ = false := by simpa using hskips
            rw [if_neg hskips]
            by_cases hopen : io.opens path = true
            · rw [if_pos hopen, List.mem_flatMap]
              have hchild : ∀ name, name ∈ io.order path ↔ name ∈ fs.children path :=
                fun name ↦ (io.perm path).mem_iff
              constructor
              · rintro (rfl | ⟨name, hname, hent⟩)
                · exact .d hstat hn
                · have hname := (hchild name).mp hname
                  exact .entry hstat hn hskips' hopen hname
                    ((ih (deep_entry hdeep) (mem_children.mp hname)).mp hent)
              · intro h
                cases h with
                | entry _ _ _ _ hname h =>
                  exact .inr ⟨_, (hchild _).mpr hname,
                    (ih (deep_entry hdeep) (mem_children.mp hname)).mpr h⟩
                | _ => simp_all
            · rw [if_neg hopen, List.mem_singleton]
              have hopen' : io.opens path = false := by simpa using hopen
              constructor
              · rintro (rfl | rfl)
                · exact .d hstat hn
                · exact .dnr hstat hn hskips' hopen'
              · intro h
                cases h <;> simp_all
    · have hstat' : io.stats path = false := by simpa using hstat
      rw [if_neg hstat, List.mem_singleton]
      constructor
      · rintro rfl
        exact .ns hstat'
      · intro h
        cases h <;> simp_all

theorem isPrefix_of_mem_ftsEntries (h : ent ∈ ftsEntries io skip depth level path) :
    path <+: ent.path := by
  induction depth generalizing level path with
  | zero => cases h
  | succ depth ih =>
    rw [ftsEntries] at h
    split at h
    · split at h
      · cases h
      · rw [List.mem_singleton.mp h]
      · rw [List.mem_singleton.mp h]
      · rcases List.mem_cons.mp h with rfl | h
        · exact List.prefix_rfl
        · split at h
          · cases h
          · split at h
            · obtain ⟨name, -, hent⟩ := List.mem_flatMap.mp h
              exact (List.prefix_append _ _).trans (ih hent)
            · rw [List.mem_singleton.mp h]
    · rw [List.mem_singleton.mp h]

/-- No entry is read twice. -/
theorem nodup_ftsEntries : (ftsEntries io skip depth level path).Nodup := by
  induction depth generalizing level path with
  | zero => exact List.nodup_nil
  | succ depth ih =>
    rw [ftsEntries]
    split
    · split
      · exact List.nodup_nil
      · exact List.nodup_singleton _
      · exact List.nodup_singleton _
      · split
        · exact List.nodup_singleton _
        · split
          · rw [List.nodup_cons]
            constructor
            · intro h
              obtain ⟨name, -, hent⟩ := List.mem_flatMap.mp h
              have hlen := (isPrefix_of_mem_ftsEntries hent).length_le
              rw [List.length_append, List.length_singleton] at hlen
              exact Nat.not_succ_le_self _ hlen
            · rw [List.nodup_flatMap]
              refine ⟨fun name _ ↦ ih, ?_⟩
              have hnodup : (io.order path).Nodup :=
                (io.perm path).nodup_iff.mpr (nodup_children fs path)
              apply hnodup.imp
              intro name name' hne ent hent hent'
              exact not_both_below hne (isPrefix_of_mem_ftsEntries hent)
                (isPrefix_of_mem_ftsEntries hent')
          · simp
    · exact List.nodup_singleton _

/-- A directory comes before its entries, and the entries come in the order in which they are read. -/
theorem pairwise_ftsEntries : (ftsEntries io skip depth level path).Pairwise (Precedes io) := by
  induction depth generalizing level path with
  | zero => exact .nil
  | succ depth ih =>
    rw [ftsEntries]
    split
    · split
      · exact .nil
      · exact List.pairwise_singleton _ _
      · exact List.pairwise_singleton _ _
      · split
        · exact List.pairwise_singleton _ _
        · split
          · rw [List.pairwise_cons]
            constructor
            · intro ent hent
              obtain ⟨name, -, hent⟩ := List.mem_flatMap.mp hent
              exact .inl ((List.prefix_append _ _).trans (isPrefix_of_mem_ftsEntries hent))
            · rw [List.pairwise_flatMap]
              refine ⟨fun name _ ↦ ih, List.pairwise_iff_forall_sublist.mpr ?_⟩
              intro name name' hsub ent hent ent' hent'
              exact .inr ⟨path, name, name', hsub, isPrefix_of_mem_ftsEntries hent,
                isPrefix_of_mem_ftsEntries hent'⟩
          · rw [List.pairwise_cons]
            refine ⟨fun ent hent ↦ .inl ?_, List.pairwise_singleton _ _⟩
            rw [List.mem_singleton.mp hent]
    · exact List.pairwise_singleton _ _

end Entries

/-! ### The walk -/

section Exact

variable {σ : Type} {fs : Tree} {io : FtsIo fs} {tagsExtract : Path → Option TagRecord}
  {onFile : TagRecord → σ → WalkResult × σ} {rootReal : Path}

/-- The entries below the root for which `FTS_SKIP` is set. -/
def skipsDotDir (ent : FtsEnt) : Bool :=
  decide (ent.info = .d ∧ 0 < ent.level ∧ basenameIsDotfile ent.path)

theorem callAll_append (recs recs' : List TagRecord) (u : σ) :
    callAll onFile (recs ++ recs') u =
      let r := callAll onFile recs u
      if r.1 = .stop then r else callAll onFile recs' r.2 := by
  induction recs generalizing u with
  | nil => simp [callAll]
  | cons rec recs ih =>
    rw [List.cons_append, callAll, callAll]
    by_cases hstop : (onFile rec u).1 = .stop
    · simp [hstop]
    · simp only [hstop, if_false, ih]

theorem recordsOf_cons (ent : FtsEnt) (ents : List FtsEnt) :
    recordsOf io tagsExtract rootReal (ent :: ents) =
      recordsOf io tagsExtract rootReal [ent] ++ recordsOf io tagsExtract rootReal ents := by
  unfold recordsOf
  rw [← List.filterMap_append, ← List.filterMap_append]
  rfl

/-- The loop over some entries calls the callback on their records, and counts them all unless it
stops. -/
theorem foldl_visitEnt (ents : List FtsEnt) (w : Walk σ) (h : w.wr = .continue) :
    let w' := ents.foldl (ftsTurn (fun w ↦ w.wr = .stop)
      (visitEnt io tagsExtract onFile rootReal)) w
    (w'.wr, w'.userdata) = callAll onFile (recordsOf io tagsExtract rootReal ents) w.userdata ∧
      (w'.wr = .continue → w'.stats = w.stats.plus (statsOf io tagsExtract rootReal ents)) := by
  induction ents generalizing w with
  | nil =>
    refine ⟨?_, fun _ ↦ rfl⟩
    show (w.wr, w.userdata) = (.continue, w.userdata)
    rw [h]
  | cons ent ents ih =>
    obtain ⟨hcalls, hstats⟩ := @visitEnt_spec _ _ io tagsExtract onFile rootReal w ent h
    have hturn : ftsTurn (fun w ↦ w.wr = .stop) (visitEnt io tagsExtract onFile rootReal) w ent =
        (visitEnt io tagsExtract onFile rootReal ent w).1 := if_neg (by simp [h])
    intro w'
    have hw' : w' = ents.foldl (ftsTurn (fun w ↦ w.wr = .stop)
        (visitEnt io tagsExtract onFile rootReal))
          (visitEnt io tagsExtract onFile rootReal ent w).1 := by
      rw [← hturn]
      rfl
    rw [recordsOf_cons, callAll_append, ← hcalls]
    by_cases hstop : (visitEnt io tagsExtract onFile rootReal ent w).1.wr = .stop
    · rw [hw', foldl_stopped (by simp [hstop])]
      simp [hstop]
    · have hgo : (visitEnt io tagsExtract onFile rootReal ent w).1.wr = .continue := by
        cases hwr : (visitEnt io tagsExtract onFile rootReal ent w).1.wr with
        | «continue» => rfl
        | stop => exact absurd hwr hstop
      obtain ⟨hcalls', hstats'⟩ := ih _ hgo
      rw [← hw'] at hcalls' hstats'
      refine ⟨?_, fun hwr ↦ ?_⟩
      · dsimp only
        rw [if_neg hstop]
        exact hcalls'
      · rw [hstats' hwr, hstats, statsOf_cons ents, WalkStats.plus_assoc]

theorem WalkStats.zero_plus (c : WalkStats) : WalkStats.plus ⟨0, 0, 0, 0, 0, 0, 0⟩ c = c := by
  simp [WalkStats.plus]

/-- Each file, symbolic link or hidden directory is counted once. -/
theorem kindOf_accounts (ent : FtsEnt) :
    (if ent.isFile then 1 else 0) + (if skipsDotDir ent then 1 else 0) =
      (if (kindOf io rootReal ent).handed.isSome then 1 else 0) +
        (if kindOf io rootReal ent = .nonAudio then 1 else 0) +
          (if kindOf io rootReal ent = .hidden then 1 else 0) +
            if kindOf io rootReal ent = .outside then 1 else 0 := by
  have hformat : ∀ path, (if (formatKind path).handed.isSome then 1 else 0) +
      (if formatKind path = .nonAudio then 1 else 0) + (if formatKind path = .hidden then 1 else 0) +
        (if formatKind path = .outside then 1 else 0) = 1 := by
    intro path
    unfold formatKind
    split <;> simp [EntKind.handed]
  unfold kindOf skipsDotDir FtsEnt.isFile
  cases ent.info with
  | d => by_cases h : 0 < ent.level ∧ basenameIsDotfile ent.path <;> simp [h, EntKind.handed]
  | f =>
    by_cases h : basenameIsDotfile ent.path
    · simp [h, EntKind.handed]
    · simp [h, hformat]
  | sl =>
    by_cases h : basenameIsDotfile ent.path
    · simp [h, EntKind.handed]
    · cases linkTarget io rootReal ent.path with
      | none => simp [h, EntKind.handed]
      | some target => simp [h, hformat]
  | dnr => simp [EntKind.handed]
  | ns => simp [EntKind.handed]

theorem statsOf_accounts (ents : List FtsEnt) :
    (statsOf io tagsExtract rootReal ents).filesSeenTotal + ents.countP skipsDotDir =
      (statsOf io tagsExtract rootReal ents).audioFilesSeen +
        (statsOf io tagsExtract rootReal ents).skippedNonAudio +
          (statsOf io tagsExtract rootReal ents).skippedDotfiles +
            (statsOf io tagsExtract rootReal ents).skippedSymlinksOutsideRoot := by
  unfold statsOf
  dsimp only
  induction ents with
  | nil => rfl
  | cons ent ents ih =>
    have hone := @kindOf_accounts fs io rootReal ent
    simp only [List.countP_cons, decide_eq_true_eq]
    omega

/-- The entries of the tree below the root. -/
def rootEntries (io : FtsIo fs) (rootReal : Path) : List FtsEnt :=
  ftsEntries io skipsDotDir (treeDepth fs + 1) 0 rootReal

theorem mem_rootEntries (hdir : fs.node? rootReal = some .dir) {ent : FtsEnt} :
    ent ∈ rootEntries io rootReal ↔ Reported io skipsDotDir 0 rootReal ent := by
  have hdeep : Deep fs rootReal (treeDepth fs + 1) := deep_of_lt (by omega)
  apply mem_ftsEntries hdeep
  rw [hdir]
  exact Option.some_ne_none _

/-- The walk from a root that is a directory. -/
theorem walkerWalk_spec {root : Path} (hroot : realpath fs root = some rootReal)
    (hdir : fs.node? rootReal = some .dir) (u : σ) :
    let r := walkerWalk io tagsExtract onFile root u
    r.1 = 0 ∧ (r.2.wr, r.2.userdata) =
        callAll onFile (recordsOf io tagsExtract rootReal (rootEntries io rootReal)) u ∧
      (r.2.wr = .continue →
        r.2.stats = statsOf io tagsExtract rootReal (rootEntries io rootReal)) := by
  have hstat : fs.stat? rootReal = some .dir := by
    unfold stat? locate
    rw [hdir, Option.bind_some, hdir]
  have hwalk : walkerWalk io tagsExtract onFile root u =
      (0, (rootEntries io rootReal).foldl
        (ftsTurn (fun w ↦ w.wr = .stop) (visitEnt io tagsExtract onFile rootReal))
          ⟨⟨0, 0, 0, 0, 0, 0, 0⟩, u, .continue⟩) := by
    unfold walkerWalk
    rw [hroot]
    dsimp only
    rw [if_pos hstat]
    exact congrArg _ (@ftsWalk_eq_foldl _ _ io _ _ (visitEnt io tagsExtract onFile rootReal)
      (fun _ _ ↦ visitEnt_skip) _ _ _ _)
  obtain ⟨hcalls, hstats⟩ := @foldl_visitEnt _ _ io tagsExtract onFile rootReal
    (rootEntries io rootReal) ⟨⟨0, 0, 0, 0, 0, 0, 0⟩, u, .continue⟩ rfl
  rw [hwalk]
  refine ⟨rfl, hcalls, fun hwr ↦ ?_⟩
  rw [hstats hwr, WalkStats.zero_plus]

/-- **The walk is exact.** It reads each entry that `fts` reports once, a directory before its entries
and these in the order of the directory, calls the callback on the audio files among them in that
order until the callback stops it, and otherwise counts each of them: a file or a symbolic link is
handed over, has no audio format, is hidden or leads outside. -/
theorem walker_exact (io : FtsIo fs) (tagsExtract : Path → Option TagRecord)
    (onFile : TagRecord → σ → WalkResult × σ) {root rootReal : Path}
    (hroot : realpath fs root = some rootReal) (hdir : fs.node? rootReal = some .dir) (u : σ) :
    let ents := rootEntries io rootReal
    let r := walkerWalk io tagsExtract onFile root u
    ents.Nodup ∧ (∀ ent, ent ∈ ents ↔ Reported io skipsDotDir 0 rootReal ent) ∧
      ents.Pairwise (Precedes io) ∧ r.1 = 0 ∧
      (r.2.wr, r.2.userdata) = callAll onFile (recordsOf io tagsExtract rootReal ents) u ∧
      (r.2.wr = .continue → r.2.stats = statsOf io tagsExtract rootReal ents ∧
        r.2.stats.filesSeenTotal + ents.countP skipsDotDir =
          r.2.stats.audioFilesSeen + r.2.stats.skippedNonAudio + r.2.stats.skippedDotfiles +
            r.2.stats.skippedSymlinksOutsideRoot) := by
  obtain ⟨hrc, hcalls, hstats⟩ :=
    @walkerWalk_spec σ fs io tagsExtract onFile rootReal root hroot hdir u
  refine ⟨nodup_ftsEntries, fun ent ↦ mem_rootEntries hdir, pairwise_ftsEntries, hrc, hcalls,
    fun hwr ↦ ?_⟩
  refine ⟨hstats hwr, ?_⟩
  rw [hstats hwr]
  exact statsOf_accounts _

end Exact

/-! ### What a scan takes the walk to be -/

section Lists

variable {fs : Tree} {io : FtsIo fs} {tagsExtract : Path → Option TagRecord} {rootReal path : Path}
  {level : Nat} {ent : FtsEnt}

/-- Each entry below a path stands in a directory. -/
def Planted (fs : Tree) (root : Path) : Prop :=
  ∀ p, root <+: p → p ≠ root → fs.node? p ≠ none → fs.node? p.dropLast = some .dir

/-- The directories on the way to an entry. -/
theorem Planted.dir (h : Planted fs path) {tail : Path} (hne : tail ≠ [])
    (hnode : fs.node? (path ++ tail) ≠ none) : fs.node? path = some .dir := by
  induction tail using List.reverseRecOn with
  | nil => exact absurd rfl hne
  | append_singleton tail name ih =>
    have hup := h (path ++ (tail ++ [name])) (List.prefix_append _ _) (by simp) hnode
    rw [← List.append_assoc, List.dropLast_concat] at hup
    by_cases hnil : tail = []
    · rw [hnil, List.append_nil] at hup
      exact hup
    · apply ih hnil
      rw [hup]
      exact Option.some_ne_none _

theorem Planted.entry {name : Name} (h : Planted fs path) : Planted fs (path ++ [name]) := by
  intro p hp _ hnode
  refine h p ((List.prefix_append _ _).trans hp) ?_ hnode
  rintro rfl
  have hlen := hp.length_le
  rw [List.length_append, List.length_singleton] at hlen
  omega

/-- A callback that collects the records. -/
def collect (rec : TagRecord) (recs : List TagRecord) : WalkResult × List TagRecord :=
  (.continue, recs ++ [rec])

end Lists

namespace LinkedTwice

/-- A library with one track, and a symbolic link to it. -/
def library : Path := [ascii "music"]

def pathA : Path := library ++ [ascii "a.flac"]

def pathB : Path := library ++ [ascii "b.flac"]

def shelf : Tree :=
  ((Tree.empty.addDir library).addFile pathA ⟨.plain [1], 1, 1⟩).place pathB (.symlink pathA)
    fun _ h ↦ by cases h

/-- No call fails. -/
def io : FtsIo shelf := ⟨fun _ ↦ true, fun _ ↦ true, fun _ ↦ true, shelf.children, fun _ ↦ .refl _⟩

def tagsExtract (path : Path) : Option TagRecord := some (.untagged path)

theorem walked :
    let ents := rootEntries io library
    let r := walkerWalk io tagsExtract collect library []
    ents.Nodup ∧ (∀ ent, ent ∈ ents ↔ Reported io skipsDotDir 0 library ent) ∧
      ents.Pairwise (Precedes io) ∧ r.1 = 0 ∧
      (r.2.wr, r.2.userdata) = callAll collect (recordsOf io tagsExtract library ents) [] ∧
      (r.2.wr = .continue → r.2.stats = statsOf io tagsExtract library ents ∧
        r.2.stats.filesSeenTotal + ents.countP skipsDotDir =
          r.2.stats.audioFilesSeen + r.2.stats.skippedNonAudio + r.2.stats.skippedDotfiles +
            r.2.stats.skippedSymlinksOutsideRoot) :=
  walker_exact io tagsExtract collect (by decide +kernel) (by decide +kernel) []

end LinkedTwice

end Tagcheck

end Nocturne
