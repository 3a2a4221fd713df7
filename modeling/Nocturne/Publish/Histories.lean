import Nocturne.Catalog.Emit
import Nocturne.Lib.Steps
import Nocturne.Publish.AtomicWriter
import Nocturne.Publish.Manifest

/-!
# Publishing again and again

`publish_run` writes `catalog.json` and then `manifest.json`, each through the atomic writer. A run
may fail or die at any point, and the next one begins with what it has left. Jansson, which prints
the documents, is a parameter.
-/

namespace Nocturne

open Lib

/-! ### One file -/

/-- How the calls go that write one file. -/
structure FileReplies where
  opens : Bool
  drains : List (Nat × Drain)
  closeFlush : Drain
  commit : CommitReplies

/-- `json_dumpf`, with the text that it prints: it fails where a write to the stream fails. -/
def jsonDumpf (fp : Stream UInt8) (text : Text) (drains : List (Nat × Drain)) :
    Int × Stream UInt8 :=
  let fp := fp.write text drains
  (if fp.error then -1 else 0, fp)

/-- One document written into place: `publish.c:121–131` for the catalog, where there may be none to
print because the query fails, and `publish.c:136–147` for the manifest. -/
def publishFile (disk : Disk) (path : Path) (pid : Nat) (text : Option Text) (r : FileReplies) :
    Int × Disk :=
  match (if r.opens then atomicWriterOpen disk path pid else none) with
  | none => (-1, disk)
  | some w =>
    match text with
    | none => (-1, atomicWriterAbort w Stream.new r.closeFlush)
    | some text =>
      let (rc, fp) := jsonDumpf Stream.new text r.drains
      if rc ≠ 0 then (-1, atomicWriterAbort w fp r.closeFlush)
      else
        let (rc, disk) := atomicWriterCommit w fp r.commit
        if rc ≠ 0 then (-1, disk) else (0, disk)

/-- What a process leaves that dies before the rename, with some bytes in the temporary file. -/
def leftBehind (disk : Disk) (path : Path) (pid : Nat) (bytes : Text) : Disk :=
  match atomicWriterOpen disk path pid with
  | none => disk
  | some w => w.disk.write w.ino bytes

/-! ### One run -/

/-- Where a run dies: before, between or after the documents, or with a part of one of them in a
temporary file. -/
inductive PublishDeath
  | first
  | catalog (bytes : Text)
  | between
  | manifest (bytes : Text)
  | last
  deriving DecidableEq, Repr

/-- How a query goes: it cannot be prepared, a step of it fails behind some rows, or it hands over
all of them. -/
inductive QueryReply
  | fails
  | stops (rows : Nat)
  | runs
  deriving DecidableEq, Repr

/-- The rows that the loop over a query sees, which takes a step that fails for the end of them. -/
def QueryReply.rows {α : Type} : QueryReply → List α → Option (List α)
  | .fails, _ => none
  | .stops k, all => some (all.take k)
  | .runs, all => some all

/-- How the queries of a run go: those of `load_manifest_tree` and those of `catalog_emit`. Of those
that ask for one value it only matters whether they give it. -/
structure PublishQueries where
  resident : QueryReply
  capBytes : Bool
  usedBytes : Bool
  libraryRoot : Bool
  tracks : QueryReply
  deriving DecidableEq, Repr

/-- No query fails. -/
def PublishQueries.all : PublishQueries := ⟨.runs, true, true, true, .runs⟩

/-- A run: the process, the database and the clock that it finds, and how its calls go. -/
structure PublishRun where
  pid : Nat
  db : Db
  manifestNow : Int
  catalogNow : Int
  mkdir : Bool
  queries : PublishQueries
  catalog : FileReplies
  manifest : FileReplies
  death : Option PublishDeath

/-- Jansson: what it reads of a text, and how it prints a document. -/
structure Jansson where
  loads : Text → Option JsonTree
  dump : JsonTree → Text

/-- What a run puts on the disk, and where. -/
def catalogPath (outDir : Path) : Path := outDir ++ [ascii "catalog.json"]

def manifestPath (outDir : Path) : Path := outDir ++ [ascii "manifest.json"]

/-- The catalog of what its queries hand over, unless that of the tracks cannot be prepared. -/
def PublishRun.catalogText (j : Jansson) (run : PublishRun) : Option Text :=
  let tables := run.db.catalogTables
  let libraryRoot := if run.queries.libraryRoot then loadLibraryRoot tables else none
  (run.queries.tracks.rows tables.select).map fun rows ↦
    j.dump (catalogTree j.loads run.catalogNow libraryRoot rows)

/-- The manifest of what its queries hand over, unless there are no rows. -/
def PublishRun.manifestText (j : Jansson) (run : PublishRun) : Option Text := do
  let rows ← run.queries.resident.rows run.db.prevLoad
  let capBytes := if run.queries.capBytes then metaLong run.db (ascii "cap_bytes") 0 else 0
  let usedBytes := if run.queries.usedBytes then metaLong run.db (ascii "used_bytes") 0 else 0
  (manifestTree run.manifestNow capBytes usedBytes rows).map j.dump

/-- `publish_run`, `publish.c:102–151`: its result, unless it dies, and the disk. -/
def publishRun (j : Jansson) (outDir : Path) (disk : Disk) (run : PublishRun) :
    Option Int × Disk :=
  if !run.mkdir then (some (-1), disk)
  else
    match run.manifestText j with
    | none => (some (-1), disk)
    | some manifest =>
      match run.death with
      | some .first => (none, disk)
      | some (.catalog bytes) => (none, leftBehind disk (catalogPath outDir) run.pid bytes)
      | death =>
        let (rc, disk) :=
          publishFile disk (catalogPath outDir) run.pid (run.catalogText j) run.catalog
        if rc ≠ 0 then (some (-1), disk)
        else
          match death with
          | some .between => (none, disk)
          | some (.manifest bytes) => (none, leftBehind disk (manifestPath outDir) run.pid bytes)
          | death =>
            let (rc, disk) :=
              publishFile disk (manifestPath outDir) run.pid (some manifest) run.manifest
            (if death = some .last then none else some rc, disk)

/-- The disk after some runs. -/
def publishAll (j : Jansson) (outDir : Path) (disk : Disk) (runs : List PublishRun) : Disk :=
  Steps.after (fun disk run ↦ (publishRun j outDir disk run).2) disk runs

/-! ### No file has two names -/

/-- No two entries are one file. -/
def Disk.Unshared (disk : Disk) : Prop :=
  ∀ p q i, disk.node? p = some (.file i) → disk.node? q = some (.file i) → p = q

section

variable {disk disk' : Disk} {w : AtomicWriter} {path q : Path} {pid : Nat}

theorem Disk.Unshared.write (h : disk.Unshared) (i : Nat) (d : Text) :
    Disk.Unshared (disk.write i d) := h

theorem Disk.Unshared.addFile (h : disk.Unshared) (p : Path) (d : Text) :
    Disk.Unshared (disk.addFile p d) := by
  intro q q' i hq hq'
  rw [Fs.node?_addFile] at hq hq'
  have hfresh : ∀ {q : Path}, disk.node? q ≠ some (.file disk.next) :=
    fun hn ↦ Nat.lt_irrefl _ (disk.fresh hn)
  split at hq <;> split at hq'
  · simp_all
  · cases hq
    exact absurd hq' hfresh
  · cases hq'
    exact absurd hq hfresh
  · exact h q q' i hq hq'

theorem Disk.Unshared.dropTmp (h : disk.Unshared) (tmp : Path) :
    Disk.Unshared (disk.dropTmp tmp) := by
  unfold Disk.dropTmp
  cases hcall : disk.unlink tmp with
  | error e => exact h
  | ok disk' =>
    obtain ⟨-, rfl⟩ := Fs.unlink_ok hcall
    intro q q' i hq hq'
    rw [Fs.node?_clear] at hq hq'
    split at hq
    · cases hq
    · split at hq'
      · cases hq'
      · exact h q q' i hq hq'

theorem Disk.Unshared.rename (h : disk.Unshared) {old new : Path}
    (hcall : disk.rename old new = .ok disk') : disk'.Unshared := by
  obtain ⟨n, hn, -, -, ⟨-, rfl⟩ | hnodes⟩ := Fs.rename_ok hcall
  · exact h
  · intro q q' i hq hq'
    rw [hnodes] at hq hq'
    -- the entry that is moved was at the old path only
    grind [Disk.Unshared]

/-! ### What one file comes to -/

theorem open_spec (h : atomicWriterOpen disk path pid = some w) (hdisk : disk.Unshared) :
    w.finalPath = path ∧ w.tmpPath = makeTmpPath path pid ∧ w.disk.Unshared ∧
      ∀ q, q ≠ w.tmpPath → w.disk.at q = disk.at q := by
  unfold atomicWriterOpen at h
  split at h
  · cases h
    exact ⟨rfl, rfl, hdisk.addFile _ [], fun q hq ↦ at_addFile hq []⟩
  · rename_i i hfile
    split at h
    · cases h
    · cases h
      exact ⟨rfl, rfl, hdisk.write i [],
        fun q hq ↦ at_write (fun hn ↦ hq (hdisk q _ i hn hfile)) []⟩
  · cases h

/-- What is written does not show anywhere else. -/
theorem at_written_of_ne (hdisk : w.disk.Unshared) (fp : Stream UInt8) (hq : q ≠ w.tmpPath) :
    (w.written fp).at q = w.disk.at q :=
  at_write (fun hn ↦ hq (hdisk q w.tmpPath w.ino hn w.opened)) fp.file

theorem at_rename_of_ne {old new : Path} (hcall : disk.rename old new = .ok disk')
    (hold : q ≠ old) (hnew : q ≠ new) : disk'.at q = disk.at q := by
  obtain ⟨n, -, -, hdata, ⟨-, rfl⟩ | hnodes⟩ := Fs.rename_ok hcall
  · rfl
  · unfold Disk.at
    rw [hnodes, if_neg hold, if_neg hnew, hdata]

/-- An abort keeps what is at other paths than that of the temporary file. -/
theorem abort_frame (hdisk : w.disk.Unshared) (fp : Stream UInt8) (closeFlush : Drain) :
    (atomicWriterAbort w fp closeFlush).Unshared ∧
      ∀ q, q ≠ w.tmpPath → (atomicWriterAbort w fp closeFlush).at q = w.disk.at q := by
  unfold atomicWriterAbort
  refine ⟨(hdisk.write w.ino _).dropTmp _, fun q hq ↦ ?_⟩
  rw [at_dropTmp hq, at_written_of_ne hdisk _ hq]

/-- A commit keeps what is at other paths. -/
theorem commit_frame (hdisk : w.disk.Unshared) (fp : Stream UInt8) (r : CommitReplies) :
    (atomicWriterCommit w fp r).2.Unshared ∧
      ∀ q, q ≠ w.tmpPath → q ≠ w.finalPath → (atomicWriterCommit w fp r).2.at q = w.disk.at q := by
  have hwritten : (w.written ((fp.drain r.flush).drain r.closeFlush)).Unshared := hdisk.write _ _
  have hdropped : ((w.written ((fp.drain r.flush).drain r.closeFlush)).dropTmp w.tmpPath).Unshared ∧
      ∀ q, q ≠ w.tmpPath → q ≠ w.finalPath →
        ((w.written ((fp.drain r.flush).drain r.closeFlush)).dropTmp w.tmpPath).at q =
          w.disk.at q :=
    ⟨hwritten.dropTmp _, fun q hq _ ↦ by rw [at_dropTmp hq, at_written_of_ne hdisk _ hq]⟩
  unfold atomicWriterCommit
  dsimp only
  split
  · exact hdropped
  · cases hrename : r.rename with
    | some e => exact hdropped
    | none =>
      cases hcall : (w.written ((fp.drain r.flush).drain r.closeFlush)).rename w.tmpPath
        w.finalPath with
      | error e =>
        rw [Disk.renameOr, hcall]
        exact hdropped
      | ok disk' =>
        rw [Disk.renameOr, hcall]
        refine ⟨hwritten.rename hcall, fun q hq hne ↦ ?_⟩
        show Disk.at disk' q = w.disk.at q
        rw [at_rename_of_ne hcall hq hne, at_written_of_ne hdisk _ hq]

/-- The last write of the buffer, in `fflush`, is cut off, and nothing is said about it. -/
def FileReplies.losesTail (r : FileReplies) (text : Text) : Bool :=
  (Stream.new.write text r.drains).cutsOff r.commit.flush

/-- A file that was committed: it has all of the text, unless its tail was lost. -/
def Shows (disk : Disk) (path : Path) (text : Text) (r : FileReplies) : Prop :=
  ∃ bytes, disk.Has path bytes ∧ (bytes = text ↔ r.losesTail text = false)

/-- A file fails to be published and is what it was, or it is published. -/
theorem publishFile_spec (hdisk : disk.Unshared) (path : Path) (pid : Nat) (text : Option Text)
    (r : FileReplies) :
    (publishFile disk path pid text r).2.Unshared ∧
      (∀ q, q ≠ makeTmpPath path pid → q ≠ path →
        (publishFile disk path pid text r).2.at q = disk.at q) ∧
      (((publishFile disk path pid text r).1 ≠ 0 ∧
          (publishFile disk path pid text r).2.at path = disk.at path) ∨
        ((publishFile disk path pid text r).1 = 0 ∧
          ∃ t, text = some t ∧ Shows (publishFile disk path pid text r).2 path t r)) := by
  have hneg : (-1 : Int) ≠ 0 := by decide
  have hsame : disk.Unshared ∧ (∀ q, q ≠ makeTmpPath path pid → q ≠ path → disk.at q = disk.at q) ∧
      (((-1 : Int) ≠ 0 ∧ disk.at path = disk.at path) ∨
        ((-1 : Int) = 0 ∧ ∃ t, text = some t ∧ Shows disk path t r)) :=
    ⟨hdisk, fun _ _ _ ↦ rfl, Or.inl ⟨hneg, rfl⟩⟩
  unfold publishFile
  cases hopen : (if r.opens then atomicWriterOpen disk path pid else none) with
  | none => exact hsame
  | some w =>
    have hopened : atomicWriterOpen disk path pid = some w := by
      split at hopen
      · exact hopen
      · cases hopen
    obtain ⟨hfinal, htmp, hunshared, hat⟩ := open_spec hopened hdisk
    have htmpne : path ≠ w.tmpPath := hfinal ▸ w.tmp_ne
    -- an abort is the same whatever was written
    have habort : ∀ fp : Stream UInt8, (atomicWriterAbort w fp r.closeFlush).Unshared ∧
        (∀ q, q ≠ makeTmpPath path pid → q ≠ path →
          (atomicWriterAbort w fp r.closeFlush).at q = disk.at q) ∧
        (atomicWriterAbort w fp r.closeFlush).at path = disk.at path := by
      intro fp
      obtain ⟨hu, hframe⟩ := abort_frame hunshared fp r.closeFlush
      exact ⟨hu, fun q hq _ ↦ (hframe q (htmp ▸ hq)).trans (hat q (htmp ▸ hq)),
        (hframe path htmpne).trans (hat path htmpne)⟩
    cases text with
    | none =>
      obtain ⟨hu, hq, hp⟩ := habort Stream.new
      exact ⟨hu, hq, Or.inl ⟨hneg, hp⟩⟩
    | some t =>
      dsimp only [jsonDumpf]
      by_cases herror : (Stream.new.write t r.drains).error = true
      · rw [if_pos herror, if_pos (by decide)]
        obtain ⟨hu, hq, hp⟩ := habort (Stream.new.write t r.drains)
        exact ⟨hu, hq, Or.inl ⟨hneg, hp⟩⟩
      · rw [if_neg herror, if_neg (by decide)]
        obtain ⟨hu, hframe⟩ := commit_frame hunshared (Stream.new.write t r.drains) r.commit
        have hothers : ∀ q, q ≠ makeTmpPath path pid → q ≠ path →
            (atomicWriterCommit w (Stream.new.write t r.drains) r.commit).2.at q = disk.at q := by
          intro q hq hne
          rw [hframe q (htmp ▸ hq) (hfinal ▸ hne), hat q (htmp ▸ hq)]
        rcases atomicWriterCommit_spec w (Stream.new.write t r.drains) r.commit with
          ⟨-, hrc, hkept⟩ | ⟨-, hrc, hhas⟩
        · rw [if_pos hrc]
          rw [hfinal, hat path htmpne] at hkept
          exact ⟨hu, hothers, Or.inl ⟨hneg, hkept⟩⟩
        · rw [if_neg (not_not.mpr hrc)]
          rw [hfinal] at hhas
          refine ⟨hu, hothers, Or.inr ⟨rfl, t, rfl, _, hhas, ?_⟩⟩
          have hkeeps := (Stream.keeps_new.write t r.drains).drain r.commit.flush
          rw [List.nil_append] at hkeeps
          rw [hkeeps.file_eq_iff (Stream.buffer_drain _ _), Stream.error_drain,
            Bool.or_eq_false_iff, and_iff_right (by simpa using herror)]
          exact Iff.rfl

/-- What a process leaves behind that dies shows only in its temporary file. -/
theorem leftBehind_spec (hdisk : disk.Unshared) (path : Path) (pid : Nat) (bytes : Text) :
    (leftBehind disk path pid bytes).Unshared ∧
      ∀ q, q ≠ makeTmpPath path pid → (leftBehind disk path pid bytes).at q = disk.at q := by
  unfold leftBehind
  cases hopen : atomicWriterOpen disk path pid with
  | none => exact ⟨hdisk, fun _ _ ↦ rfl⟩
  | some w =>
    obtain ⟨-, htmp, hunshared, hat⟩ := open_spec hopen hdisk
    refine ⟨hunshared.write w.ino bytes, fun q hq ↦ ?_⟩
    rw [← hat q (htmp ▸ hq)]
    exact at_write (fun hn ↦ hq (htmp ▸ hunshared q w.tmpPath w.ino hn w.opened)) bytes

/-! ### What one run comes to -/

variable {j : Jansson} {outDir : Path} {run : PublishRun}

/-- The names of the two documents and of their temporary files. -/
theorem paths_ne (outDir : Path) (pid : Nat) :
    catalogPath outDir ≠ manifestPath outDir ∧
      catalogPath outDir ≠ makeTmpPath (manifestPath outDir) pid ∧
      manifestPath outDir ≠ makeTmpPath (catalogPath outDir) pid := by
  have hcatalog : ascii "catalog.json" = 99 :: (ascii "catalog.json").tail := by decide +kernel
  have hmanifest : ascii "manifest.json" = 109 :: (ascii "manifest.json").tail := by decide +kernel
  simp only [catalogPath, manifestPath, makeTmpPath, List.dropLast_concat, List.getLast?_concat,
    Option.getD_some, ne_eq, List.append_cancel_left_eq, List.cons.injEq, and_true]
  rw [hcatalog, hmanifest]
  simp

/-- What a run shows: nothing new, a new catalog, or a new catalog and a new manifest. -/
structure Ran (j : Jansson) (outDir : Path) (disk : Disk) (run : PublishRun) (result : Option Int)
    (disk' : Disk) : Prop where
  unshared : disk'.Unshared
  catalog : disk'.at (catalogPath outDir) = disk.at (catalogPath outDir) ∨
    ∃ text ∈ run.catalogText j, Shows disk' (catalogPath outDir) text run.catalog
  manifest : (disk'.at (manifestPath outDir) = disk.at (manifestPath outDir) ∧ result ≠ some 0) ∨
    (∃ text ∈ run.catalogText j, Shows disk' (catalogPath outDir) text run.catalog) ∧
      ∃ text ∈ run.manifestText j, Shows disk' (manifestPath outDir) text run.manifest

theorem Shows.of_at {text : Text} {r : FileReplies} (h : Shows disk q text r)
    (hat : disk'.at q = disk.at q) : Shows disk' q text r := by
  obtain ⟨bytes, ⟨i, hi, rfl⟩, hiff⟩ := h
  unfold Disk.at at hat
  rw [hi] at hat
  obtain ⟨n, hn, heq⟩ := Option.map_eq_some_iff.mp hat
  simp only [Prod.mk.injEq] at heq
  obtain ⟨rfl, hdata⟩ := heq
  exact ⟨disk'.data i, ⟨i, hn, rfl⟩, by rw [← hiff, Option.some.inj hdata]⟩

theorem publishRun_ran (j : Jansson) (outDir : Path) (run : PublishRun) (hdisk : disk.Unshared) :
    Ran j outDir disk run (publishRun j outDir disk run).1 (publishRun j outDir disk run).2 := by
  have hsame : ∀ result : Option Int, result ≠ some 0 → Ran j outDir disk run result disk :=
    fun result hne ↦ ⟨hdisk, Or.inl rfl, Or.inl ⟨rfl, hne⟩⟩
  obtain ⟨hne, hcatalogtmp, hmanifesttmp⟩ := paths_ne outDir run.pid
  unfold publishRun
  split
  · exact hsame _ (by simp)
  split
  · exact hsame _ (by simp)
  rename_i manifest hmanifest
  split
  · exact hsame _ (by simp)
  · rename_i bytes _
    obtain ⟨hu, hat⟩ := leftBehind_spec hdisk (catalogPath outDir) run.pid bytes
    exact ⟨hu, Or.inl (hat _ (makeTmpPath_ne _ _)), Or.inl ⟨hat _ hmanifesttmp, by simp⟩⟩
  dsimp only
  obtain ⟨hu, hat, hcatalog⟩ :=
    publishFile_spec hdisk (catalogPath outDir) run.pid (run.catalogText j) run.catalog
  generalize publishFile disk (catalogPath outDir) run.pid (run.catalogText j) run.catalog = first
    at hu hat hcatalog ⊢
  obtain ⟨rc, disk₁⟩ := first
  have hman := hat (manifestPath outDir) hmanifesttmp hne.symm
  dsimp only at hu hcatalog hman ⊢
  rcases hcatalog with ⟨hrc, hkept⟩ | ⟨rfl, t, ht, hshows⟩
  · rw [if_pos hrc]
    exact ⟨hu, Or.inl hkept, Or.inl ⟨hman, by simp⟩⟩
  · rw [if_neg (by decide)]
    split
    · exact ⟨hu, Or.inr ⟨t, ht, hshows⟩, Or.inl ⟨hman, by simp⟩⟩
    · rename_i bytes _
      obtain ⟨hu₂, hat₂⟩ := leftBehind_spec hu (manifestPath outDir) run.pid bytes
      refine ⟨hu₂, Or.inr ⟨t, ht, hshows.of_at (hat₂ _ hcatalogtmp)⟩, Or.inl ⟨?_, by simp⟩⟩
      rw [hat₂ _ (makeTmpPath_ne _ _), hman]
    · rename_i death _ _ _
      obtain ⟨hu₂, hat₂, hsecond⟩ :=
        publishFile_spec hu (manifestPath outDir) run.pid (some manifest) run.manifest
      generalize publishFile disk₁ (manifestPath outDir) run.pid (some manifest) run.manifest =
        second at hu₂ hat₂ hsecond ⊢
      obtain ⟨rc₂, disk₂⟩ := second
      dsimp only at hu₂ hat₂ hsecond ⊢
      have hcat := hshows.of_at (hat₂ _ hcatalogtmp hne)
      rcases hsecond with ⟨hrc₂, hkept₂⟩ | ⟨hrc₂, u, hu', hshows₂⟩
      · refine ⟨hu₂, Or.inr ⟨t, ht, hcat⟩, Or.inl ⟨by rw [hkept₂, hman], ?_⟩⟩
        split
        · simp
        · simpa using hrc₂
      · cases hu'
        exact ⟨hu₂, Or.inr ⟨t, ht, hcat⟩, Or.inr ⟨⟨t, ht, hcat⟩, manifest, hmanifest, hshows₂⟩⟩

/-! ### Histories -/

/-- The document that a path shows after some runs: that of the run with this number, counted from
one, or what was there before them all. -/
def Stands (before after : Disk) (path : Path) (document : PublishRun → Option Text)
    (replies : PublishRun → FileReplies) (runs : List PublishRun) : Nat → Prop
  | 0 => after.at path = before.at path
  | k + 1 => ∃ run ∈ runs[k]?, ∃ text ∈ document run, Shows after path text (replies run)

theorem Stands.later {before : Disk} {document : PublishRun → Option Text}
    {replies : PublishRun → FileReplies} {runs : List PublishRun} {k : Nat}
    (h : Stands before disk q document replies runs k) (hat : disk'.at q = disk.at q) :
    Stands before disk' q document replies (runs ++ [run]) k := by
  cases k with
  | zero => exact hat.trans h
  | succ k =>
    obtain ⟨r, hr, text, htext, hshows⟩ := h
    refine ⟨r, ?_, text, htext, hshows.of_at hat⟩
    rw [Option.mem_def] at hr ⊢
    rw [List.getElem?_append_left (List.getElem?_eq_some_iff.mp hr).1, hr]

/-- The catalog on the disk is that of the run with the number `c` and the manifest that of the run
with the number `m`, which is no later one. -/
structure InOrder (j : Jansson) (outDir : Path) (before after : Disk) (runs : List PublishRun)
    (c m : Nat) : Prop where
  order : m ≤ c
  length : c ≤ runs.length
  catalog : Stands before after (catalogPath outDir) (PublishRun.catalogText j)
    PublishRun.catalog runs c
  manifest : Stands before after (manifestPath outDir) (PublishRun.manifestText j)
    PublishRun.manifest runs m

/-- By induction on the runs, of which each shows nothing new, a catalog, or both documents. -/
theorem publishAll_inOrder (j : Jansson) (outDir : Path) (hdisk : disk.Unshared)
    (runs : List PublishRun) : (publishAll j outDir disk runs).Unshared ∧
      ∃ c m, InOrder j outDir disk (publishAll j outDir disk runs) runs c m ∧
        ∀ before run, runs = before ++ [run] →
          (publishRun j outDir (publishAll j outDir disk before) run).1 = some 0 →
            m = runs.length := by
  induction runs using List.reverseRecOn with
  | nil =>
    exact ⟨hdisk, 0, 0, ⟨Nat.le_refl 0, Nat.le_refl 0, rfl, rfl⟩, by simp⟩
  | append_singleton runs run ih =>
    obtain ⟨hu, c, m, ⟨hmc, hc, hcat, hman⟩, -⟩ := ih
    have hstep : publishAll j outDir disk (runs ++ [run]) =
        (publishRun j outDir (publishAll j outDir disk runs) run).2 := by
      simp [publishAll, Steps.after]
    obtain ⟨hu', hcatalog, hmanifest⟩ := publishRun_ran j outDir run hu
    have hnew : (runs ++ [run])[runs.length]? = some run := by simp
    have hlength : runs.length + 1 ≤ (runs ++ [run]).length := by simp
    rw [hstep]
    refine ⟨hu', ?_⟩
    rcases hmanifest with ⟨hkept, hresult⟩ | ⟨hshown, text, htext, hshows⟩
    · have hlast : ∀ before r, runs ++ [run] = before ++ [r] →
          (publishRun j outDir (publishAll j outDir disk before) r).1 = some 0 →
            m = (runs ++ [run]).length := by
        intro before r heq hzero
        obtain ⟨rfl, hr⟩ := List.append_inj' heq rfl
        cases hr
        exact absurd hzero hresult
      rcases hcatalog with hsame | hshows
      · exact ⟨c, m, ⟨hmc, by omega, hcat.later hsame, hman.later hkept⟩, hlast⟩
      · exact ⟨runs.length + 1, m, ⟨by omega, hlength, ⟨run, hnew, hshows⟩,
          hman.later hkept⟩, hlast⟩
    · exact ⟨runs.length + 1, runs.length + 1, ⟨Nat.le_refl _, hlength,
        ⟨run, hnew, hshown⟩, ⟨run, hnew, text, htext, hshows⟩⟩, fun _ _ _ _ ↦ by simp⟩

/-- The documents of a run in which no query fails are those of its database. -/
theorem texts_of_all (h : run.queries = .all) :
    run.catalogText j = some (j.dump (catalogEmit j.loads run.catalogNow run.db.catalogTables)) ∧
      run.manifestText j = (loadManifestTree run.manifestNow run.db).map j.dump := by
  unfold PublishRun.catalogText PublishRun.manifestText
  rw [h]
  exact ⟨rfl, rfl⟩

/-- Whatever runs fail or die, the manifest that is there is never newer than the catalog; both are
those of a run that put them there, or have always been there; after a run that returns zero they
are its own; and those of a run in which no query fails are the documents of its database. -/
theorem published_in_order (j : Jansson) (outDir : Path) (hdisk : disk.Unshared)
    (runs : List PublishRun) :
    (∃ c m, InOrder j outDir disk (publishAll j outDir disk runs) runs c m ∧
      ∀ before run, runs = before ++ [run] →
        (publishRun j outDir (publishAll j outDir disk before) run).1 = some 0 →
          m = runs.length) ∧
      ∀ run ∈ runs, run.queries = .all →
        run.catalogText j =
            some (j.dump (catalogEmit j.loads run.catalogNow run.db.catalogTables)) ∧
          run.manifestText j = (loadManifestTree run.manifestNow run.db).map j.dump :=
  ⟨(publishAll_inOrder j outDir hdisk runs).2, fun _ _ h ↦ texts_of_all h⟩

end

namespace DiesBetween

/-- One track is resident. -/
def db : Db := { Db.empty with manifestCurrent := Table.empty.put [97] ⟨ascii "loved", 1⟩ }

def replies : FileReplies where
  opens := true
  drains := []
  closeFlush := .all
  commit := ⟨.all, none, .all, none, none⟩

def run (queries : PublishQueries) (death : Option PublishDeath) : PublishRun where
  pid := 7
  db := db
  manifestNow := 0
  catalogNow := 0
  mkdir := true
  queries := queries
  catalog := replies
  manifest := replies
  death := death

def jansson : Jansson := ⟨fun _ ↦ none, fun _ ↦ ascii "\x7b\x7d"⟩

theorem unshared : NoSpace.disk.Unshared := fun p q i hp _ ↦ by cases hp

/-- A step of the catalog's query fails before the first track. -/
def cut : PublishQueries := { PublishQueries.all with tracks := .stops 0 }

/-- The second run is cut short and dies when the catalog is in place. -/
theorem in_order : ∃ c m, InOrder jansson [] NoSpace.disk
    (publishAll jansson [] NoSpace.disk [run .all none, run cut (some .between)])
    [run .all none, run cut (some .between)] c m := by
  obtain ⟨⟨c, m, horder, -⟩, -⟩ :=
    published_in_order jansson [] unshared [run .all none, run cut (some .between)]
  exact ⟨c, m, horder⟩

end DiesBetween

end Nocturne
