import Mathlib.Data.List.Basic
import Nocturne.Base

/-!
# Tables and the statements that define them

The database file as a migration finds it: tables with named columns, and rows with a cell for each
of them. A statement gives `none` where SQLite refuses it. The layout of a database is the columns
of its tables; which statements are refused depends on nothing else.
-/

namespace Nocturne.Schema

open Lib

/-! ### Tables -/

/-- A value of a row. -/
inductive Cell where
  | null
  | int (i : Int)
  | real (digits : Text)
  | text (t : Text)
  deriving DecidableEq, Repr

/-- A table. Every row has a cell for each column. -/
structure SqlTable where
  columns : List Text
  rows : List (List Cell)
  width : ∀ row ∈ rows, row.length = columns.length

/-- The database file: `PRAGMA user_version`, the tables, and the names of the triggers. -/
structure SqlDb where
  userVersion : Int
  tables : Table Text SqlTable
  triggers : List Text

/-- A file that has just been created. -/
def SqlDb.fresh : SqlDb := ⟨0, .empty, []⟩

namespace SqlTable

/-- The cell of a row in a column. -/
def cell (t : SqlTable) (column : Text) (row : List Cell) : Option Cell :=
  row[t.columns.idxOf column]?

/-- `ALTER TABLE … ADD COLUMN … DEFAULT`. -/
def addColumn (t : SqlTable) (column : Text) (dflt : Cell) : SqlTable where
  columns := t.columns ++ [column]
  rows := t.rows.map (· ++ [dflt])
  width := by
    simp only [List.forall_mem_map, List.length_append]
    exact fun row hrow ↦ congrArg (· + 1) (t.width row hrow)

/-- `DELETE FROM … WHERE`, with the rows that stay. -/
def keep (t : SqlTable) (p : List Cell → Bool) : SqlTable where
  columns := t.columns
  rows := t.rows.filter p
  width row hrow := t.width row (List.mem_of_mem_filter hrow)

end SqlTable

/-! ### Statements -/

/-- A statement of a migration. `orphans` is `DELETE FROM table WHERE key NOT IN (SELECT sha256 FROM
tracks)`, with `unit = 'track'` in front where the rows of a table have units. -/
inductive Ddl where
  | createTable (ifNotExists : Bool) (table : Text) (columns : List Text)
  | createIndex (table : Text) (columns : List Text)
  | addColumn (table column : Text) (dflt : Cell)
  | dropTable (table : Text)
  | createTrigger (trigger table : Text)
  | orphans (table key : Text) (units : Bool)
  | userVersion (n : Int)
  deriving DecidableEq, Repr

/-- `tracks`. -/
def tracksTable : Text := ascii "tracks"

/-- A row is no orphan: it is about something else than a track, or about one that is there. -/
def hasTrack (t tracks : SqlTable) (key : Text) (units : Bool) (row : List Cell) : Bool :=
  (units && t.cell (ascii "unit") row != some (.text (ascii "track"))) ||
    tracks.rows.any fun track ↦ tracks.cell (ascii "sha256") track == t.cell key row

/-- The columns that an `orphans` statement reads. -/
def orphanColumns (key : Text) (units : Bool) : List Text :=
  if units then [ascii "unit", key] else [key]

/-- What a statement does. -/
def Ddl.exec (db : SqlDb) : Ddl → Option SqlDb
  | .createTable ifNotExists table columns =>
    match db.tables.get? table with
    | some _ => if ifNotExists then some db else none
    | none => some { db with tables := db.tables.put table ⟨columns, [], by simp⟩ }
  | .createIndex table columns =>
    match db.tables.get? table with
    | some t => if columns.all (t.columns.contains ·) then some db else none
    | none => none
  | .addColumn table column dflt =>
    match db.tables.get? table with
    | some t =>
      if t.columns.contains column then none
      else some { db with tables := db.tables.put table (t.addColumn column dflt) }
    | none => none
  | .dropTable table => some { db with tables := db.tables.drop table }
  | .createTrigger trigger table =>
    match db.tables.get? table with
    | some _ => some { db with triggers := trigger :: db.triggers.erase trigger }
    | none => none
  | .orphans table key units =>
    match db.tables.get? table, db.tables.get? tracksTable with
    | some t, some tracks =>
      if (orphanColumns key units).all (t.columns.contains ·) &&
          tracks.columns.contains (ascii "sha256") then
        some { db with tables := db.tables.put table (t.keep (hasTrack t tracks key units)) }
      else none
    | _, _ => none
  | .userVersion n => some { db with userVersion := n }

/-! ### Layouts -/

/-- The columns of the tables. -/
abbrev Layout := List (Text × List Text)

/-- What a statement makes of a layout. -/
def Ddl.layout (l : Layout) : Ddl → Option Layout
  | .createTable ifNotExists table columns =>
    match l.lookup table with
    | some _ => if ifNotExists then some l else none
    | none => some ((table, columns) :: l)
  | .createIndex table columns =>
    match l.lookup table with
    | some cs => if columns.all (cs.contains ·) then some l else none
    | none => none
  | .addColumn table column _ =>
    match l.lookup table with
    | some cs => if cs.contains column then none else some ((table, cs ++ [column]) :: l)
    | none => none
  | .dropTable table => some (l.filter fun e ↦ e.1 != table)
  | .createTrigger _ table => (l.lookup table).map fun _ ↦ l
  | .orphans table key units =>
    match l.lookup table, l.lookup tracksTable with
    | some cs, some tracks =>
      if (orphanColumns key units).all (cs.contains ·) && tracks.contains (ascii "sha256") then
        some l
      else none
    | _, _ => none
  | .userVersion _ => some l

/-- The tables of a database have the columns of a layout. -/
def Describes (l : Layout) (db : SqlDb) : Prop :=
  ∀ table, (db.tables.get? table).map SqlTable.columns = l.lookup table

variable {l l' : Layout} {db : SqlDb} {d : Ddl} {table : Text}

theorem describes_fresh : Describes [] SqlDb.fresh := fun _ ↦ rfl

theorem Describes.found (h : Describes l db) {cs : List Text} (hl : l.lookup table = some cs) :
    ∃ t, db.tables.get? table = some t ∧ t.columns = cs :=
  Option.map_eq_some_iff.mp ((h table).trans hl)

theorem Describes.missing (h : Describes l db) (hl : l.lookup table = none) :
    db.tables.get? table = none :=
  Option.map_eq_none_iff.mp ((h table).trans hl)

/-- A table that is put in the place of another one. -/
theorem Describes.put (h : Describes l db) (t : SqlTable) :
    Describes ((table, t.columns) :: l) { db with tables := db.tables.put table t } := by
  intro other
  rw [Table.get?_put, List.lookup_cons]
  by_cases hother : other = table
  · simp [hother]
  · have hne : (other == table) = false := by simpa using hother
    rw [if_neg hother, hne]
    exact h other

theorem lookup_cons_self_eq {cs : List Text} (h : l.lookup table = some cs) (other : Text) :
    ((table, cs) :: l).lookup other = l.lookup other := by
  rw [List.lookup_cons]
  split
  · next heq => rw [eq_of_beq heq, h]
  · rfl

theorem lookup_filter_ne (other : Text) :
    (l.filter fun e ↦ e.1 != table).lookup other = if other = table then none else l.lookup other := by
  induction l with
  | nil => simp
  | cons e l ih =>
    obtain ⟨k, cs⟩ := e
    by_cases hk : k = table
    · rw [List.filter_cons_of_neg (by simp [hk]), ih, List.lookup_cons, hk]
      by_cases hother : other = table
      · simp [hother]
      · have hne : (other == table) = false := by simpa using hother
        rw [if_neg hother, hne, if_neg hother]
    · rw [List.filter_cons_of_pos (by simpa using hk), List.lookup_cons, List.lookup_cons, ih]
      by_cases hother : other = k
      · have hne : other ≠ table := fun h ↦ hk (hother.symm.trans h)
        simp [hother, hk]
      · have hne : (other == k) = false := by simpa using hother
        rw [hne]

/-- A statement goes through where its layout does, and the layouts stay in step. -/
theorem exec_of_layout (h : Describes l db) (hl : d.layout l = some l') :
    ∃ db', d.exec db = some db' ∧ Describes l' db' := by
  cases d with
  | createTable ifNotExists table columns =>
    dsimp only [Ddl.layout] at hl
    dsimp only [Ddl.exec]
    cases hlook : l.lookup table with
    | some cs =>
      rw [hlook] at hl
      obtain ⟨t, ht, -⟩ := h.found hlook
      rw [ht]
      cases ifNotExists with
      | true =>
        cases hl
        exact ⟨db, rfl, h⟩
      | false => cases hl
    | none =>
      rw [hlook] at hl
      cases hl
      rw [h.missing hlook]
      exact ⟨_, rfl, h.put ⟨columns, [], by simp⟩⟩
  | createIndex table columns =>
    dsimp only [Ddl.layout] at hl
    dsimp only [Ddl.exec]
    cases hlook : l.lookup table with
    | some cs =>
      rw [hlook] at hl
      obtain ⟨t, ht, rfl⟩ := h.found hlook
      obtain ⟨hall, heq⟩ := Option.ite_none_right_eq_some.mp hl
      cases heq
      rw [ht]
      exact ⟨db, if_pos hall, h⟩
    | none =>
      rw [hlook] at hl
      cases hl
  | addColumn table column dflt =>
    dsimp only [Ddl.layout] at hl
    dsimp only [Ddl.exec]
    cases hlook : l.lookup table with
    | some cs =>
      rw [hlook] at hl
      obtain ⟨t, ht, rfl⟩ := h.found hlook
      obtain ⟨hnew, heq⟩ := Option.ite_none_left_eq_some.mp hl
      cases heq
      rw [ht]
      exact ⟨_, if_neg hnew, h.put (t.addColumn column dflt)⟩
    | none =>
      rw [hlook] at hl
      cases hl
  | dropTable table =>
    cases hl
    refine ⟨_, rfl, ?_⟩
    intro other
    rw [Table.get?_drop, lookup_filter_ne]
    split
    · rfl
    · exact h other
  | createTrigger trigger table =>
    obtain ⟨cs, hlook, rfl⟩ := Option.map_eq_some_iff.mp hl
    obtain ⟨t, ht, -⟩ := h.found hlook
    dsimp only [Ddl.exec]
    rw [ht]
    exact ⟨_, rfl, h⟩
  | orphans table key units =>
    dsimp only [Ddl.layout] at hl
    dsimp only [Ddl.exec]
    cases hlook : l.lookup table with
    | none =>
      rw [hlook] at hl
      cases hl
    | some cs =>
      cases htracks : l.lookup tracksTable with
      | none =>
        rw [hlook, htracks] at hl
        cases hl
      | some tcs =>
        rw [hlook, htracks] at hl
        obtain ⟨t, ht, rfl⟩ := h.found hlook
        obtain ⟨tracks, htr, rfl⟩ := h.found htracks
        obtain ⟨hcols, heq⟩ := Option.ite_none_right_eq_some.mp hl
        cases heq
        rw [ht, htr]
        refine ⟨_, if_pos hcols, ?_⟩
        intro other
        rw [← lookup_cons_self_eq hlook]
        exact h.put (t.keep (hasTrack t tracks key units)) other
  | userVersion n =>
    cases hl
    exact ⟨_, rfl, h⟩

/-! ### Rows -/

/-- The columns that statements add to a table, with their defaults. -/
def addedColumns (table : Text) (ds : List Ddl) : List (Text × Cell) :=
  ds.filterMap fun
    | .addColumn name column dflt => if name = table then some (column, dflt) else none
    | _ => none

/-- `t'` has the rows of `t`, some of them left out, with `new` columns behind the others and in each
row the default of each of them. A row that `p` is about stays. -/
def Keeps (new : List (Text × Cell)) (p : List Cell → Prop) (t t' : SqlTable) : Prop :=
  ∃ q : List Cell → Bool, (∀ row ∈ t.rows, p row → q row = true) ∧
    t'.columns = t.columns ++ new.map Prod.fst ∧
    t'.rows = (t.rows.filter q).map (· ++ new.map Prod.snd)

variable {t t' t'' tracks tracks' : SqlTable} {p p' : List Cell → Prop} {key : Text} {units : Bool}
  {row : List Cell} {new new' : List (Text × Cell)}

theorem Keeps.refl (p : List Cell → Prop) (t : SqlTable) : Keeps [] p t t :=
  ⟨fun _ ↦ true, fun _ _ _ ↦ rfl, by simp, by simp⟩

theorem Keeps.mono (h : Keeps new p t t') (hp : ∀ row, p' row → p row) : Keeps new p' t t' := by
  obtain ⟨q, hq, hrest⟩ := h
  exact ⟨q, fun row hrow hpr ↦ hq row hrow (hp row hpr), hrest⟩

theorem Keeps.trans (h : Keeps new p t t') (h' : Keeps new' p' t' t'')
    (hp : ∀ row ∈ t.rows, p row → p' (row ++ new.map Prod.snd)) :
    Keeps (new ++ new') p t t'' := by
  obtain ⟨q, hq, hcs, hrows⟩ := h
  obtain ⟨q', hq', hcs', hrows'⟩ := h'
  refine ⟨fun row ↦ q row && q' (row ++ new.map Prod.snd), ?_, ?_, ?_⟩
  · intro row hrow hpr
    have hkept := hq row hrow hpr
    have hmem : row ++ new.map Prod.snd ∈ t'.rows := by
      rw [hrows]
      exact List.mem_map_of_mem (List.mem_filter.mpr ⟨hrow, hkept⟩)
    show (q row && q' (row ++ new.map Prod.snd)) = true
    rw [hkept, hq' _ hmem (hp row hrow hpr)]
    rfl
  · rw [hcs', hcs, List.map_append, List.append_assoc]
  · rw [hrows', hrows, List.filter_map, List.map_map, List.filter_filter]
    simp [Function.comp_def, Bool.and_comm]

/-- More columns and cells do not change what a column of a row is. -/
theorem cell_append {column : Text} {columns : List Text} (hcs : t'.columns = t.columns ++ columns)
    (hcolumn : column ∈ t.columns) (hrow : row ∈ t.rows) (pad : List Cell) :
    t'.cell column (row ++ pad) = t.cell column row := by
  have hlt : t.columns.idxOf column < row.length := by
    rw [t.width row hrow]
    exact List.idxOf_lt_length_of_mem hcolumn
  unfold SqlTable.cell
  rw [hcs, List.idxOf_append_of_mem hcolumn, List.getElem?_append_left hlt]

/-- A row with its track there still has it in larger tables. -/
theorem hasTrack_append {columns : List Text} (hcs : t'.columns = t.columns ++ columns)
    (hkey : ∀ column ∈ orphanColumns key units, column ∈ t.columns)
    (hsha : ascii "sha256" ∈ tracks.columns) (htracks : Keeps new (fun _ ↦ True) tracks tracks')
    (hrow : row ∈ t.rows) (pad : List Cell) (h : hasTrack t tracks key units row = true) :
    hasTrack t' tracks' key units (row ++ pad) = true := by
  obtain ⟨q, hq, htcs, hrows⟩ := htracks
  have hcell : t'.cell key (row ++ pad) = t.cell key row :=
    cell_append hcs (hkey key (by unfold orphanColumns; split <;> simp)) hrow pad
  unfold hasTrack at h ⊢
  rw [Bool.or_eq_true, List.any_eq_true] at h ⊢
  apply h.imp
  · intro hunit
    obtain ⟨hunits, hne⟩ := (Bool.and_eq_true _ _).mp hunit
    have hmem : ascii "unit" ∈ t.columns := hkey _ (by rw [orphanColumns, if_pos hunits]; simp)
    rw [cell_append hcs hmem hrow pad, hunits, hne]
    rfl
  · intro ⟨track, htrack, heq⟩
    refine ⟨track ++ new.map Prod.snd, ?_, ?_⟩
    · rw [hrows]
      exact List.mem_map_of_mem (List.mem_filter.mpr ⟨htrack, hq track htrack trivial⟩)
    · rw [cell_append htcs hsha htrack, hcell]
      exact heq

/-- A table takes the place of another one: the table is kept where it is that one, and where it is not. -/
theorem keeps_put {name : Text} {u u' : SqlTable} (ht : db.tables.get? table = some t)
    (hu : db.tables.get? name = some u) (hkeep : name = table → Keeps new p u u')
    (hother : name ≠ table → new = []) :
    ∃ t', (db.tables.put name u').get? table = some t' ∧ Keeps new p t t' := by
  rw [Table.get?_put]
  split
  · next heq =>
    rw [← heq, ht] at hu
    cases hu
    exact ⟨u', rfl, hkeep heq.symm⟩
  · next hne =>
    rw [hother fun heq ↦ hne heq.symm]
    exact ⟨t, ht, .refl p t⟩

/-- One statement: a table that it does not drop keeps the rows that are no orphans. -/
theorem keeps_exec {db' : SqlDb} (h : d.exec db = some db') (ht : db.tables.get? table = some t)
    (hdrop : d ≠ .dropTable table) : ∃ t', db'.tables.get? table = some t' ∧
      Keeps (addedColumns table [d]) (fun row ↦ ∀ key units tracks, d = .orphans table key units →
        db.tables.get? tracksTable = some tracks → hasTrack t tracks key units row = true) t t' := by
  have same : ∀ p, ∃ t', db.tables.get? table = some t' ∧ Keeps [] p t t' :=
    fun p ↦ ⟨t, ht, .refl p t⟩
  cases d with
  | createTable ifNotExists name columns =>
    dsimp only [Ddl.exec] at h
    split at h
    · obtain ⟨-, heq⟩ := Option.ite_none_right_eq_some.mp h
      cases heq
      exact same _
    · next hnone =>
      cases h
      have hne : table ≠ name := by
        rintro rfl
        rw [ht] at hnone
        cases hnone
      refine ⟨t, ?_, .refl _ t⟩
      rw [← ht]
      exact Table.get?_put_ne _ _ hne
  | createIndex name columns =>
    dsimp only [Ddl.exec] at h
    split at h
    · obtain ⟨-, heq⟩ := Option.ite_none_right_eq_some.mp h
      cases heq
      exact same _
    · cases h
  | addColumn name column dflt =>
    dsimp only [Ddl.exec] at h
    split at h
    · next u hu =>
      obtain ⟨-, heq⟩ := Option.ite_none_left_eq_some.mp h
      cases heq
      refine keeps_put ht hu (fun hname ↦ ⟨fun _ ↦ true, fun _ _ _ ↦ rfl, ?_⟩) fun hname ↦ ?_
      · rw [List.filter_eq_self.mpr fun _ _ ↦ rfl]
        simp [addedColumns, hname, SqlTable.addColumn]
      · simp [addedColumns, hname]
    · cases h
  | dropTable name =>
    cases h
    refine ⟨t, ?_, .refl _ t⟩
    rw [← ht]
    exact Table.get?_drop_ne _ fun heq ↦ hdrop (heq ▸ rfl)
  | createTrigger trigger name =>
    dsimp only [Ddl.exec] at h
    split at h
    · cases h
      exact same _
    · cases h
  | orphans name key units =>
    dsimp only [Ddl.exec] at h
    split at h
    · next u tracks hu htracks =>
      obtain ⟨-, heq⟩ := Option.ite_none_right_eq_some.mp h
      cases heq
      refine keeps_put ht hu (fun hname ↦ ⟨hasTrack u tracks key units, ?_, ?_, ?_⟩) fun _ ↦ rfl
      · subst hname
        rw [ht] at hu
        cases hu
        exact fun row _ hall ↦ hall key units tracks rfl htracks
      · exact (List.append_nil _).symm
      · simp [SqlTable.keep, addedColumns]
    · cases h
  | userVersion n =>
    cases h
    exact same _

/-- Statements that do not drop the table, and leave the tracks alone. -/
structure Spares (table : Text) (ds : List Ddl) : Prop where
  drop : .dropTable table ∉ ds
  tracks : .dropTable tracksTable ∉ ds
  orphans : ∀ key units, .orphans tracksTable key units ∉ ds

/-- A run of statements keeps the rows that are no orphans when it begins, and each row gets the
defaults of the columns that are added. -/
theorem keeps_run {ds : List Ddl} {db' : SqlDb} (h : ds.foldlM Ddl.exec db = some db')
    (hds : Spares table ds) (ht : db.tables.get? table = some t)
    (htracks : db.tables.get? tracksTable = some tracks) (hsha : ascii "sha256" ∈ tracks.columns)
    (hkey : ∀ key units, .orphans table key units ∈ ds →
      ∀ column ∈ orphanColumns key units, column ∈ t.columns) :
    ∃ t', db'.tables.get? table = some t' ∧ Keeps (addedColumns table ds) (fun row ↦ ∀ key units,
      .orphans table key units ∈ ds → hasTrack t tracks key units row = true) t t' := by
  induction ds generalizing db t tracks with
  | nil =>
    cases h
    exact ⟨t, ht, .refl _ t⟩
  | cons d ds ih =>
    rw [List.foldlM_cons] at h
    obtain ⟨db₁, hd, hrest⟩ := Option.bind_eq_some_iff.mp h
    have hnot := hds
    obtain ⟨hdrop, hdropTracks, horphans⟩ := hnot
    rw [List.mem_cons, not_or] at hdrop hdropTracks
    obtain ⟨t₁, ht₁, hkeep⟩ := keeps_exec hd ht (Ne.symm hdrop.1)
    obtain ⟨tracks₁, htracks₁, hall⟩ := keeps_exec hd htracks (Ne.symm hdropTracks.1)
    have hall : Keeps (addedColumns tracksTable [d]) (fun _ ↦ True) tracks tracks₁ := by
      apply hall.mono
      intro _ _ key units _ heq
      exact absurd (heq ▸ List.mem_cons_self) (horphans key units)
    have hcs := hkeep
    obtain ⟨-, -, hcs, -⟩ := hcs
    have htcs := hall
    obtain ⟨-, -, htcs, -⟩ := htcs
    have hsha₁ : ascii "sha256" ∈ tracks₁.columns := htcs ▸ List.mem_append_left _ hsha
    have hspares : Spares table ds :=
      ⟨hdrop.2, hdropTracks.2, fun key units hmem ↦ horphans key units (List.mem_cons_of_mem _ hmem)⟩
    obtain ⟨t', ht', hkeep'⟩ := ih hrest hspares ht₁ htracks₁ hsha₁ (by
      intro key units hmem column hcolumn
      rw [hcs]
      exact List.mem_append_left _ (hkey key units (List.mem_cons_of_mem _ hmem) column hcolumn))
    refine ⟨t', ht', ?_⟩
    have hnew : addedColumns table (d :: ds) = addedColumns table [d] ++ addedColumns table ds := by
      unfold addedColumns
      rw [← List.filterMap_append]
      rfl
    have hfirst : Keeps (addedColumns table [d]) (fun row ↦ ∀ key units,
        .orphans table key units ∈ d :: ds → hasTrack t tracks key units row = true) t t₁ := by
      apply hkeep.mono
      intro row hrow key units found heq hfound
      rw [htracks] at hfound
      cases hfound
      exact hrow key units (heq ▸ List.mem_cons_self)
    rw [hnew]
    apply hfirst.trans hkeep'
    intro row hrow hstays key units hmem
    have hmem' : .orphans table key units ∈ d :: ds := List.mem_cons_of_mem _ hmem
    exact hasTrack_append hcs (hkey key units hmem') hsha hall hrow _ (hstays key units hmem')

end Nocturne.Schema
