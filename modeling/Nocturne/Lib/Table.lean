import Mathlib.Data.List.AList

/-!
# Tables with a primary key, and with a second unique column

A `Table` is a finite map whose rows can be listed. `UniqueTable` adds a column that no two
rows share: its write operations refuse what the constraint refuses, so a table that breaks
the constraint cannot be built.
-/

namespace Lib

/-- A table of rows `V` keyed by `K`. -/
def Table (K V : Type) := AList (fun _ : K ↦ V)

namespace Table

section Rows

variable {K V : Type}

/-- The rows with their keys. -/
def rows (t : Table K V) : List (K × V) := t.entries.map fun e ↦ (e.1, e.2)

/-- No key is listed twice. -/
theorem nodup_keys (t : Table K V) : (t.rows.map Prod.fst).Nodup := by
  have h := t.nodupKeys
  unfold List.NodupKeys List.keys at h
  simpa only [rows, List.map_map, Function.comp_def] using h

/-- The table with every row rewritten. -/
def mapRows {W : Type} (t : Table K V) (f : V → W) : Table K W :=
  ⟨t.entries.map fun e ↦ ⟨e.1, f e.2⟩, by
    have h := t.nodupKeys
    unfold List.NodupKeys List.keys at h ⊢
    rw [List.map_map]
    exact h⟩

/-- The table with every row rewritten, its key in view. -/
def update (t : Table K V) (f : K → V → V) : Table K V :=
  ⟨t.entries.map fun e ↦ ⟨e.1, f e.1 e.2⟩, by
    have h := t.nodupKeys
    unfold List.NodupKeys List.keys at h ⊢
    rw [List.map_map]
    exact h⟩

theorem rows_update (t : Table K V) (f : K → V → V) :
    (t.update f).rows = t.rows.map fun r ↦ (r.1, f r.1 r.2) := by
  unfold rows update
  rw [List.map_map, List.map_map]
  rfl

theorem rows_mapRows {W : Type} (t : Table K V) (f : V → W) :
    (t.mapRows f).rows = t.rows.map fun r ↦ (r.1, f r.2) := by
  unfold rows mapRows
  rw [List.map_map, List.map_map]
  rfl

end Rows

variable {K V : Type} [DecidableEq K]

instance [DecidableEq V] : DecidableEq (Table K V) :=
  inferInstanceAs (DecidableEq (AList fun _ : K ↦ V))

/-- The table without rows. -/
def empty : Table K V := (∅ : AList fun _ : K ↦ V)

/-- The row under a key. -/
def get? (t : Table K V) (k : K) : Option V := AList.lookup k t

/-- Insert a row, or replace the row under its key. -/
def put (t : Table K V) (k : K) (v : V) : Table K V := AList.insert k v t

/-- Delete the row under a key. -/
def drop (t : Table K V) (k : K) : Table K V := AList.erase k t

/-- Delete every row that `p` does not accept. -/
def keep (t : Table K V) (p : K → V → Bool) : Table K V :=
  ⟨t.entries.filter fun e ↦ p e.1 e.2,
    t.nodupKeys.sublist List.filter_sublist⟩

omit [DecidableEq K] in
theorem rows_keep (t : Table K V) (p : K → V → Bool) :
    (t.keep p).rows = t.rows.filter fun r ↦ p r.1 r.2 := by
  unfold rows keep
  rw [List.filter_map]
  rfl

@[simp] theorem get?_empty (k : K) : (empty : Table K V).get? k = none := rfl

@[simp] theorem get?_put_self (t : Table K V) (k : K) (v : V) : (t.put k v).get? k = some v :=
  AList.lookup_insert t

theorem get?_put_ne (t : Table K V) {k k' : K} (v : V) (h : k' ≠ k) :
    (t.put k v).get? k' = t.get? k' := AList.lookup_insert_ne h

theorem get?_put (t : Table K V) (k k' : K) (v : V) :
    (t.put k v).get? k' = if k' = k then some v else t.get? k' := by
  split
  · next h => rw [h, get?_put_self]
  · next h => exact get?_put_ne t v h

@[simp] theorem get?_drop_self (t : Table K V) (k : K) : (t.drop k).get? k = none :=
  AList.lookup_erase k t

theorem get?_drop_ne (t : Table K V) {k k' : K} (h : k' ≠ k) :
    (t.drop k).get? k' = t.get? k' := AList.lookup_erase_ne h

theorem get?_drop (t : Table K V) (k k' : K) :
    (t.drop k).get? k' = if k' = k then none else t.get? k' := by
  split
  · next h => rw [h, get?_drop_self]
  · next h => exact get?_drop_ne t h

private theorem mem_entries (t : Table K V) (k : K) (v : V) :
    (⟨k, v⟩ : Sigma fun _ : K ↦ V) ∈ t.entries ↔ t.get? k = some v :=
  AList.mem_lookup_iff.symm

/-- The rows listed are the rows found. -/
theorem mem_rows {t : Table K V} {k : K} {v : V} : (k, v) ∈ t.rows ↔ t.get? k = some v := by
  rw [← mem_entries]
  constructor
  · intro h
    obtain ⟨⟨k', v'⟩, he, hkv⟩ := List.mem_map.mp h
    cases hkv
    exact he
  · exact fun h ↦ List.mem_map.mpr ⟨⟨k, v⟩, h, rfl⟩

/-- Tables that list the same rows find the same. -/
theorem get?_eq_of_perm {t t' : Table K V} (h : t'.rows.Perm t.rows) (k : K) :
    t'.get? k = t.get? k := by
  ext v
  rw [← mem_rows, ← mem_rows, h.mem_iff]

/-- A rewritten table finds the rewritten row. -/
theorem get?_mapRows {W : Type} (t : Table K V) (f : V → W) (k : K) :
    (t.mapRows f).get? k = (t.get? k).map f := by
  ext w
  rw [← mem_rows, rows_mapRows, List.mem_map, Option.map_eq_some_iff]
  constructor
  · intro h
    obtain ⟨⟨k', v⟩, hr, he⟩ := h
    cases he
    exact ⟨v, mem_rows.mp hr, rfl⟩
  · intro h
    obtain ⟨v, hv, rfl⟩ := h
    exact ⟨(k, v), mem_rows.mpr hv, rfl⟩

/-- An updated table finds the updated row. -/
theorem get?_update (t : Table K V) (f : K → V → V) (k : K) :
    (t.update f).get? k = (t.get? k).map (f k) := by
  ext w
  rw [← mem_rows, rows_update, List.mem_map, Option.map_eq_some_iff]
  constructor
  · rintro ⟨⟨k', v⟩, hr, he⟩
    cases he
    exact ⟨v, mem_rows.mp hr, rfl⟩
  · rintro ⟨v, hv, rfl⟩
    exact ⟨(k, v), mem_rows.mpr hv, rfl⟩

/-- A filtered table finds what the filter accepts. -/
theorem get?_keep (t : Table K V) (p : K → V → Bool) (k : K) :
    (t.keep p).get? k = (t.get? k).filter (p k) := by
  ext v
  rw [← mem_entries, Option.filter_eq_some_iff, ← mem_entries]
  exact List.mem_filter

/-- A filter that accepts every row changes nothing. -/
theorem keep_eq_self {t : Table K V} {p : K → V → Bool}
    (h : ∀ k v, t.get? k = some v → p k v = true) : t.keep p = t := by
  apply AList.ext
  apply List.filter_eq_self.mpr
  intro e he
  exact h e.1 e.2 ((mem_entries t e.1 e.2).mp he)

end Table

/-- A table keyed by `K` in which no two rows have the same `key` column. -/
structure UniqueTable (K V U : Type) [DecidableEq K] (key : V → U) where
  table : Table K V
  unique : ∀ {k₁ k₂ : K} {v₁ v₂ : V}, table.get? k₁ = some v₁ → table.get? k₂ = some v₂ →
    key v₁ = key v₂ → k₁ = k₂

namespace UniqueTable

variable {K V U : Type} [DecidableEq K] {key : V → U}

/-- The table without rows. -/
def empty : UniqueTable K V U key := ⟨Table.empty, fun h ↦ by cases h⟩

/-- The row under a primary key. -/
def get? (t : UniqueTable K V U key) (k : K) : Option V := t.table.get? k

private theorem unique_put (t : UniqueTable K V U key) (k : K) (v : V)
    (h : ∀ k' v', t.get? k' = some v' → key v' = key v → k' = k) {k₁ k₂ : K} {v₁ v₂ : V}
    (h₁ : (t.table.put k v).get? k₁ = some v₁) (h₂ : (t.table.put k v).get? k₂ = some v₂)
    (he : key v₁ = key v₂) : k₁ = k₂ := by
  rw [Table.get?_put] at h₁ h₂
  split at h₁ <;> split at h₂
  · next e₁ e₂ => rw [e₁, e₂]
  · next e₁ _ =>
    cases h₁
    rw [e₁, h k₂ v₂ h₂ he.symm]
  · next _ e₂ =>
    cases h₂
    rw [e₂, h k₁ v₁ h₁ he]
  · exact t.unique h₁ h₂ he

/-- `DELETE … WHERE` on the primary key. -/
def drop (t : UniqueTable K V U key) (k : K) : UniqueTable K V U key :=
  ⟨t.table.drop k, fun {k₁ k₂} {v₁ v₂} h₁ h₂ he ↦ by
    rw [Table.get?_drop] at h₁ h₂
    split at h₁
    · cases h₁
    · split at h₂
      · cases h₂
      · exact t.unique h₁ h₂ he⟩

/-- `DELETE` of the rows that `p` does not accept. -/
def keep (t : UniqueTable K V U key) (p : K → V → Bool) : UniqueTable K V U key :=
  ⟨t.table.keep p, fun {k₁ k₂} {v₁ v₂} h₁ h₂ he ↦ by
    rw [Table.get?_keep, Option.filter_eq_some_iff] at h₁ h₂
    exact t.unique h₁.1 h₂.1 he⟩

variable {t t' : UniqueTable K V U key} {k k' : K} {v v' : V}

@[simp] theorem get?_empty : (empty : UniqueTable K V U key).get? k = none := rfl

theorem get?_drop : (t.drop k).get? k' = if k' = k then none else t.get? k' :=
  Table.get?_drop _ _ _

theorem get?_keep (p : K → V → Bool) : (t.keep p).get? k = (t.get? k).filter (p k) :=
  Table.get?_keep _ _ _

theorem keep_eq_self {p : K → V → Bool} (h : ∀ k v, t.get? k = some v → p k v = true) :
    t.keep p = t := by
  have ht : t.table.keep p = t.table := Table.keep_eq_self h
  cases t
  simp only [keep, mk.injEq]
  exact ht

/-- Two rows with one value of the unique column are one row. -/
theorem eq_of_key (h : t.get? k = some v) (h' : t.get? k' = some v') (he : key v = key v') :
    k = k' ∧ v = v' := by
  have hk := t.unique h h' he
  subst hk
  exact ⟨rfl, Option.some.inj (h.symm.trans h')⟩

variable {u : U} [DecidableEq U]

/-- The row that holds a value of the unique column, with its key. -/
def find? (t : UniqueTable K V U key) (u : U) : Option (K × V) :=
  t.table.rows.find? fun r ↦ decide (key r.2 = u)

/-- `INSERT`: refused when the key is taken or the unique column is held. -/
def insert? (t : UniqueTable K V U key) (k : K) (v : V) : Option (UniqueTable K V U key) :=
  if t.get? k = none then
    if h : ∀ r ∈ t.table.rows, key r.2 ≠ key v then
      some ⟨t.table.put k v, unique_put t k v fun k' v' hk he ↦
        absurd he (h (k', v') (Table.mem_rows.mpr hk))⟩
    else none
  else none

/-- `UPDATE … WHERE` on the primary key: refused when another row holds the unique column;
without such a row no row changes. -/
def replace? (t : UniqueTable K V U key) (k : K) (v : V) : Option (UniqueTable K V U key) :=
  if t.get? k = none then some t
  else if h : ∀ r ∈ t.table.rows, key r.2 = key v → r.1 = k then
    some ⟨t.table.put k v, unique_put t k v fun k' v' hk he ↦
      h (k', v') (Table.mem_rows.mpr hk) he⟩
  else none

/-- The lookup by the unique column finds exactly the row that holds the value. -/
theorem find?_eq_some : t.find? u = some (k, v) ↔ t.get? k = some v ∧ key v = u := by
  constructor
  · intro h
    exact ⟨Table.mem_rows.mp (List.mem_of_find?_eq_some h), by
      simpa using List.find?_some h⟩
  · rintro ⟨h, rfl⟩
    cases hf : t.find? (key v) with
    | none =>
      have hn := List.find?_eq_none.mp hf (k, v) (Table.mem_rows.mpr h)
      simp at hn
    | some r =>
      obtain ⟨k', v'⟩ := r
      have hk : t.get? k' = some v' := Table.mem_rows.mp (List.mem_of_find?_eq_some hf)
      have he : key v' = key v := by simpa using List.find?_some hf
      obtain ⟨rfl, rfl⟩ := eq_of_key hk h he
      rfl

/-- The lookup by the unique column misses when no row holds the value. -/
theorem find?_eq_none : t.find? u = none ↔ ∀ k v, t.get? k = some v → key v ≠ u := by
  constructor
  · intro hf k v h he
    rw [find?_eq_some.mpr ⟨h, he⟩] at hf
    cases hf
  · intro h
    cases hf : t.find? u with
    | none => rfl
    | some r =>
      have hr := find?_eq_some.mp hf
      exact absurd hr.2 (h r.1 r.2 hr.1)

/-- An insertion goes through exactly when the key is free and the unique column is not
held. -/
theorem insert?_isSome :
    (t.insert? k v).isSome ↔ t.get? k = none ∧ t.find? (key v) = none := by
  unfold insert?
  rw [find?_eq_none]
  split
  · next hk =>
    split
    · next h =>
      exact iff_of_true rfl ⟨hk, fun k' v' hk' ↦ h (k', v') (Table.mem_rows.mpr hk')⟩
    · next h =>
      refine iff_of_false (by simp) fun h' ↦ h fun r hr ↦ ?_
      exact h'.2 r.1 r.2 (Table.mem_rows.mp hr)
  · next hk => exact iff_of_false (by simp) fun h' ↦ hk h'.1

/-- A row inserted is the only change. -/
theorem get?_insert? (h : t.insert? k v = some t') :
    t'.get? k' = if k' = k then some v else t.get? k' := by
  unfold insert? at h
  split at h
  · split at h
    · cases h
      exact Table.get?_put _ _ _ _
    · cases h
  · cases h

/-- An update goes through exactly when no other row holds the unique column. -/
theorem replace?_isSome : (t.replace? k v).isSome ↔
    t.get? k = none ∨ ∀ k' v', t.get? k' = some v' → key v' = key v → k' = k := by
  unfold replace?
  split
  · next hk => simp [hk]
  · next hk =>
    split
    · next h =>
      exact iff_of_true rfl (Or.inr fun k' v' hk' ↦ h (k', v') (Table.mem_rows.mpr hk'))
    · next h =>
      refine iff_of_false (by simp) fun h' ↦ h fun r hr ↦ ?_
      exact (h'.resolve_left hk) r.1 r.2 (Table.mem_rows.mp hr)

/-- An update of a row changes that row only. -/
theorem get?_replace? (h : t.replace? k v = some t') (hk : t.get? k ≠ none) :
    t'.get? k' = if k' = k then some v else t.get? k' := by
  unfold replace? at h
  rw [if_neg hk] at h
  split at h
  · cases h
    exact Table.get?_put _ _ _ _
  · cases h

/-- An update that keeps the unique column of its row goes through. -/
theorem replace?_same (hv : t.get? k = some v') (he : key v = key v') :
    ∃ t', t.replace? k v = some t' := by
  apply Option.isSome_iff_exists.mp
  apply replace?_isSome.mpr
  exact Or.inr fun k' w hk' hw ↦ (eq_of_key hk' hv (hw.trans he)).1

end UniqueTable

end Lib
