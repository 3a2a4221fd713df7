import Mathlib.Data.List.Infix
import Nocturne.Lib.Fs

/-!
# What is below a directory

The entries of a directory, and those that are reached from it through directories. `Without` says
that a tree is another one less some paths; it is what a sweep that only removes entries leaves.
-/

namespace Lib.Fs

variable {ν κ : Type} [DecidableEq ν] {fs fs' fs'' : Fs ν κ} {dir p q : List ν} {name : ν}

/-! ### The entries of a directory -/

/-- The name of a path that is an entry of a directory. -/
private theorem nameIn_eq_some {r : List ν × Node ν} :
    (match r.1.getLast? with
      | some n => if r.1 = dir ++ [n] then some n else none
      | none => none) = some name ↔ r.1 = dir ++ [name] := by
  cases hlast : r.1.getLast? with
  | none =>
    dsimp only
    constructor
    · exact fun h ↦ nomatch h
    · intro hpath
      rw [hpath, List.getLast?_concat] at hlast
      cases hlast
  | some n =>
    dsimp only
    constructor
    · intro h
      split at h
      · next hpath =>
        cases h
        exact hpath
      · cases h
    · intro hpath
      rw [hpath, List.getLast?_concat] at hlast
      cases hlast
      rw [if_pos hpath]

/-- The children of a directory are the names of the entries in it. -/
theorem mem_children : name ∈ fs.children dir ↔ fs.node? (dir ++ [name]) ≠ none := by
  unfold children
  rw [List.mem_filterMap]
  constructor
  · rintro ⟨r, hr, hname⟩
    have hnode := Table.mem_rows.mp hr
    rw [nameIn_eq_some.mp hname] at hnode
    unfold node?
    rw [hnode]
    exact Option.some_ne_none _
  · intro hnode
    obtain ⟨n, hn⟩ := Option.ne_none_iff_exists'.mp hnode
    exact ⟨(dir ++ [name], n), Table.mem_rows.mpr hn, nameIn_eq_some.mpr rfl⟩

/-- Each child is listed once. -/
theorem nodup_children (fs : Fs ν κ) (dir : List ν) : (fs.children dir).Nodup := by
  have hkeys := fs.nodes.nodup_keys
  unfold List.Nodup at hkeys
  rw [List.pairwise_map] at hkeys
  apply List.Pairwise.filterMap _ _ hkeys
  intro r r' hne n hn n' hn' heq
  subst heq
  exact hne ((nameIn_eq_some.mp hn).trans (nameIn_eq_some.mp hn').symm)

/-- An entry that is reached from a directory through directories. -/
inductive Under (fs : Fs ν κ) : List ν → List ν → Prop
  | entry {dir : List ν} {name : ν} (h : fs.node? (dir ++ [name]) ≠ none) :
    Under fs dir (dir ++ [name])
  | deeper {dir q : List ν} {name : ν} (h : fs.node? (dir ++ [name]) = some .dir)
    (hq : Under fs (dir ++ [name]) q) : Under fs dir q

/-- What is under a directory is there. -/
theorem Under.node (h : Under fs dir q) : fs.node? q ≠ none := by
  induction h with
  | entry h => exact h
  | deeper _ _ ih => exact ih

/-- What is under a directory is at or below one of its entries. -/
theorem Under.isPrefix (h : Under fs dir q) : ∃ name, dir ++ [name] <+: q := by
  induction h with
  | entry h => exact ⟨_, List.prefix_rfl⟩
  | deeper _ _ ih =>
    obtain ⟨name, hname⟩ := ih
    exact ⟨_, (List.prefix_append _ _).trans hname⟩

/-- What is below a directory depends on nothing else. -/
theorem Under.congr (h : Under fs dir q) (hsame : ∀ p, dir <+: p → fs'.node? p = fs.node? p) :
    Under fs' dir q := by
  induction h with
  | entry h => exact .entry (by rwa [hsame _ (List.prefix_append _ _)])
  | @deeper dir q name h _ ih =>
    apply @Under.deeper _ _ _ fs' dir q name
    · rw [hsame _ (List.prefix_append _ _), h]
    · exact ih fun p hp ↦ hsame p ((List.prefix_append _ _).trans hp)

/-- The directory of an entry below. -/
theorem Under.parent (h : Under fs dir q) :
    q.dropLast = dir ∨ Under fs dir q.dropLast ∧ fs.node? q.dropLast = some .dir := by
  induction h with
  | entry h => exact .inl List.dropLast_concat
  | @deeper dir q name h _ ih =>
    right
    rcases ih with heq | ⟨hunder, hdir⟩
    · rw [heq]
      exact ⟨.entry (by rw [h]; exact Option.some_ne_none _), h⟩
    · exact ⟨.deeper h hunder, hdir⟩

/-- What is under a directory under a directory is under that. -/
theorem Under.trans (h : Under fs dir q) (hq : fs.node? q = some .dir) (hp : Under fs q p) :
    Under fs dir p := by
  induction h with
  | entry _ => exact .deeper hq hp
  | deeper hdir _ ih => exact .deeper hdir (ih hq hp)

/-! ### Sweeps -/

/-- A tree less some paths. -/
structure Without (G : List ν → Prop) (fs fs' : Fs ν κ) : Prop where
  gone : ∀ p, G p → fs'.node? p = none
  kept : ∀ p, ¬ G p → fs'.node? p = fs.node? p
  data : fs'.data = fs.data
  next : fs'.next = fs.next
  device : fs'.device = fs.device

namespace Without

variable {G G' : List ν → Prop}

theorem refl (h : ∀ p, ¬ G p) : Without G fs fs :=
  ⟨fun p hp ↦ (h p hp).elim, fun _ _ ↦ rfl, rfl, rfl, rfl⟩

/-- Only what the bounds say matters. -/
theorem congr (h : Without G fs fs') (hG : ∀ p, G p ↔ G' p) : Without G' fs fs' where
  gone p hp := h.gone p ((hG p).mpr hp)
  kept p hp := h.kept p fun hp' ↦ hp ((hG p).mp hp')
  data := h.data
  next := h.next
  device := h.device

/-- What is taken away in two steps. -/
theorem trans (h : Without G fs fs') (h' : Without G' fs' fs'') :
    Without (fun p ↦ G p ∨ G' p) fs fs'' where
  gone p hp := by
    by_cases hG' : G' p
    · exact h'.gone p hG'
    · rw [h'.kept p hG', h.gone p (hp.resolve_right hG')]
  kept p hp := by rw [h'.kept p fun hG' ↦ hp (.inr hG'), h.kept p fun hG ↦ hp (.inl hG)]
  data := h'.data.trans h.data
  next := h'.next.trans h.next
  device := h'.device.trans h.device

/-- One entry is taken away. -/
theorem clear (fs : Fs ν κ) (p : List ν) : Without (· = p) fs (fs.clear p) where
  gone q hq := by rw [node?_clear, if_pos hq]
  kept q hq := by rw [node?_clear, if_neg hq]
  data := rfl
  next := rfl
  device := rfl

/-- An entry that is left is as it was. -/
theorem node_of_some (h : Without G fs fs') {n : Node ν} (hp : fs'.node? p = some n) :
    fs.node? p = some n := by
  have hG : ¬ G p := by
    intro hG
    rw [h.gone p hG] at hp
    cases hp
  rw [← h.kept p hG, hp]

end Without

end Lib.Fs
