import Mathlib.Data.List.GetD
import Nocturne.Base
import Nocturne.Lib.Probing
import Nocturne.Lib.Table

/-!
# The map of the watch descriptors

`watch.c` keeps the path of each watch descriptor in an open-addressing table. An insertion grows
the table where half of it is full; a removal frees a slot and inserts the entries behind it again,
up to the next free slot. The table is the finite map `Table Int Path` that the rest of the watcher
is about.
-/

namespace Nocturne

open Lib Lib.Probing

/-- `struct wd_entry`; a free slot has a negative `wd`, and nothing reads its path. -/
structure WdEntry where
  wd : Int
  path : Path
  deriving DecidableEq, Repr

/-- A slot that is free. -/
def WdEntry.free : WdEntry := ⟨-1, []⟩

/-- What a slot has. -/
def WdEntry.taken (e : WdEntry) : Option (Int × Path) :=
  if 0 ≤ e.wd then some (e.wd, e.path) else none

/-- `struct wd_map`. The count and the capacity at each probe for an insertion so far are kept in
`loads`, which the source does not have. -/
structure WdMap where
  slots : List WdEntry
  count : Nat
  capacity : Nat
  loads : List (Nat × Nat)
  deriving DecidableEq, Repr

/-- `wdm_hash`. -/
def wdmHash (wd : Int) (cap : Nat) : Nat := (wd % 2 ^ 32 * 2654435761 % 2 ^ 32).toNat % cap

namespace WdMap

/-- `wdm_init`. -/
def init : WdMap := ⟨[], 0, 0, []⟩

/-- A slot of the table. -/
def slot (m : WdMap) (idx : Nat) : WdEntry := m.slots.getD idx .free

/-- The load is noted before a probe for an insertion. -/
def note (m : WdMap) : WdMap := { m with loads := m.loads ++ [(m.count, m.capacity)] }

/-- A slot that is free stops a probe. -/
def isFree (m : WdMap) (idx : Nat) : Bool := decide ((m.slot idx).wd < 0)

/-- A slot that is free or has the descriptor stops a probe. -/
def stopsAt (m : WdMap) (wd : Int) (idx : Nat) : Bool :=
  m.isFree idx || decide ((m.slot idx).wd = wd)

/-- The loop of `wdm_grow` over the old slots, `watch.c:230–239`. -/
def regrow : List WdEntry → WdMap → Option WdMap
  | [], m => some m
  | e :: old, m =>
    if 0 ≤ e.wd then
      let m := m.note
      match probe m.capacity m.isFree m.capacity (wdmHash e.wd m.capacity) with
      | none => none
      | some idx => regrow old { m with slots := m.slots.set idx e, count := m.count + 1 }
    else regrow old m

/-- `wdm_grow`. -/
def grow (m : WdMap) : Option WdMap :=
  let newCap := if m.capacity = 0 then 64 else m.capacity * 2
  regrow m.slots ⟨List.replicate newCap .free, 0, newCap, m.loads⟩

/-- `wdm_set` once the table has room, `watch.c:249–265`. -/
def place (m : WdMap) (wd : Int) (path : Path) : Option WdMap :=
  let m := m.note
  match probe m.capacity (m.stopsAt wd) m.capacity (wdmHash wd m.capacity) with
  | none => none
  | some idx =>
    if m.isFree idx then
      some { m with slots := m.slots.set idx ⟨wd, path⟩, count := m.count + 1 }
    else some { m with slots := m.slots.set idx ⟨(m.slot idx).wd, path⟩ }

/-- `wdm_set`; `none` where a loop does not end. -/
def set (m : WdMap) (wd : Int) (path : Path) : Option WdMap :=
  if m.capacity = 0 ∨ m.capacity ≤ m.count * 2 then m.grow.bind fun m ↦ m.place wd path
  else m.place wd path

/-- `wdm_get`. -/
def get (m : WdMap) (wd : Int) : Option Path :=
  if m.capacity = 0 then none
  else
    match probe m.capacity (m.stopsAt wd) m.capacity (wdmHash wd m.capacity) with
    | none => none
    | some idx => if m.isFree idx then none else some (m.slot idx).path

/-- A slot is freed. -/
def clear (m : WdMap) (idx : Nat) : WdMap :=
  { m with slots := m.slots.set idx .free, count := m.count - 1 }

/-- The loop of `wdm_remove` over the entries behind the slot, `watch.c:293–307`; the first argument
bounds its rounds. -/
def reinsert : Nat → WdMap → Nat → Option WdMap
  | 0, _, _ => none
  | fuel + 1, m, next =>
    if m.isFree next then some m
    else
      let e := m.slot next
      ((m.clear next).set e.wd e.path).bind fun m ↦ reinsert fuel m ((next + 1) % m.capacity)

/-- `wdm_remove`; `none` where a loop does not end within as many rounds as the table has slots. -/
def remove (m : WdMap) (wd : Int) : Option WdMap :=
  if m.capacity = 0 then some m
  else
    match probe m.capacity (m.stopsAt wd) m.capacity (wdmHash wd m.capacity) with
    | none => some m
    | some idx =>
      if m.isFree idx then some m
      else reinsert m.capacity (m.clear idx) ((idx + 1) % m.capacity)

end WdMap

/-- A call of the map. -/
inductive WdCall where
  | set (wd : Int) (path : Path)
  | get (wd : Int)
  | remove (wd : Int)

/-- The descriptor of a call. -/
def WdCall.wd : WdCall → Int
  | .set wd _ => wd
  | .get wd => wd
  | .remove wd => wd

/-- The calls one after the other, with what the calls of `wdm_get` return. -/
def WdMap.run : List WdCall → WdMap → Option (WdMap × List (Option Path))
  | [], m => some (m, [])
  | .set wd path :: calls, m => (m.set wd path).bind (WdMap.run calls)
  | .get wd :: calls, m => (WdMap.run calls m).map fun r ↦ (r.1, m.get wd :: r.2)
  | .remove wd :: calls, m => (m.remove wd).bind (WdMap.run calls)

/-- The calls on a finite map. -/
def wdReference : List WdCall → Table Int Path → Table Int Path × List (Option Path)
  | [], t => (t, [])
  | .set wd path :: calls, t => wdReference calls (t.put wd path)
  | .get wd :: calls, t => let r := wdReference calls t; (r.1, t.get? wd :: r.2)
  | .remove wd :: calls, t => wdReference calls (t.drop wd)

namespace WdMap

/-! ### The ring of the slots -/

/-- The slots of the table as a ring. -/
def ring (m : WdMap) (x : ℤ) : Option (Int × Path) := (m.slot (slotOf m.capacity x)).taken

/-- The first slot of the probes for a descriptor. -/
def home (cap : Nat) (wd : Int) : ℤ := wdmHash wd cap

/-- A table whose count is right, with room at each probe for an insertion so far. -/
structure Shape (m : WdMap) : Prop where
  length : m.slots.length = m.capacity
  count : m.count = m.slots.countP fun e ↦ e.taken.isSome
  loads : ∀ load ∈ m.loads, load.1 * 2 < load.2

/-- A table between two calls. -/
structure Sound (m : WdMap) : Prop extends Shape m where
  even : m.capacity % 2 = 0
  half : m.count * 2 ≤ m.capacity
  chained : Chained m.capacity (home m.capacity) m.ring

variable {m : WdMap} {wd : Int} {path : Path} {x : ℤ} {i : Nat}

theorem taken_eq_none_iff (e : WdEntry) : e.taken = none ↔ e.wd < 0 := by
  unfold WdEntry.taken
  split
  · next h => exact iff_of_false (Option.some_ne_none _) (by omega)
  · next h => exact iff_of_true rfl (by omega)

theorem isFree_iff : m.isFree i = true ↔ (m.slot i).taken = none := by
  rw [taken_eq_none_iff, isFree, decide_eq_true_iff]

theorem taken_eq_some_iff (e : WdEntry) : e.taken = some (wd, path) ↔ 0 ≤ wd ∧ e = ⟨wd, path⟩ := by
  unfold WdEntry.taken
  cases e
  split
  · next h =>
    simp only [Option.some.injEq, Prod.mk.injEq, WdEntry.mk.injEq]
    constructor
    · rintro ⟨rfl, rfl⟩
      exact ⟨h, rfl, rfl⟩
    · exact fun h ↦ h.2
  · next h =>
    simp only [reduceCtorEq, WdEntry.mk.injEq, false_iff, not_and]
    rintro hwd rfl
    exact absurd hwd h

theorem Shape.note (h : Shape m) (hcount : m.count * 2 < m.capacity) : Shape m.note where
  length := h.length
  count := h.count
  loads := by
    intro load hload
    rcases List.mem_append.mp hload with hload | hload
    · exact h.loads load hload
    · rw [List.mem_singleton.mp hload]
      exact hcount

/-- A table that is not full has a free slot. -/
theorem Shape.exists_free (h : Shape m) (hcount : m.count < m.capacity) :
    ∃ i < m.capacity, m.isFree i = true := by
  by_contra hnone
  have hall : ∀ e ∈ m.slots, e.taken.isSome = true := by
    intro e he
    obtain ⟨i, hi, rfl⟩ := List.getElem_of_mem he
    by_contra hfree
    apply hnone
    refine ⟨i, h.length ▸ hi, isFree_iff.mpr ?_⟩
    unfold slot
    rw [List.getD_eq_getElem _ _ hi]
    simpa using hfree
  have hcount' := h.count
  rw [List.countP_eq_length.mpr hall, h.length] at hcount'
  omega

theorem slot_set (h : Shape m) (hi : i < m.capacity) (e : WdEntry) (count : Nat)
    (loads : List (Nat × Nat)) (j : Nat) :
    slot ⟨m.slots.set i e, count, m.capacity, loads⟩ j = if i = j then e else m.slot j := by
  unfold slot
  rw [List.getD_eq_getElem?_getD, List.getElem?_set, List.getD_eq_getElem?_getD]
  split
  · next hij => rw [if_pos (by rw [h.length]; omega), Option.getD_some]
  · rfl

/-- A slot is written. -/
theorem ring_set (h : Shape m) (hcap : 0 < m.capacity) (x : ℤ) (e : WdEntry) (count : Nat)
    (loads : List (Nat × Nat)) :
    ring ⟨m.slots.set (slotOf m.capacity x) e, count, m.capacity, loads⟩ =
      put m.capacity m.ring x e.taken := by
  funext y
  unfold ring
  dsimp only
  rw [slot_set h (slotOf_lt hcap x)]
  by_cases hyx : y ≡ x [ZMOD m.capacity]
  · rw [put_of_modEq hyx, if_pos ((slotOf_eq_iff hcap x y).mpr hyx.symm)]
  · rw [put_of_not_modEq hyx, if_neg fun heq ↦ hyx ((slotOf_eq_iff hcap x y).mp heq).symm]

theorem countP_set (h : Shape m) (hi : i < m.capacity) (e : WdEntry) :
    (m.slots.set i e).countP (fun e ↦ e.taken.isSome) =
      m.count - (if m.isFree i then 0 else 1) + if e.taken.isSome then 1 else 0 := by
  have hi' : i < m.slots.length := by rw [h.length]; exact hi
  rw [List.countP_set hi', ← h.count]
  congr 2
  have hslot : m.slot i = m.slots[i] := List.getD_eq_getElem _ _ hi'
  cases hfree : m.isFree i with
  | true => simp [← hslot, isFree_iff.mp hfree]
  | false =>
    cases htaken : (m.slot i).taken with
    | none => rw [isFree_iff.mpr htaken] at hfree; cases hfree
    | some p => simp [← hslot, htaken]

theorem isFree_slotOf : m.isFree (slotOf m.capacity x) = true ↔ m.ring x = none := isFree_iff

/-- A probe for a descriptor stops. -/
theorem Shape.probe_stops (h : Shape m) (hcount : m.count < m.capacity) (wd : Int) :
    ∃ x, probe m.capacity (m.stopsAt wd) m.capacity (wdmHash wd m.capacity) =
      some (slotOf m.capacity x) ∧ Stops (home m.capacity) m.ring wd x := by
  obtain ⟨i, hi, hfree⟩ := h.exists_free hcount
  have hstop : m.stopsAt wd i = true := by rw [stopsAt, hfree, Bool.true_or]
  have hhash : wdmHash wd m.capacity < m.capacity := Nat.mod_lt _ (by omega)
  obtain ⟨x, hle, hprobe, hx, hbefore⟩ := exists_probe hi hstop hhash
  refine ⟨x, hprobe, hle, fun y hlow hhigh ↦ ?_, fun e he ↦ ?_⟩
  · have hy := hbefore y hlow hhigh
    rw [stopsAt, Bool.or_eq_false_iff, decide_eq_false_iff_not] at hy
    cases hring : m.ring y with
    | none =>
      rw [isFree_slotOf.mpr hring] at hy
      cases hy.1
    | some e =>
      refine ⟨e, rfl, fun hkey ↦ hy.2 ?_⟩
      rw [((taken_eq_some_iff _).mp hring).2]
      exact hkey
  · rw [stopsAt, Bool.or_eq_true, decide_eq_true_iff, isFree_slotOf, he] at hx
    rcases hx with hx | hx
    · cases hx
    · rw [← hx, ((taken_eq_some_iff _).mp he).2]

/-! ### Insertion -/

/-- A slot is written, and the count follows. -/
theorem Shape.write (h : Shape m) (hcap : 0 < m.capacity) (x : ℤ) (e : WdEntry) {count : Nat}
    (hcount : count = m.count - (if m.ring x = none then 0 else 1) +
      if e.taken.isSome then 1 else 0) :
    Shape ⟨m.slots.set (slotOf m.capacity x) e, count, m.capacity, m.loads⟩ where
  length := by rw [List.length_set, h.length]
  count := by
    rw [countP_set h (slotOf_lt hcap x), hcount]
    simp only [isFree_slotOf]
  loads := h.loads

/-- The entry of a descriptor is written where its probe stops. -/
theorem Shape.write_path (h : Shape m) (hcap : 0 < m.capacity) (hwd : 0 ≤ wd)
    (hx : Stops (home m.capacity) m.ring wd x) (path : Path) :
    ∃ m', (if m.isFree (slotOf m.capacity x) then
        some { m with
          slots := m.slots.set (slotOf m.capacity x) ⟨wd, path⟩, count := m.count + 1 }
      else some { m with
          slots := m.slots.set (slotOf m.capacity x) ⟨(m.slot (slotOf m.capacity x)).wd, path⟩ }) =
        some m' ∧
      m'.ring = put m.capacity m.ring x (some (wd, path)) ∧ m'.capacity = m.capacity ∧
      m'.count ≤ m.count + 1 ∧ Shape m' := by
  have htaken : WdEntry.taken ⟨wd, path⟩ = some (wd, path) := if_pos hwd
  cases hring : m.ring x with
  | none =>
    rw [if_pos (isFree_slotOf.mpr hring), ← htaken]
    refine ⟨_, rfl, ring_set h hcap x _ _ _, rfl, le_rfl, h.write hcap x _ ?_⟩
    rw [if_pos hring, htaken]
    rfl
  | some e =>
    have hfree : ¬ m.isFree (slotOf m.capacity x) = true := by
      rw [isFree_slotOf, hring]
      exact Option.some_ne_none e
    have hwd' : (m.slot (slotOf m.capacity x)).wd = wd := by
      rw [((taken_eq_some_iff _).mp hring).2]
      exact hx.here e hring
    have hpos : 0 < m.count := by
      rw [h.count, List.countP_pos_iff]
      have hslot : slotOf m.capacity x < m.slots.length := by
        rw [h.length]
        exact slotOf_lt hcap x
      refine ⟨_, List.getElem_mem hslot, ?_⟩
      rw [← List.getD_eq_getElem m.slots .free hslot]
      exact Option.isSome_iff_exists.mpr ⟨e, hring⟩
    rw [if_neg hfree, hwd', ← htaken]
    refine ⟨_, rfl, ring_set h hcap x _ _ _, rfl, by simp, h.write hcap x _ ?_⟩
    rw [if_neg (by rw [hring]; exact Option.some_ne_none e), htaken]
    simp only [Option.isSome_some, if_true]
    omega

/-- An insertion into a table less than half full writes the slot where the probe stops. -/
theorem Shape.place (h : Shape m) (hcount : m.count * 2 < m.capacity) (hwd : 0 ≤ wd)
    (path : Path) : ∃ x m', m.place wd path = some m' ∧ Stops (home m.capacity) m.ring wd x ∧
      m'.ring = put m.capacity m.ring x (some (wd, path)) ∧ m'.capacity = m.capacity ∧
      m'.count ≤ m.count + 1 ∧ Shape m' := by
  have hnote := h.note hcount
  have hcap : 0 < m.note.capacity := show 0 < m.capacity by omega
  obtain ⟨x, hprobe, hstops⟩ := hnote.probe_stops (show m.count < m.capacity by omega) wd
  obtain ⟨m', hwrite, hm'⟩ := hnote.write_path hcap hwd hstops path
  refine ⟨x, m', ?_, hstops, hm'⟩
  unfold WdMap.place
  dsimp only
  rw [hprobe]
  exact hwrite

theorem Sound.place (h : Sound m) (hcount : m.count * 2 < m.capacity) (hwd : 0 ≤ wd)
    (path : Path) : ∃ m', m.place wd path = some m' ∧ Sound m' ∧ m'.capacity = m.capacity ∧
      m'.count ≤ m.count + 1 ∧ ∀ k v, Maps m'.ring k v ↔
        k = wd ∧ v = path ∨ k ≠ wd ∧ Maps m.ring k v := by
  obtain ⟨x, m', hplace, hstops, hring, hcap, hcount', hshape⟩ :=
    h.toShape.place hcount hwd path
  have heven := h.even
  refine ⟨m', hplace, ⟨hshape, by rw [hcap, heven], by omega, ?_⟩, hcap, hcount', fun k v ↦ ?_⟩
  · rw [hcap, hring]
    exact chained_put h.chained hstops
  · rw [hring]
    exact maps_put h.chained hstops k v

/-! ### Growth -/

/-- What a table has is in its slots. -/
theorem Shape.maps_iff (h : Shape m) {k : Int} {v : Path} :
    Maps m.ring k v ↔ ∃ e ∈ m.slots, e.taken = some (k, v) := by
  constructor
  · rintro ⟨x, hx⟩
    unfold ring slot at hx
    by_cases hi : slotOf m.capacity x < m.slots.length
    · rw [List.getD_eq_getElem _ _ hi] at hx
      exact ⟨_, List.getElem_mem hi, hx⟩
    · rw [List.getD_eq_default _ _ (by omega)] at hx
      cases hx
  · rintro ⟨e, he, htaken⟩
    obtain ⟨i, hi, rfl⟩ := List.getElem_of_mem he
    refine ⟨i, ?_⟩
    unfold ring slot
    rw [slotOf_of_lt (h.length ▸ hi), List.getD_eq_getElem _ _ hi, htaken]

/-- No two slots have one descriptor. -/
def Distinct (a b : WdEntry) : Prop := 0 ≤ a.wd → a.wd ≠ b.wd

/-- A table without slots has nothing. -/
theorem Shape.not_maps (h : Shape m) (hcap : m.capacity = 0) (k : Int) (v : Path) :
    ¬ Maps m.ring k v := by
  have hnil : m.slots = [] := List.eq_nil_of_length_eq_zero (h.length.trans hcap)
  rw [h.maps_iff]
  simp [hnil]

theorem Sound.distinct (h : Sound m) : m.slots.Pairwise Distinct := by
  rw [List.pairwise_iff_getElem]
  intro i j hi hj hij hwd hsame
  have hslot : ∀ i (hi : i < m.slots.length), m.ring i = m.slots[i].taken := by
    intro i hi
    unfold ring slot
    rw [slotOf_of_lt (h.length ▸ hi), List.getD_eq_getElem _ _ hi]
  have hring₁ := (hslot i hi).trans (if_pos hwd)
  have hring₂ := (hslot j hj).trans (if_pos (hsame ▸ hwd))
  rw [← hsame] at hring₂
  have hmod := h.chained.once i j _ _ _ hring₁ hring₂
  have hlength := h.length
  have heq := eq_of_modEq hmod (by omega) (by omega)
  omega

/-- An entry whose descriptor is not in the table is inserted as by `wdm_set`. -/
theorem regrow_cons (h : Shape m) {e : WdEntry} {old : List WdEntry} (hwd : 0 ≤ e.wd)
    (hnew : ∀ v, ¬ Maps m.ring e.wd v) :
    regrow (e :: old) m = (m.place e.wd e.path).bind (regrow old) := by
  have hstops : m.note.stopsAt e.wd = m.note.isFree := by
    funext i
    rw [stopsAt, Bool.or_eq_left_iff_imp, decide_eq_true_iff]
    intro hi
    by_contra hfree
    have htaken : (m.slot i).taken = some (e.wd, (m.slot i).path) := by
      rw [taken_eq_some_iff]
      exact ⟨hwd, by rw [← hi]; rfl⟩
    by_cases hlt : i < m.slots.length
    · apply hnew (m.slot i).path
      rw [h.maps_iff]
      refine ⟨_, List.getElem_mem hlt, ?_⟩
      rw [← List.getD_eq_getElem m.slots .free hlt]
      exact htaken
    · unfold slot at htaken
      rw [List.getD_eq_default _ _ (by omega)] at htaken
      cases htaken
  rw [regrow, if_pos hwd, WdMap.place]
  dsimp only
  rw [hstops]
  cases hprobe : probe m.note.capacity m.note.isFree m.note.capacity
      (wdmHash e.wd m.note.capacity) with
  | none => rfl
  | some idx =>
    dsimp only
    rw [if_pos (stop_of_probe hprobe)]
    rfl

/-- All entries of a list are inserted into a table that they leave less than half full. -/
theorem Sound.regrow {old : List WdEntry} (h : Sound m)
    (hroom : (m.count + old.countP fun e ↦ e.taken.isSome) * 2 < m.capacity)
    (hdistinct : old.Pairwise Distinct)
    (hnew : ∀ e ∈ old, 0 ≤ e.wd → ∀ v, ¬ Maps m.ring e.wd v) :
    ∃ m', regrow old m = some m' ∧ Sound m' ∧ m'.count * 2 < m'.capacity ∧
      ∀ k v, Maps m'.ring k v ↔ Maps m.ring k v ∨ ∃ e ∈ old, e.taken = some (k, v) := by
  induction old generalizing m with
  | nil => exact ⟨m, rfl, h, by simpa using hroom, by simp⟩
  | cons e old ih =>
    obtain ⟨hfirst, hdistinct⟩ := List.pairwise_cons.mp hdistinct
    by_cases hwd : 0 ≤ e.wd
    · have htaken : e.taken = some (e.wd, e.path) := if_pos hwd
      rw [List.countP_cons_of_pos (by rw [htaken]; rfl)] at hroom
      obtain ⟨m₁, hplace, hsound, hcap, hcount, hmaps⟩ := h.place (by omega) hwd e.path
      have hnew₁ : ∀ e' ∈ old, 0 ≤ e'.wd → ∀ v, ¬ Maps m₁.ring e'.wd v := by
        intro e' he' hwd' v hv
        rcases (hmaps _ _).mp hv with ⟨hsame, -⟩ | ⟨-, hold⟩
        · exact hfirst e' he' hwd hsame.symm
        · exact hnew e' (List.mem_cons_of_mem _ he') hwd' v hold
      obtain ⟨m', hregrow, hsound', hroom', hmaps'⟩ :=
        ih hsound (by rw [hcap]; omega) hdistinct hnew₁
      refine ⟨m', ?_, hsound', hroom', fun k v ↦ ?_⟩
      · rw [regrow_cons h.toShape hwd (hnew e List.mem_cons_self hwd), hplace]
        exact hregrow
      · rw [hmaps' k v, hmaps k v]
        constructor
        · rintro ((⟨rfl, rfl⟩ | ⟨-, hold⟩) | ⟨e', he', htaken'⟩)
          · exact .inr ⟨e, List.mem_cons_self, htaken⟩
          · exact .inl hold
          · exact .inr ⟨e', List.mem_cons_of_mem _ he', htaken'⟩
        · rintro (hold | ⟨e', he', htaken'⟩)
          · by_cases hk : k = e.wd
            · subst hk
              exact absurd hold (hnew e List.mem_cons_self hwd v)
            · exact .inl (.inr ⟨hk, hold⟩)
          · rcases List.mem_cons.mp he' with rfl | he'
            · rw [htaken] at htaken'
              cases htaken'
              exact .inl (.inl ⟨rfl, rfl⟩)
            · exact .inr ⟨e', he', htaken'⟩
    · have htaken : e.taken = none := if_neg hwd
      rw [List.countP_cons_of_neg (by rw [htaken]; simp)] at hroom
      obtain ⟨m', hregrow, hsound', hroom', hmaps'⟩ :=
        ih h hroom hdistinct fun e' he' ↦ hnew e' (List.mem_cons_of_mem _ he')
      refine ⟨m', ?_, hsound', hroom', fun k v ↦ ?_⟩
      · rw [WdMap.regrow, if_neg hwd]
        exact hregrow
      · rw [hmaps' k v]
        simp [htaken]

/-- A table without entries. -/
theorem sound_fresh {cap : Nat} (heven : cap % 2 = 0) {loads : List (Nat × Nat)}
    (hloads : ∀ load ∈ loads, load.1 * 2 < load.2) :
    Sound ⟨List.replicate cap .free, 0, cap, loads⟩ ∧
      ∀ x, ring ⟨List.replicate cap .free, 0, cap, loads⟩ x = none := by
  have hring : ∀ x, ring ⟨List.replicate cap .free, 0, cap, loads⟩ x = none := by
    intro x
    have hslot : slot ⟨List.replicate cap .free, 0, cap, loads⟩ (slotOf cap x) = .free := by
      unfold slot
      by_cases hlt : slotOf cap x < cap
      · rw [List.getD_eq_getElem _ _ (by rwa [List.length_replicate]), List.getElem_replicate]
      · rw [List.getD_eq_default _ _ (by rw [List.length_replicate]; omega)]
    unfold ring
    rw [hslot]
    rfl
  refine ⟨⟨⟨List.length_replicate, ?_, hloads⟩, heven, by simp, ?_⟩, hring⟩
  · rw [List.countP_replicate]
    rfl
  · rw [funext hring]
    exact chained_none

theorem Sound.grow (h : Sound m) : ∃ m', m.grow = some m' ∧ Sound m' ∧
    m'.count * 2 < m'.capacity ∧ ∀ k v, Maps m'.ring k v ↔ Maps m.ring k v := by
  have heven := h.even
  have hhalf := h.half
  obtain ⟨hfresh, hnone⟩ := @sound_fresh (if m.capacity = 0 then 64 else m.capacity * 2)
    (by split <;> omega) m.loads h.loads
  have hempty : ∀ k v, ¬ Maps (ring ⟨List.replicate (if m.capacity = 0 then 64 else
      m.capacity * 2) .free, 0, if m.capacity = 0 then 64 else m.capacity * 2, m.loads⟩) k v := by
    rintro k v ⟨x, hx⟩
    rw [hnone] at hx
    cases hx
  obtain ⟨m', hregrow, hsound, hroom, hmaps⟩ := @Sound.regrow _ m.slots hfresh
    (by rw [← h.count]; dsimp only; split <;> omega) h.distinct fun e _ _ v ↦ hempty e.wd v
  refine ⟨m', hregrow, hsound, hroom, fun k v ↦ ?_⟩
  rw [hmaps k v, h.maps_iff]
  exact or_iff_right (hempty k v)

/-! ### The calls -/

theorem Sound.set (h : Sound m) (hwd : 0 ≤ wd) (path : Path) :
    ∃ m', m.set wd path = some m' ∧ Sound m' ∧ ∀ k v, Maps m'.ring k v ↔
      k = wd ∧ v = path ∨ k ≠ wd ∧ Maps m.ring k v := by
  unfold WdMap.set
  by_cases hfull : m.capacity = 0 ∨ m.capacity ≤ m.count * 2
  · obtain ⟨m₁, hgrow, hsound, hroom, hmaps⟩ := h.grow
    obtain ⟨m', hplace, hsound', -, -, hmaps'⟩ := hsound.place hroom hwd path
    refine ⟨m', ?_, hsound', fun k v ↦ ?_⟩
    · rw [if_pos hfull, hgrow]
      exact hplace
    · rw [hmaps' k v, hmaps k v]
  · obtain ⟨m', hplace, hsound', -, -, hmaps'⟩ := h.place (by omega) hwd path
    exact ⟨m', by rw [if_neg hfull, hplace], hsound', hmaps'⟩

theorem Sound.get (h : Sound m) (wd : Int) (path : Path) :
    m.get wd = some path ↔ Maps m.ring wd path := by
  unfold WdMap.get
  by_cases hcap : m.capacity = 0
  · rw [if_pos hcap]
    exact (iff_false_right (h.toShape.not_maps hcap wd path)).mpr (by simp)
  · have hhalf := h.half
    obtain ⟨x, hprobe, hstops⟩ := h.probe_stops (by omega) wd
    rw [if_neg hcap, hprobe, ← hstops.slot_eq_some h.chained]
    dsimp only
    cases hring : m.ring x with
    | none =>
      rw [if_pos (isFree_slotOf.mpr hring)]
      simp
    | some e =>
      have hfree : ¬ m.isFree (slotOf m.capacity x) = true := by
        rw [isFree_slotOf, hring]
        exact Option.some_ne_none e
      have hkey := hstops.here e hring
      rw [if_neg hfree, ((taken_eq_some_iff _).mp hring).2]
      subst hkey
      simp [Prod.ext_iff]

/-! ### Removal -/

/-- A slot is freed. -/
theorem Shape.clear (h : Shape m) (hcap : 0 < m.capacity) {e : Int × Path}
    (hx : m.ring x = some e) : Shape (m.clear (slotOf m.capacity x)) ∧
      (m.clear (slotOf m.capacity x)).ring = put m.capacity m.ring x none := by
  refine ⟨h.write hcap x .free ?_, ring_set h hcap x .free _ _⟩
  rw [if_neg (by rw [hx]; exact Option.some_ne_none e)]
  rfl

/-- A table with an entry counts it. -/
theorem Shape.count_pos (h : Shape m) {e : Int × Path} (hx : m.ring x = some e) : 0 < m.count := by
  by_contra hzero
  have hnone := List.countP_eq_zero.mp (h.count.symm.trans (by omega))
  obtain ⟨entry, hentry, htaken⟩ := h.maps_iff.mp ⟨x, hx⟩
  exact hnone entry hentry (by rw [htaken]; rfl)

/-- The entries behind a slot end at a free one. -/
theorem Sound.exists_next_free (h : Sound m) (hcap : 0 < m.capacity) {entry : Int × Path}
    (hx : m.ring x = some entry) : ∃ e, x < e ∧ e < x + m.capacity ∧
      (∀ y, x ≤ y → y < e → m.ring y ≠ none) ∧ m.ring e = none := by
  have hhalf := h.half
  obtain ⟨i, hi, hifree⟩ := h.exists_free (by omega)
  obtain ⟨z, hzi, hlow, hhigh⟩ := exists_in_round (by omega : (0 : ℤ) < m.capacity) x i
  have hz : m.ring z = none := by
    rw [slot_eq h.chained.periodic hzi, ← isFree_slotOf, slotOf_of_lt hi, hifree]
  have hzx : z ≠ x := by
    rintro rfl
    rw [hx] at hz
    cases hz
  obtain ⟨e, hxe, hez, he, hfull⟩ :=
    @exists_first (fun y ↦ m.ring y = none) (x + 1) z (by omega) hz
  refine ⟨e, by omega, by omega, fun y hxy hye ↦ ?_, he⟩
  rcases eq_or_lt_of_le hxy with rfl | hxy
  · rw [hx]
    exact Option.some_ne_none _
  · exact hfull y hxy hye

/-- The entries from a place up to the next free slot are inserted again. The table does not grow
at that: it has lost two entries at each insertion. -/
theorem reinsert_mends {F₀ : ℤ → Option (Int × Path)} {cap fuel : Nat} {a s e : ℤ}
    (hc : Chained cap (home cap) F₀) (h : Shape m) (hcap : m.capacity = cap)
    (hroom : (m.count + 1) * 2 ≤ cap) (hmending : Mending cap (home cap) F₀ m.ring a s e)
    (hfuel : e < s + fuel) :
    ∃ m', reinsert fuel m (slotOf cap s) = some m' ∧ Shape m' ∧ m'.capacity = cap ∧
      (m'.count + 1) * 2 ≤ cap ∧ Chained cap (home cap) m'.ring ∧
      ∀ k v, Maps m'.ring k v ↔ Maps m.ring k v := by
  induction fuel generalizing m s with
  | zero =>
    have hle := hmending.le
    omega
  | succ fuel ih =>
    subst hcap
    have hpos : 0 < m.capacity := by omega
    rcases eq_or_lt_of_le hmending.le with rfl | hse
    · have hlt := hmending.lt
      have hround := hmending.round
      have hfree : m.isFree (slotOf m.capacity s) = true := by
        rw [isFree_slotOf, hmending.rest s le_rfl hround, hmending.free]
      refine ⟨m, ?_, h, rfl, hroom, hmending.chained hc, fun _ _ ↦ Iff.rfl⟩
      rw [reinsert, if_pos hfree]
    · have hlt := hmending.lt
      have hround := hmending.round
      have htaken : m.ring s ≠ none := by
        rw [hmending.rest s le_rfl (by omega)]
        exact hmending.full s (by omega) hse
      obtain ⟨⟨wd, path⟩, hs⟩ := Option.ne_none_iff_exists'.mp htaken
      obtain ⟨hwd, hslot⟩ := (taken_eq_some_iff _).mp hs
      obtain ⟨hclear, hring⟩ := h.clear hpos hs
      have hcount : (m.clear (slotOf m.capacity s)).count = m.count - 1 := rfl
      obtain ⟨x, m₁, hplace, hstops, hring₁, hcap₁, hcount₁, hshape₁⟩ :=
        hclear.place (show (m.count - 1) * 2 < m.capacity by omega) hwd path
      have hset : (m.clear (slotOf m.capacity s)).set wd path = some m₁ := by
        unfold WdMap.set
        rw [if_neg, hplace]
        show ¬ (m.capacity = 0 ∨ m.capacity ≤ (m.count - 1) * 2)
        omega
      have hcap₁ : m₁.capacity = m.capacity := hcap₁
      rw [hring] at hstops hring₁
      have hcountPos := h.count_pos hs
      obtain ⟨m', hreinsert, hshape', hcap', hroom', hchained', hmaps'⟩ :=
        ih hshape₁ hcap₁ (by omega) (hring₁ ▸ hmending.step hc hse hs hstops) (by omega)
      refine ⟨m', ?_, hshape', hcap', hroom', hchained', fun k v ↦ ?_⟩
      · have hfree : ¬ m.isFree (slotOf m.capacity s) = true := by rwa [isFree_slotOf]
        rw [reinsert, if_neg hfree, hslot]
        dsimp only
        rw [hset, Option.bind_some, hcap₁, slotOf_succ hpos]
        exact hreinsert
      · rw [hmaps' k v, hring₁]
        exact hmending.maps_step hc hse hs hstops k v

theorem Sound.remove (h : Sound m) (wd : Int) : ∃ m', m.remove wd = some m' ∧ Sound m' ∧
    ∀ k v, Maps m'.ring k v ↔ k ≠ wd ∧ Maps m.ring k v := by
  unfold WdMap.remove
  by_cases hcap : m.capacity = 0
  · refine ⟨m, if_pos hcap, h, fun k v ↦ ?_⟩
    simp [h.toShape.not_maps hcap k v]
  · have heven := h.even
    have hhalf := h.half
    have hpos : 0 < m.capacity := by omega
    obtain ⟨x, hprobe, hstops⟩ := h.probe_stops (by omega) wd
    rw [if_neg hcap, hprobe]
    dsimp only
    cases hx : m.ring x with
    | none =>
      refine ⟨m, if_pos (isFree_slotOf.mpr hx), h, fun k v ↦ (and_iff_right_of_imp ?_).symm⟩
      rintro hk rfl
      rw [← hstops.slot_eq_some h.chained, hx] at hk
      cases hk
    | some entry =>
      obtain ⟨wd', path⟩ := entry
      have hkey : wd' = wd := hstops.here _ hx
      subst hkey
      have hfree : ¬ m.isFree (slotOf m.capacity x) = true := by
        rw [isFree_slotOf, hx]
        exact Option.some_ne_none _
      obtain ⟨e, hxe, hround, hfull, he⟩ := h.exists_next_free hpos hx
      obtain ⟨hclear, hring⟩ := h.toShape.clear hpos hx
      have hmending := h.chained.mending hxe hround hfull he
      rw [← hring] at hmending
      have hcount : (m.clear (slotOf m.capacity x)).count = m.count - 1 := rfl
      obtain ⟨m', hreinsert, hshape, hcap', hroom, hchained, hmaps⟩ :=
        @reinsert_mends _ _ _ m.capacity _ _ _ h.chained hclear rfl (by omega) hmending (by omega)
      refine ⟨m', ?_, ⟨hshape, by rw [hcap', heven], by omega, by rwa [hcap']⟩, fun k v ↦ ?_⟩
      · rw [if_neg hfree, slotOf_succ hpos]
        exact hreinsert
      · rw [hmaps k v, hring]
        exact maps_free h.chained.periodic h.chained.once hx k v

/-! ### Runs -/

/-- The table has what a finite map has. -/
structure Refines (m : WdMap) (t : Table Int Path) : Prop extends Sound m where
  maps : ∀ k v, Maps m.ring k v ↔ t.get? k = some v

theorem Refines.get {t : Table Int Path} (h : Refines m t) (wd : Int) : m.get wd = t.get? wd := by
  ext path
  rw [h.toSound.get, h.maps]

/-- The calls give what they give on the finite map, and the tables stay alike. -/
theorem Refines.run {t : Table Int Path} {calls : List WdCall} (h : Refines m t)
    (hwd : ∀ call ∈ calls, 0 ≤ call.wd) : ∃ m', run calls m = some (m', (wdReference calls t).2) ∧
      Refines m' (wdReference calls t).1 := by
  induction calls generalizing m t with
  | nil => exact ⟨m, rfl, h⟩
  | cons call calls ih =>
    have hrest := fun call h ↦ hwd call (List.mem_cons_of_mem _ h)
    cases call with
    | set wd path =>
      have hwd₀ : 0 ≤ wd := hwd _ List.mem_cons_self
      obtain ⟨m₁, hset, hsound, hmaps⟩ := h.toSound.set hwd₀ path
      have hrefines : Refines m₁ (t.put wd path) := by
        refine ⟨hsound, fun k v ↦ ?_⟩
        rw [hmaps k v, h.maps, Table.get?_put]
        by_cases hk : k = wd <;> simp [hk, eq_comm]
      obtain ⟨m', hrun, h'⟩ := ih hrefines hrest
      exact ⟨m', by rw [WdMap.run, hset]; exact hrun, h'⟩
    | get wd =>
      obtain ⟨m', hrun, h'⟩ := ih h hrest
      exact ⟨m', by rw [WdMap.run, hrun, h.get]; rfl, h'⟩
    | remove wd =>
      obtain ⟨m₁, hremove, hsound, hmaps⟩ := h.toSound.remove wd
      have hrefines : Refines m₁ (t.drop wd) := by
        refine ⟨hsound, fun k v ↦ ?_⟩
        rw [hmaps k v, h.maps, Table.get?_drop]
        by_cases hk : k = wd <;> simp [hk]
      obtain ⟨m', hrun, h'⟩ := ih hrefines hrest
      exact ⟨m', by rw [WdMap.run, hremove]; exact hrun, h'⟩

theorem refines_init : Refines init .empty := by
  obtain ⟨hsound, hnone⟩ := @sound_fresh 0 rfl [] (by simp)
  refine ⟨hsound, fun k v ↦ iff_of_false ?_ (by simp)⟩
  rintro ⟨x, hx⟩
  exact Option.some_ne_none _ (hx.symm.trans (hnone x))

/-- The entries of a descriptor are one with its path, or none. -/
theorem Refines.entries {t : Table Int Path} (h : Refines m t) (hwd : 0 ≤ wd) :
    (m.slots.filter fun e ↦ e.wd = wd) = ((t.get? wd).map (WdEntry.mk wd)).toList := by
  have hmem : ∀ path, t.get? wd = some path ↔
      ⟨wd, path⟩ ∈ m.slots.filter fun e ↦ e.wd = wd := by
    intro path
    rw [← h.maps, h.maps_iff, List.mem_filter, decide_eq_true_iff, and_iff_left rfl]
    simp only [taken_eq_some_iff, hwd, true_and, exists_eq_right]
  have hwds : ∀ e ∈ m.slots.filter (fun e ↦ e.wd = wd), e = ⟨wd, e.path⟩ := by
    intro e he
    have hkey : e.wd = wd := by simpa using (List.mem_filter.mp he).2
    rw [← hkey]
  have hdistinct := h.distinct.filter fun e ↦ e.wd = wd
  generalize m.slots.filter (fun e ↦ e.wd = wd) = found at hmem hwds hdistinct
  cases hget : t.get? wd with
  | none =>
    cases found with
    | nil => rfl
    | cons e found =>
      have he := (hmem e.path).mpr (hwds e (by simp) ▸ List.mem_cons_self)
      rw [hget] at he
      cases he
  | some path =>
    match found, hmem, hwds, hdistinct with
    | [], hmem, _, _ =>
      have hin := (hmem path).mp hget
      cases hin
    | [e], hmem, _, _ =>
      have hin := (hmem path).mp hget
      rw [List.mem_singleton] at hin
      rw [← hin]
      rfl
    | e :: e' :: found, _, hwds, hdistinct =>
      have he := hwds e (by simp)
      have he' := hwds e' (by simp)
      have hne := (List.pairwise_cons.mp hdistinct).1 e' (by simp)
      rw [he, he'] at hne
      exact absurd rfl (hne hwd)

/-- The map of the watch descriptors is a finite map: on every run of calls with descriptors that
are not negative each loop ends, each call of `wdm_get` returns the path that was set last and not
removed since, each descriptor has one entry with its path or none, and each probe for an insertion
found the table less than half full. -/
theorem run_refines (calls : List WdCall) (hwd : ∀ call ∈ calls, 0 ≤ call.wd) :
    ∃ m, run calls init = some (m, (wdReference calls .empty).2) ∧
      (∀ wd, 0 ≤ wd → m.get wd = (wdReference calls .empty).1.get? wd ∧
        (m.slots.filter fun e ↦ e.wd = wd) =
          (((wdReference calls .empty).1.get? wd).map (WdEntry.mk wd)).toList) ∧
      ∀ load ∈ m.loads, load.1 * 2 < load.2 := by
  obtain ⟨m, hrun, h⟩ := refines_init.run hwd
  exact ⟨m, hrun, fun wd hwd ↦ ⟨h.get wd, h.entries hwd⟩, h.loads⟩

/-- Two descriptors of one slot, of which the first is removed. -/
theorem run_refines_colliding :
    ∃ m, run [.set 1 [ascii "a"], .set 65 [ascii "b"], .remove 1, .get 1, .get 65] init =
        some (m, [none, some [ascii "b"]]) ∧
      (∀ wd, 0 ≤ wd → m.get wd = (Table.empty.put 65 [ascii "b"]).get? wd ∧
        (m.slots.filter fun e ↦ e.wd = wd) =
          (((Table.empty.put 65 [ascii "b"]).get? wd).map (WdEntry.mk wd)).toList) ∧
      ∀ load ∈ m.loads, load.1 * 2 < load.2 :=
  run_refines [.set 1 [ascii "a"], .set 65 [ascii "b"], .remove 1, .get 1, .get 65] (by decide)

end WdMap

end Nocturne
