import Mathlib.Algebra.Group.Int.Defs
import Mathlib.Data.List.Forall2
import Mathlib.Data.List.Lex
import Mathlib.Data.List.Sort

/-!
# JSON trees, written and read

A tree of JSON values with strings as bytes. Objects are built member by member, where a member
without a value is left out, and read by typed decoders of their members: a required member has
to be there, an optional one has a default. Members that no decoder asks for are ignored.
-/

namespace Lib

/-- A JSON value. A number that is no integer keeps its digits. -/
inductive JsonTree where
  | null
  | boolean (b : Bool)
  | integer (n : Int)
  | real (digits : List UInt8)
  | string (s : List UInt8)
  | array (elements : List JsonTree)
  | object (members : List (List UInt8 × JsonTree))

namespace JsonTree

/-! ### Objects -/

/-- The members of an object. -/
abbrev Members := List (List UInt8 × JsonTree)

/-- Set a member, or leave the object as it is where there is no value. -/
def setNew (o : Members) (m : List UInt8 × Option JsonTree) : Members :=
  match m.2 with
  | none => o
  | some v => o.filter (fun e ↦ e.1 != m.1) ++ [(m.1, v)]

/-- Set some members in their order. -/
def build (ms : List (List UInt8 × Option JsonTree)) : Members := ms.foldl setNew []

theorem lookup_filter_ne {o : Members} {k k' : List UInt8} (h : k ≠ k') :
    (o.filter fun e ↦ e.1 != k').lookup k = o.lookup k := by
  induction o with
  | nil => rfl
  | cons e o ih =>
    by_cases he : e.1 = k'
    · have hk : k ≠ e.1 := fun hke ↦ h (hke.trans he)
      have hkey : (k == e.1) = false := by simpa using hk
      rw [List.filter_cons_of_neg (by simp [he]), ih, List.lookup_cons, hkey]
    · rw [List.filter_cons_of_pos (by simp [he]), List.lookup_cons, List.lookup_cons, ih]

theorem lookup_filter_self {o : Members} {k : List UInt8} :
    (o.filter fun e ↦ e.1 != k).lookup k = none := by
  apply List.lookup_eq_none_iff.mpr
  intro e he
  have := (List.mem_filter.mp he).2
  simp only [bne_iff_ne, ne_eq] at this
  simpa using Ne.symm this

/-- A member that was set is found. -/
theorem lookup_setNew_self {o : Members} {k : List UInt8} {v : JsonTree} :
    (setNew o (k, some v)).lookup k = some v := by
  simp only [setNew, List.lookup_append, lookup_filter_self, Option.none_or,
    List.lookup_cons_self]

/-- The other members stay. -/
theorem lookup_setNew_ne {o : Members} {k k' : List UInt8} {v : Option JsonTree} (h : k ≠ k') :
    (setNew o (k', v)).lookup k = o.lookup k := by
  cases v with
  | none => rfl
  | some v =>
    have hne : (k == k') = false := by simpa using h
    simp only [setNew, List.lookup_append, lookup_filter_ne h, List.lookup_cons, hne,
      List.lookup_nil, Option.or_none]

private theorem lookup_foldl (ms : List (List UInt8 × Option JsonTree)) (o : Members)
    (k : List UInt8) (hk : k ∉ ms.map Prod.fst) :
    (ms.foldl setNew o).lookup k = o.lookup k := by
  induction ms generalizing o with
  | nil => rfl
  | cons m ms ih =>
    rw [List.map_cons, List.mem_cons, not_or] at hk
    rw [List.foldl_cons, ih _ hk.2]
    exact lookup_setNew_ne hk.1

/-- In an object whose members are set once each, a member is found with its value, and not
found when it had none. -/
theorem lookup_build {ms : List (List UInt8 × Option JsonTree)} {k : List UInt8}
    {v : Option JsonTree} (hd : (ms.map Prod.fst).Nodup) (hm : (k, v) ∈ ms) :
    (build ms).lookup k = v := by
  obtain ⟨before, after, rfl⟩ := List.append_of_mem hm
  rw [List.map_append, List.map_cons, List.nodup_append] at hd
  obtain ⟨-, hafter, hbefore⟩ := hd
  have hne : k ∉ before.map Prod.fst := fun h ↦ hbefore k h k (List.mem_cons_self ..) rfl
  rw [build, List.foldl_append, List.foldl_cons,
    lookup_foldl after _ k (List.nodup_cons.mp hafter).1]
  cases v with
  | none => exact lookup_foldl before [] k hne
  | some v => exact lookup_setNew_self

/-- No key comes twice in an object that was built. -/
theorem nodup_build (ms : List (List UInt8 × Option JsonTree)) :
    ((build ms).map Prod.fst).Nodup := by
  have hset : ∀ (o : Members) m, (o.map Prod.fst).Nodup → ((setNew o m).map Prod.fst).Nodup := by
    intro o m ho
    obtain ⟨k, v⟩ := m
    cases v with
    | none => exact ho
    | some v =>
      simp only [setNew, List.map_append, List.map_cons, List.map_nil]
      apply List.nodup_append.mpr
      refine ⟨ho.sublist (List.filter_sublist.map _), List.nodup_singleton k, ?_⟩
      intro a ha b hb
      rw [List.mem_singleton.mp hb]
      obtain ⟨e, he, rfl⟩ := List.mem_map.mp ha
      simpa using (List.mem_filter.mp he).2
  have hfold : ∀ o : Members, (o.map Prod.fst).Nodup →
      ((ms.foldl setNew o).map Prod.fst).Nodup := by
    induction ms with
    | nil => exact fun _ ho ↦ ho
    | cons m ms ih => exact fun o ho ↦ ih _ (hset o m ho)
  exact hfold [] List.nodup_nil

/-! ### Keys in order -/

mutual

/-- The tree with the members of each object in the order of their keys. -/
def sortKeys : JsonTree → JsonTree
  | array elements => array (sortElements elements)
  | object members => object ((sortMembers members).insertionSort fun a b ↦ a.1 ≤ b.1)
  | null => null
  | boolean b => boolean b
  | integer n => integer n
  | real digits => real digits
  | string s => string s

/-- `sortKeys` in each element. -/
def sortElements : List JsonTree → List JsonTree
  | [] => []
  | v :: vs => sortKeys v :: sortElements vs

/-- `sortKeys` in the value of each member. -/
def sortMembers : Members → Members
  | [] => []
  | (k, v) :: ms => (k, sortKeys v) :: sortMembers ms

end

theorem sortElements_eq (vs : List JsonTree) : sortElements vs = vs.map sortKeys := by
  induction vs with
  | nil => rfl
  | cons v vs ih => rw [sortElements, ih, List.map_cons]

theorem lookup_sortMembers (o : Members) (k : List UInt8) :
    (sortMembers o).lookup k = (o.lookup k).map sortKeys := by
  induction o with
  | nil => rfl
  | cons m o ih =>
    obtain ⟨k', v⟩ := m
    rw [sortMembers, List.lookup_cons, List.lookup_cons, ih]
    cases k == k' <;> rfl

theorem keys_sortMembers (o : Members) : (sortMembers o).map Prod.fst = o.map Prod.fst := by
  induction o with
  | nil => rfl
  | cons m o ih => rw [sortMembers, List.map_cons, List.map_cons, ih]

/-- Where no key comes twice, a member's place in the object does not matter. -/
theorem lookup_perm {o o' : Members} (h : o.Perm o') (hd : (o.map Prod.fst).Nodup)
    (k : List UInt8) : o.lookup k = o'.lookup k := by
  induction h with
  | nil => rfl
  | cons m _ ih =>
    rw [List.lookup_cons, List.lookup_cons, ih (List.nodup_cons.mp hd).2]
  | swap m m' o =>
    obtain ⟨a, v⟩ := m
    obtain ⟨b, w⟩ := m'
    have hne : b ≠ a := by
      rintro rfl
      exact (List.nodup_cons.mp hd).1 (List.mem_cons_self ..)
    rw [List.lookup_cons, List.lookup_cons, List.lookup_cons, List.lookup_cons]
    by_cases hk : k = b
    · have hka : (k == a) = false := by simpa [hk] using hne
      simp only [hka]
    · have hkb : (k == b) = false := by simpa using hk
      simp only [hkb]
  | trans h₁ _ ih₁ ih₂ => exact (ih₁ hd).trans (ih₂ ((h₁.map Prod.fst).nodup_iff.mp hd))

/-- The members of an object with the keys in order, in the values as well. -/
def inOrder (o : Members) : Members := (sortMembers o).insertionSort fun a b ↦ a.1 ≤ b.1

/-- A member is found in the sorted object, with its sorted value. -/
theorem lookup_inOrder {o : Members} (hd : (o.map Prod.fst).Nodup) (k : List UInt8) :
    (inOrder o).lookup k = (o.lookup k).map sortKeys := by
  have hd' : ((sortMembers o).map Prod.fst).Nodup := by
    rw [keys_sortMembers]
    exact hd
  have hperm : (sortMembers o).Perm (inOrder o) := (List.perm_insertionSort _ _).symm
  rw [← lookup_perm hperm hd' k, lookup_sortMembers]

/-! ### Decoders -/

variable {α : Type}

/-- A string. -/
def asString : JsonTree → Option (List UInt8)
  | string s => some s
  | _ => none

/-- An integer of a signed type with `width` bits. -/
def asInteger (width : Nat) : JsonTree → Option Int
  | integer n => if -2 ^ (width - 1) ≤ n ∧ n < 2 ^ (width - 1) then some n else none
  | _ => none

/-- A value that may be `null`. -/
def nullable (decode : JsonTree → Option α) : JsonTree → Option (Option α)
  | null => some none
  | v => (decode v).map some

/-- An array, element by element. -/
def asList (decode : JsonTree → Option α) : JsonTree → Option (List α)
  | array elements => elements.mapM decode
  | _ => none

/-- A member that has to be there. -/
def required (decode : JsonTree → Option α) (o : Members) (key : List UInt8) : Option α :=
  (o.lookup key).bind decode

/-- A member with a default. -/
def withDefault (decode : JsonTree → Option α) (dflt : α) (o : Members) (key : List UInt8) :
    Option α :=
  match o.lookup key with
  | some v => decode v
  | none => some dflt

theorem mapM_eq_some {decode : JsonTree → Option α} {vs : List JsonTree} {xs : List α} :
    vs.mapM decode = some xs ↔ List.Forall₂ (fun v x ↦ decode v = some x) vs xs := by
  induction vs generalizing xs with
  | nil =>
    constructor
    · intro h
      rw [← Option.some.inj h]
      exact .nil
    · intro h
      cases h
      rfl
  | cons v vs ih =>
    rw [List.mapM_cons]
    simp only [Option.bind_eq_bind, Option.bind_eq_some_iff, Option.pure_def, Option.some.injEq]
    constructor
    · intro h
      obtain ⟨x, hx, ys, hys, rfl⟩ := h
      exact .cons hx (ih.mp hys)
    · intro h
      cases h with
      | cons hx hys => exact ⟨_, hx, _, ih.mpr hys, rfl⟩

/-- A list decodes when every element does. -/
theorem isSome_mapM {decode : JsonTree → Option α} {vs : List JsonTree} :
    (vs.mapM decode).isSome ↔ ∀ v ∈ vs, (decode v).isSome := by
  induction vs with
  | nil => simp
  | cons v vs ih =>
    rw [List.mapM_cons, List.forall_mem_cons, ← ih]
    cases decode v <;> cases vs.mapM decode <;> simp

/-- A decoder that reads one member after the other succeeds when each of them is read. -/
theorem isSome_bind {β : Type} {x : Option α} {f : α → Option β} {P : Prop}
    (h : ∀ a, (f a).isSome ↔ P) : (x >>= f).isSome ↔ x.isSome ∧ P := by
  cases x with
  | none => simp
  | some a =>
    show (f a).isSome ↔ _
    rw [h]
    simp

theorem isSome_bind_last {β : Type} {x : Option α} {f : α → β} :
    (do let a ← x; return f a : Option β).isSome ↔ x.isSome := by
  cases x <;> simp

end JsonTree

end Lib
