import Mathlib.Algebra.GroupWithZero.Nat
import Mathlib.Data.List.Infix
import Mathlib.Data.List.Nodup
import Mathlib.Data.Set.Function

/-!
# Lists made of blocks

A list that holds the elements of some blocks is those blocks, whole and in some order, exactly when
each element of a block is followed by the next one of its block.
-/

namespace Lib.Blocks

variable {α β : Type} {a b x : α} {xs ys order : List α} {blocks : List (List α)}

/-- `b` follows `a` right away. -/
def Next (a b : α) (xs : List α) : Prop := [a, b] <:+: xs

/-- The list is made of the blocks, in some order. -/
def MadeOf (blocks : List (List α)) (xs : List α) : Prop :=
  ∃ blocks' : List (List α), blocks'.Perm blocks ∧ xs = blocks'.flatten

theorem MadeOf.perm (h : MadeOf blocks xs) : xs.Perm blocks.flatten := by
  obtain ⟨blocks', hblocks, rfl⟩ := h
  exact hblocks.flatten

/-- The order of the blocks does not matter. -/
theorem madeOf_congr {blocks' : List (List α)} (h : blocks'.Perm blocks) :
    MadeOf blocks' xs ↔ MadeOf blocks xs := by
  constructor
  · rintro ⟨cs, hcs, rfl⟩
    exact ⟨cs, hcs.trans h, rfl⟩
  · rintro ⟨cs, hcs, rfl⟩
    exact ⟨cs, hcs.trans h.symm, rfl⟩

theorem Next.mem_left (h : Next a b xs) : a ∈ xs := h.subset (List.mem_cons_self ..)

theorem Next.mem_right (h : Next a b xs) : b ∈ xs := h.subset (by simp)

theorem next_cons : Next a b (x :: xs) ↔ (a = x ∧ xs.head? = some b) ∨ Next a b xs := by
  rw [Next, List.infix_cons_iff, List.cons_prefix_cons]
  apply or_congr_left
  apply and_congr_right
  intro _
  cases xs with
  | nil => simp
  | cons y ys => simp [eq_comm]

/-- Behind elements that do not hold `a`, it is followed as without them. -/
theorem next_append (h : a ∉ xs) : Next a b (xs ++ ys) ↔ Next a b ys := by
  induction xs with
  | nil => rfl
  | cons x xs ih =>
    rw [List.mem_cons, not_or] at h
    rw [List.cons_append, next_cons, ih h.2]
    simp [h.1]

/-- A list that goes on as a block does begins with the block. -/
theorem prefix_of_next (hxs : (x :: xs).Nodup) (hys : (x :: ys).Nodup)
    (h : ∀ a b, Next a b (x :: xs) → Next a b (x :: ys)) : x :: xs <+: x :: ys := by
  induction xs generalizing x ys with
  | nil => simp
  | cons y xs ih =>
    have hy : ys.head? = some y := by
      rcases next_cons.mp (h x y (next_cons.mpr (.inl ⟨rfl, rfl⟩))) with ⟨-, hy⟩ | hlater
      · exact hy
      · exact absurd hlater.mem_left (List.nodup_cons.mp hys).1
    obtain ⟨ys, rfl⟩ : ∃ zs, ys = y :: zs := by
      cases ys with
      | nil => cases hy
      | cons z zs => exact ⟨zs, by rw [Option.some.inj hy]⟩
    rw [List.cons_prefix_cons]
    refine ⟨rfl, ih (List.nodup_cons.mp hxs).2 (List.nodup_cons.mp hys).2 ?_⟩
    intro a b hab
    rcases next_cons.mp (h a b (next_cons.mpr (.inr hab))) with ⟨rfl, -⟩ | hlater
    · exact absurd hab.mem_left (List.nodup_cons.mp hxs).1
    · exact hlater

/-- The first element of the list begins a block, and the list begins with that block. -/
theorem exists_first_block (hnodup : (x :: xs).Nodup) (hperm : (x :: xs).Perm blocks.flatten)
    (h : ∀ B ∈ blocks, ∀ a b, Next a b B → Next a b (x :: xs)) :
    ∃ B ∈ blocks, B <+: x :: xs := by
  obtain ⟨B, hB, hx⟩ := List.mem_flatten.mp (hperm.mem_iff.mp (List.mem_cons_self ..))
  obtain ⟨before, after, rfl⟩ := List.append_of_mem hx
  have hblock : (before ++ x :: after).Nodup :=
    (hperm.nodup_iff.mp hnodup).sublist (List.infix_of_mem_flatten hB).sublist
  -- What stands before `x` in its block would stand before it in the list.
  have hfirst : before = [] := by
    rcases List.eq_nil_or_concat before with rfl | ⟨init, p, rfl⟩
    · rfl
    · have hp : Next p x (x :: xs) := h _ hB p x ⟨init, after, by simp⟩
      exfalso
      rcases next_cons.mp hp with ⟨rfl, -⟩ | hlater
      · simp [List.nodup_append] at hblock
      · exact (List.nodup_cons.mp hnodup).1 hlater.mem_right
  subst hfirst
  exact ⟨x :: after, hB, prefix_of_next hblock hnodup (h _ hB)⟩

theorem madeOf_of_next (hne : ∀ B ∈ blocks, B ≠ []) (hnodup : order.Nodup)
    (hperm : order.Perm blocks.flatten)
    (h : ∀ B ∈ blocks, ∀ a b, Next a b B → Next a b order) : MadeOf blocks order := by
  induction hn : blocks.length generalizing blocks order with
  | zero =>
    rw [List.length_eq_zero_iff] at hn
    subst hn
    exact ⟨[], List.Perm.refl _, List.perm_nil.mp hperm⟩
  | succ n ih =>
    cases order with
    | nil =>
      obtain ⟨B, rest, rfl⟩ : ∃ B rest, blocks = B :: rest := by
        cases blocks with
        | nil => cases hn
        | cons B rest => exact ⟨B, rest, rfl⟩
      have hnil := List.nil_perm.mp hperm
      rw [List.flatten_cons, List.append_eq_nil_iff] at hnil
      exact absurd hnil.1 (hne B (List.mem_cons_self ..))
    | cons x xs =>
      obtain ⟨B, hB, rest, hrest⟩ := exists_first_block hnodup hperm h
      obtain ⟨before, after, rfl⟩ := List.append_of_mem hB
      rw [← hrest] at hnodup hperm h
      have hothers : (before ++ B :: after).Perm (B :: (before ++ after)) := List.perm_middle
      have hrestperm : rest.Perm (before ++ after).flatten := by
        have := hperm.trans hothers.flatten
        rwa [List.flatten_cons, List.perm_append_left_iff] at this
      have hmem : ∀ B' ∈ before ++ after, B' ∈ before ++ B :: after := fun B' hB' ↦
        hothers.mem_iff.mpr (List.mem_cons_of_mem _ hB')
      obtain ⟨blocks', hblocks, rfl⟩ : MadeOf (before ++ after) rest := by
        apply ih (fun B' hB' ↦ hne B' (hmem B' hB')) (List.nodup_append.mp hnodup).2.1 hrestperm
        · intro B' hB' a b hab
          have ha : a ∉ B := fun haB ↦ (List.nodup_append.mp hnodup).2.2 a haB a
            (hrestperm.mem_iff.mpr (List.mem_flatten.mpr ⟨B', hB', hab.mem_left⟩)) rfl
          exact (next_append ha).mp (h B' (hmem B' hB') a b hab)
        · rw [List.length_append, List.length_cons] at hn
          rw [List.length_append]
          omega
      refine ⟨B :: blocks', (hblocks.cons B).trans hothers.symm, ?_⟩
      rw [← hrest, List.flatten_cons]

/-- A list of the elements of some blocks is made of the blocks exactly when it goes on within them
as they do. -/
theorem madeOf_iff (hne : ∀ B ∈ blocks, B ≠ []) (hnodup : order.Nodup)
    (hperm : order.Perm blocks.flatten) :
    MadeOf blocks order ↔ ∀ B ∈ blocks, ∀ a b, Next a b B → Next a b order := by
  constructor
  · rintro ⟨blocks', hblocks, rfl⟩ B hB a b hab
    exact hab.trans (List.infix_of_mem_flatten (hblocks.mem_iff.mpr hB))
  · exact madeOf_of_next hne hnodup hperm

/-! ### Renaming -/

section Renaming

variable {f : α → β}

theorem next_map (hf : Set.InjOn f {c | c ∈ xs}) (ha : a ∈ xs) (hb : b ∈ xs) :
    Next (f a) (f b) (xs.map f) ↔ Next a b xs := by
  rw [Next, List.infix_map_iff]
  constructor
  · rintro ⟨pair, hpair, heq⟩
    rw [eq_comm, List.map_eq_cons_iff] at heq
    obtain ⟨c, rest, rfl, hc, heq⟩ := heq
    rw [List.map_eq_cons_iff] at heq
    obtain ⟨d, rest, rfl, hd, heq⟩ := heq
    rw [List.map_eq_nil_iff] at heq
    subst heq
    rw [← hf (hpair.subset (by simp)) ha hc, ← hf (hpair.subset (by simp)) hb hd]
    exact hpair
  · exact fun h ↦ ⟨[a, b], h, rfl⟩

/-- Different elements can be renamed. -/
theorem madeOf_map (hf : Set.InjOn f {c | c ∈ order}) (hne : ∀ B ∈ blocks, B ≠ [])
    (hnodup : order.Nodup) (hperm : order.Perm blocks.flatten) :
    MadeOf (blocks.map (List.map f)) (order.map f) ↔
      ∀ B ∈ blocks, ∀ a b, Next a b B → Next a b order := by
  have hmem : ∀ B ∈ blocks, ∀ c ∈ B, c ∈ order := fun B hB c hc ↦
    hperm.mem_iff.mpr (List.mem_flatten.mpr ⟨B, hB, hc⟩)
  rw [madeOf_iff]
  · rw [List.forall_mem_map]
    apply forall₂_congr
    intro B hB
    have hfB : Set.InjOn f {c | c ∈ B} := hf.mono (hmem B hB)
    constructor
    · intro h a b hab
      have ha := hab.mem_left
      have hb := hab.mem_right
      exact (next_map hf (hmem B hB a ha) (hmem B hB b hb)).mp
        (h (f a) (f b) ((next_map hfB ha hb).mpr hab))
    · intro h u v huv
      obtain ⟨a, ha, rfl⟩ := List.mem_map.mp huv.mem_left
      obtain ⟨b, hb, rfl⟩ := List.mem_map.mp huv.mem_right
      exact (next_map hf (hmem B hB a ha) (hmem B hB b hb)).mpr
        (h a b ((next_map hfB ha hb).mp huv))
  · rw [List.forall_mem_map]
    exact fun B hB h ↦ hne B hB (List.map_eq_nil_iff.mp h)
  · exact (List.nodup_map_iff_inj_on hnodup).mpr fun a ha b hb h ↦ hf ha hb h
  · rw [← List.map_flatten]
    exact hperm.map f

end Renaming

/-! ### Blocks of positions -/

/-- The positions of blocks of these sizes, one behind the other. -/
def spans : Nat → List Nat → List (List Nat)
  | _, [] => []
  | offset, size :: sizes => List.range' offset size :: spans (offset + size) sizes

theorem flatten_spans (offset : Nat) (sizes : List Nat) :
    (spans offset sizes).flatten = List.range' offset sizes.sum := by
  induction sizes generalizing offset with
  | nil => rfl
  | cons size sizes ih => rw [spans, List.flatten_cons, ih, List.sum_cons, List.range'_append_1]

theorem length_of_mem_spans {offset : Nat} {sizes : List Nat} {B : List Nat}
    (h : B ∈ spans offset sizes) : B.length ∈ sizes := by
  induction sizes generalizing offset with
  | nil => cases h
  | cons size sizes ih =>
    rcases List.mem_cons.mp h with rfl | h
    · rw [List.length_range']
      exact List.mem_cons_self ..
    · exact List.mem_cons_of_mem _ (ih h)

/-- A block starts behind all that come before it. -/
theorem span_mem_spans {sizes : List Nat} (offset i : Nat) (hi : i < sizes.length) :
    List.range' (offset + (sizes.take i).sum) sizes[i] ∈ spans offset sizes := by
  induction sizes generalizing offset i with
  | nil => cases hi
  | cons size sizes ih =>
    cases i with
    | zero => exact List.mem_cons_self
    | succ i =>
      have hrest := ih (offset + size) i (Nat.lt_of_succ_lt_succ hi)
      rw [Nat.add_assoc] at hrest
      exact List.mem_cons_of_mem _ hrest

/-- Empty blocks take no positions. -/
theorem filter_spans (offset : Nat) (sizes : List Nat) :
    (spans offset sizes).filter (fun span ↦ !span.isEmpty) =
      spans offset (sizes.filter fun size ↦ size != 0) := by
  induction sizes generalizing offset with
  | nil => rfl
  | cons size sizes ih =>
    rw [spans, List.filter_cons, List.filter_cons, ih]
    cases size with
    | zero => rfl
    | succ size => rfl

/-- What stands at the positions of a block is the block. -/
theorem map_spans (before : List α) (blocks : List (List α)) :
    (spans before.length (blocks.map List.length)).map
      (List.map fun i ↦ (before ++ blocks.flatten)[i]?) = blocks.map (List.map some) := by
  induction blocks generalizing before with
  | nil => rfl
  | cons B blocks ih =>
    have hrest := ih (before ++ B)
    rw [List.length_append, List.append_assoc] at hrest
    rw [List.map_cons, spans, List.map_cons, List.flatten_cons, hrest, List.map_cons]
    congr 1
    apply List.ext_getElem?
    intro i
    by_cases hi : i < B.length
    · simp [hi, List.getElem?_append]
    · simp [hi]

/-- As `map_spans`, with a default. -/
theorem map_spans_getD (d : α) (blocks : List (List α)) :
    (spans 0 (blocks.map List.length)).map (List.map fun i ↦ blocks.flatten[i]?.getD d) =
      blocks := by
  have h := congrArg (List.map (List.map fun o : Option α ↦ o.getD d)) (map_spans [] blocks)
  simpa [Function.comp_def] using h

end Lib.Blocks
