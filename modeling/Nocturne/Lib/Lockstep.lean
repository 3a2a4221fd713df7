import Mathlib.Order.Lattice
import Mathlib.Data.List.Basic

/-!
# Two sorted lists in lockstep

A walk along two lists that are sorted by their keys tells what only the first one has, what only
the second one has, and which of the common keys have different entries.
-/

namespace Lib

/-- What a walk collects. -/
structure Lockstep (α β : Type) where
  removed : List α
  added : List β
  shifted : List (α × β)

namespace Lockstep

variable {α β κ : Type}

/-- The walk; `same` compares two entries of one key. -/
def walk [LinearOrder κ] (kl : α → κ) (kr : β → κ) (same : α → β → Bool) : List α → List β → Lockstep α β
  | [], ns => ⟨[], ns, []⟩
  | p :: ps, [] => ⟨p :: ps, [], []⟩
  | p :: ps, n :: ns =>
    if kl p < kr n then
      let rest := walk kl kr same ps (n :: ns)
      { rest with removed := p :: rest.removed }
    else if kr n < kl p then
      let rest := walk kl kr same (p :: ps) ns
      { rest with added := n :: rest.added }
    else if same p n then walk kl kr same ps ns
    else
      let rest := walk kl kr same ps ns
      { rest with shifted := (p, n) :: rest.shifted }
termination_by ps ns => ps.length + ns.length

/-- What the entries of two lists are in, by their keys. -/
structure Of (kl : α → κ) (kr : β → κ) (same : α → β → Bool) (ps : List α) (ns : List β)
    (d : Lockstep α β) : Prop where
  removed : ∀ p, p ∈ d.removed ↔ p ∈ ps ∧ ∀ n ∈ ns, kl p ≠ kr n
  added : ∀ n, n ∈ d.added ↔ n ∈ ns ∧ ∀ p ∈ ps, kl p ≠ kr n
  shifted : ∀ p n, (p, n) ∈ d.shifted ↔ p ∈ ps ∧ n ∈ ns ∧ kl p = kr n ∧ same p n = false

variable {kl : α → κ} {kr : β → κ} {same : α → β → Bool} {ps : List α} {ns : List β} {p : α} {n : β}

/-- The first entry of the first list has no partner. -/
theorem Of.remove {d : Lockstep α β} (h : Of kl kr same ps ns d) (hp : ∀ n ∈ ns, kl p ≠ kr n) :
    Of kl kr same (p :: ps) ns { d with removed := p :: d.removed } where
  removed q := by
    rw [List.mem_cons, List.mem_cons, h.removed]
    constructor
    · rintro (rfl | ⟨hq, hne⟩)
      · exact ⟨Or.inl rfl, hp⟩
      · exact ⟨Or.inr hq, hne⟩
    · rintro ⟨rfl | hq, hne⟩
      · exact Or.inl rfl
      · exact Or.inr ⟨hq, hne⟩
  added m := by
    show m ∈ d.added ↔ _
    rw [h.added, List.forall_mem_cons]
    constructor
    · exact fun ⟨hm, hne⟩ ↦ ⟨hm, hp m hm, hne⟩
    · exact fun ⟨hm, _, hne⟩ ↦ ⟨hm, hne⟩
  shifted q m := by
    show (q, m) ∈ d.shifted ↔ _
    rw [h.shifted, List.mem_cons]
    constructor
    · exact fun ⟨hq, hrest⟩ ↦ ⟨Or.inr hq, hrest⟩
    · rintro ⟨rfl | hq, hm, he, hs⟩
      · exact absurd he (hp m hm)
      · exact ⟨hq, hm, he, hs⟩

/-- The first entry of the second list has no partner. -/
theorem Of.add {d : Lockstep α β} (h : Of kl kr same ps ns d) (hn : ∀ p ∈ ps, kl p ≠ kr n) :
    Of kl kr same ps (n :: ns) { d with added := n :: d.added } where
  removed q := by
    show q ∈ d.removed ↔ _
    rw [h.removed, List.forall_mem_cons]
    constructor
    · exact fun ⟨hq, hne⟩ ↦ ⟨hq, hn q hq, hne⟩
    · exact fun ⟨hq, _, hne⟩ ↦ ⟨hq, hne⟩
  added m := by
    rw [List.mem_cons, List.mem_cons, h.added]
    constructor
    · rintro (rfl | ⟨hm, hne⟩)
      · exact ⟨Or.inl rfl, hn⟩
      · exact ⟨Or.inr hm, hne⟩
    · rintro ⟨rfl | hm, hne⟩
      · exact Or.inl rfl
      · exact Or.inr ⟨hm, hne⟩
  shifted q m := by
    show (q, m) ∈ d.shifted ↔ _
    rw [h.shifted, List.mem_cons]
    constructor
    · exact fun ⟨hq, hm, hrest⟩ ↦ ⟨hq, Or.inr hm, hrest⟩
    · rintro ⟨hq, rfl | hm, he, hs⟩
      · exact absurd he (hn q hq)
      · exact ⟨hq, hm, he, hs⟩

/-- The first entries are partners, and no others are partners of them. -/
theorem Of.pair {d : Lockstep α β} (h : Of kl kr same ps ns d) (he : kl p = kr n)
    (hp : ∀ m ∈ ns, kl p ≠ kr m) (hn : ∀ q ∈ ps, kl q ≠ kr n) :
    Of kl kr same (p :: ps) (n :: ns)
      (if same p n then d else { d with shifted := (p, n) :: d.shifted }) where
  removed q := by
    have hsame : (if same p n then d else { d with shifted := (p, n) :: d.shifted }).removed =
        d.removed := by split <;> rfl
    rw [hsame, h.removed, List.mem_cons, List.forall_mem_cons]
    constructor
    · exact fun ⟨hq, hne⟩ ↦ ⟨Or.inr hq, hn q hq, hne⟩
    · rintro ⟨rfl | hq, hne, hrest⟩
      · exact absurd he hne
      · exact ⟨hq, hrest⟩
  added m := by
    have hsame : (if same p n then d else { d with shifted := (p, n) :: d.shifted }).added =
        d.added := by split <;> rfl
    rw [hsame, h.added, List.mem_cons, List.forall_mem_cons]
    constructor
    · exact fun ⟨hm, hne⟩ ↦ ⟨Or.inr hm, hp m hm, hne⟩
    · rintro ⟨rfl | hm, hne, hrest⟩
      · exact absurd he hne
      · exact ⟨hm, hrest⟩
  shifted q m := by
    have hrest : (q, m) ∈ d.shifted ∨ q = p ∧ m = n ∧ same p n = false ↔
        q ∈ p :: ps ∧ m ∈ n :: ns ∧ kl q = kr m ∧ same q m = false := by
      rw [h.shifted, List.mem_cons, List.mem_cons]
      constructor
      · rintro (⟨hq, hm, hk⟩ | ⟨rfl, rfl, hs⟩)
        · exact ⟨Or.inr hq, Or.inr hm, hk⟩
        · exact ⟨Or.inl rfl, Or.inl rfl, he, hs⟩
      · rintro ⟨rfl | hq, rfl | hm, hk, hs⟩
        · exact Or.inr ⟨rfl, rfl, hs⟩
        · exact absurd hk (hp m hm)
        · exact absurd hk (hn q hq)
        · exact Or.inl ⟨hq, hm, hk, hs⟩
    rw [← hrest]
    by_cases hs : same p n = true
    · simp [hs]
    · simp [hs, or_comm]

/-- The walk finds what it is to find, in lists whose keys ascend. -/
theorem of_walk [LinearOrder κ] (hps : ps.Pairwise fun p q ↦ kl p < kl q) (hns : ns.Pairwise fun n m ↦ kr n < kr m) :
    Of kl kr same ps ns (walk kl kr same ps ns) := by
  induction ps, ns using walk.induct kl kr same with
  | case1 ns =>
    rw [walk]
    constructor <;> simp
  | case2 p ps =>
    rw [walk]
    constructor <;> simp
  | case3 p ps n ns hlt ih =>
    rw [walk, if_pos hlt]
    rw [List.pairwise_cons] at hps hns
    apply (ih hps.2 (List.pairwise_cons.mpr hns)).remove
    intro m hm
    rw [List.mem_cons] at hm
    rcases hm with rfl | hm
    · exact hlt.ne
    · exact (hlt.trans (hns.1 m hm)).ne
  | case4 p ps n ns hlt hgt ih =>
    rw [walk, if_neg hlt, if_pos hgt]
    rw [List.pairwise_cons] at hps hns
    apply (ih (List.pairwise_cons.mpr hps) hns.2).add
    intro q hq
    rw [List.mem_cons] at hq
    rcases hq with rfl | hq
    · exact hgt.ne'
    · exact (hgt.trans (hps.1 q hq)).ne'
  | case5 p ps n ns hlt hgt hsame ih =>
    have he : kl p = kr n := le_antisymm (not_lt.mp hgt) (not_lt.mp hlt)
    rw [List.pairwise_cons] at hps hns
    have hpair := (ih hps.2 hns.2).pair he (fun m hm ↦ (he ▸ hns.1 m hm).ne)
      fun q hq ↦ (he ▸ hps.1 q hq).ne'
    rw [if_pos hsame] at hpair
    rw [walk, if_neg hlt, if_neg hgt, if_pos hsame]
    exact hpair
  | case6 p ps n ns hlt hgt hsame ih =>
    have he : kl p = kr n := le_antisymm (not_lt.mp hgt) (not_lt.mp hlt)
    rw [List.pairwise_cons] at hps hns
    have hpair := (ih hps.2 hns.2).pair he (fun m hm ↦ (he ▸ hns.1 m hm).ne)
      fun q hq ↦ (he ▸ hps.1 q hq).ne'
    rw [if_neg hsame] at hpair
    rw [walk, if_neg hlt, if_neg hgt, if_neg hsame]
    exact hpair

/-- The walk collects nothing twice and nothing out of order. -/
theorem sublist_walk [LinearOrder κ] (kl : α → κ) (kr : β → κ) (same : α → β → Bool) (ps : List α)
    (ns : List β) : (walk kl kr same ps ns).removed.Sublist ps ∧
      (walk kl kr same ps ns).added.Sublist ns ∧
        ((walk kl kr same ps ns).shifted.map Prod.snd).Sublist ns := by
  induction ps, ns using walk.induct kl kr same with
  | case1 ns =>
    rw [walk]
    simp
  | case2 p ps =>
    rw [walk]
    simp
  | case3 p ps n ns hlt ih =>
    rw [walk, if_pos hlt]
    exact ⟨ih.1.cons_cons p, ih.2.1, ih.2.2⟩
  | case4 p ps n ns hlt hgt ih =>
    rw [walk, if_neg hlt, if_pos hgt]
    exact ⟨ih.1, ih.2.1.cons_cons n, ih.2.2.cons n⟩
  | case5 p ps n ns hlt hgt hsame ih =>
    rw [walk, if_neg hlt, if_neg hgt, if_pos hsame]
    exact ⟨ih.1.cons p, ih.2.1.cons n, ih.2.2.cons n⟩
  | case6 p ps n ns hlt hgt hsame ih =>
    rw [walk, if_neg hlt, if_neg hgt, if_neg hsame]
    exact ⟨ih.1.cons p, ih.2.1.cons n, ih.2.2.cons_cons n⟩

end Lockstep

end Lib
