import Mathlib.Data.List.Basic
import Mathlib.Data.List.Count

/-!
# Records that end with a separator

A stream of symbols is a sequence of records, each ended by a separator, and an unfinished
tail. `split` computes both, and a reader with a limit on the length of a record reports the
records in turn. `resumed` is such a reader stopped at the end of the stream and started
again after every growth of it. It skips a tail that is over the limit, and
`resumed_eq_iff` says exactly when it still reports what one pass over the whole reports.
-/

namespace Lib.Records

variable {α : Type} [DecidableEq α]

/-- The complete records of a stream, and its unfinished tail. -/
def split (sep : α) : List α → List (List α) × List α
  | [] => ([], [])
  | x :: xs =>
    if x = sep then ([] :: (split sep xs).1, (split sep xs).2)
    else
      match (split sep xs).1 with
      | [] => ([], x :: (split sep xs).2)
      | r :: rs => ((x :: r) :: rs, (split sep xs).2)

/-- What a reader with a limit says: a record, or that there was one over the limit. -/
inductive Report (α : Type) where
  | record (r : List α)
  | oversize
  deriving DecidableEq, Repr

/-- The report about one complete record. -/
def report (limit : Nat) (r : List α) : Report α :=
  if r.length ≤ limit then .record r else .oversize

/-- The report about a tail: only one over the limit is reported. -/
def reportTail (limit : Nat) (t : List α) : List (Report α) :=
  if t.length ≤ limit then [] else [.oversize]

/-- All reports of one pass over a stream. -/
def reports (sep : α) (limit : Nat) (s : List α) : List (Report α) :=
  (split sep s).1.map (report limit) ++ reportTail limit (split sep s).2

/-- What a pass leaves for the next one: a tail over the limit is skipped. -/
def rest (sep : α) (limit : Nat) (s : List α) : List α :=
  if (split sep s).2.length ≤ limit then (split sep s).2 else []

/-- The reports of one pass after each growth of the stream, from what earlier passes left. -/
def resumed (sep : α) (limit : Nat) : List α → List (List α) → List (Report α)
  | _, [] => []
  | s, p :: ps => reports sep limit (s ++ p) ++ resumed sep limit (rest sep limit (s ++ p)) ps

variable {sep : α} {limit : Nat} {s t u v : List α}

/-! ### Splitting -/

@[simp] theorem split_nil : split sep ([] : List α) = ([], []) := rfl

theorem split_sep (v : List α) :
    split sep (sep :: v) = ([] :: (split sep v).1, (split sep v).2) := by
  rw [split, if_pos rfl]

/-- A stream without separators is all tail. -/
theorem split_of_not_mem (h : sep ∉ u) : split sep u = ([], u) := by
  induction u with
  | nil => rfl
  | cons x xs ih =>
    have hx : x ≠ sep := fun he ↦ h (by simp [he])
    have hxs : sep ∉ xs := fun he ↦ h (List.mem_cons_of_mem _ he)
    simp only [split, if_neg hx, ih hxs]

/-- The first separator ends the first record. -/
theorem split_append_sep (h : sep ∉ u) (v : List α) :
    split sep (u ++ sep :: v) = (u :: (split sep v).1, (split sep v).2) := by
  induction u with
  | nil => exact split_sep v
  | cons x xs ih =>
    have hx : x ≠ sep := fun he ↦ h (by simp [he])
    have hxs : sep ∉ xs := fun he ↦ h (List.mem_cons_of_mem _ he)
    simp only [List.cons_append, split, if_neg hx, ih hxs]

/-- There is no separator in a tail. -/
theorem not_mem_tail (sep : α) (u : List α) : sep ∉ (split sep u).2 := by
  induction u with
  | nil => simp
  | cons x xs ih =>
    unfold split
    by_cases hx : x = sep
    · rw [if_pos hx]
      exact ih
    · rw [if_neg hx]
      split
      · rw [List.mem_cons]
        rintro (he | he)
        · exact hx he.symm
        · exact ih he
      · exact ih

/-- A longer stream continues with the tail of the shorter one. -/
theorem split_append (u v : List α) :
    split sep (u ++ v) = ((split sep u).1 ++ (split sep ((split sep u).2 ++ v)).1,
      (split sep ((split sep u).2 ++ v)).2) := by
  induction u with
  | nil => rfl
  | cons x xs ih =>
    rw [List.cons_append]
    by_cases hx : x = sep
    · simp only [split, if_pos hx, ih, List.cons_append]
    · simp only [split, if_neg hx, ih]
      cases h : (split sep xs).1 with
      | nil => simp only [List.nil_append, List.cons_append, split, if_neg hx]
      | cons r rs => simp only [List.cons_append]

/-- There are as many records as separators. -/
theorem length_records (sep : α) (u : List α) : (split sep u).1.length = u.count sep := by
  induction u with
  | nil => rfl
  | cons x xs ih =>
    unfold split
    by_cases hx : x = sep
    · rw [if_pos hx, hx, List.count_cons_self, List.length_cons, ih]
    · rw [if_neg hx, List.count_cons_of_ne hx, ← ih]
      cases (split sep xs).1 <;> rfl

/-- Behind a separator the tail does not depend on what came before. -/
theorem tail_append_of_mem (h : sep ∈ v) : (split sep (u ++ v)).2 = (split sep v).2 := by
  induction u with
  | nil => rfl
  | cons x xs ih =>
    have hne : (split sep (xs ++ v)).1 ≠ [] := by
      intro he
      have hc := length_records sep (xs ++ v)
      rw [he, List.length_nil, List.count_append] at hc
      have := List.count_pos_iff.mpr h
      omega
    rw [List.cons_append, split]
    split
    · exact ih
    · split
      · next he => exact absurd he hne
      · exact ih

/-- Records, each with its separator. -/
def join (sep : α) : List (List α) → List α
  | [] => []
  | r :: rs => r ++ sep :: join sep rs

/-- Splitting loses nothing. -/
theorem join_split (sep : α) (u : List α) : join sep (split sep u).1 ++ (split sep u).2 = u := by
  induction u with
  | nil => rfl
  | cons x xs ih =>
    unfold split
    by_cases hx : x = sep
    · rw [if_pos hx, hx]
      exact congrArg (sep :: ·) ih
    · rw [if_neg hx]
      cases h : (split sep xs).1 with
      | nil =>
        rw [h] at ih
        exact congrArg (x :: ·) ih
      | cons r rs =>
        rw [h] at ih
        exact congrArg (x :: ·) ih

omit [DecidableEq α] in
theorem join_append (sep : α) (rs rs' : List (List α)) :
    join sep (rs ++ rs') = join sep rs ++ join sep rs' := by
  induction rs with
  | nil => rfl
  | cons r rs ih => simp only [List.cons_append, join, ih, List.append_assoc]

/-- Where a record stands: behind the records before it. -/
theorem eq_of_split {a b : List (List α)} {r : List α} (h : (split sep u).1 = a ++ r :: b) :
    u = join sep a ++ (r ++ sep :: (join sep b ++ (split sep u).2)) := by
  calc u = join sep (a ++ r :: b) ++ (split sep u).2 := by rw [← h, join_split]
    _ = join sep a ++ (r ++ sep :: (join sep b ++ (split sep u).2)) := by
        rw [join_append, join]
        simp only [List.append_assoc, List.cons_append]

theorem split_join_append {rs : List (List α)} (h : ∀ r ∈ rs, sep ∉ r) (t : List α) :
    split sep (join sep rs ++ t) = (rs ++ (split sep t).1, (split sep t).2) := by
  induction rs with
  | nil => rfl
  | cons r rs ih =>
    have ih := ih fun r hr ↦ h r (List.mem_cons_of_mem _ hr)
    rw [join, List.append_assoc, List.cons_append, split_append_sep (h r (List.mem_cons_self ..)),
      ih, List.cons_append]

/-- There is no separator in a record. -/
theorem not_mem_record {r u : List α} (h : r ∈ (split sep u).1) : sep ∉ r := by
  induction u generalizing r with
  | nil => cases h
  | cons x xs ih =>
    unfold split at h
    by_cases hx : x = sep
    · rw [if_pos hx] at h
      cases h with
      | head => exact List.not_mem_nil
      | tail _ h => exact ih h
    · rw [if_neg hx] at h
      cases hs : (split sep xs).1 with
      | nil =>
        rw [hs] at h
        cases h
      | cons r' rs =>
        rw [hs] at h ih
        cases h with
        | head =>
          rw [List.mem_cons]
          exact fun hm ↦ hm.elim (fun he ↦ hx he.symm) (ih (List.mem_cons_self ..))
        | tail _ h => exact ih (List.mem_cons_of_mem _ h)

/-- Cutting a stream behind one of its separators cuts its records. -/
theorem split_of_cut {s : List α} (h : (split sep s).2 = []) (t : List α) :
    split sep (s ++ t) = ((split sep s).1 ++ (split sep t).1, (split sep t).2) := by
  rw [split_append, h, List.nil_append]

/-! ### One pass -/

theorem reports_append (u v : List α) :
    reports sep limit (u ++ v) = (split sep u).1.map (report limit) ++
      reports sep limit ((split sep u).2 ++ v) := by
  simp only [reports, split_append u v, List.map_append, List.append_assoc]

theorem reports_of_not_mem (h : sep ∉ u) : reports sep limit u = reportTail limit u := by
  simp only [reports, split_of_not_mem h, List.map_nil, List.nil_append]

/-- One report for each separator, and one for a tail over the limit. -/
theorem length_reports (u : List α) : (reports sep limit u).length =
    u.count sep + (reportTail limit (split sep u).2).length := by
  rw [reports, List.length_append, List.length_map, length_records]

omit [DecidableEq α] in
theorem length_reportTail_le (limit : Nat) (t : List α) : (reportTail limit t).length ≤ 1 := by
  unfold reportTail
  split <;> simp

/-- A prefix without separator adds at most one report. -/
theorem length_reports_append_le (limit : Nat) (ht : sep ∉ t) (v : List α) :
    (reports sep limit (t ++ v)).length ≤ 1 + (reports sep limit v).length := by
  rw [length_reports, length_reports, List.count_append, List.count_eq_zero_of_not_mem ht]
  by_cases hv : sep ∈ v
  · rw [tail_append_of_mem hv]
    omega
  · have := length_reportTail_le limit (split sep (t ++ v)).2
    omega

/-! ### Resumed passes -/

/-- Resuming reports at least as much as one pass. -/
theorem length_reports_le_resumed (limit : Nat) (ps : List (List α)) (hs : sep ∉ s) (hl : s.length ≤ limit) :
    (reports sep limit (s ++ ps.flatten)).length ≤ (resumed sep limit s ps).length := by
  induction ps generalizing s with
  | nil =>
    rw [List.flatten_nil, List.append_nil, reports_of_not_mem hs]
    simp [reportTail, hl]
  | cons p ps ih =>
    have ht := not_mem_tail sep (s ++ p)
    have hp : reports sep limit (s ++ p) = (split sep (s ++ p)).1.map (report limit) ++
        reportTail limit (split sep (s ++ p)).2 := rfl
    rw [List.flatten_cons, ← List.append_assoc, reports_append, resumed, hp, rest]
    simp only [List.length_append, List.length_map]
    by_cases hlim : (split sep (s ++ p)).2.length ≤ limit
    · rw [if_pos hlim]
      have := ih ht hlim
      omega
    · rw [if_neg hlim]
      have h₀ := ih (List.not_mem_nil (a := sep)) (Nat.zero_le limit)
      have h₁ := length_reports_append_le limit ht ps.flatten
      simp only [reportTail, if_neg hlim, List.length_singleton]
      rw [List.nil_append] at h₀
      omega

/-- While nothing but a short tail comes, resuming reports nothing. -/
theorem resumed_of_short (ps : List (List α)) (hs : sep ∉ s ++ ps.flatten)
    (hl : (s ++ ps.flatten).length ≤ limit) : resumed sep limit s ps = [] := by
  induction ps generalizing s with
  | nil => rfl
  | cons p ps ih =>
    rw [List.flatten_cons, ← List.append_assoc] at hs hl
    have hsp : sep ∉ s ++ p := fun h ↦ hs (List.mem_append_left _ h)
    have hlp : (s ++ p).length ≤ limit := by
      rw [List.length_append] at hl
      omega
    have hr : rest sep limit (s ++ p) = s ++ p := by
      rw [rest, split_of_not_mem hsp, if_pos hlp]
    rw [resumed, reports_of_not_mem hsp, reportTail, if_pos hlp, List.nil_append, hr]
    exact ih hs hl

/-- No pass ends in a tail over the limit, unless what comes later is a short continuation
of that tail. -/
def Harmless (sep : α) (limit : Nat) (s : List α) (ps : List (List α)) : Prop :=
  ∀ pre p post, ps = pre ++ p :: post →
    limit < (split sep (s ++ (pre ++ [p]).flatten)).2.length →
    sep ∉ post.flatten ∧ post.flatten.length ≤ limit

theorem harmless_cons {p : List α} {ps : List (List α)} : Harmless sep limit s (p :: ps) ↔
    (limit < (split sep (s ++ p)).2.length →
      sep ∉ ps.flatten ∧ ps.flatten.length ≤ limit) ∧
    Harmless sep limit (split sep (s ++ p)).2 ps := by
  have htail : ∀ l : List α,
      (split sep (s ++ (p ++ l))).2 = (split sep ((split sep (s ++ p)).2 ++ l)).2 := by
    intro l
    rw [← List.append_assoc, split_append (s ++ p) l]
  constructor
  · intro h
    constructor
    · have h₀ := h [] p ps rfl
      simpa using h₀
    · intro pre q post he hlim
      apply h (p :: pre) q post (by rw [he, List.cons_append])
      rw [List.cons_append, List.flatten_cons, htail]
      exact hlim
  · rintro ⟨h₀, h⟩ pre q post he hlim
    cases pre with
    | nil =>
      cases he
      apply h₀
      simpa using hlim
    | cons q' pre =>
      injection he with hq he
      subst hq
      apply h pre q post he
      rw [List.cons_append, List.flatten_cons, htail] at hlim
      exact hlim

/-- A short continuation of a tail is harmless wherever it is cut. -/
theorem harmless_of_short {ps : List (List α)} (h : sep ∉ ps.flatten)
    (hl : ps.flatten.length ≤ limit) : Harmless sep limit s ps := by
  intro pre p post he _
  rw [he, List.flatten_append, List.flatten_cons] at h hl
  constructor
  · exact fun hm ↦ h (List.mem_append_right _ (List.mem_append_right _ hm))
  · rw [List.length_append, List.length_append] at hl
    omega

/-- Behind a skipped tail, one more report of resuming is the report of that tail, exactly
when what comes later is a short continuation of it. -/
theorem oversize_resumed_iff {ps : List (List α)} (ht : sep ∉ t) (hlim : limit < t.length) :
    Report.oversize :: resumed sep limit [] ps = reports sep limit (t ++ ps.flatten) ↔
      sep ∉ ps.flatten ∧ ps.flatten.length ≤ limit := by
  constructor
  · intro h
    have hlen := congrArg List.length h
    have hle := length_reports_le_resumed limit ps (List.not_mem_nil (a := sep))
      (Nat.zero_le limit)
    rw [List.length_cons, length_reports, List.count_append,
      List.count_eq_zero_of_not_mem ht] at hlen
    rw [List.nil_append, length_reports] at hle
    have hone := length_reportTail_le limit (split sep (t ++ ps.flatten)).2
    have hnm : sep ∉ ps.flatten := by
      intro hm
      rw [tail_append_of_mem hm] at hlen
      omega
    refine ⟨hnm, ?_⟩
    by_contra hbig
    rw [split_of_not_mem hnm, reportTail, if_neg hbig, List.length_singleton] at hle
    omega
  · rintro ⟨hnm, hl⟩
    have htps : sep ∉ t ++ ps.flatten := by
      rw [List.mem_append]
      exact fun h ↦ h.elim ht hnm
    have hbig : ¬ (t ++ ps.flatten).length ≤ limit := by
      rw [List.length_append]
      omega
    rw [reports_of_not_mem htps, reportTail, if_neg hbig,
      resumed_of_short ps (by simpa using hnm) (by simpa using hl)]

/-- Resuming reports what one pass over the whole stream reports exactly when it is
harmless where the passes end. -/
theorem resumed_eq_iff {ps : List (List α)} (hs : sep ∉ s) (hl : s.length ≤ limit) :
    resumed sep limit s ps = reports sep limit (s ++ ps.flatten) ↔ Harmless sep limit s ps := by
  induction ps generalizing s with
  | nil =>
    rw [List.flatten_nil, List.append_nil, reports_of_not_mem hs, reportTail, if_pos hl]
    refine iff_of_true rfl ?_
    intro pre p post he
    simp at he
  | cons p ps ih =>
    have ht := not_mem_tail sep (s ++ p)
    have hp : reports sep limit (s ++ p) = (split sep (s ++ p)).1.map (report limit) ++
        reportTail limit (split sep (s ++ p)).2 := rfl
    have hf : reports sep limit (s ++ p ++ ps.flatten) = _ := reports_append (s ++ p) ps.flatten
    rw [harmless_cons, resumed, List.flatten_cons, ← List.append_assoc, hf, hp, rest,
      List.append_assoc, List.append_cancel_left_eq]
    by_cases hlim : (split sep (s ++ p)).2.length ≤ limit
    · rw [if_pos hlim, reportTail, if_pos hlim, List.nil_append, ih ht hlim]
      exact (and_iff_right fun h ↦ absurd h (Nat.not_lt.mpr hlim)).symm
    · rw [if_neg hlim, reportTail, if_neg hlim, List.singleton_append]
      have hlt := Nat.not_le.mp hlim
      rw [oversize_resumed_iff ht hlt]
      constructor
      · exact fun h ↦ ⟨fun _ ↦ h, harmless_of_short h.1 h.2⟩
      · exact fun h ↦ h.1 hlt

/-! ### What a pass takes -/

/-- The records within the limit. -/
def kept (sep : α) (limit : Nat) (s : List α) : List (List α) :=
  (split sep s).1.filter fun r ↦ decide (r.length ≤ limit)

/-- What a pass puts behind it. -/
def taken (sep : α) (limit : Nat) (s : List α) : List α :=
  if (split sep s).2.length ≤ limit then join sep (split sep s).1 else s

/-- A stream cut where a pass may stop: behind a separator, or in a tail over the limit. -/
def Sealed (sep : α) (limit : Nat) (s : List α) : Prop :=
  (split sep s).2 = [] ∨ limit < (split sep s).2.length

theorem taken_append_rest (limit : Nat) (s : List α) :
    taken sep limit s ++ rest sep limit s = s := by
  unfold taken rest
  split
  · exact join_split sep s
  · exact List.append_nil s

theorem split_join {rs : List (List α)} (h : ∀ r ∈ rs, sep ∉ r) :
    split sep (join sep rs) = (rs, []) := by
  have hs := split_join_append h []
  rw [List.append_nil, split_nil, List.append_nil] at hs
  exact hs

theorem split_taken (limit : Nat) (s : List α) :
    (split sep (taken sep limit s)).1 = (split sep s).1 := by
  unfold taken
  split
  · rw [split_join fun r hr ↦ not_mem_record hr]
  · rfl

/-- Nothing that a pass keeps stays behind. -/
theorem kept_taken (limit : Nat) (s : List α) :
    kept sep limit (taken sep limit s) = kept sep limit s := by
  rw [kept, split_taken]
  rfl

theorem sealed_taken (limit : Nat) (s : List α) : Sealed sep limit (taken sep limit s) := by
  unfold taken
  split
  · exact Or.inl (by rw [split_join fun r hr ↦ not_mem_record hr])
  · next h => exact Or.inr (Nat.lt_of_not_le h)

/-- A pass that takes nothing finds nothing. -/
theorem kept_of_taken_nil (h : taken sep limit s = []) : kept sep limit s = [] := by
  rw [← kept_taken, h]
  rfl

/-- A tail over the limit makes the record that it starts one over the limit. -/
theorem kept_tail_append (ht : sep ∉ t) (hl : limit < t.length) (v : List α) :
    (kept sep limit (t ++ v)).Sublist (kept sep limit v) := by
  by_cases hv : sep ∈ v
  · obtain ⟨w, x, rfl, hw⟩ := List.eq_append_cons_of_mem hv
    have htw : sep ∉ t ++ w := by
      rw [List.mem_append]
      exact fun h ↦ h.elim ht hw
    have hbig : ¬ (t ++ w).length ≤ limit := by
      rw [List.length_append]
      omega
    rw [kept, kept, ← List.append_assoc, split_append_sep htw, split_append_sep hw,
      List.filter_cons_of_neg (by simpa using hbig)]
    exact (List.sublist_cons_self _ _).filter _
  · have htv : sep ∉ t ++ v := by
      rw [List.mem_append]
      exact fun h ↦ h.elim ht hv
    rw [kept, split_of_not_mem htv]
    exact List.nil_sublist _

/-- What a pass keeps of a stream, earlier passes and the next one keep too. -/
theorem kept_append (h : Sealed sep limit u) (v : List α) :
    (kept sep limit (u ++ v)).Sublist (kept sep limit u ++ kept sep limit v) := by
  have hs : kept sep limit (u ++ v) = kept sep limit u ++ kept sep limit ((split sep u).2 ++ v) := by
    rw [kept, split_append, List.filter_append]
    rfl
  rw [hs]
  apply List.Sublist.append_left
  rcases h with h | h
  · rw [h, List.nil_append]
  · exact kept_tail_append (not_mem_tail sep u) h v

theorem sealed_append (hu : Sealed sep limit u) (hv : Sealed sep limit v) :
    Sealed sep limit (u ++ v) := by
  by_cases hm : sep ∈ v
  · rw [Sealed, tail_append_of_mem hm]
    exact hv
  · rw [Sealed, split_of_not_mem hm] at hv
    rcases hv with hv | hv
    · rw [show v = [] from hv, List.append_nil]
      exact hu
    · have ht : sep ∉ (split sep u).2 ++ v := by
        rw [List.mem_append]
        exact fun h ↦ h.elim (not_mem_tail sep u) hm
      have hv : limit < v.length := hv
      right
      rw [split_append, split_of_not_mem ht, List.length_append]
      omega

/-! ### Where the reports end -/

/-- The reports about records in a row, each with the position behind its separator. -/
def marked (limit : Nat) : Nat → List (List α) → List (Report α × Nat)
  | _, [] => []
  | n, r :: rs => (report limit r, n + (r.length + 1)) :: marked limit (n + (r.length + 1)) rs

/-- The reports of one pass over a stream that starts at position `n`, each with the position
where what it reports ends. -/
def marks (sep : α) (limit n : Nat) (s : List α) : List (Report α × Nat) :=
  marked limit n (split sep s).1 ++
    (reportTail limit (split sep s).2).map fun x ↦ (x, n + s.length)

/-- The position where a pass stops. -/
def stop (sep : α) (limit n : Nat) (s : List α) : Nat := n + (taken sep limit s).length

/-- The first record is reported behind its separator, and the pass goes on there. -/
theorem marks_cons {r : List α} (n : Nat)
    (hu : u = r ++ sep :: v) (hr : sep ∉ r) :
    marks sep limit n u = (report limit r, n + (r.length + 1)) ::
        marks sep limit (n + (r.length + 1)) v ∧
      stop sep limit n u = stop sep limit (n + (r.length + 1)) v := by
  have hlen : n + u.length = n + (r.length + 1) + v.length := by
    rw [hu, List.length_append, List.length_cons]
    omega
  have hs : split sep u = (r :: (split sep v).1, (split sep v).2) := by
    rw [hu]
    exact split_append_sep hr v
  constructor
  · rw [marks, marks, hs, hlen]
    rfl
  · rw [stop, stop, taken, taken, hs]
    dsimp only
    split
    · rw [join, List.length_append, List.length_cons]
      omega
    · exact hlen

/-- A stream without separators is reported only when it is over the limit. -/
theorem marks_of_not_mem (n : Nat) (h : sep ∉ u) :
    marks sep limit n u = (reportTail limit u).map fun x ↦ (x, n + u.length) := by
  rw [marks, split_of_not_mem h]
  rfl

end Lib.Records
