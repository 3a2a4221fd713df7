import Mathlib.Data.Int.Order.Basic
import Mathlib.Data.List.Induction
import Mathlib.Data.List.Nodup
import Mathlib.Data.List.Perm.Basic
import Nocturne.Lib.Lww

/-!
# The stance of a track

What pins and overrides make of one track, without the tables. The row of `pins` records when it
was written, the override does not, and a pin lifts the override whether or not it is newer than
the row. `orderless_iff` says which events have a result that does not depend on their order.
-/

namespace Nocturne

open Lib

/-- What an event wants of a track. -/
inductive Wish where
  | pin (pinned : Bool)
  | unsync
  deriving DecidableEq, Repr

/-- A wish with its `ts`. -/
structure Move where
  wish : Wish
  ts : Int
  deriving DecidableEq, Repr

/-- The flag and the `ts` of the row in `pins`, if there is one, and the presence of the
override. -/
structure Stance where
  row : Option (Bool × Int)
  override : Bool
  deriving DecidableEq, Repr

namespace Stance

/-- Neither a row nor an override. -/
def clean : Stance := ⟨none, false⟩

/-- The row is newer than an event. -/
def stale (s : Stance) (ts : Int) : Bool :=
  match s.row with
  | some r => decide (ts < r.2)
  | none => false

/-- The effect of an event. -/
def move (s : Stance) (m : Move) : Stance :=
  match m.wish with
  | .pin pinned => ⟨if s.stale m.ts then s.row else some (pinned, m.ts), s.override && !pinned⟩
  | .unsync => if s.stale m.ts then s else ⟨s.row.map fun r ↦ (false, r.2), true⟩

/-- The effect of some events in their order. -/
def run (s : Stance) (ms : List Move) : Stance := ms.foldl move s

/-- The pair (`pins.pinned`, presence in `unsync_overrides`). -/
def pair (s : Stance) : Bool × Bool := ((s.row.map Prod.fst).getD false, s.override)

end Stance

/-- The pair that an event alone leads to. -/
def Wish.verdict : Wish → Bool × Bool
  | pin pinned => (pinned, false)
  | unsync => (false, true)

open Stance

/-- The newest of the events decides, and a pin event that is older than the row does nothing. -/
structure Settles (ms : List Move) : Prop where
  decides : ∀ m, Lww.Newest Move.ts ms m → (clean.run ms).pair = m.wish.verdict
  ignores : ∀ before pinned ts after, ms = before ++ ⟨.pin pinned, ts⟩ :: after →
    (clean.run before).stale ts = true →
    (clean.run before).move ⟨.pin pinned, ts⟩ = clean.run before

/-- The events settle in every order. -/
def Orderless (ms : List Move) : Prop := ∀ ms', ms'.Perm ms → Settles ms'

/-- What makes events settle: there is no unsync; or an unsync is the newest, and nothing pins
the track; or a pin is the newest, no unpin is newer than a pin, and no unsync is newer than
two pins. -/
inductive Unharmed (ms : List Move) : Prop
  | noUnsync (none : ∀ m ∈ ms, m.wish ≠ .unsync)
  | unsynced (m : Move) (newest : Lww.Newest Move.ts ms m) (last : m.wish = .unsync)
      (noPin : ∀ m ∈ ms, m.wish ≠ .pin true)
  | pinned (m : Move) (newest : Lww.Newest Move.ts ms m) (last : m.wish = .pin true)
      (noUnpin : ∀ ts ts', ⟨.pin true, ts⟩ ∈ ms → ⟨.pin false, ts'⟩ ∈ ms → ts' ≤ ts)
      (noUnsync : ∀ ts ts' ts'', ⟨.pin true, ts⟩ ∈ ms → ⟨.pin true, ts'⟩ ∈ ms →
        ⟨.unsync, ts''⟩ ∈ ms → ts < ts' → ts'' < ts')

theorem Unharmed.perm {ms ms' : List Move} (h : Unharmed ms) (hp : ms'.Perm ms) :
    Unharmed ms' := by
  cases h with
  | noUnsync none => exact .noUnsync fun m hm ↦ none m (hp.mem_iff.mp hm)
  | unsynced m newest last noPin =>
    exact .unsynced m (newest.perm hp) last fun m hm ↦ noPin m (hp.mem_iff.mp hm)
  | pinned m newest last noUnpin noUnsync =>
    apply Unharmed.pinned m (newest.perm hp) last
    · intro ts ts' h h'
      exact noUnpin ts ts' (hp.mem_iff.mp h) (hp.mem_iff.mp h')
    · intro ts ts' ts'' h h' h''
      exact noUnsync ts ts' ts'' (hp.mem_iff.mp h) (hp.mem_iff.mp h') (hp.mem_iff.mp h'')

/-! ### Runs -/

section Runs

variable {s : Stance} {ms : List Move} {ts : Int}

theorem stale_iff : s.stale ts = true ↔ ∃ r, s.row = some r ∧ ts < r.2 := by
  unfold stale
  split
  · next r h => simp [h]
  · next h => simp [h]

theorem run_concat (s : Stance) (ms : List Move) (m : Move) :
    s.run (ms ++ [m]) = (s.run ms).move m := by
  rw [Stance.run, List.foldl_append]
  rfl

theorem move_pin (s : Stance) (pinned : Bool) (ts : Int) : s.move ⟨.pin pinned, ts⟩ =
    ⟨if s.stale ts = true then s.row else some (pinned, ts), s.override && !pinned⟩ := rfl

/-- A stale pin does nothing where it lifts no override. -/
theorem move_stale_pin {pinned : Bool} (h : s.stale ts = true)
    (ho : pinned = true → s.override = false) : s.move ⟨.pin pinned, ts⟩ = s := by
  obtain ⟨row, o⟩ := s
  dsimp only [move]
  rw [if_pos h]
  cases pinned with
  | false => rw [Bool.not_false, Bool.and_true]
  | true =>
    rw [show o = false from ho rfl]
    rfl

/-- The row after some events: the newest pin event wrote it, and an unsync that is not older
may have cleared its flag. -/
structure WrittenBy (ms : List Move) (r : Bool × Int) : Prop where
  writer : ∃ pinned, ⟨.pin pinned, r.2⟩ ∈ ms ∧ (r.1 = true → pinned = true) ∧
    (pinned = true → r.1 = false → ∃ ts, ⟨.unsync, ts⟩ ∈ ms ∧ r.2 ≤ ts)
  newest : ∀ pinned ts, ⟨.pin pinned, ts⟩ ∈ ms → ts ≤ r.2

/-- There is no row where there was no pin event. -/
def RowSpec (ms : List Move) : Option (Bool × Int) → Prop
  | none => ∀ pinned ts, ⟨.pin pinned, ts⟩ ∉ ms
  | some r => WrittenBy ms r

/-- The row stays where no newer pin event comes. -/
theorem WrittenBy.concat {r : Bool × Int} {m : Move} (h : WrittenBy ms r)
    (hm : ∀ pinned, m.wish = .pin pinned → m.ts ≤ r.2) : WrittenBy (ms ++ [m]) r := by
  obtain ⟨⟨pinned, hmem, hflag, hcleared⟩, hnewest⟩ := h
  constructor
  · refine ⟨pinned, List.mem_append_left _ hmem, hflag, fun hp hf ↦ ?_⟩
    obtain ⟨ts, hts, hle⟩ := hcleared hp hf
    exact ⟨ts, List.mem_append_left _ hts, hle⟩
  · intro pinned' ts hmem'
    rw [List.mem_append, List.mem_singleton] at hmem'
    rcases hmem' with hmem' | he
    · exact hnewest pinned' ts hmem'
    · rw [← he] at hm
      exact hm pinned' rfl

/-- A pin event that is not stale writes the row. -/
theorem RowSpec.pin {pinned : Bool} (h : RowSpec ms s.row) (hs : ¬ s.stale ts = true) :
    WrittenBy (ms ++ [⟨.pin pinned, ts⟩]) (pinned, ts) := by
  constructor
  · refine ⟨pinned, List.mem_append_right _ (List.mem_singleton.mpr rfl), id, fun hp hf ↦ ?_⟩
    rw [hp] at hf
    cases hf
  · intro pinned' ts' hmem
    rw [List.mem_append, List.mem_singleton] at hmem
    rcases hmem with hmem | he
    · cases hr : s.row with
      | none =>
        rw [hr] at h
        exact absurd hmem (h pinned' ts')
      | some r =>
        rw [hr] at h
        have hle := h.newest pinned' ts' hmem
        have hnot : ¬ ts < r.2 := fun hlt ↦ hs (stale_iff.mpr ⟨r, hr, hlt⟩)
        show ts' ≤ ts
        omega
    · cases he
      exact Int.le_refl _

/-- An unsync that is not older than the row clears its flag. -/
theorem WrittenBy.unsync {r : Bool × Int} (h : WrittenBy ms r) (hle : r.2 ≤ ts) :
    WrittenBy (ms ++ [⟨.unsync, ts⟩]) (false, r.2) := by
  have hkeep : WrittenBy (ms ++ [⟨.unsync, ts⟩]) r := h.concat fun _ hw ↦ (by cases hw)
  obtain ⟨pinned, hmem, -, -⟩ := hkeep.writer
  constructor
  · refine ⟨pinned, hmem, fun hf ↦ (by cases hf), fun _ _ ↦ ?_⟩
    exact ⟨ts, List.mem_append_right _ (List.mem_singleton.mpr rfl), hle⟩
  · exact hkeep.newest

theorem rowSpec_run (ms : List Move) : RowSpec ms (clean.run ms).row := by
  induction ms using List.reverseRecOn with
  | nil => exact fun _ _ h ↦ (by cases h)
  | append_singleton ms m ih =>
    obtain ⟨wish, ts⟩ := m
    rw [run_concat]
    generalize clean.run ms = s at ih
    by_cases hs : s.stale ts = true
    · obtain ⟨r, hr, hts⟩ := stale_iff.mp hs
      have hrow : (s.move ⟨wish, ts⟩).row = some r := by
        cases wish <;> simp only [move, if_pos hs, hr]
      rw [hr] at ih
      rw [hrow]
      exact ih.concat fun _ _ ↦ Int.le_of_lt hts
    · cases wish with
      | pin pinned =>
        have hrow : (s.move ⟨.pin pinned, ts⟩).row = some (pinned, ts) := by
          simp only [move, if_neg hs]
        rw [hrow]
        exact ih.pin hs
      | unsync =>
        have hrow : (s.move ⟨.unsync, ts⟩).row = s.row.map fun r ↦ (false, r.2) := by
          simp only [move, if_neg hs]
        rw [hrow]
        cases hr : s.row with
        | none =>
          rw [hr] at ih
          intro pinned ts' hmem
          rw [List.mem_append, List.mem_singleton] at hmem
          rcases hmem with hmem | he
          · exact ih pinned ts' hmem
          · cases he
        | some r =>
          rw [hr] at ih
          apply WrittenBy.unsync ih
          by_contra hlt
          exact hs (stale_iff.mpr ⟨r, hr, by omega⟩)

/-- A row newer than all pin events is not there. -/
theorem not_stale_run (h : ∀ pinned ts', ⟨.pin pinned, ts'⟩ ∈ ms → ts' ≤ ts) :
    (clean.run ms).stale ts = false := by
  by_contra hs
  obtain ⟨r, hr, hlt⟩ := stale_iff.mp (by simpa using hs)
  have hspec := rowSpec_run ms
  rw [hr] at hspec
  obtain ⟨pinned, hmem, -⟩ := hspec.writer
  have hle := h pinned r.2 hmem
  omega

/-- The row is as new as every pin event. -/
theorem stale_run {pinned : Bool} {ts' : Int} (hmem : ⟨.pin pinned, ts'⟩ ∈ ms) (h : ts < ts') :
    (clean.run ms).stale ts = true := by
  have hspec := rowSpec_run ms
  cases hr : (clean.run ms).row with
  | none =>
    rw [hr] at hspec
    exact absurd hmem (hspec pinned ts')
  | some r =>
    rw [hr] at hspec
    have hle := hspec.newest pinned ts' hmem
    exact stale_iff.mpr ⟨r, hr, by omega⟩

/-! ### The override -/

theorem override_move_pin (s : Stance) (pinned : Bool) (ts : Int) :
    (s.move ⟨.pin pinned, ts⟩).override = (s.override && !pinned) := rfl

/-- Without an unsync there is no override. -/
theorem override_of_no_unsync (h : ∀ m ∈ ms, m.wish ≠ .unsync) :
    (clean.run ms).override = false := by
  induction ms using List.reverseRecOn with
  | nil => rfl
  | append_singleton ms m ih =>
    have ih := ih fun m' hm' ↦ h m' (List.mem_append_left _ hm')
    have hm := h m (List.mem_append_right _ (List.mem_singleton.mpr rfl))
    obtain ⟨wish, ts⟩ := m
    cases wish with
    | pin pinned => rw [run_concat, override_move_pin, ih, Bool.false_and]
    | unsync => exact absurd rfl hm

/-- An override stays until a pin lifts it. -/
theorem override_move {m : Move} (h : s.override = true) (hm : m.wish ≠ .pin true) :
    (s.move m).override = true := by
  obtain ⟨wish, ts⟩ := m
  cases wish with
  | pin pinned =>
    cases pinned with
    | false => rw [override_move_pin, h, Bool.not_false, Bool.and_true]
    | true => exact absurd rfl hm
  | unsync =>
    dsimp only [move]
    split
    · exact h
    · rfl

theorem override_run (h : s.override = true) (hm : ∀ m ∈ ms, m.wish ≠ .pin true) :
    (s.run ms).override = true := by
  induction ms generalizing s with
  | nil => exact h
  | cons m ms ih =>
    apply ih (override_move h (hm m (List.mem_cons_self ..)))
    exact fun m' hm' ↦ hm m' (List.mem_cons_of_mem _ hm')

/-- An unsync that no pin event is newer than leaves an override, if nothing pins the track. -/
theorem override_of_unsync (hmem : ⟨.unsync, ts⟩ ∈ ms)
    (hpins : ∀ pinned ts', ⟨.pin pinned, ts'⟩ ∈ ms → ts' ≤ ts)
    (hno : ∀ m ∈ ms, m.wish ≠ .pin true) : (clean.run ms).override = true := by
  obtain ⟨before, after, rfl⟩ := List.append_of_mem hmem
  have hs : (clean.run before).stale ts = false :=
    not_stale_run fun pinned ts' h ↦ hpins pinned ts' (List.mem_append_left _ h)
  have hput : ((clean.run before).move ⟨.unsync, ts⟩).override = true := by
    simp only [move, hs, Bool.false_eq_true, if_false]
  rw [Stance.run, List.foldl_append, List.foldl_cons]
  apply override_run hput
  exact fun m hm ↦ hno m (List.mem_append_right _ (List.mem_cons_of_mem _ hm))

/-- A pin newer than every unsync leaves no override. -/
theorem override_of_pin (hmem : ⟨.pin true, ts⟩ ∈ ms)
    (hunsyncs : ∀ ts', ⟨.unsync, ts'⟩ ∈ ms → ts' < ts) : (clean.run ms).override = false := by
  induction ms using List.reverseRecOn with
  | nil => cases hmem
  | append_singleton ms m ih =>
    rw [run_concat]
    rw [List.mem_append, List.mem_singleton] at hmem
    rcases hmem with hmem | rfl
    · have ih := ih hmem fun ts' h ↦ hunsyncs ts' (List.mem_append_left _ h)
      obtain ⟨wish, ts'⟩ := m
      cases wish with
      | pin pinned => rw [override_move_pin, ih, Bool.false_and]
      | unsync =>
        have hlt := hunsyncs ts' (List.mem_append_right _ (List.mem_singleton.mpr rfl))
        simp only [move, stale_run hmem hlt, if_true, ih]
    · rw [override_move_pin, Bool.not_true, Bool.and_false]

/-! ### Events that settle -/

/-- Events with different stamps are told apart by them. -/
theorem eq_of_ts (hn : (ms.map Move.ts).Nodup) {m m' : Move} (hm : m ∈ ms) (hm' : m' ∈ ms)
    (h : m.ts = m'.ts) : m = m' :=
  List.inj_on_of_nodup_map hn hm hm' h

/-- The row of a newest pin event. -/
theorem row_of_newest_pin (hn : (ms.map Move.ts).Nodup) {pinned : Bool}
    (h : Lww.Newest Move.ts ms ⟨.pin pinned, ts⟩) : (clean.run ms).row = some (pinned, ts) := by
  have hspec := rowSpec_run ms
  cases hr : (clean.run ms).row with
  | none =>
    rw [hr] at hspec
    exact absurd h.1 (hspec pinned ts)
  | some r =>
    rw [hr] at hspec
    obtain ⟨⟨pinned', hmem, hflag, hcleared⟩, hnewest⟩ := hspec
    have hle : r.2 ≤ ts := h.2 _ hmem
    have hge := hnewest pinned ts h.1
    have hts : r.2 = ts := by omega
    have he := eq_of_ts hn hmem h.1 hts
    injection he with hwish _
    injection hwish with hp
    subst hp
    obtain ⟨flag, ts'⟩ := r
    dsimp only at hts hflag hcleared ⊢
    subst hts
    congr 2
    cases flag with
    | true => exact (hflag rfl).symm
    | false =>
      by_contra hne
      obtain ⟨ts'', hts'', hle'⟩ := hcleared (by simpa using Ne.symm hne) rfl
      have hge' : ts'' ≤ ts' := h.2 _ hts''
      have he := eq_of_ts hn hts'' h.1 (show ts'' = ts' by omega)
      cases he

theorem Unharmed.settles (h : Unharmed ms) (hn : (ms.map Move.ts).Nodup) : Settles ms := by
  have hsub : ∀ {before after : List Move} {m : Move}, ms = before ++ m :: after →
      ∀ m' ∈ before, m' ∈ ms := by
    intro before after m he m' hm'
    rw [he]
    exact List.mem_append_left _ hm'
  cases h with
  | noUnsync none =>
    constructor
    · intro m hm
      obtain ⟨wish, ts⟩ := m
      cases wish with
      | pin pinned =>
        rw [pair, row_of_newest_pin hn hm, override_of_no_unsync none]
        rfl
      | unsync => exact absurd rfl (none _ hm.1)
    · intro before pinned ts after he hs
      apply move_stale_pin hs
      intro _
      exact override_of_no_unsync fun m' hm' ↦ none m' (hsub he m' hm')
  | unsynced n newest last noPin =>
    constructor
    · intro m hm
      have hmn : m = n := eq_of_ts hn hm.1 newest.1 (le_antisymm (newest.2 m hm.1) (hm.2 n newest.1))
      subst hmn
      obtain ⟨wish, ts⟩ := m
      dsimp only at last
      subst last
      have ho := override_of_unsync hm.1 (fun pinned ts' h ↦ hm.2 _ h) noPin
      have hflag : ((clean.run ms).row.map Prod.fst).getD false = false := by
        have hspec := rowSpec_run ms
        cases hr : (clean.run ms).row with
        | none => rfl
        | some r =>
          rw [hr] at hspec
          obtain ⟨pinned, hmem, hflag, -⟩ := hspec.writer
          obtain ⟨flag, ts'⟩ := r
          cases flag with
          | false => rfl
          | true =>
            rw [hflag rfl] at hmem
            exact absurd rfl (noPin _ hmem)
      rw [pair, ho, hflag]
      rfl
    · intro before pinned ts after he hs
      apply move_stale_pin hs
      intro hp
      have hmem : (⟨.pin pinned, ts⟩ : Move) ∈ ms := by
        rw [he]
        exact List.mem_append_right _ (List.mem_cons_self ..)
      rw [hp] at hmem
      exact absurd rfl (noPin _ hmem)
  | pinned n newest last noUnpin noUnsync =>
    constructor
    · intro m hm
      have hmn : m = n := eq_of_ts hn hm.1 newest.1 (le_antisymm (newest.2 m hm.1) (hm.2 n newest.1))
      subst hmn
      obtain ⟨wish, ts⟩ := m
      dsimp only at last
      subst last
      have hunsyncs : ∀ ts', ⟨.unsync, ts'⟩ ∈ ms → ts' < ts := by
        intro ts' h
        have hle : ts' ≤ ts := hm.2 _ h
        have hne : ts' ≠ ts := fun he ↦ (by cases eq_of_ts hn h hm.1 he)
        omega
      rw [pair, row_of_newest_pin hn hm, override_of_pin hm.1 hunsyncs]
      rfl
    · intro before pinned ts after he hs
      apply move_stale_pin hs
      intro hp
      subst hp
      have hmem : (⟨.pin true, ts⟩ : Move) ∈ ms := by
        rw [he]
        exact List.mem_append_right _ (List.mem_cons_self ..)
      -- the event that wrote the row is a pin, and newer than every unsync
      obtain ⟨r, hr, hlt⟩ := stale_iff.mp hs
      have hspec := rowSpec_run before
      rw [hr] at hspec
      obtain ⟨pinned, hwriter, -⟩ := hspec.writer
      cases pinned with
      | false =>
        have hle := noUnpin ts r.2 hmem (hsub he _ hwriter)
        omega
      | true =>
        apply override_of_pin hwriter
        intro ts' hts'
        exact noUnsync ts r.2 ts' hmem (hsub he _ hwriter) (hsub he _ hts') hlt

/-! ### Events that do not settle -/

theorem exists_perm_cons {α : Type} {a : α} {l : List α} (h : a ∈ l) :
    ∃ rest, (a :: rest).Perm l := by
  obtain ⟨l₁, l₂, rfl⟩ := List.append_of_mem h
  exact ⟨l₁ ++ l₂, List.perm_middle.symm⟩

/-- Two events may come first. -/
theorem exists_perm_cons_cons {α : Type} {a b : α} {l : List α} (ha : a ∈ l) (hb : b ∈ l)
    (hab : a ≠ b) : ∃ rest, (a :: b :: rest).Perm l := by
  obtain ⟨rest, hrest⟩ := exists_perm_cons ha
  have hb' := hrest.mem_iff.mpr hb
  rw [List.mem_cons] at hb'
  obtain ⟨rest', hrest'⟩ := exists_perm_cons (hb'.resolve_left (Ne.symm hab))
  exact ⟨rest', (hrest'.cons a).trans hrest⟩

/-- Three events may come first. -/
theorem exists_perm_three {α : Type} {a b c : α} {l : List α} (ha : a ∈ l) (hb : b ∈ l)
    (hc : c ∈ l) (hab : a ≠ b) (hac : a ≠ c) (hbc : b ≠ c) :
    ∃ rest, (a :: b :: c :: rest).Perm l := by
  obtain ⟨rest, hrest⟩ := exists_perm_cons_cons ha hb hab
  have hc' := hrest.mem_iff.mpr hc
  rw [List.mem_cons, List.mem_cons] at hc'
  obtain ⟨rest', hrest'⟩ := exists_perm_cons
    ((hc'.resolve_left (Ne.symm hac)).resolve_left (Ne.symm hbc))
  exact ⟨rest', ((hrest'.cons b).cons a).trans hrest⟩

theorem ne_of_wish {m m' : Move} (h : m.wish ≠ m'.wish) : m ≠ m' := fun he ↦ h (by rw [he])

/-- A stale pin lifts an override. -/
theorem Orderless.no_override (h : Orderless ms) {m m' : Move} {rest : List Move}
    (hp : (m :: m' :: ⟨.pin true, ts⟩ :: rest).Perm ms)
    (hs : (clean.run [m, m']).stale ts = true) : (clean.run [m, m']).override = false := by
  have hstale := (h _ hp).ignores [m, m'] true ts rest rfl hs
  have ho := congrArg Stance.override hstale
  rw [override_move_pin, Bool.not_true, Bool.and_false] at ho
  exact ho.symm

/-- An unsync and then an unpin make an older pin stale. -/
theorem Orderless.noUnpin (h : Orderless ms) {u ts' : Int} (hu : ⟨.unsync, u⟩ ∈ ms)
    (hpin : ⟨.pin true, ts⟩ ∈ ms) (hunpin : ⟨.pin false, ts'⟩ ∈ ms) : ts' ≤ ts := by
  by_contra hlt
  obtain ⟨rest, hrest⟩ := exists_perm_three hu hunpin hpin (ne_of_wish (by simp))
    (ne_of_wish (by simp)) (ne_of_wish (by simp))
  have hrun : clean.run [⟨.unsync, u⟩, ⟨.pin false, ts'⟩] = ⟨some (false, ts'), true⟩ := rfl
  have ho := h.no_override hrest (by rw [hrun]; exact stale_iff.mpr ⟨_, rfl, by dsimp only; omega⟩)
  rw [hrun] at ho
  cases ho

/-- A pin and then a newer unsync make an older pin stale. -/
theorem Orderless.noUnsync (h : Orderless ms) {u ts' : Int} (hu : ⟨.unsync, u⟩ ∈ ms)
    (hpin : ⟨.pin true, ts⟩ ∈ ms) (hpin' : ⟨.pin true, ts'⟩ ∈ ms) (hlt : ts < ts') : u < ts' := by
  by_contra hle
  have hne : (⟨.pin true, ts'⟩ : Move) ≠ ⟨.pin true, ts⟩ := by
    intro he
    injection he with _ hts
    omega
  obtain ⟨rest, hrest⟩ := exists_perm_three hpin' hu hpin (ne_of_wish (by simp)) hne
    (ne_of_wish (by simp))
  have hrun : clean.run [⟨.pin true, ts'⟩, ⟨.unsync, u⟩] = ⟨some (false, ts'), true⟩ := by
    have hs : stale ⟨some (true, ts'), false⟩ u = false := by simpa [stale] using hle
    show Stance.move ⟨some (true, ts'), false⟩ ⟨.unsync, u⟩ = _
    simp only [move, hs, Bool.false_eq_true, if_false, Option.map_some]
  have ho := h.no_override hrest (by rw [hrun]; exact stale_iff.mpr ⟨_, rfl, hlt⟩)
  rw [hrun] at ho
  cases ho

theorem exists_newest (hne : ms ≠ []) : ∃ m, Lww.Newest Move.ts ms m := by
  obtain ⟨m, hm, -⟩ := Lww.foldl_write Move.ts hne none
  exact ⟨m, hm⟩

theorem Orderless.unharmed (h : Orderless ms) (hn : (ms.map Move.ts).Nodup) : Unharmed ms := by
  by_cases hnone : ∀ m ∈ ms, m.wish ≠ .unsync
  · exact .noUnsync hnone
  · obtain ⟨⟨_, u⟩, hu, hw⟩ : ∃ m, m ∈ ms ∧ m.wish = .unsync := by
      by_contra hc
      exact hnone fun m hm hw ↦ hc ⟨m, hm, hw⟩
    dsimp only at hw
    subst hw
    obtain ⟨⟨wish, n⟩, hnew⟩ := exists_newest (List.ne_nil_of_mem hu)
    cases wish with
    | unsync =>
      apply Unharmed.unsynced _ hnew rfl
      -- a pin that comes last lifts the override
      intro m hm hw
      obtain ⟨rest, hrest⟩ := exists_perm_cons hm
      have hlast : (rest ++ [m]).Perm ms := (List.perm_append_singleton m rest).trans hrest
      have hpair := (h _ hlast).decides _ (hnew.perm hlast)
      have ho := congrArg Prod.snd hpair
      obtain ⟨_, ts⟩ := m
      dsimp only at hw
      subst hw
      rw [run_concat, pair, override_move_pin, Bool.not_true, Bool.and_false] at ho
      cases ho
    | pin pinned =>
      cases pinned with
      | true =>
        apply Unharmed.pinned _ hnew rfl
        · exact fun ts ts' hpin hunpin ↦ h.noUnpin hu hpin hunpin
        · exact fun ts ts' u hpin hpin' hu hlt ↦ h.noUnsync hu hpin hpin' hlt
      | false =>
        exfalso
        by_cases hpins : ∀ m ∈ ms, m.wish ≠ .pin true
        · -- the override of an unsync that comes first stays
          obtain ⟨rest, hrest⟩ := exists_perm_cons hu
          have hpair := (h _ hrest).decides _ (hnew.perm hrest)
          have ho : (clean.run (⟨.unsync, u⟩ :: rest)).override = true := by
            apply override_run (s := clean.move ⟨.unsync, u⟩) rfl
            exact fun m hm ↦ hpins m (hrest.mem_iff.mp (List.mem_cons_of_mem _ hm))
          rw [pair, ho] at hpair
          cases congrArg Prod.snd hpair
        · apply hpins
          intro m hm hw
          obtain ⟨_, ts⟩ := m
          dsimp only at hw
          subst hw
          have hle : n ≤ ts := h.noUnpin hu hm hnew.1
          have hge : ts ≤ n := hnew.2 _ hm
          have he := eq_of_ts hn hm hnew.1 (show ts = n by omega)
          cases he

/-- Events with different stamps settle in every order exactly when they are unharmed. -/
theorem orderless_iff (hn : (ms.map Move.ts).Nodup) : Orderless ms ↔ Unharmed ms := by
  constructor
  · exact fun h ↦ h.unharmed hn
  · exact fun h ms' hp ↦ (h.perm hp).settles ((hp.map _).nodup_iff.mpr hn)

end Runs

end Nocturne
