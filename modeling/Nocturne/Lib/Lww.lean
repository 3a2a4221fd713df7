import Mathlib.Order.Lattice
import Mathlib.Data.List.Basic
import Mathlib.Data.List.Induction
import Mathlib.Data.List.Perm.Basic

/-!
# Last writer wins

A register keeps the value with the greatest stamp; a value with the same stamp as the kept one
replaces it. After some writes the register holds one of the newest values, and which of them
does not depend on the order of the writes exactly when the newest values agree.
-/

namespace Lib.Lww

variable {ρ τ : Type} [LinearOrder τ] (stamp : ρ → τ)

/-- Write a value into a register. -/
def write (old : Option ρ) (new : ρ) : Option ρ :=
  match old with
  | none => some new
  | some r => if stamp r ≤ stamp new then some new else some r

/-- One of the values with the greatest stamp. -/
def Newest (es : List ρ) (e : ρ) : Prop := e ∈ es ∧ ∀ e' ∈ es, stamp e' ≤ stamp e

/-- All newest values are the same. -/
def Agree (es : List ρ) : Prop := ∀ e e', Newest stamp es e → Newest stamp es e' → e = e'

variable {stamp} {es es' : List ρ} {e : ρ} {o : Option ρ}

/-- A value at least as new as the kept one is kept. -/
theorem write_of_le (h : ∀ r, o = some r → stamp r ≤ stamp e) : write stamp o e = some e := by
  cases o with
  | none => rfl
  | some r => exact if_pos (h r rfl)

/-- Of two writes the newer one counts, the later one among equals. -/
theorem write_write (o : Option ρ) (e e' : ρ) : write stamp (write stamp o e) e' =
    write stamp o (if stamp e ≤ stamp e' then e' else e) := by
  cases o with
  | none =>
    show (if stamp e ≤ stamp e' then some e' else some e) = some _
    split <;> rfl
  | some r =>
    simp only [write]
    by_cases hr : stamp r ≤ stamp e
    · rw [if_pos hr]
      by_cases he : stamp e ≤ stamp e'
      · rw [if_pos he]
        simp only [if_pos he, if_pos (le_trans hr he)]
      · rw [if_neg he]
        simp only [if_neg he, if_pos hr]
    · rw [if_neg hr]
      by_cases he : stamp e ≤ stamp e'
      · rw [if_pos he]
      · have hre : ¬ stamp r ≤ stamp e' := fun h ↦
          he (le_trans (le_of_lt (not_le.mp hr)) h)
        rw [if_neg he]
        simp only [if_neg hr, if_neg hre]

/-- Some writes amount to the write of a newest value. -/
theorem foldl_write (stamp : ρ → τ) (hne : es ≠ []) (o : Option ρ) :
    ∃ e, Newest stamp es e ∧ es.foldl (write stamp) o = write stamp o e := by
  induction es generalizing o with
  | nil => exact absurd rfl hne
  | cons x xs ih =>
    rw [List.foldl_cons]
    by_cases hxs : xs = []
    · subst hxs
      exact ⟨x, ⟨by simp, by simp⟩, rfl⟩
    · obtain ⟨e, ⟨hmem, hmax⟩, hfold⟩ := ih hxs (write stamp o x)
      rw [hfold, write_write]
      by_cases hx : stamp x ≤ stamp e
      · refine ⟨e, ⟨List.mem_cons_of_mem _ hmem, fun e' he' ↦ ?_⟩, by rw [if_pos hx]⟩
        rcases List.mem_cons.mp he' with rfl | he'
        · exact hx
        · exact hmax e' he'
      · refine ⟨x, ⟨List.mem_cons_self .., fun e' he' ↦ ?_⟩, by rw [if_neg hx]⟩
        rcases List.mem_cons.mp he' with rfl | he'
        · exact le_refl _
        · exact le_trans (hmax e' he') (le_of_lt (not_le.mp hx))

theorem Newest.perm (h : Newest stamp es e) (hp : es'.Perm es) : Newest stamp es' e :=
  ⟨hp.mem_iff.mpr h.1, fun e' he' ↦ h.2 e' (hp.mem_iff.mp he')⟩

/-- Where the newest values agree, the order of the writes does not matter. -/
theorem Agree.foldl_perm (h : Agree stamp es) (hp : es'.Perm es) (o : Option ρ) :
    es'.foldl (write stamp) o = es.foldl (write stamp) o := by
  by_cases hne : es = []
  · rw [hne, List.perm_nil] at hp
    rw [hp, hne]
  · have hne' : es' ≠ [] := fun h ↦ hne (List.perm_nil.mp (by rw [h] at hp; exact hp.symm))
    obtain ⟨e, he, hfold⟩ := foldl_write stamp hne o
    obtain ⟨e', he', hfold'⟩ := foldl_write stamp hne' o
    rw [hfold, hfold', h e' e (he'.perm hp.symm) he]

/-- Where the newest values agree, writing some of the values again changes nothing. -/
theorem Agree.write_again (h : Agree stamp es) (he : e ∈ es) (o : Option ρ) :
    write stamp (es.foldl (write stamp) o) e = es.foldl (write stamp) o := by
  obtain ⟨m, hm, hfold⟩ := foldl_write stamp (List.ne_nil_of_mem he) o
  rw [hfold, write_write]
  congr 1
  split
  · next hle => exact h e m ⟨he, fun e' he' ↦ le_trans (hm.2 e' he') hle⟩ hm
  · rfl

/-- A newest value that is written last is kept. -/
theorem foldl_concat_newest (h : Newest stamp (es ++ [e]) e) :
    (es ++ [e]).foldl (write stamp) none = some e := by
  rw [List.foldl_append, List.foldl_cons, List.foldl_nil]
  apply write_of_le
  intro r hr
  by_cases hne : es = []
  · subst hne
    cases hr
  · obtain ⟨m, hm, hfold⟩ := foldl_write stamp hne none
    rw [hfold] at hr
    cases hr
    exact h.2 r (List.mem_append_left _ hm.1)

/-! ### A register that is never empty -/

variable {r : ρ}

/-- The newer of two values, the second one among equals. -/
def later (stamp : ρ → τ) (r new : ρ) : ρ := if stamp r ≤ stamp new then new else r

theorem le_stamp_later : stamp r ≤ stamp (later stamp r e) := by
  rw [later]
  split
  · assumption
  · exact le_refl _

theorem stamp_foldl_later_le {t : τ} (hr : stamp r ≤ t) (h : ∀ e ∈ es, stamp e ≤ t) :
    stamp (es.foldl (later stamp) r) ≤ t := by
  induction es generalizing r with
  | nil => exact hr
  | cons e es ih =>
    obtain ⟨he, hes⟩ := List.forall_mem_cons.mp h
    apply ih _ hes
    rw [later]
    split
    · exact he
    · exact hr

theorem le_stamp_foldl_later (he : e ∈ es) : stamp e ≤ stamp (es.foldl (later stamp) r) := by
  induction es using List.reverseRecOn with
  | nil => cases he
  | append_singleton es e' ih =>
    rw [List.foldl_append, List.foldl_cons, List.foldl_nil]
    rcases List.mem_append.mp he with he | he
    · exact le_trans (ih he) le_stamp_later
    · rw [List.mem_singleton.mp he, later]
      split
      · exact le_refl _
      · next hlt => exact le_of_lt (not_le.mp hlt)

/-- The same writes once more change nothing. -/
theorem foldl_later_twice (es : List ρ) (r : ρ) :
    es.foldl (later stamp) (es.foldl (later stamp) r) = es.foldl (later stamp) r := by
  induction es using List.reverseRecOn generalizing r with
  | nil => rfl
  | append_singleton es e ih =>
    simp only [List.foldl_append, List.foldl_cons, List.foldl_nil]
    by_cases he : stamp (es.foldl (later stamp) r) ≤ stamp e
    · -- What came before the last value is not newer, so that it is written last again.
      have hlast : later stamp (es.foldl (later stamp) r) e = e := if_pos he
      rw [hlast]
      apply if_pos
      exact stamp_foldl_later_le (le_refl _) fun e' he' ↦ le_trans (le_stamp_foldl_later he') he
    · have hold : later stamp (es.foldl (later stamp) r) e = es.foldl (later stamp) r := if_neg he
      rw [hold, ih, hold]

end Lib.Lww
