import Nocturne.Lib.Proc

/-!
# Runs under a queue of answers

How a run takes its answers: one for each call, in order, and then the rest of the process
goes on with what is left. A process whose calls all have labels that the policy does not
disturb runs as if nothing could fail.
-/

namespace Lib

variable {σ ℓ ε α β γ : Type}

/-- The answer to the next call: an exhausted queue answers `ok`. -/
def Reply.next : List (Reply ε) → Reply ε
  | [] => .ok
  | r :: _ => r

namespace Proc

variable {A : σ → ℓ → Reply ε → Prop} {s : σ} {rs : List (Reply ε)}

@[simp] theorem run_pure (a : α) : (pure a : Proc σ ℓ ε α).run s rs = .done a s rs := rfl

@[simp] theorem run_modify (f : σ → σ) :
    (modify f : Proc σ ℓ ε Unit).run s rs = .done () (f s) rs := rfl

@[simp] theorem run_gets (f : σ → α) : (gets f : Proc σ ℓ ε α).run s rs = .done (f s) s rs := rfl

/-- A call that goes through. -/
theorem run_ask_ok {l : ℓ} {f : σ → Option ε → α × σ} (h : Reply.next rs = .ok) :
    (ask l f).run s rs = .done (f s none).1 (f s none).2 rs.tail := by
  cases rs with
  | nil => rfl
  | cons r rs =>
    change r = .ok at h
    subst h
    rfl

/-- A call that fails. -/
theorem run_ask_fail {l : ℓ} {f : σ → Option ε → α × σ} {e : ε}
    (h : Reply.next rs = .fail e) :
    (ask l f).run s rs = .done (f s (some e)).1 (f s (some e)).2 rs.tail := by
  cases rs with
  | nil => cases h
  | cons r rs =>
    change r = .fail e at h
    subst h
    rfl

/-- A single call obeys where its answer is admitted. -/
theorem obeys_ask {l : ℓ} {f : σ → Option ε → α × σ} :
    (ask l f).Obeys A s rs ↔ A s l (Reply.next rs) := by
  cases rs with
  | nil => exact and_iff_left trivial
  | cons r rs =>
    cases r with
    | ok => exact and_iff_left trivial
    | fail e => exact and_iff_left trivial
    | die => exact Iff.rfl

/-- The environment obeys all along when it obeys along the first part, and then along the
second part on what the first one leaves of the queue. -/
theorem obeys_bind {p : Proc σ ℓ ε α} {k : α → Proc σ ℓ ε β} :
    (p >>= k).Obeys A s rs ↔ p.Obeys A s rs ∧
      ∀ a t rest, p.run s rs = .done a t rest → (k a).Obeys A t rest := by
  rw [bind_eq]
  induction p generalizing s rs with
  | ret a =>
    constructor
    · intro h
      refine ⟨trivial, ?_⟩
      rintro _ _ _ ⟨⟩
      exact h
    · exact fun h ↦ h.2 a s rs rfl
  | tau f n ih => exact ih s
  | call l f n ih =>
    match rs with
    | [] => exact (and_congr_right fun _ ↦ ih s none).trans and_assoc.symm
    | .ok :: rs => exact (and_congr_right fun _ ↦ ih s none).trans and_assoc.symm
    | .fail e :: rs => exact (and_congr_right fun _ ↦ ih s (some e)).trans and_assoc.symm
    | .die :: rs =>
      refine (and_iff_left ?_).symm
      rintro a t rest ⟨⟩

/-! ### The calls that a process can make -/

/-- Every call of the process, whatever the answers, has a label that `L` accepts. -/
def Uses (L : ℓ → Prop) : Proc σ ℓ ε α → Prop
  | ret _ => True
  | tau _ n => ∀ s, Uses L (n s)
  | call l _ n => L l ∧ ∀ s o, Uses L (n s o)

variable {L : ℓ → Prop}

/-- A process that makes no call uses any calls. -/
theorem uses_pure (a : α) : (pure a : Proc σ ℓ ε α).Uses L := trivial

theorem uses_gets (f : σ → α) : (gets f : Proc σ ℓ ε α).Uses L := fun _ ↦ trivial

theorem uses_modify (f : σ → σ) : (modify f : Proc σ ℓ ε Unit).Uses L := fun _ ↦ trivial

/-- A call that is allowed. -/
theorem uses_ask {l : ℓ} (f : σ → Option ε → α × σ) (h : L l) : (ask l f).Uses L :=
  ⟨h, fun _ _ ↦ trivial⟩

/-- Two processes in a row use what both use. -/
theorem uses_bind {p : Proc σ ℓ ε α} {k : α → Proc σ ℓ ε β} (hp : p.Uses L)
    (hk : ∀ a, (k a).Uses L) : (p >>= k).Uses L := by
  rw [bind_eq]
  induction p with
  | ret a => exact hk a
  | tau f n ih => exact fun s ↦ ih s (hp s)
  | call l f n ih => exact ⟨hp.1, fun s o ↦ ih s o (hp.2 s o)⟩

/-- A branch uses what its sides use. -/
theorem uses_ite {c : Prop} [Decidable c] {p q : Proc σ ℓ ε α} (hp : p.Uses L) (hq : q.Uses L) :
    (if c then p else q).Uses L := by
  split
  · exact hp
  · exact hq

/-- A loop uses what its body uses. -/
theorem uses_each {body : β → Proc σ ℓ ε Unit} (h : ∀ x, (body x).Uses L) (xs : List β) :
    (each body xs).Uses L := by
  induction xs with
  | nil => exact uses_pure ()
  | cons x xs ih => exact uses_bind (h x) fun _ ↦ ih

/-- Where the policy lets through every call that the process makes, the run is the one
without incident. -/
theorem run_of_uses {p : Proc σ ℓ ε α} (hp : p.Uses L)
    (hA : ∀ t l r, L l → A t l r → r = .ok) (hrs : p.Obeys A s rs) :
    ∃ rest, p.run s rs = .done (p.eval s).1 (p.eval s).2 rest := by
  induction p generalizing s rs with
  | ret a => exact ⟨rs, rfl⟩
  | tau f n ih => exact ih s (hp s) hrs
  | call l f n ih =>
    match rs, hrs with
    | [], hrs => exact ih s none (hp.2 s none) hrs.2
    | .ok :: rs, hrs => exact ih s none (hp.2 s none) hrs.2
    | .fail e :: rs, hrs => exact absurd (hA s l _ hp.1 hrs.1) (by simp)
    | .die :: rs, hrs => exact absurd (hA s l _ hp.1 hrs) (by simp)

end Proc

end Lib
