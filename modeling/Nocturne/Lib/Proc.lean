import Mathlib.Data.List.Basic

/-!
# Processes whose calls may fail and which may die

A process acts on a state through labelled calls and through silent steps of its own. Each
call is answered by the environment: it goes through, it fails with a fault, or the process
dies there and leaves the state as it stands. A run consumes a queue of answers, one for a
call; an exhausted queue answers `ok`, so the empty queue is the run without incident.
`steps` lists the states in which such a run could have died. `wp` is the weakest
precondition, with a clause for the states of death and a policy on the answers.
-/

namespace Lib

/-- The environment's answer to one call. -/
inductive Reply (ε : Type) where
  | ok
  | fail (fault : ε)
  | die
  deriving DecidableEq, Repr

/-- A run ends with a value and the answers left over, or the process is dead in a state. -/
inductive Outcome (σ ε α : Type) where
  | done (value : α) (state : σ) (rest : List (Reply ε))
  | dead (state : σ)

namespace Outcome

variable {σ ε α : Type}

/-- The state that a run leaves behind, whichever way it ended. -/
def state : Outcome σ ε α → σ
  | done _ s _ => s
  | dead s => s

/-- The value of a run that ended. -/
def value? : Outcome σ ε α → Option α
  | done a _ _ => some a
  | dead _ => none

end Outcome

/-- A process over states `σ`, with calls labelled by `ℓ` and faults in `ε`. A call states
its effect on the state, and how to go on, for each answer (`none` when it goes through). -/
inductive Proc (σ ℓ ε α : Type) where
  | ret (value : α)
  | tau (effect : σ → σ) (next : σ → Proc σ ℓ ε α)
  | call (label : ℓ) (effect : σ → Option ε → σ) (next : σ → Option ε → Proc σ ℓ ε α)

namespace Proc

variable {σ ℓ ε α β γ : Type}

/-- Run one process, then the one that its value selects. -/
def bind : Proc σ ℓ ε α → (α → Proc σ ℓ ε β) → Proc σ ℓ ε β
  | ret a, k => k a
  | tau f n, k => tau f fun s ↦ (n s).bind k
  | call l f n, k => call l f fun s o ↦ (n s o).bind k

instance : Monad (Proc σ ℓ ε) where
  pure := ret
  bind := bind

/-- One call: `f` gives its result and effect for each answer. -/
def ask (l : ℓ) (f : σ → Option ε → α × σ) : Proc σ ℓ ε α :=
  call l (fun s o ↦ (f s o).2) fun s o ↦ ret (f s o).1

/-- Read the state. -/
def gets (f : σ → α) : Proc σ ℓ ε α := tau id fun s ↦ ret (f s)

/-- Change the process's own part of the state. -/
def modify (f : σ → σ) : Proc σ ℓ ε Unit := tau f fun _ ↦ ret ()

/-- Run `body` on each element in turn. -/
def each (body : β → Proc σ ℓ ε Unit) : List β → Proc σ ℓ ε Unit
  | [] => pure ()
  | x :: xs => do
    body x
    each body xs

/-- The run under a queue of answers. -/
def run : Proc σ ℓ ε α → σ → List (Reply ε) → Outcome σ ε α
  | ret a, s, rs => .done a s rs
  | tau f n, s, rs => run (n s) (f s) rs
  | call _ f n, s, [] => run (n s none) (f s none) []
  | call _ f n, s, .ok :: rs => run (n s none) (f s none) rs
  | call _ f n, s, .fail e :: rs => run (n s (some e)) (f s (some e)) rs
  | call _ _ _, s, .die :: _ => .dead s

/-- Value and final state of the run without incident. -/
def eval : Proc σ ℓ ε α → σ → α × σ
  | ret a, s => (a, s)
  | tau f n, s => eval (n s) (f s)
  | call _ f n, s => eval (n s none) (f s none)

/-- The states, in order, in which the run without incident stands before a call: where the
process may die. -/
def steps : Proc σ ℓ ε α → σ → List σ
  | ret _, _ => []
  | tau f n, s => steps (n s) (f s)
  | call _ f n, s => s :: steps (n s none) (f s none)

/-- The environment obeys the policy `A` all along the run: each answer is one that `A`
allows in the state in which the call is made. -/
def Obeys (A : σ → ℓ → Reply ε → Prop) : Proc σ ℓ ε α → σ → List (Reply ε) → Prop
  | ret _, _, _ => True
  | tau f n, s, rs => Obeys A (n s) (f s) rs
  | call l f n, s, [] => A s l .ok ∧ Obeys A (n s none) (f s none) []
  | call l f n, s, .ok :: rs => A s l .ok ∧ Obeys A (n s none) (f s none) rs
  | call l f n, s, .fail e :: rs =>
    A s l (.fail e) ∧ Obeys A (n s (some e)) (f s (some e)) rs
  | call l _ _, s, .die :: _ => A s l .die

/-- Whether an environment obeys a policy can be computed. -/
instance decidableObeys {A : σ → ℓ → Reply ε → Prop} [∀ s l r, Decidable (A s l r)] :
    ∀ (p : Proc σ ℓ ε α) (s : σ) (rs : List (Reply ε)), Decidable (Obeys A p s rs)
  | ret _, _, _ => .isTrue trivial
  | tau f n, s, rs => decidableObeys (n s) (f s) rs
  | call l f n, s, [] =>
    @instDecidableAnd _ _ (inferInstanceAs (Decidable (A s l .ok))) (decidableObeys (n s none) (f s none) [])
  | call l f n, s, .ok :: rs =>
    @instDecidableAnd _ _ (inferInstanceAs (Decidable (A s l .ok))) (decidableObeys (n s none) (f s none) rs)
  | call l f n, s, .fail e :: rs =>
    @instDecidableAnd _ _ (inferInstanceAs (Decidable (A s l (.fail e)))) (decidableObeys (n s (some e)) (f s (some e)) rs)
  | call l _ _, s, .die :: _ => inferInstanceAs (Decidable (A s l .die))

/-- The policy under which every call goes through. -/
def Calm : σ → ℓ → Reply ε → Prop := fun _ _ r ↦ r = .ok

/-- From `s`, under every environment that obeys `A`, the run ends with `Q` or dies
with `C`. -/
def wp (A : σ → ℓ → Reply ε → Prop) : Proc σ ℓ ε α → (α → σ → Prop) → (σ → Prop) → σ → Prop
  | ret a, Q, _, s => Q a s
  | tau f n, Q, C, s => wp A (n s) Q C (f s)
  | call l f n, Q, C, s =>
    (A s l .die → C s) ∧ (A s l .ok → wp A (n s none) Q C (f s none)) ∧
      ∀ e, A s l (.fail e) → wp A (n s (some e)) Q C (f s (some e))

/-! ### Monad laws -/

theorem bind_eq (p : Proc σ ℓ ε α) (k : α → Proc σ ℓ ε β) : p >>= k = p.bind k := rfl

private theorem bind_ret (p : Proc σ ℓ ε α) : p.bind ret = p := by
  induction p with
  | ret a => rfl
  | tau f n ih => simp only [bind, ih]
  | call l f n ih => simp only [bind, ih]

private theorem bind_bind (p : Proc σ ℓ ε α) (k : α → Proc σ ℓ ε β) (h : β → Proc σ ℓ ε γ) :
    (p.bind k).bind h = p.bind fun a ↦ (k a).bind h := by
  induction p with
  | ret a => rfl
  | tau f n ih => simp only [bind, ih]
  | call l f n ih => simp only [bind, ih]

instance : LawfulMonad (Proc σ ℓ ε) :=
  LawfulMonad.mk' _ (fun p ↦ bind_ret p) (fun _ _ ↦ rfl) (fun p k h ↦ bind_bind p k h)

/-! ### The run without incident -/

@[simp] theorem eval_pure (a : α) (s : σ) : eval (pure a : Proc σ ℓ ε α) s = (a, s) := (rfl)

@[simp] theorem eval_ask (l : ℓ) (f : σ → Option ε → α × σ) (s : σ) :
    eval (ask l f) s = f s none := (rfl)

@[simp] theorem eval_gets (f : σ → α) (s : σ) :
    eval (gets f : Proc σ ℓ ε α) s = (f s, s) := (rfl)

@[simp] theorem eval_modify (f : σ → σ) (s : σ) :
    eval (modify f : Proc σ ℓ ε Unit) s = ((), f s) := (rfl)

@[simp] theorem eval_bind (p : Proc σ ℓ ε α) (k : α → Proc σ ℓ ε β) (s : σ) :
    eval (p >>= k) s = eval (k (eval p s).1) (eval p s).2 := by
  rw [bind_eq]
  induction p generalizing s with
  | ret a => rfl
  | tau f n ih => simp only [bind, eval, ih]
  | call l f n ih => simp only [bind, eval, ih]

@[simp] theorem eval_map (f : α → β) (p : Proc σ ℓ ε α) (s : σ) :
    eval (f <$> p) s = (f (eval p s).1, (eval p s).2) := by
  rw [map_eq_pure_bind, eval_bind]
  rfl

@[simp] theorem eval_ite (c : Prop) [Decidable c] (p q : Proc σ ℓ ε α) (s : σ) :
    eval (if c then p else q) s = if c then eval p s else eval q s := by
  split <;> rfl

@[simp] theorem steps_pure (a : α) (s : σ) : steps (pure a : Proc σ ℓ ε α) s = [] := (rfl)

@[simp] theorem steps_ask (l : ℓ) (f : σ → Option ε → α × σ) (s : σ) :
    steps (ask l f) s = [s] := (rfl)

@[simp] theorem steps_gets (f : σ → α) (s : σ) :
    steps (gets f : Proc σ ℓ ε α) s = [] := (rfl)

@[simp] theorem steps_modify (f : σ → σ) (s : σ) :
    steps (modify f : Proc σ ℓ ε Unit) s = [] := (rfl)

@[simp] theorem steps_bind (p : Proc σ ℓ ε α) (k : α → Proc σ ℓ ε β) (s : σ) :
    steps (p >>= k) s = steps p s ++ steps (k (eval p s).1) (eval p s).2 := by
  rw [bind_eq]
  induction p generalizing s with
  | ret a => rfl
  | tau f n ih => simp only [bind, steps, eval, ih]
  | call l f n ih => simp only [bind, steps, eval, ih, List.cons_append]

@[simp] theorem steps_map (f : α → β) (p : Proc σ ℓ ε α) (s : σ) :
    steps (f <$> p) s = steps p s := by
  rw [map_eq_pure_bind, steps_bind]
  exact List.append_nil _

@[simp] theorem steps_ite (c : Prop) [Decidable c] (p q : Proc σ ℓ ε α) (s : σ) :
    steps (if c then p else q) s = if c then steps p s else steps q s := by
  split <;> rfl

/-- A run of two parts: the second part has the answers that the first part left over. -/
theorem run_bind (p : Proc σ ℓ ε α) (k : α → Proc σ ℓ ε β) (s : σ) (rs : List (Reply ε)) :
    (p >>= k).run s rs = match p.run s rs with
      | .done a t rest => (k a).run t rest
      | .dead t => .dead t := by
  rw [bind_eq]
  induction p generalizing s rs with
  | ret a => rfl
  | tau f n ih => exact ih s (f s) rs
  | call l f n ih =>
    match rs with
    | [] => exact ih s none _ []
    | .ok :: rs => exact ih s none _ rs
    | .fail e :: rs => exact ih s (some e) _ rs
    | .die :: rs => rfl

/-- Without incident a run ends, as evaluated. -/
theorem run_nil (p : Proc σ ℓ ε α) (s : σ) :
    p.run s [] = .done (p.eval s).1 (p.eval s).2 [] := by
  induction p generalizing s with
  | ret a => rfl
  | tau f n ih => exact ih s (f s)
  | call l f n ih => exact ih s none (f s none)

/-! ### Weakest preconditions -/

section Rules

variable {A : σ → ℓ → Reply ε → Prop} {Q : α → σ → Prop} {C : σ → Prop} {s : σ}

@[simp] theorem wp_pure (a : α) : wp A (pure a) Q C s = Q a s := rfl

@[simp] theorem wp_gets (f : σ → α) : wp A (gets f) Q C s = Q (f s) s := rfl

@[simp] theorem wp_modify (f : σ → σ) (R : Unit → σ → Prop) :
    wp A (modify f) R C s = R () (f s) := rfl

/-- One call: it dies, goes through or fails. -/
theorem wp_ask (l : ℓ) (f : σ → Option ε → α × σ) :
    wp A (ask l f) Q C s ↔
      (A s l .die → C s) ∧ (A s l .ok → Q (f s none).1 (f s none).2) ∧
        ∀ e, A s l (.fail e) → Q (f s (some e)).1 (f s (some e)).2 := Iff.rfl

/-- Sequencing: the second part starts where the first one ended. -/
@[simp] theorem wp_bind (p : Proc σ ℓ ε α) (k : α → Proc σ ℓ ε β) (R : β → σ → Prop) :
    wp A (p >>= k) R C s ↔ wp A p (fun a t ↦ wp A (k a) R C t) C s := by
  rw [bind_eq]
  induction p generalizing s with
  | ret a => rfl
  | tau f n ih => exact ih s
  | call l f n ih => simp only [bind, wp, ih]

@[simp] theorem wp_map (g : α → β) (p : Proc σ ℓ ε α) (R : β → σ → Prop) :
    wp A (g <$> p) R C s ↔ wp A p (fun a ↦ R (g a)) C s := by
  rw [map_eq_pure_bind, wp_bind]
  rfl

/-- Weaker postconditions follow. -/
theorem wp_mono {p : Proc σ ℓ ε α} {Q' : α → σ → Prop} {C' : σ → Prop}
    (h : wp A p Q C s) (hq : ∀ a t, Q a t → Q' a t) (hc : ∀ t, C t → C' t) :
    wp A p Q' C' s := by
  induction p generalizing s with
  | ret a => exact hq a s h
  | tau f n ih => exact ih s h
  | call l f n ih =>
    exact ⟨fun hd ↦ hc s (h.1 hd), fun ho ↦ ih s none (h.2.1 ho),
      fun e he ↦ ih s (some e) (h.2.2 e he)⟩

/-- A stricter policy leaves less to check. -/
theorem wp_policy {A' : σ → ℓ → Reply ε → Prop} {p : Proc σ ℓ ε α} (h : wp A' p Q C s)
    (hA : ∀ t l r, A t l r → A' t l r) : wp A p Q C s := by
  induction p generalizing s with
  | ret a => exact h
  | tau f n ih => exact ih s h
  | call l f n ih =>
    exact ⟨fun hd ↦ h.1 (hA s l _ hd), fun ho ↦ ih s none (h.2.1 (hA s l _ ho)),
      fun e he ↦ ih s (some e) (h.2.2 e (hA s l _ he))⟩

/-- Two facts about one run hold together. -/
theorem wp_and {p : Proc σ ℓ ε α} {Q' : α → σ → Prop} {C' : σ → Prop}
    (h : wp A p Q C s) (h' : wp A p Q' C' s) :
    wp A p (fun a t ↦ Q a t ∧ Q' a t) (fun t ↦ C t ∧ C' t) s := by
  induction p generalizing s with
  | ret a => exact ⟨h, h'⟩
  | tau f n ih => exact ih s h h'
  | call l f n ih =>
    exact ⟨fun hd ↦ ⟨h.1 hd, h'.1 hd⟩, fun ho ↦ ih s none (h.2.1 ho) (h'.2.1 ho),
      fun e he ↦ ih s (some e) (h.2.2 e he) (h'.2.2 e he)⟩

/-- The run without incident obeys a policy that lets every call through. -/
theorem obeys_nil (p : Proc σ ℓ ε α) (hA : ∀ t l, A t l .ok) (s : σ) : p.Obeys A s [] := by
  induction p generalizing s with
  | ret a => exact trivial
  | tau f n ih => exact ih s (f s)
  | call l f n ih => exact ⟨hA s l, ih s none (f s none)⟩

/-- Where nothing is answered, nothing fails. -/
theorem obeys_calm (p : Proc σ ℓ ε α) (s : σ) : p.Obeys Calm s [] := by
  apply obeys_nil
  exact fun _ _ ↦ rfl

/-- A policy that allows everything is obeyed. -/
theorem obeys_of_forall (hA : ∀ t l r, A t l r) (p : Proc σ ℓ ε α) (s : σ) (rs : List (Reply ε)) :
    p.Obeys A s rs := by
  induction p generalizing s rs with
  | ret a => exact trivial
  | tau f n ih => exact ih s (f s) rs
  | call l f n ih =>
    match rs with
    | [] => exact ⟨hA s l _, ih s none _ []⟩
    | .ok :: rs => exact ⟨hA s l _, ih s none _ rs⟩
    | .fail e :: rs => exact ⟨hA s l _, ih s (some e) _ rs⟩
    | .die :: rs => exact hA s l _

/-- A precondition speaks about every run whose environment obeys the policy. -/
theorem run_of_wp {p : Proc σ ℓ ε α} (h : wp A p Q C s) {rs : List (Reply ε)}
    (hrs : p.Obeys A s rs) :
    (∃ a t rs', p.run s rs = .done a t rs' ∧ Q a t) ∨ ∃ t, p.run s rs = .dead t ∧ C t := by
  induction p generalizing s rs with
  | ret a => exact Or.inl ⟨a, s, rs, rfl, h⟩
  | tau f n ih => exact ih s h hrs
  | call l f n ih =>
    match rs, hrs with
    | [], hrs => exact ih s none (h.2.1 hrs.1) hrs.2
    | .ok :: rs, hrs => exact ih s none (h.2.1 hrs.1) hrs.2
    | .fail e :: rs, hrs => exact ih s (some e) (h.2.2 e hrs.1) hrs.2
    | .die :: rs, hrs => exact Or.inr ⟨s, rfl, h.1 hrs⟩

/-- A precondition under a policy that lets every call through speaks about the run without
incident. -/
theorem eval_of_wp {p : Proc σ ℓ ε α} (h : wp A p Q C s) (hA : ∀ t l, A t l .ok) :
    Q (p.eval s).1 (p.eval s).2 := by
  induction p generalizing s with
  | ret a => exact h
  | tau f n ih => exact ih s h
  | call l f n ih => exact ih s none (h.2.1 (hA s l))

/-- Where every call goes through, what holds at the end is what the evaluation gives. -/
theorem wp_calm {p : Proc σ ℓ ε α} : wp Calm p Q C s ↔ Q (p.eval s).1 (p.eval s).2 := by
  constructor
  · exact fun h ↦ eval_of_wp h fun _ _ ↦ rfl
  · intro h
    induction p generalizing s with
    | ret a => exact h
    | tau f n ih => exact ih s h
    | call l f n ih =>
      exact ⟨fun hd ↦ (by cases hd), fun _ ↦ ih s none h, fun e he ↦ (by cases he)⟩

/-- The loop rule: the body keeps an invariant that covers its deaths too. -/
theorem wp_each {body : β → Proc σ ℓ ε Unit} {I : σ → Prop} {xs : List β}
    (h : ∀ x ∈ xs, ∀ s, I s → wp A (body x) (fun _ ↦ I) C s) (hs : I s) :
    wp A (each body xs) (fun _ ↦ I) C s := by
  induction xs generalizing s with
  | nil => exact hs
  | cons x xs ih =>
    rw [each, wp_bind]
    refine wp_mono (h x (List.mem_cons_self ..) s hs) (fun _ t ht ↦ ?_) fun _ hc ↦ hc
    exact ih (fun y hy ↦ h y (List.mem_cons_of_mem _ hy)) ht

/-- The loop rule with an invariant that knows what is left to do. -/
theorem wp_each_rest {body : β → Proc σ ℓ ε Unit} {I : List β → σ → Prop} {xs : List β}
    (h : ∀ x xs s, I (x :: xs) s → wp A (body x) (fun _ ↦ I xs) C s) (hs : I xs s) :
    wp A (each body xs) (fun _ ↦ I []) C s := by
  induction xs generalizing s with
  | nil => exact hs
  | cons x xs ih =>
    rw [each, wp_bind]
    apply wp_mono (h x xs s hs) _ fun _ hc ↦ hc
    intro _ t ht
    exact ih ht

end Rules

end Proc

end Lib
