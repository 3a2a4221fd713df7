import Nocturne.World

/-!
# Properties of the database that a command upholds

A property of databases holds of a connection when it holds of all the states that it knows:
the committed one, the working state of an open transaction and those of its savepoints. A
command upholds it when no statement breaks it, whatever its calls are answered and wherever it
dies.
-/

namespace Nocturne

open Lib Proc

/-- Every state of the database that the connection knows has the property. -/
structure Conn.Upholds (P : Db → Prop) (c : Conn) : Prop where
  committed : P c.committed
  work : ∀ t, c.txn = some t → P t.work
  saves : ∀ t, c.txn = some t → ∀ db ∈ t.saves, P db

namespace Conn.Upholds

variable {P : Db → Prop} {c c' : Conn} {db : Db}

/-- A connection without a transaction knows the committed state only. -/
theorem fresh (h : P db) : Conn.Upholds P ⟨db, none⟩ := by
  refine ⟨h, ?_, ?_⟩
  · intro t ht
    cases ht
  · intro t ht
    cases ht

/-- What the connection sees is one of the states that it knows. -/
theorem view (h : c.Upholds P) : P c.view := by
  unfold Conn.view
  split
  · next t ht => exact h.work t ht
  · exact h.committed

/-- A write of a good state. -/
theorem setView (h : c.Upholds P) (hdb : P db) : (c.setView db).Upholds P := by
  unfold Conn.setView
  split
  · next t ht =>
    refine ⟨h.committed, ?_, ?_⟩
    · intro t' ht'
      cases ht'
      exact hdb
    · intro t' ht'
      cases ht'
      exact h.saves t ht
  · exact ⟨hdb, h.work, h.saves⟩

/-- A failing statement only takes states away. -/
theorem failed (h : c.Upholds P) (f : Fault) : (c.failed f).Upholds P := by
  unfold Conn.failed
  split
  · exact fresh h.committed
  · exact h

/-- A transaction starts with what is committed. -/
theorem begin (h : c.Upholds P) (hc : c.begin = some c') : c'.Upholds P := by
  unfold Conn.begin at hc
  split at hc
  · cases hc
  · cases hc
    refine ⟨h.committed, ?_, ?_⟩
    · intro t ht
      cases ht
      exact h.committed
    · intro t ht
      cases ht
      intro db hdb
      cases hdb

/-- What is committed is the working state. -/
theorem commit (h : c.Upholds P) (hc : c.commit = some c') : c'.Upholds P := by
  unfold Conn.commit at hc
  obtain ⟨t, ht, rfl⟩ := Option.map_eq_some_iff.mp hc
  exact fresh (h.work t ht)

/-- A rollback goes back to what is committed. -/
theorem rollback (h : c.Upholds P) (hc : c.rollback = some c') : c'.Upholds P := by
  unfold Conn.rollback at hc
  obtain ⟨t, -, rfl⟩ := Option.map_eq_some_iff.mp hc
  exact fresh h.committed

end Conn.Upholds

/-- The process keeps a property of the databases under every environment that obeys the
policy, also where it dies. -/
def Upholds {ω α : Type} (A : World ω → Call → Reply Fault → Prop) (P : Db → Prop)
    (p : Sys ω α) : Prop :=
  ∀ w : World ω, w.conn.Upholds P →
    p.wp A (fun _ w' ↦ w'.conn.Upholds P) (fun w' ↦ w'.conn.Upholds P) w

section Rules

variable {ω α β : Type} {A : World ω → Call → Reply Fault → Prop} {P : Db → Prop}

theorem upholds_pure (a : α) : Upholds A P (pure a : Sys ω α) := fun _ h ↦ h

/-- Sequencing. -/
theorem upholds_bind {p : Sys ω α} {k : α → Sys ω β} (hp : Upholds A P p)
    (hk : ∀ a, Upholds A P (k a)) : Upholds A P (p >>= k) := by
  intro w h
  rw [wp_bind]
  exact wp_mono (hp w h) (fun a w' h' ↦ hk a w' h') fun _ h' ↦ h'

theorem upholds_ite {c : Prop} [Decidable c] {p q : Sys ω α} (hp : Upholds A P p)
    (hq : Upholds A P q) : Upholds A P (if c then p else q) := by
  split
  · exact hp
  · exact hq

theorem upholds_gets (f : World ω → α) : Upholds A P (Proc.gets f) := fun _ h ↦ h

theorem upholds_tally (f : ω → ω) : Upholds A P (tally f) := fun _ h ↦ h

/-- Reading breaks nothing, also where it fails. -/
theorem upholds_query (stmt : Stmt) (f : Db → α) : Upholds A P (query stmt f : Sys ω _) := by
  intro w h
  refine (wp_ask _ _).mpr ⟨fun _ ↦ h, fun _ ↦ h, ?_⟩
  exact fun e _ ↦ h.failed e

/-- What follows a `SELECT` knows what it gave, and why it failed. -/
theorem upholds_queryBind {stmt : Stmt} {f : Db → α} {k : Option α → Sys ω β}
    (hok : ∀ db, P db → Upholds A P (k (some (f db))))
    (hfail : ∀ w e, w.conn.Upholds P → A w (.sql stmt) (.fail e) → Upholds A P (k none)) :
    Upholds A P (query stmt f >>= k) := by
  intro w h
  rw [wp_bind]
  refine (wp_ask _ _).mpr ⟨fun _ ↦ h, fun _ ↦ hok _ h.view w h, ?_⟩
  exact fun e he ↦ hfail w e h he _ (h.failed e)

/-- A statement that writes, by what it does to the database. -/
theorem upholds_exec {stmt : Stmt} {f : Db → Option Db}
    (hf : ∀ db db', P db → f db = some db' → P db') : Upholds A P (exec stmt f : Sys ω _) := by
  intro w h
  refine (wp_ask _ _).mpr ⟨fun _ ↦ h, fun _ ↦ ?_, ?_⟩
  · dsimp only
    cases hdb : f w.conn.view with
    | none => exact h
    | some db => exact h.setView (hf _ db h.view hdb)
  · exact fun e _ ↦ h.failed e

/-- The same for a statement whose changes are counted. -/
theorem upholds_execChanges {stmt : Stmt} {f : Db → Db × Nat} (hf : ∀ db, P db → P (f db).1) :
    Upholds A P (execChanges stmt f : Sys ω _) := by
  intro w h
  refine (wp_ask _ _).mpr ⟨fun _ ↦ h, fun _ ↦ h.setView (hf _ h.view), ?_⟩
  exact fun e _ ↦ h.failed e

/-- A transaction statement, by what it does to the connection. -/
theorem upholds_execTxn {stmt : Stmt} {f : Conn → Option Conn}
    (hf : ∀ c c', c.Upholds P → f c = some c' → c'.Upholds P) :
    Upholds A P (execTxn stmt f : Sys ω _) := by
  intro w h
  refine (wp_ask _ _).mpr ⟨fun _ ↦ h, fun _ ↦ ?_, ?_⟩
  · dsimp only
    cases hc : f w.conn with
    | none => exact h
    | some c => exact hf _ c h hc
  · exact fun e _ ↦ h.failed e

theorem upholds_sysRead (call : Call) (f : Tree → Except Errno α) :
    Upholds A P (sysRead call f : Sys ω _) := by
  intro w h
  exact (wp_ask _ _).mpr ⟨fun _ ↦ h, fun _ ↦ h, fun _ _ ↦ h⟩

/-- A call on the tree leaves the database alone. -/
theorem upholds_sysCall (call : Call) (f : Tree → Except Errno Tree) :
    Upholds A P (sysCall call f : Sys ω _) := by
  intro w h
  refine (wp_ask _ _).mpr ⟨fun _ ↦ h, fun _ ↦ ?_, fun _ _ ↦ h⟩
  dsimp only
  split <;> exact h

/-- A loop, by its body. -/
theorem upholds_each {body : β → Sys ω Unit} {xs : List β}
    (hb : ∀ x ∈ xs, Upholds A P (body x)) : Upholds A P (Proc.each body xs) := by
  intro w h
  exact wp_each (fun x hx s hs ↦ hb x hx s hs) h

/-- What a run leaves behind has the property. -/
theorem Upholds.after {p : Sys ω α} (hp : Upholds A P p) {m : Machine} {out : ω}
    {answers : List (Reply Fault)} (hrs : p.Obeys A (m.start out) answers) (h : P m.db) :
    P (p.run (m.start out) answers).state.stop.db := by
  have hstart : (m.start out).conn.Upholds P := Conn.Upholds.fresh h
  rcases run_of_wp (hp _ hstart) hrs with ⟨a, t, rs, he, ht⟩ | ⟨t, he, ht⟩
  · rw [he]
    exact ht.committed
  · rw [he]
    exact ht.committed

end Rules

/-! ### Properties of the tree -/

/-- The process keeps a property of the tree under every environment that obeys the policy, also
where it dies. -/
def UpholdsTree {ω α : Type} (A : World ω → Call → Reply Fault → Prop) (T : Tree → Prop)
    (p : Sys ω α) : Prop :=
  ∀ w : World ω, T w.fs → p.wp A (fun _ w' ↦ T w'.fs) (fun w' ↦ T w'.fs) w

section TreeRules

variable {ω α β : Type} {A : World ω → Call → Reply Fault → Prop} {T : Tree → Prop}

theorem upholdsTree_pure (a : α) : UpholdsTree A T (pure a : Sys ω α) := fun _ h ↦ h

/-- Sequencing. -/
theorem upholdsTree_bind {p : Sys ω α} {k : α → Sys ω β} (hp : UpholdsTree A T p)
    (hk : ∀ a, UpholdsTree A T (k a)) : UpholdsTree A T (p >>= k) := by
  intro w h
  rw [wp_bind]
  exact wp_mono (hp w h) (fun a w' h' ↦ hk a w' h') fun _ h' ↦ h'

theorem upholdsTree_gets (f : World ω → α) : UpholdsTree A T (Proc.gets f) := fun _ h ↦ h

theorem upholdsTree_tally (f : ω → ω) : UpholdsTree A T (tally f) := fun _ h ↦ h

/-- A `SELECT` leaves the tree alone. -/
theorem upholdsTree_query (stmt : Stmt) (f : Db → α) :
    UpholdsTree A T (query stmt f : Sys ω _) := by
  intro w h
  exact (wp_ask _ _).mpr ⟨fun _ ↦ h, fun _ ↦ h, fun _ _ ↦ h⟩

/-- A statement leaves the tree alone. -/
theorem upholdsTree_exec (stmt : Stmt) (f : Db → Option Db) :
    UpholdsTree A T (exec stmt f : Sys ω _) := by
  intro w h
  refine (wp_ask _ _).mpr ⟨fun _ ↦ h, fun _ ↦ ?_, fun _ _ ↦ h⟩
  dsimp only
  split <;> exact h

theorem upholdsTree_sysRead (call : Call) (f : Tree → Except Errno α) :
    UpholdsTree A T (sysRead call f : Sys ω _) := by
  intro w h
  exact (wp_ask _ _).mpr ⟨fun _ ↦ h, fun _ ↦ h, fun _ _ ↦ h⟩

/-- The tree that a run leaves behind has the property. -/
theorem UpholdsTree.after {p : Sys ω α} (hp : UpholdsTree A T p) {m : Machine} {out : ω}
    {answers : List (Reply Fault)} (hrs : p.Obeys A (m.start out) answers) (h : T m.fs) :
    T (p.run (m.start out) answers).state.stop.fs := by
  rcases run_of_wp (hp (m.start out) h) hrs with ⟨a, t, rs, he, ht⟩ | ⟨t, he, ht⟩
  · rw [he]
    exact ht
  · rw [he]
    exact ht

end TreeRules

end Nocturne
