import Mathlib.Algebra.Ring.Periodic
import Mathlib.Data.Int.ModEq

/-!
# Linear probing

A ring of slots is a function on the integers that repeats after `cap` places, so that a probe that
goes round the ring goes up. A key is found from its home if no slot is free between the two.
`chained_put` proves that an insertion keeps this, and `Mending` is what holds while the entries
behind a slot that was freed are inserted again, one after the other, up to the next free slot.
-/

namespace Lib.Probing

variable {K V : Type}

/-- Places within less than a round of each other are equal when they are the same slot. -/
theorem eq_of_modEq {cap x y : ℤ} (h : x ≡ y [ZMOD cap]) (hlow : x < y + cap)
    (hhigh : y < x + cap) : x = y := by
  have hdvd := Int.modEq_iff_dvd.mp h
  have habs : |y - x| < cap := abs_lt.mpr (by omega)
  have hzero := Int.eq_zero_of_abs_lt_dvd hdvd habs
  omega

/-- Write a slot. -/
def put (cap : ℤ) (F : ℤ → Option (K × V)) (x : ℤ) (o : Option (K × V)) (y : ℤ) : Option (K × V) :=
  if y ≡ x [ZMOD cap] then o else F y

/-- No slot is free from the home of a key up to a place. -/
def Reached (cap : ℤ) (home : K → ℤ) (F : ℤ → Option (K × V)) (k : K) (x : ℤ) : Prop :=
  ∃ h ≤ x, h ≡ home k [ZMOD cap] ∧ ∀ y, h ≤ y → y < x → F y ≠ none

/-- A ring in which every key is in one slot and is found from its home. -/
structure Chained (cap : ℤ) (home : K → ℤ) (F : ℤ → Option (K × V)) : Prop where
  periodic : Function.Periodic F cap
  reached : ∀ x k v, F x = some (k, v) → Reached cap home F k x
  once : ∀ x y k v w, F x = some (k, v) → F y = some (k, w) → x ≡ y [ZMOD cap]

/-- Where a probe for a key stops: at the first slot from its home that is free or has the key. -/
structure Stops (home : K → ℤ) (F : ℤ → Option (K × V)) (k : K) (x : ℤ) : Prop where
  home_le : home k ≤ x
  before : ∀ y, home k ≤ y → y < x → ∃ e, F y = some e ∧ e.1 ≠ k
  here : ∀ e, F x = some e → e.1 = k

/-- A key has a value. -/
def Maps (F : ℤ → Option (K × V)) (k : K) (v : V) : Prop := ∃ x, F x = some (k, v)

variable {cap : ℤ} {home : K → ℤ} {F : ℤ → Option (K × V)} {k : K} {v : V} {x : ℤ}

/-! ### Slots -/

theorem slot_eq (hper : Function.Periodic F cap) {x y : ℤ} (h : x ≡ y [ZMOD cap]) : F x = F y := by
  obtain ⟨t, rfl⟩ := Int.modEq_iff_add_fac.mp h
  rw [mul_comm]
  exact (hper.int_mul t x).symm

theorem put_of_modEq {o : Option (K × V)} {y : ℤ} (h : y ≡ x [ZMOD cap]) : put cap F x o y = o :=
  if_pos h

theorem put_of_not_modEq {o : Option (K × V)} {y : ℤ} (h : ¬ y ≡ x [ZMOD cap]) :
    put cap F x o y = F y :=
  if_neg h

/-- What a ring has after a slot is freed, it had in another slot. -/
theorem of_put_none {y : ℤ} {e : K × V} (h : put cap F x none y = some e) :
    ¬ y ≡ x [ZMOD cap] ∧ F y = some e := by
  unfold put at h
  split at h
  · cases h
  · next hyx => exact ⟨hyx, h⟩

theorem periodic_put (hper : Function.Periodic F cap) (x : ℤ) (o : Option (K × V)) :
    Function.Periodic (put cap F x o) cap := by
  intro y
  have hy : y + cap ≡ x [ZMOD cap] ↔ y ≡ x [ZMOD cap] := by
    rw [Int.ModEq, Int.add_emod_right, Int.ModEq]
  unfold put
  rw [hper y]
  exact if_congr hy rfl rfl

theorem put_congr {y : ℤ} (o : Option (K × V)) (h : x ≡ y [ZMOD cap]) :
    put cap F x o = put cap F y o := by
  funext z
  exact if_congr ⟨fun hz ↦ hz.trans h, fun hz ↦ hz.trans h.symm⟩ rfl rfl

/-- Every place has its slot in any round. -/
theorem exists_in_round (hcap : 0 < cap) (a y : ℤ) :
    ∃ z, z ≡ y [ZMOD cap] ∧ a ≤ z ∧ z < a + cap := by
  refine ⟨a + (y - a) % cap, ?_, ?_, ?_⟩
  · have hmod := (Int.mod_modEq (y - a) cap).add_left a
    rwa [add_sub_cancel] at hmod
  · have hnonneg := Int.emod_nonneg (y - a) hcap.ne'
    omega
  · have hlt := Int.emod_lt_of_pos (y - a) hcap
    omega

/-- Going whole rounds up leads to the same slot. -/
theorem add_sub_modEq {y : ℤ} (h : x ≡ y [ZMOD cap]) (z : ℤ) : z + (x - y) ≡ z [ZMOD cap] := by
  have hsub := (h.sub_right y).add_left z
  rwa [sub_self, add_zero] at hsub

/-- Going whole rounds down leads to the same slot. -/
theorem modEq_sub_sub {y : ℤ} (h : x ≡ y [ZMOD cap]) (z : ℤ) : z ≡ z - (x - y) [ZMOD cap] := by
  have hback := add_sub_modEq h (z - (x - y))
  rwa [sub_add_cancel] at hback

/-- What is reached is reached in every round. -/
theorem Reached.congr (hper : Function.Periodic F cap) {y : ℤ} (h : Reached cap home F k x)
    (hxy : x ≡ y [ZMOD cap]) : Reached cap home F k y := by
  obtain ⟨h, hle, hhome, hfull⟩ := h
  refine ⟨h - (x - y), by omega, ?_, fun z hlow hhigh ↦ ?_⟩
  · exact (modEq_sub_sub hxy h).symm.trans hhome
  · rw [← slot_eq hper (add_sub_modEq hxy z)]
    exact hfull _ (by omega) (by omega)

/-- What is reached stays reached where no slot on the way is freed. -/
theorem Reached.mono {G : ℤ → Option (K × V)} (h : Reached cap home F k x)
    (hG : ∀ y < x, (∀ z, y ≤ z → z < x → F z ≠ none) → G y ≠ none) : Reached cap home G k x := by
  obtain ⟨h, hle, hhome, hfull⟩ := h
  exact ⟨h, hle, hhome, fun y hlow hhigh ↦ hG y hhigh fun z hz ↦ hfull z (by omega)⟩

/-! ### Probing -/

/-- A probe comes by its key. -/
theorem Stops.finds (hs : Stops home F k x) (hc : Chained cap home F) {y : ℤ}
    (hy : F y = some (k, v)) : y ≡ x [ZMOD cap] := by
  obtain ⟨h, hle, hhome, hfull⟩ := hc.reached y k v hy
  -- the place of the key in the round of the probe
  have hback := modEq_sub_sub hhome y
  rcases lt_trichotomy x (y - (h - home k)) with hlt | heq | hgt
  · have hx : F x ≠ none := by
      rw [← slot_eq hc.periodic (add_sub_modEq hhome x)]
      have hlow := hs.home_le
      exact hfull _ (by omega) (by omega)
    obtain ⟨e, he⟩ := Option.ne_none_iff_exists'.mp hx
    have hkey := hs.here e he
    exact hc.once y x k v e.2 hy (by rw [he, ← hkey])
  · rw [heq]
    exact hback
  · obtain ⟨e, he, hne⟩ := hs.before (y - (h - home k)) (by omega) hgt
    rw [← slot_eq hc.periodic hback, hy] at he
    cases he
    exact absurd rfl hne

/-- The slot where a probe stops says what the key has. -/
theorem Stops.slot_eq_some (hs : Stops home F k x) (hc : Chained cap home F) :
    F x = some (k, v) ↔ Maps F k v := by
  constructor
  · exact fun hx ↦ ⟨x, hx⟩
  · rintro ⟨y, hy⟩
    rw [← slot_eq hc.periodic (hs.finds hc hy), hy]

/-- A ring without entries. -/
theorem chained_none : Chained (V := V) cap home fun _ ↦ none where
  periodic _ := rfl
  reached _ _ _ h := nomatch h
  once _ _ _ _ _ h := nomatch h

theorem put_some_ne_none (e : K × V) {y : ℤ} (h : F y ≠ none) :
    put cap F x (some e) y ≠ none := by
  unfold put
  split
  · exact Option.some_ne_none e
  · exact h

/-- A key is in one slot, where it is written over itself or was in none. -/
theorem once_put (honce : ∀ y z k v w, F y = some (k, v) → F z = some (k, w) → y ≡ z [ZMOD cap])
    (hkey : ∀ y w, F y = some (k, w) → y ≡ x [ZMOD cap]) (y z : ℤ) (k' : K) (v' w' : V)
    (hy : put cap F x (some (k, v)) y = some (k', v'))
    (hz : put cap F x (some (k, v)) z = some (k', w')) : y ≡ z [ZMOD cap] := by
  by_cases hyx : y ≡ x [ZMOD cap]
  · by_cases hzx : z ≡ x [ZMOD cap]
    · exact hyx.trans hzx.symm
    · rw [put_of_modEq hyx] at hy
      rw [put_of_not_modEq hzx] at hz
      cases hy
      exact absurd (hkey z w' hz) hzx
  · rw [put_of_not_modEq hyx] at hy
    by_cases hzx : z ≡ x [ZMOD cap]
    · rw [put_of_modEq hzx] at hz
      cases hz
      exact absurd (hkey y v' hy) hyx
    · rw [put_of_not_modEq hzx] at hz
      exact honce y z k' v' w' hy hz

/-- An insertion where the probe stops. -/
theorem chained_put (hc : Chained cap home F) (hs : Stops home F k x) :
    Chained cap home (put cap F x (some (k, v))) where
  periodic := periodic_put hc.periodic x _
  reached := by
    intro y k' v' hy
    by_cases hyx : y ≡ x [ZMOD cap]
    · rw [put_of_modEq hyx] at hy
      cases hy
      have hreached : Reached cap home (put cap F x (some (k, v))) k x := by
        refine ⟨home k, hs.home_le, Int.ModEq.rfl, fun z hlow hhigh ↦ put_some_ne_none _ ?_⟩
        obtain ⟨e, he, -⟩ := hs.before z hlow hhigh
        rw [he]
        exact Option.some_ne_none e
      exact hreached.congr (periodic_put hc.periodic x _) hyx.symm
    · rw [put_of_not_modEq hyx] at hy
      exact (hc.reached y k' v' hy).mono fun z hz hfull ↦
        put_some_ne_none _ (hfull z le_rfl hz)
  once := once_put hc.once fun _ _ hy ↦ hs.finds hc hy

/-- What the keys have after an insertion. -/
theorem maps_put (hc : Chained cap home F) (hs : Stops home F k x) (k' : K) (v' : V) :
    Maps (put cap F x (some (k, v))) k' v' ↔ k' = k ∧ v' = v ∨ k' ≠ k ∧ Maps F k' v' := by
  constructor
  · rintro ⟨y, hy⟩
    by_cases hyx : y ≡ x [ZMOD cap]
    · rw [put_of_modEq hyx] at hy
      cases hy
      exact .inl ⟨rfl, rfl⟩
    · rw [put_of_not_modEq hyx] at hy
      right
      refine ⟨fun hk ↦ ?_, y, hy⟩
      subst hk
      exact hyx (hs.finds hc hy)
  · rintro (⟨rfl, rfl⟩ | ⟨hk, y, hy⟩)
    · exact ⟨x, put_of_modEq Int.ModEq.rfl⟩
    · have hyx : ¬ y ≡ x [ZMOD cap] := by
        intro hyx
        exact hk (hs.here (k', v') (by rw [← slot_eq hc.periodic hyx, hy]))
      exact ⟨y, by rw [put_of_not_modEq hyx, hy]⟩

/-! ### The loop of a probe -/

/-- The slot of a place in a ring of `cap` slots. -/
def slotOf (cap : ℕ) (x : ℤ) : ℕ := (x % cap).toNat

/-- Go from slot to slot up to one where the probe stops; `none` where the whole ring was seen, and
a loop would go on for ever. -/
def probe (cap : ℕ) (stop : ℕ → Bool) : ℕ → ℕ → Option ℕ
  | 0, _ => none
  | fuel + 1, idx => if stop idx then some idx else probe cap stop fuel ((idx + 1) % cap)

section Loop

variable {n : ℕ} {stop : ℕ → Bool}

theorem slotOf_lt (hn : 0 < n) (x : ℤ) : slotOf n x < n := by
  have hlt := Int.emod_lt_of_pos x (by omega : (0 : ℤ) < n)
  unfold slotOf
  omega

theorem slotOf_of_lt {i : ℕ} (hi : i < n) : slotOf n i = i := by
  unfold slotOf
  rw [Int.emod_eq_of_lt (by omega) (by omega), Int.toNat_natCast]

theorem slotOf_eq_iff (hn : 0 < n) (x y : ℤ) : slotOf n x = slotOf n y ↔ x ≡ y [ZMOD n] := by
  have hx := Int.emod_nonneg x (by omega : (n : ℤ) ≠ 0)
  have hy := Int.emod_nonneg y (by omega : (n : ℤ) ≠ 0)
  unfold slotOf Int.ModEq
  omega

/-- The slot after that of a place. -/
theorem slotOf_succ (hn : 0 < n) (x : ℤ) : (slotOf n x + 1) % n = slotOf n (x + 1) := by
  have hx := Int.emod_nonneg x (by omega : (n : ℤ) ≠ 0)
  unfold slotOf
  rw [← Int.emod_add_emod x n 1]
  apply Int.ofNat_inj.mp
  rw [Int.natCast_mod, Int.natCast_add, Int.toNat_of_nonneg hx, Int.toNat_of_nonneg]
  · rfl
  · exact Int.emod_nonneg _ (by omega)

/-- The first place from `a` on with a property. -/
theorem exists_first {P : ℤ → Prop} {a z : ℤ} (haz : a ≤ z) (hz : P z) :
    ∃ e, a ≤ e ∧ e ≤ z ∧ P e ∧ ∀ y, a ≤ y → y < e → ¬ P y := by
  classical
  have hex : ∃ m : ℕ, P (a + m) := ⟨(z - a).toNat, by rwa [Int.toNat_of_nonneg (by omega),
    add_sub_cancel]⟩
  refine ⟨a + Nat.find hex, by omega, ?_, Nat.find_spec hex, fun y hlow hhigh hy ↦ ?_⟩
  · have hmin := Nat.find_min' hex (m := (z - a).toNat) (by rwa [Int.toNat_of_nonneg (by omega),
      add_sub_cancel])
    omega
  · refine Nat.find_min hex (m := (y - a).toNat) (by omega) ?_
    rwa [Int.toNat_of_nonneg (by omega), add_sub_cancel]

/-- A probe ends where it stops. -/
theorem stop_of_probe {fuel idx i : ℕ} (h : probe n stop fuel idx = some i) : stop i = true := by
  induction fuel generalizing idx with
  | zero => cases h
  | succ fuel ih =>
    rw [probe] at h
    split at h
    · next hstop =>
      cases h
      exact hstop
    · exact ih h

theorem probe_eq (hn : 0 < n) {e : ℤ} (he : stop (slotOf n e) = true) (fuel : ℕ) (s : ℤ)
    (hse : s ≤ e) (hfuel : e < s + fuel)
    (hbefore : ∀ y, s ≤ y → y < e → stop (slotOf n y) = false) :
    probe n stop fuel (slotOf n s) = some (slotOf n e) := by
  induction fuel generalizing s with
  | zero => omega
  | succ fuel ih =>
    rw [probe]
    by_cases heq : s = e
    · rw [heq, if_pos he]
    · rw [hbefore s le_rfl (by omega), if_neg Bool.false_ne_true, slotOf_succ hn]
      exact ih (s + 1) (by omega) (by omega) fun y hlow hhigh ↦ hbefore y (by omega) hhigh

/-- A probe of a ring in which some slot stops it stops at the first one. -/
theorem exists_probe {i idx : ℕ} (hi : i < n) (hstop : stop i = true) (hidx : idx < n) :
    ∃ e : ℤ, idx ≤ e ∧ probe n stop n idx = some (slotOf n e) ∧ stop (slotOf n e) = true ∧
      ∀ y : ℤ, idx ≤ y → y < e → stop (slotOf n y) = false := by
  have hn : 0 < n := by omega
  obtain ⟨z, hzi, hlow, hhigh⟩ := exists_in_round (by omega : (0 : ℤ) < n) idx i
  have hz : stop (slotOf n z) = true := by
    rwa [(slotOf_eq_iff hn z i).mpr hzi, slotOf_of_lt hi]
  obtain ⟨e, hle, hez, he, hbefore⟩ :=
    @exists_first (fun y ↦ stop (slotOf n y) = true) idx z hlow hz
  have hbefore : ∀ y : ℤ, idx ≤ y → y < e → stop (slotOf n y) = false := by
    intro y hlow hhigh
    simpa using hbefore y hlow hhigh
  refine ⟨e, hle, ?_, he, hbefore⟩
  have hprobe := probe_eq hn he n idx hle (by omega) hbefore
  rwa [slotOf_of_lt hidx] at hprobe

end Loop

/-! ### Freeing a slot -/

/-- The ring `F` after the slot at `a` of a chained ring `F₀` was freed and the entries from there
up to `s` were inserted again; `e` is the next slot that was free. -/
structure Mending (cap : ℤ) (home : K → ℤ) (F₀ F : ℤ → Option (K × V)) (a s e : ℤ) : Prop where
  lt : a < s
  le : s ≤ e
  round : e < a + cap
  full : ∀ y, a ≤ y → y < e → F₀ y ≠ none
  free : F₀ e = none
  periodic : Function.Periodic F cap
  rest : ∀ y, s ≤ y → y < a + cap → F y = F₀ y
  reached : ∀ y k v, a ≤ y → y < s → F y = some (k, v) → Reached cap home F k y
  once : ∀ x y k v w, F x = some (k, v) → F y = some (k, w) → x ≡ y [ZMOD cap]

section Mending

variable {F₀ : ℤ → Option (K × V)} {a s e : ℤ}

/-- What the keys have after a slot is freed. -/
theorem maps_free (hper : Function.Periodic F cap)
    (honce : ∀ x y k v w, F x = some (k, v) → F y = some (k, w) → x ≡ y [ZMOD cap])
    (hx : F x = some (k, v)) (k' : K) (v' : V) :
    Maps (put cap F x none) k' v' ↔ k' ≠ k ∧ Maps F k' v' := by
  constructor
  · rintro ⟨y, hy⟩
    obtain ⟨hyx, hy⟩ := of_put_none hy
    refine ⟨fun hk ↦ ?_, y, hy⟩
    subst hk
    exact hyx (honce y x k' v' v hy hx)
  · rintro ⟨hk, y, hy⟩
    refine ⟨y, ?_⟩
    rw [put_of_not_modEq, hy]
    intro hyx
    rw [slot_eq hper hyx, hx] at hy
    cases hy
    exact hk rfl

theorem once_free (hc : ∀ x y k v w, F x = some (k, v) → F y = some (k, w) → x ≡ y [ZMOD cap])
    (s : ℤ) (x y : ℤ) (k : K) (v w : V) (hx : put cap F s none x = some (k, v))
    (hy : put cap F s none y = some (k, w)) : x ≡ y [ZMOD cap] :=
  hc x y k v w (of_put_none hx).2 (of_put_none hy).2

/-- The slot is freed. -/
theorem Chained.mending (hc : Chained cap home F₀) (hae : a < e) (hround : e < a + cap)
    (hfull : ∀ y, a ≤ y → y < e → F₀ y ≠ none) (hfree : F₀ e = none) :
    Mending cap home F₀ (put cap F₀ a none) a (a + 1) e where
  lt := by omega
  le := hae
  round := hround
  full := hfull
  free := hfree
  periodic := periodic_put hc.periodic a none
  rest := by
    intro y hlow hhigh
    apply put_of_not_modEq
    intro hya
    have heq := eq_of_modEq hya hhigh (by omega)
    omega
  reached := by
    intro y k v hlow hhigh hy
    have hya : y = a := by omega
    rw [hya, put_of_modEq Int.ModEq.rfl] at hy
    cases hy
  once := once_free hc.once a

/-- The slot before the freed ones that no probe passes. -/
theorem Mending.free_before (h : Mending cap home F₀ F a s e) : F (e - cap) = none := by
  rw [h.periodic.sub_eq, h.rest e h.le h.round, h.free]

/-- The entry at `s` lands at `s` or at a slot before it that was freed. -/
theorem Mending.lands (h : Mending cap home F₀ F a s e) (hc : Chained cap home F₀) (hse : s < e)
    (hs : F s = some (k, v)) (hx : Stops home (put cap F s none) k x) :
    ∃ y, x ≡ y [ZMOD cap] ∧ a ≤ y ∧ y ≤ s ∧ put cap F s none y = none ∧
      Reached cap home (put cap F s none) k y := by
  have hlt := h.lt
  have hround := h.round
  have hper := periodic_put h.periodic s none
  have hs₀ : F₀ s = some (k, v) := by rw [← h.rest s le_rfl (by omega), hs]
  obtain ⟨b, hbs, hhome, hfull⟩ := hc.reached s k v hs₀
  -- No probe passes the free slot, so the home is behind it.
  have hbe : e - cap < b := by
    by_contra hle
    apply hfull (e - cap) (by omega) (by omega)
    rw [hc.periodic.sub_eq, h.free]
  have hhome_le := hx.home_le
  have hmod := add_sub_modEq hhome x
  have htaken : ∀ z, b ≤ z → z < x + (b - home k) → put cap F s none z ≠ none := by
    intro z hlow hhigh
    obtain ⟨entry, he, -⟩ := hx.before (z - (b - home k)) (by omega) (by omega)
    rw [slot_eq hper (modEq_sub_sub hhome z), he]
    exact Option.some_ne_none entry
  have hle : x + (b - home k) ≤ s := by
    by_contra hgt
    exact htaken s hbs (by omega) (put_of_modEq Int.ModEq.rfl)
  have hnone : put cap F s none (x + (b - home k)) = none := by
    rw [slot_eq hper hmod, Option.eq_none_iff_forall_ne_some]
    rintro ⟨k', w⟩ hw
    have hkey : k' = k := hx.here _ hw
    subst hkey
    have hxs : x ≡ s [ZMOD cap] := by
      by_contra hxs
      rw [put_of_not_modEq hxs] at hw
      exact hxs (h.once x s k' w v hw hs)
    rw [put_of_modEq hxs] at hw
    cases hw
  refine ⟨x + (b - home k), hmod.symm, ?_, hle, hnone, b, by omega, hhome, htaken⟩
  -- Before `a` nothing was freed.
  by_contra hlow
  apply hfull (x + (b - home k)) (by omega) (by omega)
  rw [put_of_not_modEq, ← h.periodic, h.rest _ (by omega) (by omega), hc.periodic] at hnone
  · exact hnone
  · intro hxs
    have heq := eq_of_modEq hxs (by omega) (by omega)
    omega

/-- The next entry is taken out and inserted again where its probe stops. -/
theorem Mending.step (h : Mending cap home F₀ F a s e) (hc : Chained cap home F₀) (hse : s < e)
    (hs : F s = some (k, v)) (hx : Stops home (put cap F s none) k x) :
    Mending cap home F₀ (put cap (put cap F s none) x (some (k, v))) a (s + 1) e := by
  obtain ⟨x', hmod, hax, hxs, hnone, hreached⟩ := h.lands hc hse hs hx
  have hlt := h.lt
  have hround := h.round
  rw [put_congr _ hmod]
  constructor
  · omega
  · omega
  · exact hround
  · exact h.full
  · exact h.free
  · exact periodic_put (periodic_put h.periodic s none) x' _
  · intro y hlow hhigh
    rw [put_of_not_modEq, put_of_not_modEq, h.rest y (by omega) hhigh]
    · intro hys
      have heq := eq_of_modEq hys (by omega) (by omega)
      omega
    · intro hyx
      have heq := eq_of_modEq hyx (by omega) (by omega)
      omega
  · intro y k' v' hlow hhigh hy
    by_cases hyx : y ≡ x' [ZMOD cap]
    · have heq := eq_of_modEq hyx (by omega) (by omega)
      rw [put_of_modEq hyx] at hy
      cases hy
      rw [heq]
      exact hreached.mono fun z hz hfull ↦ put_some_ne_none _ (hfull z le_rfl hz)
    · rw [put_of_not_modEq hyx] at hy
      obtain ⟨hys, hy⟩ := of_put_none hy
      have hne : y ≠ s := fun heq ↦ hys (heq ▸ Int.ModEq.rfl)
      refine (h.reached y k' v' hlow (by omega) hy).mono fun z hz hfull ↦
        put_some_ne_none _ ?_
      rw [put_of_not_modEq]
      · exact hfull z le_rfl hz
      · -- The entry at `s` is on no way from a home to a slot before it.
        intro hzs
        have hzle : z + cap ≤ s := by
          by_contra hgt
          have heq := eq_of_modEq hzs (by omega) (by omega)
          omega
        exact hfull (e - cap) (by omega) (by omega) h.free_before
  · apply once_put (once_free h.once s)
    intro y w hy
    obtain ⟨hys, hy⟩ := of_put_none hy
    exact absurd (h.once y s k w v hy hs) hys

/-- Taking an entry out and inserting it again changes no key. -/
theorem Mending.maps_step (h : Mending cap home F₀ F a s e) (hc : Chained cap home F₀)
    (hse : s < e) (hs : F s = some (k, v)) (hx : Stops home (put cap F s none) k x) (k' : K)
    (v' : V) : Maps (put cap (put cap F s none) x (some (k, v))) k' v' ↔ Maps F k' v' := by
  obtain ⟨x', hmod, -, -, hnone, -⟩ := h.lands hc hse hs hx
  rw [put_congr _ hmod]
  constructor
  · rintro ⟨y, hy⟩
    by_cases hyx : y ≡ x' [ZMOD cap]
    · rw [put_of_modEq hyx] at hy
      cases hy
      exact ⟨s, hs⟩
    · rw [put_of_not_modEq hyx] at hy
      exact ((maps_free h.periodic h.once hs k' v').mp ⟨y, hy⟩).2
  · intro hk
    by_cases hkey : k' = k
    · subst hkey
      obtain ⟨y, hy⟩ := hk
      have hys := h.once y s k' v' v hy hs
      rw [slot_eq h.periodic hys, hs] at hy
      cases hy
      exact ⟨x', put_of_modEq Int.ModEq.rfl⟩
    · obtain ⟨y, hy⟩ := (maps_free h.periodic h.once hs k' v').mpr ⟨hkey, hk⟩
      refine ⟨y, ?_⟩
      rw [put_of_not_modEq, hy]
      intro hyx
      rw [slot_eq (periodic_put h.periodic s none) hyx, hnone] at hy
      cases hy

/-- At the free slot the ring is mended. -/
theorem Mending.chained (h : Mending cap home F₀ F a e e) (hc : Chained cap home F₀) :
    Chained cap home F where
  periodic := h.periodic
  reached := by
    intro y k v hy
    have hlt := h.lt
    have hround := h.round
    obtain ⟨z, hzy, hlow, hhigh⟩ := exists_in_round (by omega : 0 < cap) a y
    rw [← slot_eq h.periodic hzy] at hy
    apply Reached.congr h.periodic _ hzy
    by_cases hze : z < e
    · exact h.reached z k v hlow hze hy
    · -- Behind the free slot nothing was freed.
      have hz₀ := h.rest z (by omega) hhigh
      refine (hc.reached z k v (by rw [← hz₀, hy])).mono fun w hw hfull ↦ ?_
      have hew : e < w := by
        by_contra hle
        have hez : e ≠ z := by
          rintro rfl
          rw [hz₀, h.free] at hy
          cases hy
        exact hfull e (by omega) (by omega) h.free
      rw [h.rest w (by omega) (by omega)]
      exact hfull w le_rfl hw
  once := h.once

end Mending

end Lib.Probing
