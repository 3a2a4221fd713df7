import Nocturne.Lib.Fs

/-!
# Changes of a file tree within bounds

What a piece of code leaves alone: the entries that it may change are given by their path and by
what stands there before, and it writes into no file that existed. Changes within the same bounds
compose.
-/

namespace Lib.Fs

variable {ν κ : Type} [DecidableEq ν]

/-- Only entries that `E` allows change, and the files that exist keep their contents. -/
structure Within (E : List ν → Option (Node ν) → Prop) (fs fs' : Fs ν κ) : Prop where
  node : ∀ p, ¬ E p (fs.node? p) → fs'.node? p = fs.node? p
  data : ∀ i, i < fs.next → fs'.data i = fs.data i
  next : fs.next ≤ fs'.next
  device : fs'.device = fs.device

variable {E E' : List ν → Option (Node ν) → Prop} {fs fs' fs'' : Fs ν κ} {p q : List ν} {d : κ}
  {n : Node ν} {i : Nat}

namespace Within

theorem refl (E : List ν → Option (Node ν) → Prop) (fs : Fs ν κ) : Within E fs fs :=
  ⟨fun _ _ ↦ rfl, fun _ _ ↦ rfl, Nat.le_refl _, rfl⟩

/-- An entry that the first change leaves alone looks to the second one as it did before. -/
theorem trans (h : Within E fs fs') (h' : Within E fs' fs'') : Within E fs fs'' where
  node p hp := by
    have hsame := h.node p hp
    rw [← hsame] at hp
    rw [h'.node p hp, hsame]
  data i hi := by rw [h'.data i (Nat.lt_of_lt_of_le hi h.next), h.data i hi]
  next := Nat.le_trans h.next h'.next
  device := h'.device.trans h.device

/-- Wider bounds allow more. -/
theorem mono (h : Within E fs fs') (hE : ∀ p n, E p n → E' p n) : Within E' fs fs' where
  node p hp := h.node p fun he ↦ hp (hE _ _ he)
  data := h.data
  next := h.next
  device := h.device

/-- A file outside the bounds stays what it is. -/
theorem file (h : Within E fs fs') (hp : fs.node? p = some (.file i))
    (hE : ¬ E p (some (.file i))) :
    fs'.node? p = some (.file i) ∧ fs'.data i = fs.data i := by
  constructor
  · rw [h.node p (by rw [hp]; exact hE), hp]
  · exact h.data i (fs.fresh hp)

/-- A file outside of the bounds keeps its contents. -/
theorem has (h : Within E fs fs') (hp : fs.Has p d) (hE : ∀ i, ¬ E p (some (.file i))) :
    fs'.Has p d := by
  obtain ⟨i, hi, hd⟩ := hp
  obtain ⟨hi', hd'⟩ := h.file hi (hE i)
  exact ⟨i, hi', hd'.trans hd⟩

/-! ### Single changes -/

/-- An entry is put. -/
theorem place (hE : E p (fs.node? p)) (hn : ∀ i, n = .file i → i < fs.next) :
    Within E fs (fs.place p n hn) where
  node q hq := by
    rw [node?_place, if_neg]
    intro he
    rw [he] at hq
    exact hq hE
  data _ _ := rfl
  next := Nat.le_refl _
  device := rfl

/-- An entry is removed. -/
theorem clear (hE : E p (fs.node? p)) : Within E fs (fs.clear p) where
  node q hq := by
    rw [node?_clear, if_neg]
    intro he
    rw [he] at hq
    exact hq hE
  data _ _ := rfl
  next := Nat.le_refl _
  device := rfl

/-- A new file is put. -/
theorem addFile (hE : E p (fs.node? p)) : Within E fs (fs.addFile p d) where
  node q hq := by
    rw [node?_addFile, if_neg]
    intro he
    rw [he] at hq
    exact hq hE
  data i hi := Function.update_of_ne (Nat.ne_of_lt hi) _ _
  next := Nat.le_succ _
  device := rfl

/-- A write into a file that is new. -/
theorem write (h : Within E fs fs') (hi : fs.next ≤ i) : Within E fs (fs'.write i d) where
  node := h.node
  data j hj := by
    rw [data_write, Function.update_of_ne]
    · exact h.data j hj
    · omega
  next := h.next
  device := h.device

/-! ### System calls -/

/-- `mkdir` that goes through puts an entry where none was. -/
theorem mkdir (h : fs.mkdir p = .ok fs') (hE : E p none) : Within E fs fs' := by
  unfold Fs.mkdir at h
  split at h
  · next hn =>
    cases h
    exact Within.place (by rw [hn]; exact hE) _
  · cases h

/-- `unlink` that goes through removes an entry that is no directory. -/
theorem unlink (h : fs.unlink p = .ok fs') (hE : ∀ n, n ≠ .dir → E p (some n)) :
    Within E fs fs' := by
  obtain ⟨hn, hfs⟩ := unlink_ok h
  obtain ⟨n, hn, hd⟩ := hn
  rw [hfs]
  exact Within.clear (by rw [hn]; exact hE n hd)

/-- `rmdir` that goes through removes a directory. -/
theorem rmdir (h : fs.rmdir p = .ok fs') (hE : E p (some .dir)) : Within E fs fs' := by
  unfold Fs.rmdir at h
  split at h
  · next hn =>
    split at h
    · cases h
      exact Within.clear (by rw [hn]; exact hE)
    · cases h
  · cases h
  · cases h

/-- `link` that goes through puts an entry where none was. -/
theorem link {old new : List ν} (h : fs.link old new = .ok fs') (hE : E new none) :
    Within E fs fs' := by
  unfold Fs.link at h
  split at h
  · cases h
  · split at h
    · cases h
    · next hnew =>
      split at h
      · cases h
      · split at h
        · cases h
        · cases h
          exact Within.place (by rw [not_not.mp hnew]; exact hE) _

/-- `O_EXCL` that goes through puts an entry where none was. -/
theorem createExcl (h : fs.createExcl p d = .ok fs') (hE : E p none) : Within E fs fs' := by
  obtain ⟨hn, rfl⟩ := createExcl_ok h
  exact Within.addFile (by rw [hn]; exact hE)

end Within

end Lib.Fs
