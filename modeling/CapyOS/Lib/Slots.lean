import CapyOS.Lib.Numerals

/-! Tables of a fixed number of slots, searched from the first slot on, and the
partial maps whose pairs they hold. -/

namespace CapyOS.Lib
open Function

variable {n : Nat} {E K V : Type}

/-- The first slot whose entry satisfies `p`. -/
def findSlot (t : Fin n → E) (p : E → Bool) : Option (Fin n) :=
  (List.finRange n).find? fun i => p (t i)

theorem findSlot_some {t : Fin n → E} {p : E → Bool} {i : Fin n} (h : findSlot t p = some i) : p (t i) = true :=
  List.find?_some (p := fun i => p (t i)) h

theorem findSlot_none {t : Fin n → E} {p : E → Bool} (h : findSlot t p = none) (i : Fin n) : p (t i) = false := by
  have hi := List.find?_eq_none.mp h i (List.mem_finRange i)
  simpa using hi

/-- How many entries satisfy `p`. -/
def slotCount (t : Fin n → E) (p : E → Bool) : Nat :=
  (Finset.univ.filter fun i => p (t i) = true).card

theorem slotCount_gain {t : Fin n → E} {p : E → Bool} {i : Fin n} {e : E} (hi : p (t i) = false) (he : p e = true) :
    slotCount (update t i e) p = slotCount t p + 1 := by
  have hset : (Finset.univ.filter fun j => p (update t i e j) = true) =
      insert i (Finset.univ.filter fun j => p (t j) = true) := by
    ext j
    by_cases hj : j = i
    · subst hj
      simp [he]
    · simp [hj]
  rw [slotCount, hset, Finset.card_insert_of_notMem (by simp [hi]), slotCount]

theorem slotCount_lose {t : Fin n → E} {p : E → Bool} {i : Fin n} {e : E} (hi : p (t i) = true) (he : p e = false) :
    slotCount (update t i e) p + 1 = slotCount t p := by
  have h := slotCount_gain (t := update t i e) (i := i) (by simp [he]) hi
  rwa [update_idem, update_eq_self, eq_comm] at h

theorem slotCount_keep {t : Fin n → E} {p : E → Bool} {i : Fin n} {e : E} (h : p e = p (t i)) :
    slotCount (update t i e) p = slotCount t p := by
  unfold slotCount
  congr 2
  funext j
  by_cases hj : j = i
  · subst hj
    simp [h]
  · simp [update_of_ne hj]

theorem slotCount_zero {t : Fin n → E} {p : E → Bool} (h : slotCount t p = 0) (i : Fin n) : p (t i) = false := by
  have hi : i ∉ Finset.univ.filter fun i => p (t i) = true := by
    rw [Finset.card_eq_zero.mp h]
    exact Finset.notMem_empty i
  simpa using hi

theorem slotCount_none {t : Fin n → E} {p : E → Bool} (h : ∀ i, p (t i) = false) : slotCount t p = 0 := by
  simp [slotCount, h]

variable [DecidableEq K]

/-- The used entries of the table are pairs of the map `m`, no two for one key. -/
structure PartOf (t : Fin n → E) (used : E → Bool) (key : E → K) (val : E → V)
    (m : K → Option V) : Prop where
  held : ∀ i, used (t i) = true → m (key (t i)) = some (val (t i))
  once : ∀ i j, used (t i) = true → used (t j) = true → key (t i) = key (t j) → i = j

variable {t : Fin n → E} {used : E → Bool} {key : E → K} {val : E → V} {m : K → Option V}

/-- An entry stored where no other slot has its key becomes the pair of its key. -/
theorem PartOf.put (h : PartOf t used key val m) (i : Fin n) (e : E)
    (hother : ∀ j, j ≠ i → used (t j) = true → key (t j) ≠ key e) :
    PartOf (update t i e) used key val (update m (key e) (some (val e))) := by
  refine ⟨fun j hj => ?_, fun j k hj hk hjk => ?_⟩
  · by_cases hji : j = i
    · subst hji
      simp
    · rw [update_of_ne hji] at hj ⊢
      rw [update_of_ne (hother j hji hj)]
      exact h.held j hj
  · by_cases hji : j = i <;> by_cases hki : k = i
    · rw [hji, hki]
    · subst hji
      rw [update_of_ne hki] at hk hjk
      rw [update_self] at hjk
      exact absurd hjk.symm (hother k hki hk)
    · subst hki
      rw [update_of_ne hji] at hj hjk
      rw [update_self] at hjk
      exact absurd hjk (hother j hji hj)
    · rw [update_of_ne hji] at hj hjk
      rw [update_of_ne hki] at hk hjk
      exact h.once j k hj hk hjk

omit [DecidableEq K] in
theorem PartOf.drop (h : PartOf t used key val m) (i : Fin n) {e : E} (he : used e = false) :
    PartOf (update t i e) used key val m := by
  have hne : ∀ j, used (update t i e j) = true → j ≠ i := by
    rintro j hj rfl
    rw [update_self, he] at hj
    cases hj
  refine ⟨fun j hj => ?_, fun j k hj hk hjk => ?_⟩
  · have hji := hne j hj
    rw [update_of_ne hji] at hj ⊢
    exact h.held j hj
  · have hji := hne j hj
    have hki := hne k hk
    rw [update_of_ne hji] at hj hjk
    rw [update_of_ne hki] at hk hjk
    exact h.once j k hj hk hjk

omit [DecidableEq K] in
/-- Only what is used, under which key and with which value matters. -/
theorem PartOf.congr (h : PartOf t used key val m) {t' : Fin n → E}
    (hsame : ∀ i, used (t' i) = used (t i) ∧ key (t' i) = key (t i) ∧ val (t' i) = val (t i)) : PartOf t' used key val m := by
  refine ⟨fun i hi => ?_, fun i j hi hj hij => ?_⟩
  · obtain ⟨hused, hkey, hval⟩ := hsame i
    rw [hkey, hval]
    exact h.held i (hused ▸ hi)
  · rw [(hsame i).2.1, (hsame j).2.1] at hij
    exact h.once i j ((hsame i).1 ▸ hi) ((hsame j).1 ▸ hj) hij

theorem PartOf.forget (h : PartOf t used key val m) {k : K} (hnone : ∀ i, used (t i) = true → key (t i) ≠ k) :
    PartOf t used key val (update m k none) :=
  ⟨fun i hi => by rw [update_of_ne (hnone i hi)]; exact h.held i hi, h.once⟩

end CapyOS.Lib
