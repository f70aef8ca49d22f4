import CapyOS.Lib.Numerals

namespace CapyOS.Lib
open Function

variable {K : Type} {P : K → Nat} {A A' : Nat → Bool}

/-- References `P`, with 0 for none, into a set of taken things `A`: only taken
things are referred to, and none twice. -/
structure Owned (P : K → Nat) (A : Nat → Bool) : Prop where
  held : ∀ k, P k ≠ 0 → A (P k) = true
  once : ∀ k k', P k ≠ 0 → P k = P k' → k = k'

/-- Nothing is taken without being referred to. -/
def Covered (P : K → Nat) (A : Nat → Bool) : Prop := ∀ b, b ≠ 0 → A b = true → ∃ k, P k = b

theorem Owned.mono (h : Owned P A) (hA : ∀ k, P k ≠ 0 → A' (P k) = true) : Owned P A' :=
  ⟨hA, h.once⟩

/-- What is not taken is not referred to. -/
theorem Owned.fresh (h : Owned P A) {b : Nat} (hb : A b = false) (h0 : b ≠ 0) (k : K) : P k ≠ b := by
  rintro rfl
  rw [h.held k h0] at hb
  cases hb

/-- Fewer references into a set that still has them. -/
theorem Owned.restrict {Q : K → Nat} (h : Owned P A) (hQ : ∀ k, Q k ≠ 0 → Q k = P k)
    (hA : ∀ k, Q k ≠ 0 → A' (Q k) = true) : Owned Q A' := by
  refine ⟨hA, fun k k' h0 he => ?_⟩
  have hk := hQ k h0
  have hk' := hQ k' (by rw [← he]; exact h0)
  exact h.once k k' (by rw [← hk]; exact h0) (by rw [← hk, ← hk', he])

section
variable [DecidableEq K]

/-- A reference to something nothing referred to. -/
theorem Owned.assign (h : Owned P A) {k : K} {b : Nat} (hfree : ∀ k', P k' ≠ b)
    (hA : ∀ c, A c = true → A' c = true) (hb : A' b = true) : Owned (update P k b) A' := by
  refine ⟨fun k' h0 => ?_, fun k₁ k₂ h0 he => ?_⟩
  · by_cases hk : k' = k
    · subst hk
      rw [update_self]
      exact hb
    · rw [update_of_ne hk] at h0 ⊢
      exact hA _ (h.held k' h0)
  · by_cases h₁ : k₁ = k
    · by_cases h₂ : k₂ = k
      · rw [h₁, h₂]
      · rw [h₁, update_self, update_of_ne h₂] at he
        exact absurd he.symm (hfree k₂)
    · by_cases h₂ : k₂ = k
      · rw [h₂, update_self, update_of_ne h₁] at he
        exact absurd he (hfree k₁)
      · rw [update_of_ne h₁] at h0 he
        rw [update_of_ne h₂] at he
        exact h.once k₁ k₂ h0 he

theorem Covered.assign (h : Covered P A) {k : K} {b : Nat} (hk : P k = 0)
    (hA : ∀ c, A' c = true → A c = true ∨ c = b) : Covered (update P k b) A' := by
  intro c h0 hc
  rcases hA c hc with hc | rfl
  · obtain ⟨k', rfl⟩ := h c h0 hc
    refine ⟨k', update_of_ne ?_ _ _⟩
    rintro rfl
    exact h0 hk
  · exact ⟨k, update_self ..⟩

/-- A reference carried from one place to another. -/
theorem Owned.move (h : Owned P A) {k k' : K} (hk' : P k' = 0) (h0 : P k ≠ 0) :
    Owned (update (update P k' (P k)) k 0) A := by
  have hne : k' ≠ k := by
    rintro rfl
    exact h0 hk'
  have hone : Owned (update P k 0) A := by
    refine h.restrict (fun x hx => ?_) (fun x hx => ?_)
    · by_cases hxk : x = k
      · rw [hxk, update_self] at hx
        exact absurd rfl hx
      · exact update_of_ne hxk _ _
    · by_cases hxk : x = k
      · rw [hxk, update_self] at hx
        exact absurd rfl hx
      · rw [update_of_ne hxk] at hx ⊢
        exact h.held x hx
  rw [update_comm hne]
  refine hone.assign (fun x hx => ?_) (fun _ hc => hc) (h.held k h0)
  by_cases hxk : x = k
  · rw [hxk, update_self] at hx
    exact h0 hx.symm
  · rw [update_of_ne hxk] at hx
    exact hxk (h.once k x h0 hx.symm).symm

end

end CapyOS.Lib
