import CapyOS.Lib.Numerals

namespace CapyOS.Lib
open Function

variable {R A : Type} (view : R → Option A) (age : A → Nat)

/-- Of two copies of a register, `c` is the newest one that can be read. -/
structure Newest (copies : Fin 2 → R) (c : Fin 2) (a : A) : Prop where
  here : view (copies c) = some a
  older : ∀ b, view (copies (1 - c)) = some b → age b < age a

variable {view age} {copies copies' : Fin 2 → R} {c c' : Fin 2} {a b : A}

theorem copy_cases (c : Fin 2) : c = 0 ∨ c = 1 := by
  match c with
  | 0 => exact .inl rfl
  | 1 => exact .inr rfl

theorem other_other (c : Fin 2) : 1 - (1 - c) = c := by
  match c with
  | 0 => rfl
  | 1 => rfl

theorem other_ne_self (c : Fin 2) : 1 - c ≠ c := by
  match c with
  | 0 => decide
  | 1 => decide

theorem eq_or_eq_other (c c' : Fin 2) : c' = c ∨ c' = 1 - c := by
  match c, c' with
  | 0, 0 => exact .inl rfl
  | 0, 1 => exact .inr rfl
  | 1, 0 => exact .inr rfl
  | 1, 1 => exact .inl rfl

theorem Newest.unique (h : Newest view age copies c a) (h' : Newest view age copies c' b) : c' = c ∧ b = a := by
  rcases eq_or_eq_other c c' with rfl | rfl
  · exact ⟨rfl, Option.some.inj (h'.here.symm.trans h.here)⟩
  · have h1 := h.older b h'.here
    have h2 := h'.older a (by rw [other_other]; exact h.here)
    omega

/-- A younger value in the other copy takes over, whatever was there before. -/
theorem Newest.replace {r : R} (h : Newest view age copies c a) (hr : view r = some b) (hlt : age a < age b) :
    Newest view age (update copies (1 - c) r) (1 - c) b := by
  refine ⟨?_, fun x hx => ?_⟩
  · rw [update_self]
    exact hr
  · rw [other_other, update_of_ne (other_ne_self c).symm, h.here] at hx
    cases hx
    exact hlt

end CapyOS.Lib
