import CapyOS.Lib.Numerals

namespace CapyOS.Lib

section
variable {n p i k : Nat}

theorem ring_next : ((p + i) % n + 1) % n = (p + (i + 1)) % n := by
  rw [Nat.mod_add_mod, Nat.add_assoc]

/-- Positions less than one turn apart are different slots. -/
theorem ring_inj (hi : i < n) (hk : k < n) (h : (p + i) % n = (p + k) % n) : i = k :=
  Nat.ModEq.eq_of_lt_of_lt (Nat.ModEq.add_left_cancel' p h) hi hk

theorem ring_ne (hi : i < n) (hk : k < n) (h : i ≠ k) : (p + i) % n ≠ (p + k) % n :=
  fun he => h (ring_inj hi hk he)

theorem ring_unwrap (hp : p < n) (hk : k < n) : (p + k) % n = if p + k < n then p + k else p + k - n := by
  split
  · rename_i h
    exact Nat.mod_eq_of_lt h
  · rename_i h
    rw [Nat.mod_eq_sub_mod (by omega)]
    exact Nat.mod_eq_of_lt (by omega)

end

variable {α : Type} {n : Nat} [NeZero n]

/-- The `k`-th cell of a ring from `p` on. -/
def cell (p : Fin n) (k : Nat) : Fin n := Fin.ofNat n (p.val + k)

/-- What a ring buffer holds, from its oldest item on. -/
def held (q : Fin n → α) (p : Fin n) (count : Nat) : List α := (List.range count).map fun k => q (cell p k)

theorem cell_zero (p : Fin n) : cell p 0 = p := Fin.ext (Nat.mod_eq_of_lt p.isLt)

theorem cell_succ (p : Fin n) (k : Nat) : cell p (k + 1) = cell p k + 1 := by
  apply Fin.ext
  have h : (1 : Fin n).val = 1 % n := rfl
  simp only [cell, Fin.ofNat, Fin.val_add, h, Nat.add_mod_mod]
  exact ring_next.symm

theorem cell_next (p : Fin n) (k : Nat) : cell (p + 1) k = cell p (k + 1) := by
  induction k with
  | zero => rw [cell_zero, cell_succ, cell_zero]
  | succ k ih => rw [cell_succ, ih, ← cell_succ]

theorem cell_ne {p : Fin n} {i k : Nat} (hi : i < n) (hk : k < n) (h : i ≠ k) : cell p i ≠ cell p k :=
  fun he => ring_ne hi hk h (congrArg Fin.val he)

/-- An item put behind the last one is the last one held. -/
theorem held_push (q : Fin n → α) (p : Fin n) {count : Nat} (h : count < n) (a : α) :
    held (Function.update q (cell p count) a) p (count + 1) = held q p count ++ [a] := by
  rw [held, List.range_succ, List.map_append, held]
  congr 1
  · apply List.map_congr_left
    intro k hk
    have hk : k < count := List.mem_range.mp hk
    exact Function.update_of_ne (cell_ne (hk.trans h) h hk.ne) a q
  · simp

theorem held_pop (q : Fin n → α) (p : Fin n) (count : Nat) : held q p (count + 1) = q p :: held q (p + 1) count := by
  rw [held, List.range_succ_eq_map, List.map_cons, cell_zero, List.map_map, held]
  congr 1
  apply List.map_congr_left
  intro k _
  exact congrArg q (cell_next p k).symm

end CapyOS.Lib
