import CapyOS.Lib.Numerals

namespace CapyOS.Lib

theorem range_chunks (k c n : Nat) :
    (List.range n).flatMap (fun b => (List.range (min k (c - b * k))).map (fun j => b * k + j)) =
      List.range (min (n * k) c) := by
  induction n with
  | zero => simp
  | succ n ih =>
    rw [List.range_succ, List.flatMap_append, ih]
    simp only [List.flatMap_cons, List.flatMap_nil, List.append_nil]
    rcases Nat.lt_or_ge c (n * k) with hlt | hge
    · have hsum : (n + 1) * k = n * k + k := Nat.succ_mul n k
      rw [show c - n * k = 0 by omega, show min (n * k) c = c by omega, show min ((n + 1) * k) c = c by omega]
      simp
    · have hsum : (n + 1) * k = n * k + k := Nat.succ_mul n k
      rw [show min (n * k) c = n * k by omega, show min ((n + 1) * k) c = n * k + min k (c - n * k) by omega, List.range_add]

/-- Enough chunks cover the whole range. -/
theorem range_chunks_all {k : Nat} (c : Nat) (hk : 0 < k) : (List.range ((c + k - 1) / k)).flatMap
        (fun b => (List.range (min k (c - b * k))).map (fun j => b * k + j)) = List.range c := by
  have hmod := Nat.div_add_mod (c + k - 1) k
  have hlt := Nat.mod_lt (c + k - 1) hk
  have hcomm := Nat.mul_comm k ((c + k - 1) / k)
  rw [range_chunks, show min ((c + k - 1) / k * k) c = c by omega]

variable {α : Type} (start stop : α → Nat)

/-- The pieces lie end to end from one point to another. -/
def Tiles (a : Nat) : List α → Nat → Prop
  | [], e => a = e
  | x :: xs, e => start x = a ∧ Tiles (stop x) xs e

variable {start stop}

theorem Tiles.append {a m e : Nat} {xs ys : List α} (h : Tiles start stop a xs m)
    (h' : Tiles start stop m ys e) : Tiles start stop a (xs ++ ys) e := by
  induction xs generalizing a with
  | nil =>
    cases h
    exact h'
  | cons x xs ih => exact ⟨h.1, ih h.2⟩

theorem Tiles.split {a e : Nat} {xs ys : List α} (h : Tiles start stop a (xs ++ ys) e) :
    ∃ m, Tiles start stop a xs m ∧ Tiles start stop m ys e := by
  induction xs generalizing a with
  | nil => exact ⟨a, rfl, h⟩
  | cons x xs ih =>
    obtain ⟨m, hx, hy⟩ := ih h.2
    exact ⟨m, ⟨h.1, hx⟩, hy⟩

section
variable (hle : ∀ x, start x ≤ stop x)
include hle

theorem Tiles.le {a e : Nat} {xs : List α} (h : Tiles start stop a xs e) : a ≤ e := by
  induction xs generalizing a with
  | nil => exact Nat.le_of_eq h
  | cons x xs ih =>
    rw [← h.1]
    exact Nat.le_trans (hle x) (ih h.2)

theorem Tiles.bounds {a e : Nat} {xs : List α} (h : Tiles start stop a xs e) {x : α} (hx : x ∈ xs) :
    a ≤ start x ∧ stop x ≤ e := by
  induction xs generalizing a with
  | nil => exact nomatch hx
  | cons y ys ih =>
    rcases List.mem_cons.mp hx with rfl | hx
    · exact ⟨Nat.le_of_eq h.1.symm, h.2.le hle⟩
    · have hy := ih h.2 hx
      have hstep := hle y
      rw [h.1] at hstep
      exact ⟨Nat.le_trans hstep hy.1, hy.2⟩

/-- Pieces that lie end to end do not overlap. -/
theorem Tiles.pairwise {a e : Nat} {xs : List α} (h : Tiles start stop a xs e) : xs.Pairwise fun x y => stop x ≤ start y := by
  induction xs generalizing a with
  | nil => exact List.Pairwise.nil
  | cons x xs ih => exact List.Pairwise.cons (fun y hy => (h.2.bounds hle hy).1) (ih h.2)

end

end CapyOS.Lib
