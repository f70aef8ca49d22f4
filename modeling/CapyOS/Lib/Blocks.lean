import CapyOS.Lib.Numerals

namespace CapyOS.Lib
open List

/-! A message taken in blocks of one size, and a buffer that takes it byte by byte. -/

section
variable {σ α : Type} (f : σ → List α → σ) (B : Nat)

/-- The state after the first `n` blocks of a message. -/
def foldBlocks : Nat → σ → List α → σ
  | 0, s, _ => s
  | n + 1, s, l => foldBlocks n (f s (l.take B)) (l.drop B)

/-- What lies behind the first `n` blocks does not matter. -/
theorem foldBlocks_append (n : Nat) (s : σ) (l t : List α) (h : n * B ≤ l.length) :
    foldBlocks f B n s (l ++ t) = foldBlocks f B n s l := by
  induction n generalizing s l with
  | zero => rfl
  | succ n ih =>
    rw [Nat.succ_mul] at h
    have hB : B ≤ l.length := by omega
    have hrest : n * B ≤ (l.drop B).length := by
      rw [length_drop]
      omega
    rw [foldBlocks, foldBlocks, take_append_of_le_length hB, drop_append_of_le_length hB, ih _ _ hrest]

theorem foldBlocks_succ (n : Nat) (s : σ) (l : List α) :
    foldBlocks f B (n + 1) s l = f (foldBlocks f B n s l) ((l.drop (n * B)).take B) := by
  induction n generalizing s l with
  | zero => simp [foldBlocks]
  | succ n ih =>
    have hdrop : (l.drop B).drop (n * B) = l.drop ((n + 1) * B) := by
      rw [drop_drop, Nat.succ_mul, Nat.add_comm]
    rw [foldBlocks, ih, hdrop]
    rfl

theorem foldBlocks_add (n k : Nat) (s : σ) (l : List α) :
    foldBlocks f B (n + k) s l = foldBlocks f B k (foldBlocks f B n s l) (l.drop (n * B)) := by
  induction n generalizing s l with
  | zero => simp [foldBlocks]
  | succ n ih =>
    rw [Nat.succ_add, foldBlocks, ih, drop_drop, foldBlocks, Nat.succ_mul, Nat.add_comm B]

/-- A block behind whole blocks. -/
theorem foldBlocks_push (n : Nat) (s : σ) (l b : List α) (hl : l.length = n * B) (hb : b.length = B) :
    foldBlocks f B (n + 1) s (l ++ b) = f (foldBlocks f B n s l) b := by
  rw [foldBlocks_succ, foldBlocks_append f B n s l b (by omega), ← hl, drop_left, take_of_length_le (by omega)]

end

variable {α : Type} {B : Nat}

/-- The part of a message behind its whole blocks. -/
def leftover (B : Nat) (l : List α) : List α := l.drop (l.length / B * B)

theorem leftover_length (l : List α) : (leftover B l).length = l.length % B := by
  have h := Nat.div_add_mod l.length B
  rw [Nat.mul_comm] at h
  rw [leftover, length_drop]
  omega

theorem whole_append_leftover (l : List α) : l.take (l.length / B * B) ++ leftover B l = l :=
  take_append_drop _ l

theorem whole_length (l : List α) : (l.take (l.length / B * B)).length = l.length / B * B := by
  have h := Nat.div_mul_le_self l.length B
  simp [h]

/-- One more element that leaves the last block open. -/
theorem leftover_push {l : List α} (b : α) (h : l.length % B + 1 < B) :
    (l ++ [b]).length / B = l.length / B ∧ leftover B (l ++ [b]) = leftover B l ++ [b] := by
  have hlen : (l ++ [b]).length = l.length + 1 := by simp
  have hdiv : (l ++ [b]).length / B = l.length / B := by
    rw [hlen]
    have hm := Nat.div_add_mod l.length B
    apply Nat.div_eq_of_lt_le
    · rw [Nat.mul_comm]
      omega
    · rw [Nat.add_mul, Nat.mul_comm]
      omega
  refine ⟨hdiv, ?_⟩
  rw [leftover, hdiv, drop_append_of_le_length (Nat.div_mul_le_self _ _)]
  rfl

/-- One more element that fills the last block. -/
theorem leftover_fill {l : List α} (b : α) (h : l.length % B + 1 = B) :
    (l ++ [b]).length / B = l.length / B + 1 ∧ leftover B (l ++ [b]) = [] := by
  have hlen : (l ++ [b]).length = (l.length / B + 1) * B := by
    have hm := Nat.div_add_mod l.length B
    rw [length_append, length_singleton, Nat.add_mul, Nat.mul_comm]
    omega
  have hdiv : (l ++ [b]).length / B = l.length / B + 1 := by
    rw [hlen, Nat.mul_div_cancel _ (by omega)]
  refine ⟨hdiv, ?_⟩
  rw [leftover, hdiv, ← hlen, drop_length]

/-- `(data.set i b).take (i + 1)`, for a buffer with room at `i`. -/
theorem take_set_succ {data : List α} {i : Nat} (b : α) (h : i < data.length) :
    (data.set i b).take (i + 1) = data.take i ++ [b] := by
  rw [take_succ, take_set_of_le (Nat.le_refl i)]
  simp [h]

end CapyOS.Lib
