import CapyOS.Security.ChaCha20Poly1305

namespace CapyOS
open Lib List
variable {r h : Limbs} {x0 x1 x2 x3 x4 : Nat} {counters : List Nat} {st : Poly1305State}
variable {v0 v1 v2 v3 : Nat} {data : List Byte} {out : List Byte} {t0 t1 t2 : Nat} {hibit : Nat}
variable {d c : Nat} {t3 : Nat} {v : Nat} {g : Nat} {n : Nat}
variable {key nonce data : List Byte} {h : Limbs} {x : Nat} {a k : Nat} {d : Nat}

/-! Limbs as numbers. -/

def Limbs.value (h : Limbs) : Nat :=
  h.x0 + 2 ^ 26 * h.x1 + 2 ^ 52 * h.x2 + 2 ^ 78 * h.x3 + 2 ^ 104 * h.x4

structure Limbs.Small (h : Limbs) : Prop where
  x0 : h.x0 < 2 ^ 26
  x1 : h.x1 < 2 ^ 26
  x2 : h.x2 < 2 ^ 26
  x3 : h.x3 < 2 ^ 26
  x4 : h.x4 < 2 ^ 26

structure Limbs.Loose (h : Limbs) : Prop where
  x0 : h.x0 < 2 ^ 26
  x1 : h.x1 < 2 ^ 26 + 64
  x2 : h.x2 < 2 ^ 26
  x3 : h.x3 < 2 ^ 26
  x4 : h.x4 < 2 ^ 26

structure Limbs.Within (h : Limbs) (bound : Nat) : Prop where
  x0 : h.x0 ≤ bound
  x1 : h.x1 ≤ bound
  x2 : h.x2 ≤ bound
  x3 : h.x3 ≤ bound
  x4 : h.x4 ≤ bound

def Limbs.sum (h : Limbs) : Nat := h.x0 + h.x1 + h.x2 + h.x3 + h.x4

namespace Proofs

def poly1305Prime : Nat := 2 ^ 130 - 5

theorem and_limbMask (x : Nat) : x &&& limbMask = x % 2 ^ 26 :=
  Nat.and_two_pow_sub_one_eq_mod x 26

/-- The low part of one word beside the shifted next one. -/
theorem or_shift (b : Nat) (ha : a < 2 ^ k) (hk : k ≤ 32) :
    a ||| ((b <<< k) % 2 ^ 32) = a + 2 ^ k * (b % 2 ^ (32 - k)) := by
  have hsplit : (b <<< k) % 2 ^ 32 = 2 ^ k * (b % 2 ^ (32 - k)) := by
    rw [Nat.shiftLeft_eq, Nat.mul_comm b, show 2 ^ 32 = 2 ^ k * 2 ^ (32 - k) by
      rw [← Nat.pow_add, Nat.add_sub_cancel' hk], Nat.mul_mod_mul_left]
  rw [hsplit, Nat.or_comm, ← Nat.two_pow_add_eq_or_of_lt ha, Nat.add_comm]

theorem limb_lt (x : Nat) : x % 2 ^ 26 < 2 ^ 26 := Nat.mod_lt x (by decide)

theorem and_limbMask_lt (x : Nat) : x &&& limbMask < 2 ^ 26 :=
  lt_of_eq_of_lt (and_limbMask x) (limb_lt x)

theorem parts_lt (b : Nat) (ha : a < 2 ^ k) (hk : k ≤ 32) : a + 2 ^ k * (b % 2 ^ (32 - k)) < 2 ^ 32 :=
  calc a + 2 ^ k * (b % 2 ^ (32 - k))
      < 2 ^ k + 2 ^ k * (b % 2 ^ (32 - k)) := Nat.add_lt_add_right ha _
    _ = 2 ^ k * (b % 2 ^ (32 - k) + 1) := by rw [Nat.mul_add, Nat.mul_one, Nat.add_comm]
    _ ≤ 2 ^ k * 2 ^ (32 - k) := Nat.mul_le_mul_left _ (Nat.mod_lt b (Nat.two_pow_pos _))
    _ = 2 ^ 32 := by rw [← Nat.pow_add, Nat.add_sub_cancel' hk]

/-- The limb that starts with the high bits of one word and goes on with the next word. -/
theorem parts_limb (b : Nat) (ha : a < 2 ^ k) (hk : k ≤ 26) :
    (a + 2 ^ k * (b % 2 ^ (32 - k))) % 2 ^ 26 = a + 2 ^ k * (b % 2 ^ (26 - k)) := by
  have hpow : (2 ^ 26 : Nat) = 2 ^ k * 2 ^ (26 - k) := by rw [← Nat.pow_add, Nat.add_sub_cancel' hk]
  rw [hpow, Nat.mod_mul, Nat.add_mul_mod_self_left, Nat.mod_eq_of_lt ha,
    Nat.add_mul_div_left _ _ (Nat.two_pow_pos k), Nat.div_eq_of_lt ha, Nat.zero_add,
    Nat.mod_mod_of_dvd _ (Nat.pow_dvd_pow 2 (Nat.sub_le_sub_right (by decide) k))]

theorem splitWords_spec (t3 : Nat) (h0 : t0 < 2 ^ 32) (h1 : t1 < 2 ^ 32) (h2 : t2 < 2 ^ 32) :
    (splitWords t0 t1 t2 t3).x0 = t0 % 2 ^ 26 ∧ (splitWords t0 t1 t2 t3).x1 = t0 / 2 ^ 26 + 2 ^ 6 * (t1 % 2 ^ 20) ∧
    (splitWords t0 t1 t2 t3).x2 = t1 / 2 ^ 20 + 2 ^ 12 * (t2 % 2 ^ 14) ∧
    (splitWords t0 t1 t2 t3).x3 = t2 / 2 ^ 14 + 2 ^ 18 * (t3 % 2 ^ 8) ∧ (splitWords t0 t1 t2 t3).x4 = t3 / 2 ^ 8 := by
  have l0 : t0 / 2 ^ 26 < 2 ^ 6 := Nat.div_lt_of_lt_mul h0
  have l1 : t1 / 2 ^ 20 < 2 ^ 12 := Nat.div_lt_of_lt_mul h1
  have l2 : t2 / 2 ^ 14 < 2 ^ 18 := Nat.div_lt_of_lt_mul h2
  refine ⟨and_limbMask t0, ?_, ?_, ?_, Nat.shiftRight_eq_div_pow _ _⟩
  · change ((t0 >>> 26) ||| ((t1 <<< 6) % 2 ^ 32)) &&& limbMask = _
    rw [and_limbMask, Nat.shiftRight_eq_div_pow, or_shift t1 l0 (by decide)]
    exact parts_limb t1 l0 (by decide)
  · change ((t1 >>> 20) ||| ((t2 <<< 12) % 2 ^ 32)) &&& limbMask = _
    rw [and_limbMask, Nat.shiftRight_eq_div_pow, or_shift t2 l1 (by decide)]
    exact parts_limb t2 l1 (by decide)
  · change ((t2 >>> 14) ||| ((t3 <<< 18) % 2 ^ 32)) &&& limbMask = _
    rw [and_limbMask, Nat.shiftRight_eq_div_pow, or_shift t3 l2 (by decide)]
    exact parts_limb t3 l2 (by decide)

def dotExact (a b : Limbs) : Nat :=
  a.x0 * b.x0 + a.x1 * b.x1 + a.x2 * b.x2 + a.x3 * b.x3 + a.x4 * b.x4

theorem splitWords_top (t0 t1 t2 : Nat) (h3 : t3 < 2 ^ 32) : (splitWords t0 t1 t2 t3).x4 < 2 ^ 24 := by
  change t3 >>> 8 < 2 ^ 24
  rw [Nat.shiftRight_eq_div_pow]
  exact Nat.div_lt_of_lt_mul h3

theorem splitWords_small (t0 t1 t2 : Nat) (h3 : t3 < 2 ^ 32) : (splitWords t0 t1 t2 t3).Small where
  x0 := and_limbMask_lt _
  x1 := and_limbMask_lt _
  x2 := and_limbMask_lt _
  x3 := and_limbMask_lt _
  x4 := lt_trans (splitWords_top t0 t1 t2 h3) (by decide)

theorem splitWords_value (t3 : Nat) (h0 : t0 < 2 ^ 32) (h1 : t1 < 2 ^ 32) (h2 : t2 < 2 ^ 32) :
    (splitWords t0 t1 t2 t3).value = t0 + 2 ^ 32 * t1 + 2 ^ 64 * t2 + 2 ^ 96 * t3 := by
  obtain ⟨e0, e1, e2, e3, e4⟩ := splitWords_spec t3 h0 h1 h2
  unfold Limbs.value
  rw [e0, e1, e2, e3, e4]
  have s0 := Nat.mod_add_div t0 (2 ^ 26)
  have s1 := Nat.mod_add_div t1 (2 ^ 20)
  have s2 := Nat.mod_add_div t2 (2 ^ 14)
  have s3 := Nat.mod_add_div t3 (2 ^ 8)
  clear e0 e1 e2 e3 e4 h0 h1 h2
  generalize t0 / 2 ^ 26 = c0, t0 % 2 ^ 26 = l0 at *
  generalize t1 / 2 ^ 20 = c1, t1 % 2 ^ 20 = l1 at *
  generalize t2 / 2 ^ 14 = c2, t2 % 2 ^ 14 = l2 at *
  generalize t3 / 2 ^ 8 = c3, t3 % 2 ^ 8 = l3 at *
  rw [← s0, ← s1, ← s2, ← s3]
  ring

section
variable (o : Overflow)

theorem dot_spec {a : Limbs} (b : Limbs) {bound : Nat} (ha : a.Within bound) (hfits : bound * b.sum < 2 ^ 64) :
    o.dot a b = dotExact a b ∧ dotExact a b ≤ bound * b.sum := by
  have hle : dotExact a b ≤ bound * b.sum := by
    simp only [Limbs.sum, dotExact, Nat.mul_add]
    exact Nat.add_le_add (Nat.add_le_add (Nat.add_le_add (Nat.add_le_add
      (Nat.mul_le_mul_right _ ha.x0) (Nat.mul_le_mul_right _ ha.x1)) (Nat.mul_le_mul_right _ ha.x2))
      (Nat.mul_le_mul_right _ ha.x3)) (Nat.mul_le_mul_right _ ha.x4)
  refine ⟨?_, hle⟩
  have l4 := lt_of_le_of_lt hle hfits
  unfold Overflow.dot
  unfold dotExact at l4 ⊢
  -- a sum that fits has parts that fit
  have l3 := lt_of_le_of_lt (Nat.le_add_right _ _) l4
  have l2 := lt_of_le_of_lt (Nat.le_add_right _ _) l3
  have l1 := lt_of_le_of_lt (Nat.le_add_right _ _) l2
  rw [o.w64_eq _ (lt_of_le_of_lt (Nat.le_add_right _ _) l1),
    o.w64_eq _ (lt_of_le_of_lt (Nat.le_add_left _ _) l1), o.w64_eq _ l1,
    o.w64_eq _ (lt_of_le_of_lt (Nat.le_add_left _ _) l2), o.w64_eq _ l2,
    o.w64_eq _ (lt_of_le_of_lt (Nat.le_add_left _ _) l3), o.w64_eq _ l3,
    o.w64_eq _ (lt_of_le_of_lt (Nat.le_add_left _ _) l4), o.w64_eq _ l4]

end

/-! The carries from limb to limb. -/

/-- A limb is its low bits and what is carried out of it. -/
theorem limb_split (x : Nat) : x = x % 2 ^ 26 + 2 ^ 26 * (x / 2 ^ 26) := (Nat.mod_add_div x (2 ^ 26)).symm

theorem sum_carried_lt (hd : d < 22 * 2 ^ 53) (hc : c < 23 * 2 ^ 27) : d + c < 23 * 2 ^ 53 := by
  omega

theorem top_carried_lt (hd : d < 21 * 2 ^ 51) (hc : c < 23 * 2 ^ 27) : d + c < 22 * 2 ^ 51 := by
  omega

theorem sum_carry_lt (hd : d < 23 * 2 ^ 53) : d / 2 ^ 26 < 23 * 2 ^ 27 :=
  Nat.div_lt_of_lt_mul (lt_of_lt_of_eq hd (by decide))

theorem top_carry_lt (hd : d < 22 * 2 ^ 51) : d / 2 ^ 26 < 22 * 2 ^ 25 :=
  Nat.div_lt_of_lt_mul (lt_of_lt_of_eq hd (by decide))

theorem carry_small {c : Nat} (hc : c < 23 * 2 ^ 27) : c < 2 ^ 32 := lt_of_lt_of_le hc (by decide)

theorem sum_small (hd : d < 23 * 2 ^ 53) : d < 2 ^ 64 := lt_of_lt_of_le hd (by decide)

theorem five_carries_lt {c : Nat} (hc : c < 22 * 2 ^ 25) : c * 5 < 110 * 2 ^ 25 := by
  omega

/-- The carries of the upper limbs take nothing from a number. -/
theorem carried_sum {x2 x3 x4 e1 e2 e3 e4 : Nat} (h2 : e2 = x2 + e1 / 2 ^ 26)
    (h3 : e3 = x3 + e2 / 2 ^ 26) (h4 : e4 = x4 + e3 / 2 ^ 26) :
    2 ^ 26 * (e1 % 2 ^ 26) + 2 ^ 52 * (e2 % 2 ^ 26) + 2 ^ 78 * (e3 % 2 ^ 26) + 2 ^ 104 * e4 =
      2 ^ 26 * e1 + 2 ^ 52 * x2 + 2 ^ 78 * x3 + 2 ^ 104 * x4 := by
  have s1 := limb_split e1
  have s2 := limb_split e2
  have s3 := limb_split e3
  generalize e1 / 2 ^ 26 = c1, e1 % 2 ^ 26 = l1 at *
  generalize e2 / 2 ^ 26 = c2, e2 % 2 ^ 26 = l2 at *
  generalize e3 / 2 ^ 26 = c3, e3 % 2 ^ 26 = l3 at *
  omega

theorem carried_low {x1 x2 x3 x4 e0 e1 e2 e3 e4 : Nat} (h1 : e1 = x1 + e0 / 2 ^ 26)
    (h2 : e2 = x2 + e1 / 2 ^ 26) (h3 : e3 = x3 + e2 / 2 ^ 26) (h4 : e4 = x4 + e3 / 2 ^ 26) :
    e0 % 2 ^ 26 + 2 ^ 26 * (e1 % 2 ^ 26) + 2 ^ 52 * (e2 % 2 ^ 26) + 2 ^ 78 * (e3 % 2 ^ 26) +
        2 ^ 104 * e4 = e0 + 2 ^ 26 * x1 + 2 ^ 52 * x2 + 2 ^ 78 * x3 + 2 ^ 104 * x4 := by
  have hsum := carried_sum h2 h3 h4
  have hlow := limb_split e0
  clear h2 h3 h4
  generalize e0 / 2 ^ 26 = c0, e0 % 2 ^ 26 = l0 at *
  generalize e1 % 2 ^ 26 = l1, e2 % 2 ^ 26 = l2, e3 % 2 ^ 26 = l3 at *
  omega

/-- What leaves the top limb comes back five times at the bottom. -/
theorem carried_value {low x2 x3 x4 e1 e2 e3 e4 f : Nat} (h2 : e2 = x2 + e1 / 2 ^ 26)
    (h3 : e3 = x3 + e2 / 2 ^ 26) (h4 : e4 = x4 + e3 / 2 ^ 26) (hf : f = low + e4 / 2 ^ 26 * 5) :
    f % 2 ^ 26 + 2 ^ 26 * (e1 % 2 ^ 26 + f / 2 ^ 26) + 2 ^ 52 * (e2 % 2 ^ 26) +
        2 ^ 78 * (e3 % 2 ^ 26) + 2 ^ 104 * (e4 % 2 ^ 26) + poly1305Prime * (e4 / 2 ^ 26) =
      low + 2 ^ 26 * e1 + 2 ^ 52 * x2 + 2 ^ 78 * x3 + 2 ^ 104 * x4 := by
  have hsum := carried_sum h2 h3 h4
  have s4 := limb_split e4
  have sf := limb_split f
  clear h2 h3 h4
  generalize e4 / 2 ^ 26 = c4, e4 % 2 ^ 26 = l4 at *
  generalize f / 2 ^ 26 = cf, f % 2 ^ 26 = lf at *
  generalize e1 % 2 ^ 26 = l1, e2 % 2 ^ 26 = l2, e3 % 2 ^ 26 = l3 at *
  unfold poly1305Prime
  omega

section
variable (o : Overflow)

theorem carry_spec {d0 d1 d2 d3 d4 : Nat} (h0 : d0 < 22 * 2 ^ 53) (h1 : d1 < 22 * 2 ^ 53)
    (h2 : d2 < 22 * 2 ^ 53) (h3 : d3 < 22 * 2 ^ 53) (h4 : d4 < 21 * 2 ^ 51) :
    (o.carry d0 d1 d2 d3 d4).Loose ∧ ∃ k, (o.carry d0 d1 d2 d3 d4).value + poly1305Prime * k =
      d0 + 2 ^ 26 * d1 + 2 ^ 52 * d2 + 2 ^ 78 * d3 + 2 ^ 104 * d4 := by
  have hlow : ∀ d : Nat, d % 2 ^ 32 &&& limbMask = d % 2 ^ 26 := fun d => by
    rw [and_limbMask]
    exact Nat.mod_mod_of_dvd d (by decide)
  unfold Overflow.carry
  simp only [hlow, and_limbMask, Nat.shiftRight_eq_div_pow]
  have c0 := sum_carry_lt (lt_trans h0 (by decide))
  rw [o.w32_eq _ (carry_small c0)]
  have b1 := sum_carried_lt h1 c0
  rw [o.w64_eq _ (sum_small b1)]
  generalize he1 : d1 + d0 / 2 ^ 26 = e1 at b1 ⊢
  have c1 := sum_carry_lt b1
  rw [o.w32_eq _ (carry_small c1)]
  have b2 := sum_carried_lt h2 c1
  rw [o.w64_eq _ (sum_small b2)]
  generalize he2 : d2 + e1 / 2 ^ 26 = e2 at b2 ⊢
  have c2 := sum_carry_lt b2
  rw [o.w32_eq _ (carry_small c2)]
  have b3 := sum_carried_lt h3 c2
  rw [o.w64_eq _ (sum_small b3)]
  generalize he3 : d3 + e2 / 2 ^ 26 = e3 at b3 ⊢
  have c3 := sum_carry_lt b3
  rw [o.w32_eq _ (carry_small c3)]
  have b4 := top_carried_lt h4 c3
  rw [o.w64_eq _ (lt_trans b4 (by decide))]
  generalize he4 : d4 + e3 / 2 ^ 26 = e4 at b4 ⊢
  have c4 := top_carry_lt b4
  have hfive := five_carries_lt c4
  have hlast : d0 % 2 ^ 26 + e4 / 2 ^ 26 * 5 < 56 * 2 ^ 26 :=
    lt_of_lt_of_eq (Nat.add_lt_add (limb_lt d0) hfive) (by decide)
  rw [o.w32_eq _ (lt_trans c4 (by decide)), o.w32_eq _ (lt_trans hfive (by decide)), o.w32_eq _ (lt_trans hlast (by decide))]
  generalize hf : d0 % 2 ^ 26 + e4 / 2 ^ 26 * 5 = f at hlast ⊢
  have hback : f / 2 ^ 26 < 56 := Nat.div_lt_of_lt_mul (lt_of_lt_of_eq hlast (by decide))
  have hsecond : e1 % 2 ^ 26 + f / 2 ^ 26 < 2 ^ 26 + 64 :=
    Nat.add_lt_add (limb_lt e1) (lt_trans hback (by decide))
  rw [o.w32_eq _ (lt_trans hsecond (by decide))]
  refine ⟨⟨limb_lt f, hsecond, limb_lt e2, limb_lt e3, limb_lt e4⟩, e4 / 2 ^ 26, ?_⟩
  refine (carried_value he2.symm he3.symm he4.symm hf.symm).trans ?_
  rw [← he1, Nat.mul_add (2 ^ 26), Nat.add_comm (2 ^ 26 * d1), ← Nat.add_assoc, ← limb_split d0]

/-! Numbers of byte strings. -/

def leValue : List Byte → Nat
  | [] => 0
  | b :: bs => b.toNat + 256 * leValue bs

theorem leValue_append (l m : List Byte) : leValue (l ++ m) = leValue l + 256 ^ l.length * leValue m := by
  induction l with
  | nil => simp [leValue]
  | cons b l ih =>
    simp only [cons_append, leValue, ih, length_cons, Nat.pow_succ]
    ring

theorem leValue_zeros (n : Nat) : leValue (replicate n 0) = 0 := by
  induction n with
  | zero => rfl
  | succ n ih =>
    rw [replicate_succ, leValue, ih]
    rfl

theorem load_bufferBytes (l : List Byte) (o n : Nat) : load (bufferBytes l) o n = leValue ((l.drop o).take n) := by
  induction n generalizing o with
  | zero => rfl
  | succ n ih =>
    simp only [load, ih]
    cases hdrop : l.drop o with
    | nil =>
      have hlen : l.length ≤ o := drop_eq_nil_iff.mp hdrop
      have hlater : l.drop (o + 1) = [] := drop_eq_nil_iff.mpr (Nat.le_succ_of_le hlen)
      simp [hlater, bufferBytes, List.getElem?_eq_none hlen, leValue]
    | cons b rest =>
      have hlt : o < l.length := by
        by_contra hge
        rw [drop_eq_nil_iff.mpr (not_lt.mp hge)] at hdrop
        cases hdrop
      rw [drop_eq_getElem_cons hlt] at hdrop
      obtain ⟨hhead, hrest⟩ := List.cons.inj hdrop
      rw [hrest, take_succ_cons, leValue]
      simp [bufferBytes, List.getElem?_eq_getElem hlt, hhead]

theorem load32_lt (l : List Byte) (offset : Nat) : load32 l offset < 2 ^ 32 :=
  load_lt (bufferBytes l) offset 4

theorem load_add (b : Bytes) (o m n : Nat) : load b o (m + n) = load b o m + 256 ^ m * load b (o + m) n := by
  induction m generalizing o with
  | zero => simp [load]
  | succ m ih =>
    rw [Nat.add_right_comm, load, ih, load, Nat.pow_succ, show o + 1 + m = o + (m + 1) by omega]
    ring

theorem words_value (l : List Byte) (o : Nat) : load32 l o + 2 ^ 32 * load32 l (o + 4) + 2 ^ 64 * load32 l (o + 8) +
      2 ^ 96 * load32 l (o + 12) = leValue ((l.drop o).take 16) := by
  have h := load_add (bufferBytes l) o 4 12
  rw [load_add (bufferBytes l) (o + 4) 4 8, load_add (bufferBytes l) (o + 4 + 4) 4 4] at h
  rw [← load_bufferBytes, h]
  unfold load32
  simp only [Nat.add_assoc, Nat.reduceAdd]
  omega

/-! One block. -/

theorem limbs_add {x y : Nat} (hx : x < 2 ^ 26 + 64) (hy : y < 2 ^ 26) : x + y ≤ 2 ^ 27 + 64 := by
  omega

theorem addBlock_spec (hh : h.Loose) (block : List Byte) (hbit : hibit = 0 ∨ hibit = 1 <<< 24) :
    (o.addBlock h block hibit).Within (2 ^ 27 + 64) ∧ (o.addBlock h block hibit).value =
        h.value + leValue (block.take 16) + 2 ^ 104 * hibit := by
  have h3 := load32_lt block 12
  have hvalue := splitWords_value (load32 block 12) (load32_lt block 0) (load32_lt block 4)
    (load32_lt block 8)
  have hsmall := splitWords_small (load32 block 0) (load32 block 4) (load32 block 8) h3
  have htop := splitWords_top (load32 block 0) (load32 block 4) (load32 block 8) h3
  have hwords := words_value block 0
  simp only [Nat.zero_add, drop_zero] at hwords
  rw [hwords] at hvalue
  unfold Overflow.addBlock
  dsimp only
  generalize splitWords (load32 block 0) (load32 block 4) (load32 block 8) (load32 block 12) = t
    at hvalue hsmall htop ⊢
  have hor : t.x4 ||| hibit = t.x4 + hibit := by
    cases hbit with
    | inl hzero => simp [hzero]
    | inr hone =>
      rw [hone, Nat.or_comm]
      have hsum := Nat.two_pow_add_eq_or_of_lt htop 1
      simp only [Nat.mul_one] at hsum
      rw [show (1 <<< 24 : Nat) = 2 ^ 24 from rfl, ← hsum, Nat.add_comm]
  have hbound : hibit ≤ 2 ^ 24 := by
    rcases hbit with rfl | rfl <;> decide
  have a0 := limbs_add (lt_trans hh.x0 (by decide)) hsmall.x0
  have a1 := limbs_add hh.x1 hsmall.x1
  have a2 := limbs_add (lt_trans hh.x2 (by decide)) hsmall.x2
  have a3 := limbs_add (lt_trans hh.x3 (by decide)) hsmall.x3
  have a4 := limbs_add (lt_trans hh.x4 (by decide))
    (lt_trans (Nat.add_lt_add_of_lt_of_le htop hbound) (by decide))
  have hword : ∀ {x : Nat}, x ≤ 2 ^ 27 + 64 → x < 2 ^ 32 := fun hx => lt_of_le_of_lt hx (by decide)
  rw [hor, o.w32_eq _ (hword a0), o.w32_eq _ (hword a1), o.w32_eq _ (hword a2), o.w32_eq _ (hword a3), o.w32_eq _ (hword a4)]
  refine ⟨⟨a0, a1, a2, a3, a4⟩, ?_⟩
  rw [← hvalue]
  unfold Limbs.value
  ring

theorem multiples_modEq {m a b k : Nat} (h : a + m * k = b) : a ≡ b [MOD m] := by
  rw [← h]
  exact (Nat.add_mul_mod_self_left a m k).symm

theorem product_value (a r : Limbs) : dotExact a ⟨r.x0, 5 * r.x4, 5 * r.x3, 5 * r.x2, 5 * r.x1⟩ +
      2 ^ 26 * dotExact a ⟨r.x1, r.x0, 5 * r.x4, 5 * r.x3, 5 * r.x2⟩ +
      2 ^ 52 * dotExact a ⟨r.x2, r.x1, r.x0, 5 * r.x4, 5 * r.x3⟩ + 2 ^ 78 * dotExact a ⟨r.x3, r.x2, r.x1, r.x0, 5 * r.x4⟩ +
      2 ^ 104 * dotExact a ⟨r.x4, r.x3, r.x2, r.x1, r.x0⟩ +
      poly1305Prime * (a.x1 * r.x4 + a.x2 * r.x3 + a.x3 * r.x2 + a.x4 * r.x1 +
        2 ^ 26 * (a.x2 * r.x4 + a.x3 * r.x3 + a.x4 * r.x2) +
        2 ^ 52 * (a.x3 * r.x4 + a.x4 * r.x3) + 2 ^ 78 * (a.x4 * r.x4)) = a.value * r.value := by
  unfold dotExact Limbs.value poly1305Prime
  norm_num only
  ring

theorem five_limb_lt (hx : x < 2 ^ 26) : 5 * x < 5 * 2 ^ 26 :=
  Nat.mul_lt_mul_of_pos_left hx (by decide)

/-- The weights of a sum of products leave its product room in 64 bits. -/
theorem weights_lt (h0 : x0 < 2 ^ 26) (h1 : x1 < 5 * 2 ^ 26)
    (h2 : x2 < 5 * 2 ^ 26) (h3 : x3 < 5 * 2 ^ 26) (h4 : x4 < 5 * 2 ^ 26) :
    (2 ^ 27 + 64) * (x0 + x1 + x2 + x3 + x4) < 22 * 2 ^ 53 := by
  omega

theorem low_weights_lt (h0 : x0 < 2 ^ 26) (h1 : x1 < 2 ^ 26)
    (h2 : x2 < 2 ^ 26) (h3 : x3 < 2 ^ 26) (h4 : x4 < 2 ^ 26) : (2 ^ 27 + 64) * (x0 + x1 + x2 + x3 + x4) < 21 * 2 ^ 51 := by
  omega

/-- A block adds to the accumulator and multiplies it, modulo the prime. -/
theorem block_spec (hr : r.Small) (hh : h.Loose) (block : List Byte)
    (hbit : hibit = 0 ∨ hibit = 1 <<< 24) : (o.poly1305Block r h block hibit).Loose ∧ (o.poly1305Block r h block hibit).value ≡
        (h.value + (leValue (block.take 16) + 2 ^ 104 * hibit)) * r.value [MOD poly1305Prime] := by
  obtain ⟨hwithin, hvalue⟩ := addBlock_spec o hh block hbit
  have f1 := five_limb_lt hr.x1
  have f2 := five_limb_lt hr.x2
  have f3 := five_limb_lt hr.x3
  have f4 := five_limb_lt hr.x4
  have hfive : ∀ {x : Nat}, x < 2 ^ 26 → x < 5 * 2 ^ 26 := fun hx => lt_trans hx (by decide)
  unfold Overflow.poly1305Block
  dsimp only
  rw [o.w32_eq _ (lt_trans f1 (by decide)), o.w32_eq _ (lt_trans f2 (by decide)),
    o.w32_eq _ (lt_trans f3 (by decide)), o.w32_eq _ (lt_trans f4 (by decide))]
  generalize o.addBlock h block hibit = a at hwithin hvalue ⊢
  have w0 := weights_lt hr.x0 f4 f3 f2 f1
  have w1 := weights_lt hr.x1 (hfive hr.x0) f4 f3 f2
  have w2 := weights_lt hr.x2 (hfive hr.x1) (hfive hr.x0) f4 f3
  have w3 := weights_lt hr.x3 (hfive hr.x2) (hfive hr.x1) (hfive hr.x0) f4
  have w4 := low_weights_lt hr.x4 hr.x3 hr.x2 hr.x1 hr.x0
  obtain ⟨e0, l0⟩ := dot_spec o ⟨r.x0, 5 * r.x4, 5 * r.x3, 5 * r.x2, 5 * r.x1⟩ hwithin
    (lt_trans w0 (by decide))
  obtain ⟨e1, l1⟩ := dot_spec o ⟨r.x1, r.x0, 5 * r.x4, 5 * r.x3, 5 * r.x2⟩ hwithin
    (lt_trans w1 (by decide))
  obtain ⟨e2, l2⟩ := dot_spec o ⟨r.x2, r.x1, r.x0, 5 * r.x4, 5 * r.x3⟩ hwithin
    (lt_trans w2 (by decide))
  obtain ⟨e3, l3⟩ := dot_spec o ⟨r.x3, r.x2, r.x1, r.x0, 5 * r.x4⟩ hwithin
    (lt_trans w3 (by decide))
  obtain ⟨e4, l4⟩ := dot_spec o ⟨r.x4, r.x3, r.x2, r.x1, r.x0⟩ hwithin
    (lt_trans w4 (by decide))
  rw [e0, e1, e2, e3, e4]
  obtain ⟨hloose, k, hk⟩ := carry_spec o (lt_of_le_of_lt l0 w0) (lt_of_le_of_lt l1 w1)
    (lt_of_le_of_lt l2 w2) (lt_of_le_of_lt l3 w3) (lt_of_le_of_lt l4 w4)
  refine ⟨hloose, ?_⟩
  rw [← Nat.add_assoc, ← hvalue]
  exact (multiples_modEq hk).trans (multiples_modEq (product_value a r))

/-! Whole messages. -/

/-- The blocks of a message as numbers, each with a byte of 1 after its last byte. -/
def macBlocks (msg : List Byte) : List Nat :=
  if _h : msg = [] then [] else leValue (msg.take 16 ++ [1]) :: macBlocks (msg.drop 16)
termination_by msg.length
decreasing_by
  have := List.length_pos_iff.mpr _h
  simp
  omega

/-- The first of `n` blocks times the `n`-th power of `r`, and so on. -/
def polySum (r : Nat) : List Nat → Nat
  | [] => 0
  | block :: blocks => block * r ^ (blocks.length + 1) + polySum r blocks

def accumulate (r acc : Nat) (blocks : List Nat) : Nat :=
  blocks.foldl (fun acc block => (acc + block) * r) acc

theorem accumulate_eq (r acc : Nat) (blocks : List Nat) :
    accumulate r acc blocks = acc * r ^ blocks.length + polySum r blocks := by
  induction blocks generalizing acc with
  | nil => simp [accumulate, polySum]
  | cons block blocks ih =>
    change accumulate r ((acc + block) * r) blocks = _
    rw [ih, polySum, length_cons, Nat.pow_succ]
    ring

theorem accumulate_zero (r : Nat) (blocks : List Nat) : accumulate r 0 blocks = polySum r blocks := by
  rw [accumulate_eq, Nat.zero_mul, Nat.zero_add]

theorem accumulate_congr {m r a b : Nat} (h : a ≡ b [MOD m]) (blocks : List Nat) :
    accumulate r a blocks ≡ accumulate r b blocks [MOD m] := by
  rw [accumulate_eq, accumulate_eq]
  exact (h.mul_right _).add_right _

theorem full_block (data : List Byte) (h : 16 ≤ data.length) :
    leValue ((data.take 16).take 16) + 2 ^ 104 * (1 <<< 24) = leValue (data.take 16 ++ [1]) := by
  rw [leValue_append, take_take, length_take, Nat.min_self, Nat.min_eq_left h]
  rfl

theorem absorb_done (hlen : data.length < 16) : o.absorb r h data = (h, data) := by
  unfold Overflow.absorb
  rw [if_neg (by omega)]

theorem absorb_block (hlen : 16 ≤ data.length) : o.absorb r h data =
      o.absorb r (o.poly1305Block r h (data.take 16) (1 <<< 24)) (data.drop 16) := by
  conv_lhs => unfold Overflow.absorb
  rw [if_pos hlen]

/-- Absorbing takes the whole blocks and leaves less than one. -/
theorem absorb_spec (hr : r.Small) (hh : h.Loose) (data : List Byte) :
    (o.absorb r h data).1.Loose ∧ (o.absorb r h data).2.length < 16 ∧
      ∃ blocks, macBlocks data = blocks ++ macBlocks (o.absorb r h data).2 ∧
        (o.absorb r h data).1.value ≡ accumulate r.value h.value blocks [MOD poly1305Prime] := by
  induction h, data using Overflow.absorb.induct o r with
  | case1 h data hlen ih =>
    obtain ⟨hloose, hvalue⟩ := block_spec o hr hh (data.take 16) (.inr rfl)
    obtain ⟨hlast, hrest, blocks, hblocks, hacc⟩ := ih hloose
    rw [absorb_block o hlen]
    refine ⟨hlast, hrest, leValue (data.take 16 ++ [1]) :: blocks, ?_, ?_⟩
    · have hne : data ≠ [] := by
        rintro rfl
        simp at hlen
      conv_lhs => unfold macBlocks
      rw [dif_neg hne, hblocks]
      rfl
    · rw [full_block data hlen] at hvalue
      exact hacc.trans (accumulate_congr hvalue blocks)
  | case2 h data hlen =>
    rw [absorb_done o (not_le.mp hlen)]
    exact ⟨hh, not_le.mp hlen, [], rfl, rfl⟩

theorem absorb_append (r h : Limbs) (a b : List Byte) :
    o.absorb r h (a ++ b) = o.absorb r (o.absorb r h a).1 ((o.absorb r h a).2 ++ b) := by
  induction h, a using Overflow.absorb.induct o r with
  | case1 h a hlen ih =>
    rw [absorb_block o (by simp; omega), absorb_block o hlen, take_append_of_le_length hlen,
      drop_append_of_le_length hlen]
    exact ih
  | case2 h a hlen => rw [absorb_done o (not_le.mp hlen)]

theorem update_eq (hbuffer : st.buffer.length < 16) (data : List Byte) :
    o.poly1305Update st data =
      { st with
        h := (o.absorb st.r st.h (st.buffer ++ data)).1
        buffer := (o.absorb st.r st.h (st.buffer ++ data)).2 } := by
  unfold Overflow.poly1305Update
  split
  · dsimp only
    split
    · next hshort => rw [absorb_done o (by simp; omega)]
    · next hlong =>
      have hlen : 16 ≤ (st.buffer ++ data).length := by simp; omega
      rw [absorb_block o hlen, take_append, drop_append,
        take_of_length_le (le_of_lt hbuffer), drop_of_length_le (le_of_lt hbuffer)]
      rfl
  · next hempty =>
    have hnil : st.buffer = [] := length_eq_zero_iff.mp (by omega)
    rw [hnil]
    rfl

theorem updates_eq (hr : st.r.Small) (hh : st.h.Loose)
    (hbuffer : st.buffer.length < 16) (pieces : List (List Byte)) : pieces.foldl o.poly1305Update st = { st with
        h := (o.absorb st.r st.h (st.buffer ++ pieces.flatten)).1
        buffer := (o.absorb st.r st.h (st.buffer ++ pieces.flatten)).2 } := by
  induction pieces generalizing st with
  | nil =>
    rw [flatten_nil, append_nil, absorb_done o hbuffer]
    rfl
  | cons piece pieces ih =>
    obtain ⟨hloose, hrest, -⟩ := absorb_spec o hr hh (st.buffer ++ piece)
    have hnext := @ih { st with
      h := (o.absorb st.r st.h (st.buffer ++ piece)).1
      buffer := (o.absorb st.r st.h (st.buffer ++ piece)).2 } hr hloose hrest
    rw [foldl_cons, update_eq o hbuffer, hnext]
    dsimp only
    rw [← absorb_append, flatten_cons, append_assoc]

/-! The tag. -/

theorem limb_carry_lt (hx : x < 2 * 2 ^ 26) : x / 2 ^ 26 < 2 :=
  Nat.div_lt_of_lt_mul (lt_of_lt_of_eq hx (by decide))

theorem limb_carried_lt {x c : Nat} (hx : x < 2 ^ 26) (hc : c < 2) : x + c < 2 * 2 ^ 26 := by
  omega

theorem two_limbs_lt (hx : x < 2 * 2 ^ 26) : x < 2 ^ 32 := lt_trans hx (by decide)

theorem carry_stops {x2 x3 x4 e1 : Nat} (h1 : e1 < 2 ^ 26) (h2 : x2 < 2 ^ 26) (h3 : x3 < 2 ^ 26)
    (h4 : x4 < 2 ^ 26) : (x4 + (x3 + (x2 + e1 / 2 ^ 26) / 2 ^ 26) / 2 ^ 26) / 2 ^ 26 = 0 := by
  rw [Nat.div_eq_of_lt h1, Nat.add_zero, Nat.div_eq_of_lt h2, Nat.add_zero, Nat.div_eq_of_lt h3,
    Nat.add_zero, Nat.div_eq_of_lt h4]

theorem loose_low (hx : x < 2 ^ 26 + 64) (hbig : ¬x < 2 ^ 26) : x % 2 ^ 26 < 64 := by
  omega

theorem carryFinal_spec (hh : h.Loose) :
    (o.carryFinal h).Small ∧ (o.carryFinal h).value ≡ h.value [MOD poly1305Prime] := by
  unfold Overflow.carryFinal
  simp only [and_limbMask, Nat.shiftRight_eq_div_pow]
  have b2 := limb_carried_lt hh.x2 (limb_carry_lt (lt_trans hh.x1 (by decide)))
  rw [o.w32_eq _ (two_limbs_lt b2)]
  have b3 := limb_carried_lt hh.x3 (limb_carry_lt b2)
  rw [o.w32_eq _ (two_limbs_lt b3)]
  have b4 := limb_carried_lt hh.x4 (limb_carry_lt b3)
  rw [o.w32_eq _ (two_limbs_lt b4)]
  -- a carry out of the top limb leaves the limbs under it empty
  have htop : (h.x4 + (h.x3 + (h.x2 + h.x1 / 2 ^ 26) / 2 ^ 26) / 2 ^ 26) / 2 ^ 26 = 0 ∨
      h.x1 % 2 ^ 26 < 64 := by
    by_cases hsmall : h.x1 < 2 ^ 26
    · exact .inl (carry_stops hsmall hh.x2 hh.x3 hh.x4)
    · exact .inr (loose_low hh.x1 hsmall)
  generalize he2 : h.x2 + h.x1 / 2 ^ 26 = e2 at *
  generalize he3 : h.x3 + e2 / 2 ^ 26 = e3 at *
  generalize he4 : h.x4 + e3 / 2 ^ 26 = e4 at *
  have hfive : e4 / 2 ^ 26 * 5 < 2 * 5 := Nat.mul_lt_mul_of_pos_right (limb_carry_lt b4) (by decide)
  have hlast : h.x0 + e4 / 2 ^ 26 * 5 < 2 * 2 ^ 26 :=
    lt_trans (Nat.add_lt_add hh.x0 hfive) (by decide)
  rw [o.w32_eq _ (lt_trans hfive (by decide)), o.w32_eq _ (two_limbs_lt hlast)]
  have hsecond : h.x1 % 2 ^ 26 + (h.x0 + e4 / 2 ^ 26 * 5) / 2 ^ 26 < 2 ^ 26 := by
    rcases htop with hnone | hlow
    · rw [hnone, Nat.zero_mul, Nat.add_zero, Nat.div_eq_of_lt hh.x0, Nat.add_zero]
      exact limb_lt h.x1
    · exact lt_trans (Nat.add_lt_add hlow (limb_carry_lt hlast)) (by decide)
  rw [o.w32_eq _ (lt_trans hsecond (by decide))]
  refine ⟨⟨limb_lt _, hsecond, limb_lt e2, limb_lt e3, limb_lt e4⟩, ?_⟩
  exact multiples_modEq (carried_value he2.symm he3.symm he4.symm rfl)

theorem and_ones (hx : x < 2 ^ 26) : x &&& (2 ^ 32 - 1) = x := by
  rw [Nat.and_two_pow_sub_one_eq_mod]
  omega

theorem select_zero (hh : h.Small) (g : Limbs) : Overflow.select 0 h g = h := by
  unfold Overflow.select
  simp only [Nat.sub_zero, Nat.and_zero, Nat.or_zero, and_ones hh.x0, and_ones hh.x1,
    and_ones hh.x2, and_ones hh.x3, and_ones hh.x4]

theorem select_ones (h : Limbs) {g : Limbs} (hg : g.Small) : Overflow.select (2 ^ 32 - 1) h g = g := by
  unfold Overflow.select
  simp only [Nat.sub_self, Nat.and_zero, Nat.zero_or, and_ones hg.x0, and_ones hg.x1,
    and_ones hg.x2, and_ones hg.x3, and_ones hg.x4]

theorem small_value_lt (hh : h.Small) : h.value < 2 ^ 130 := by
  obtain ⟨b0, b1, b2, b3, b4⟩ := hh
  unfold Limbs.value
  omega

theorem less_prime {v g : Nat} (hv : v < 2 ^ 130) (hg : g + 2 ^ 130 = v + 5) : g = v % poly1305Prime := by
  have hge : poly1305Prime ≤ v := by
    unfold poly1305Prime
    omega
  have hlt : v - poly1305Prime < poly1305Prime := by
    unfold poly1305Prime
    omega
  rw [Nat.mod_eq_sub_mod hge, Nat.mod_eq_of_lt hlt]
  unfold poly1305Prime
  omega

theorem under_prime (hv : v + 5 < 2 ^ 130) : v < poly1305Prime := by
  unfold poly1305Prime
  omega

theorem mask_over (hg : g < 2 * 2 ^ 26) (hcarry : 2 ^ 26 ≤ g) : Overflow.sub32 g (2 ^ 26) = g - 2 ^ 26 ∧
      Overflow.sub32 (Overflow.sub32 g (2 ^ 26) / 2 ^ 31) 1 = 2 ^ 32 - 1 := by
  unfold Overflow.sub32
  omega

theorem mask_under (hcarry : g < 2 ^ 26) : Overflow.sub32 (Overflow.sub32 g (2 ^ 26) / 2 ^ 31) 1 = 0 := by
  unfold Overflow.sub32
  omega

theorem reduce_spec (hh : h.Small) : (o.reduce h).Small ∧ (o.reduce h).value = h.value % poly1305Prime := by
  unfold Overflow.reduce
  simp only [and_limbMask, Nat.shiftRight_eq_div_pow]
  have b0 : h.x0 + 5 < 2 * 2 ^ 26 := lt_trans (Nat.add_lt_add_right hh.x0 5) (by decide)
  rw [o.w32_eq _ (two_limbs_lt b0)]
  have b1 := limb_carried_lt hh.x1 (limb_carry_lt b0)
  rw [o.w32_eq _ (two_limbs_lt b1)]
  have b2 := limb_carried_lt hh.x2 (limb_carry_lt b1)
  rw [o.w32_eq _ (two_limbs_lt b2)]
  have b3 := limb_carried_lt hh.x3 (limb_carry_lt b2)
  rw [o.w32_eq _ (two_limbs_lt b3)]
  have b4 := limb_carried_lt hh.x4 (limb_carry_lt b3)
  rw [o.w32_eq _ (two_limbs_lt b4), show (1 <<< 26 : Nat) = 2 ^ 26 from rfl]
  generalize hg0 : h.x0 + 5 = g0 at *
  generalize hg1 : h.x1 + g0 / 2 ^ 26 = g1 at *
  generalize hg2 : h.x2 + g1 / 2 ^ 26 = g2 at *
  generalize hg3 : h.x3 + g2 / 2 ^ 26 = g3 at *
  generalize hg4 : h.x4 + g3 / 2 ^ 26 = g4 at *
  have hvalue : g0 % 2 ^ 26 + 2 ^ 26 * (g1 % 2 ^ 26) + 2 ^ 52 * (g2 % 2 ^ 26) +
      2 ^ 78 * (g3 % 2 ^ 26) + 2 ^ 104 * g4 = h.value + 5 := by
    rw [carried_low hg1.symm hg2.symm hg3.symm hg4.symm, ← hg0]
    unfold Limbs.value
    ring
  by_cases hcarry : 2 ^ 26 ≤ g4
  · obtain ⟨hdiff, hmask⟩ := mask_over b4 hcarry
    have htop : g4 - 2 ^ 26 < 2 ^ 26 := Nat.sub_lt_right_of_lt_add hcarry (lt_of_lt_of_eq b4 (by decide))
    have hg : (Limbs.mk (g0 % 2 ^ 26) (g1 % 2 ^ 26) (g2 % 2 ^ 26) (g3 % 2 ^ 26) (g4 - 2 ^ 26)).Small :=
      ⟨limb_lt g0, limb_lt g1, limb_lt g2, limb_lt g3, htop⟩
    rw [hmask, hdiff, select_ones h hg]
    refine ⟨hg, less_prime (small_value_lt hh) ?_⟩
    rw [← hvalue]
    unfold Limbs.value
    dsimp only
    rw [Nat.add_assoc _ (2 ^ 104 * (g4 - 2 ^ 26)), show (2 ^ 130 : Nat) = 2 ^ 104 * 2 ^ 26 by decide,
      ← Nat.mul_add, Nat.sub_add_cancel hcarry]
  · have hsmall := not_le.mp hcarry
    rw [mask_under hsmall, select_zero hh _]
    have hg : (Limbs.mk (g0 % 2 ^ 26) (g1 % 2 ^ 26) (g2 % 2 ^ 26) (g3 % 2 ^ 26) g4).Small :=
      ⟨limb_lt g0, limb_lt g1, limb_lt g2, limb_lt g3, hsmall⟩
    have hlt := under_prime (lt_of_eq_of_lt hvalue.symm (small_value_lt hg))
    exact ⟨hh, (Nat.mod_eq_of_lt hlt).symm⟩

theorem leValue_store32 (hv : v < 2 ^ 32) : leValue (store32 v) = v := by
  have hlist : store32 v = [leBytes v 0, leBytes v 1, leBytes v 2, leBytes v 3] := rfl
  rw [hlist]
  simp only [leValue, leBytes, BitVec.toNat_ofNat]
  omega

def wordsValue (s : Nat × Nat × Nat × Nat) : Nat :=
  s.1 + 2 ^ 32 * s.2.1 + 2 ^ 64 * s.2.2.1 + 2 ^ 96 * s.2.2.2

theorem pack_words {x0 x1 x2 x3 x4 : Nat} : x0 + 2 ^ 26 * (x1 % 2 ^ 6) + 2 ^ 32 * (x1 / 2 ^ 6 + 2 ^ 20 * (x2 % 2 ^ 12)) +
      2 ^ 64 * (x2 / 2 ^ 12 + 2 ^ 14 * (x3 % 2 ^ 18)) +
      2 ^ 96 * (x3 / 2 ^ 18 + 2 ^ 8 * (x4 % 2 ^ 24)) + 2 ^ 128 * (x4 / 2 ^ 24) =
    x0 + 2 ^ 26 * x1 + 2 ^ 52 * x2 + 2 ^ 78 * x3 + 2 ^ 104 * x4 := by
  have s1 := Nat.mod_add_div x1 (2 ^ 6)
  have s2 := Nat.mod_add_div x2 (2 ^ 12)
  have s3 := Nat.mod_add_div x3 (2 ^ 18)
  have s4 := Nat.mod_add_div x4 (2 ^ 24)
  generalize x1 / 2 ^ 6 = c1, x1 % 2 ^ 6 = l1 at *
  generalize x2 / 2 ^ 12 = c2, x2 % 2 ^ 12 = l2 at *
  generalize x3 / 2 ^ 18 = c3, x3 % 2 ^ 18 = l3 at *
  generalize x4 / 2 ^ 24 = c4, x4 % 2 ^ 24 = l4 at *
  rw [← s1, ← s2, ← s3, ← s4]
  ring

theorem carry_words {a0 a1 a2 a3 f1 f2 f3 : Nat} (h1 : f1 = a1 + a0 / 2 ^ 32)
    (h2 : f2 = a2 + f1 / 2 ^ 32) (h3 : f3 = a3 + f2 / 2 ^ 32) :
    a0 % 2 ^ 32 + 2 ^ 32 * (f1 % 2 ^ 32) + 2 ^ 64 * (f2 % 2 ^ 32) + 2 ^ 96 * (f3 % 2 ^ 32) +
      2 ^ 128 * (f3 / 2 ^ 32) = a0 + 2 ^ 32 * a1 + 2 ^ 64 * a2 + 2 ^ 96 * a3 := by
  omega

theorem words_lt (h0 : v0 < 2 ^ 32) (h1 : v1 < 2 ^ 32) (h2 : v2 < 2 ^ 32)
    (h3 : v3 < 2 ^ 32) : v0 + 2 ^ 32 * v1 + 2 ^ 64 * v2 + 2 ^ 96 * v3 < 2 ^ 128 := by
  omega

theorem leValue_words (h0 : v0 < 2 ^ 32) (h1 : v1 < 2 ^ 32) (h2 : v2 < 2 ^ 32)
    (h3 : v3 < 2 ^ 32) : leValue (store32 v0 ++ store32 v1 ++ store32 v2 ++ store32 v3) =
      v0 + 2 ^ 32 * v1 + 2 ^ 64 * v2 + 2 ^ 96 * v3 := by
  rw [leValue_append, leValue_append, leValue_append, leValue_store32 h0, leValue_store32 h1,
    leValue_store32 h2, leValue_store32 h3]
  simp only [length_append, show ∀ v, (store32 v).length = 4 from fun _ => rfl]
  ring

theorem pad_sum_lt {w s : Nat} (hw : w < 2 ^ 32) (hs : s < 2 ^ 32) : w + s < 2 ^ 33 := by
  omega

theorem pad_carried_lt {a f : Nat} (ha : a < 2 ^ 33) (hf : f < 2 ^ 34) : a + f / 2 ^ 32 < 2 ^ 34 := by
  omega

theorem addPad_spec (hh : h.Small) {s : Nat × Nat × Nat × Nat} (s0 : s.1 < 2 ^ 32)
    (s1 : s.2.1 < 2 ^ 32) (s2 : s.2.2.1 < 2 ^ 32) (s3 : s.2.2.2 < 2 ^ 32) :
    leValue (o.addPad h s) = (h.value + wordsValue s) % 2 ^ 128 := by
  have d1 : h.x1 / 2 ^ 6 < 2 ^ 20 := Nat.div_lt_of_lt_mul hh.x1
  have d2 : h.x2 / 2 ^ 12 < 2 ^ 14 := Nat.div_lt_of_lt_mul hh.x2
  have d3 : h.x3 / 2 ^ 18 < 2 ^ 8 := Nat.div_lt_of_lt_mul hh.x3
  have l0 := parts_lt h.x1 hh.x0 (by decide)
  have l1 := parts_lt h.x2 d1 (by decide)
  have l2 := parts_lt h.x3 d2 (by decide)
  have l3 := parts_lt h.x4 d3 (by decide)
  unfold Overflow.addPad
  simp only [Nat.shiftRight_eq_div_pow]
  rw [or_shift h.x1 hh.x0 (by decide), or_shift h.x2 d1 (by decide), or_shift h.x3 d2 (by decide), or_shift h.x4 d3 (by decide)]
  have hpack := @pack_words h.x0 h.x1 h.x2 h.x3 h.x4
  simp only [Nat.reduceSub] at hpack l0 l1 l2 l3 ⊢
  generalize h.x0 + 2 ^ 26 * (h.x1 % 2 ^ 6) = w0 at hpack l0 ⊢
  generalize h.x1 / 2 ^ 6 + 2 ^ 20 * (h.x2 % 2 ^ 12) = w1 at hpack l1 ⊢
  generalize h.x2 / 2 ^ 12 + 2 ^ 14 * (h.x3 % 2 ^ 18) = w2 at hpack l2 ⊢
  generalize h.x3 / 2 ^ 18 + 2 ^ 8 * (h.x4 % 2 ^ 24) = w3 at hpack l3 ⊢
  have p0 := pad_sum_lt l0 s0
  have p1 := pad_sum_lt l1 s1
  have p2 := pad_sum_lt l2 s2
  have p3 := pad_sum_lt l3 s3
  have hsum33 : ∀ {x : Nat}, x < 2 ^ 33 → x < 2 ^ 64 := fun hx => lt_trans hx (by decide)
  have hsum34 : ∀ {x : Nat}, x < 2 ^ 34 → x < 2 ^ 64 := fun hx => lt_trans hx (by decide)
  have q1 := pad_carried_lt p1 (lt_trans p0 (by decide))
  have q2 := pad_carried_lt p2 q1
  have q3 := pad_carried_lt p3 q2
  rw [o.w64_eq _ (hsum33 p0), o.w64_eq _ (hsum33 p1), o.w64_eq _ (hsum33 p2),
    o.w64_eq _ (hsum33 p3), o.w64_eq _ (hsum34 q1), o.w64_eq _ (hsum34 q2), o.w64_eq _ (hsum34 q3)]
  generalize hf1 : w1 + s.2.1 + (w0 + s.1) / 2 ^ 32 = f1
  generalize hf2 : w2 + s.2.2.1 + f1 / 2 ^ 32 = f2
  generalize hf3 : w3 + s.2.2.2 + f2 / 2 ^ 32 = f3
  have hcarry := carry_words hf1.symm hf2.symm hf3.symm
  have hlow : ∀ f : Nat, f % 2 ^ 32 < 2 ^ 32 := fun f => Nat.mod_lt _ (by decide)
  rw [leValue_words (hlow _) (hlow _) (hlow _) (hlow _)]
  have hsum : h.value + wordsValue s = (w0 + s.1) % 2 ^ 32 + 2 ^ 32 * (f1 % 2 ^ 32) +
      2 ^ 64 * (f2 % 2 ^ 32) + 2 ^ 96 * (f3 % 2 ^ 32) + 2 ^ 128 * (f3 / 2 ^ 32 + h.x4 / 2 ^ 24) := by
    unfold Limbs.value wordsValue
    rw [← hpack, Nat.mul_add (2 ^ 128), ← Nat.add_assoc _ (2 ^ 128 * (f3 / 2 ^ 32)), hcarry]
    ring
  have hlt := words_lt (hlow (w0 + s.1)) (hlow f1) (hlow f2) (hlow f3)
  rw [hsum, Nat.add_mul_mod_self_left]
  exact (Nat.mod_eq_of_lt hlt).symm

/-! The key. -/

def clampedKey (key : List Byte) : Nat :=
  leValue (key.take 16) &&& 0x0ffffffc0ffffffc0ffffffc0fffffff

/-- The pad of a key: its second half. -/
def keyPad (key : List Byte) : Nat := leValue ((key.drop 16).take 16)

theorem and_word (a b c d : Nat) (ha : a < 2 ^ 32) (hc : c < 2 ^ 32) :
    (a + 2 ^ 32 * b) &&& (c + 2 ^ 32 * d) = (a &&& c) + 2 ^ 32 * (b &&& d) := by
  have hlow : ((a + 2 ^ 32 * b) &&& (c + 2 ^ 32 * d)) % 2 ^ 32 = a &&& c := by
    rw [Nat.and_mod_two_pow, Nat.add_mul_mod_self_left, Nat.add_mul_mod_self_left, Nat.mod_eq_of_lt ha, Nat.mod_eq_of_lt hc]
  have hhigh : ((a + 2 ^ 32 * b) &&& (c + 2 ^ 32 * d)) / 2 ^ 32 = b &&& d := by
    rw [Nat.and_div_two_pow, Nat.add_mul_div_left _ _ (by decide), Nat.add_mul_div_left _ _ (by decide),
      Nat.div_eq_of_lt ha, Nat.div_eq_of_lt hc, Nat.zero_add, Nat.zero_add]
  rw [← Nat.mod_add_div ((a + 2 ^ 32 * b) &&& (c + 2 ^ 32 * d)) (2 ^ 32), hlow, hhigh]

theorem poly1305Init_spec (key : List Byte) : (poly1305Init key).r.Small ∧ (poly1305Init key).r.value = clampedKey key ∧
      wordsValue (poly1305Init key).s = keyPad key := by
  have hwords := words_value key 0
  have hpad := words_value key 16
  simp only [Nat.zero_add, drop_zero] at hwords
  have h0 := load32_lt key 0
  have h1 := load32_lt key 4
  have h2 := load32_lt key 8
  have h3 := load32_lt key 12
  have r0 : load32 key 0 &&& 0x0FFFFFFF < 2 ^ 32 := lt_of_le_of_lt Nat.and_le_left h0
  have r1 : load32 key 4 &&& 0x0FFFFFFC < 2 ^ 32 := lt_of_le_of_lt Nat.and_le_left h1
  have r2 : load32 key 8 &&& 0x0FFFFFFC < 2 ^ 32 := lt_of_le_of_lt Nat.and_le_left h2
  have r3 : load32 key 12 &&& 0x0FFFFFFC < 2 ^ 32 := lt_of_le_of_lt Nat.and_le_left h3
  have hsmall := splitWords_small (load32 key 0 &&& 0x0FFFFFFF) (load32 key 4 &&& 0x0FFFFFFC)
    (load32 key 8 &&& 0x0FFFFFFC) r3
  have hvalue := splitWords_value (load32 key 12 &&& 0x0FFFFFFC) r0 r1 r2
  have htop : (splitWords (load32 key 0 &&& 0x0FFFFFFF) (load32 key 4 &&& 0x0FFFFFFC)
      (load32 key 8 &&& 0x0FFFFFFC) (load32 key 12 &&& 0x0FFFFFFC)).x4 &&& limbMask =
      (splitWords (load32 key 0 &&& 0x0FFFFFFF) (load32 key 4 &&& 0x0FFFFFFC)
      (load32 key 8 &&& 0x0FFFFFFC) (load32 key 12 &&& 0x0FFFFFFC)).x4 := by
    rw [and_limbMask, Nat.mod_eq_of_lt hsmall.x4]
  unfold poly1305Init
  dsimp only
  rw [htop]
  refine ⟨hsmall, ?_, hpad⟩
  have hmask : (0x0ffffffc0ffffffc0ffffffc0fffffff : Nat) =
      0x0FFFFFFF + 2 ^ 32 * (0x0FFFFFFC + 2 ^ 32 * (0x0FFFFFFC + 2 ^ 32 * 0x0FFFFFFC)) := rfl
  have hnested : leValue (key.take 16) = load32 key 0 + 2 ^ 32 * (load32 key 4 +
      2 ^ 32 * (load32 key 8 + 2 ^ 32 * load32 key 12)) := by
    rw [← hwords]
    ring
  unfold clampedKey
  rw [hmask, hnested, and_word _ _ _ _ h0 (by decide), and_word _ _ _ _ h1 (by decide), and_word _ _ _ _ h2 (by decide)]
  change (splitWords (load32 key 0 &&& 0x0FFFFFFF) (load32 key 4 &&& 0x0FFFFFFC)
    (load32 key 8 &&& 0x0FFFFFFC) (load32 key 12 &&& 0x0FFFFFFC)).value = _
  rw [hvalue]
  ring

theorem last_block {rest : List Byte} (hlen : rest.length < 16) :
    leValue ((rest ++ 1 :: replicate (15 - rest.length) 0).take 16) = leValue (rest ++ [1]) := by
  rw [take_of_length_le (by simp; omega), append_cons, leValue_append, leValue_zeros]
  rfl

theorem accumulate_append (r acc : Nat) (blocks more : List Nat) :
    accumulate r acc (blocks ++ more) = accumulate r (accumulate r acc blocks) more :=
  foldl_append

def finishBlocks (r : Limbs) (absorbed : Limbs × List Byte) : Limbs :=
  if absorbed.2.length > 0 then
    o.poly1305Block r absorbed.1 (absorbed.2 ++ 1 :: replicate (15 - absorbed.2.length) 0) 0
  else absorbed.1

theorem finish_spec {r : Limbs} (hr : r.Small) {absorbed : Limbs × List Byte}
    (hh : absorbed.1.Loose) (hlen : absorbed.2.length < 16) :
    (finishBlocks o r absorbed).Loose ∧ (finishBlocks o r absorbed).value ≡
      accumulate r.value absorbed.1.value (macBlocks absorbed.2) [MOD poly1305Prime] := by
  unfold finishBlocks
  split
  · next hsome =>
    obtain ⟨hloose, hvalue⟩ := block_spec o hr hh
      (absorbed.2 ++ 1 :: replicate (15 - absorbed.2.length) 0) (.inl rfl)
    refine ⟨hloose, ?_⟩
    have hone : macBlocks absorbed.2 = [leValue (absorbed.2 ++ [1])] := by
      have hne : absorbed.2 ≠ [] := List.length_pos_iff.mp hsome
      unfold macBlocks
      rw [dif_neg hne, take_of_length_le (le_of_lt hlen), drop_of_length_le (le_of_lt hlen)]
      unfold macBlocks
      rfl
    rw [hone]
    rw [last_block hlen] at hvalue
    exact hvalue
  · next hnone =>
    have hnil : absorbed.2 = [] := length_eq_zero_iff.mp (by omega)
    rw [hnil]
    unfold macBlocks
    exact ⟨hh, rfl⟩

theorem tag_spec (key : List Byte) (pieces : List (List Byte)) : leValue (o.poly1305Tag key pieces) =
      (polySum (clampedKey key) (macBlocks pieces.flatten) % poly1305Prime + keyPad key) % 2 ^ 128 := by
  obtain ⟨hr, hclamp, hpad⟩ := poly1305Init_spec key
  have hzero : (Limbs.mk 0 0 0 0 0).Loose := by constructor <;> decide
  have hnone : (poly1305Init key).buffer.length < 16 := Nat.zero_lt_succ _
  obtain ⟨hloose, hrest, blocks, hblocks, hacc⟩ := absorb_spec o hr hzero pieces.flatten
  have hmsg : pieces.foldl o.poly1305Update (poly1305Init key) =
      { poly1305Init key with
        h := (o.absorb (poly1305Init key).r ⟨0, 0, 0, 0, 0⟩ pieces.flatten).1
        buffer := (o.absorb (poly1305Init key).r ⟨0, 0, 0, 0, 0⟩ pieces.flatten).2 } :=
    updates_eq o hr hzero hnone pieces
  unfold Overflow.poly1305Tag
  rw [hmsg, hblocks]
  generalize o.absorb (poly1305Init key).r ⟨0, 0, 0, 0, 0⟩ pieces.flatten = absorbed at hloose hrest hacc ⊢
  obtain ⟨hlast, hvalue⟩ := finish_spec o hr hloose hrest
  have htotal : (finishBlocks o (poly1305Init key).r absorbed).value ≡
      polySum (clampedKey key) (blocks ++ macBlocks absorbed.2) [MOD poly1305Prime] := by
    rw [← hclamp, ← accumulate_zero, accumulate_append]
    exact hvalue.trans (accumulate_congr hacc _)
  obtain ⟨hsmall, hcarried⟩ := carryFinal_spec o hlast
  obtain ⟨hreduced, hmod⟩ := reduce_spec o hsmall
  have htag := addPad_spec o hreduced (s := (poly1305Init key).s) (load32_lt key 16)
    (load32_lt key 20) (load32_lt key 24) (load32_lt key 28)
  rw [hmod, hpad] at htag
  exact htag.trans (congrArg (fun x => (x + keyPad key) % 2 ^ 128) (hcarried.trans htotal))

end

/-! The construction. -/

theorem store32_length (v : Nat) : (store32 v).length = 4 := rfl

theorem chacha20Block_length (key nonce : List Byte) (n : Nat) : (chacha20Block key n nonce).length = chacha20BlockSize := by
  unfold chacha20Block
  rw [length_flatMap, map_congr_left fun v _ => store32_length v.toNat, map_const',
    Vector.length_toList]
  rfl

theorem chacha20Loop_step (h : data ≠ []) : chacha20Loop key nonce n data =
      (n :: (chacha20Loop key nonce ((n + 1) % 2 ^ 32) (data.drop chacha20BlockSize)).1,
        zipWith (· ^^^ ·) (data.take chacha20BlockSize) (chacha20Block key n nonce) ++
          (chacha20Loop key nonce ((n + 1) % 2 ^ 32) (data.drop chacha20BlockSize)).2) := by
  conv_lhs => unfold chacha20Loop
  rw [dif_neg h]

theorem chacha20Loop_nil (key nonce : List Byte) (n : Nat) : chacha20Loop key nonce n [] = ([], []) := by
  unfold chacha20Loop
  rfl

theorem xor_twice {l k : List Byte} (h : l.length ≤ k.length) : zipWith (· ^^^ ·) (zipWith (· ^^^ ·) l k) k = l := by
  induction l generalizing k with
  | nil => rfl
  | cons b l ih =>
    cases k with
    | nil => cases h
    | cons c k =>
      simp only [zipWith_cons_cons, BitVec.xor_assoc, BitVec.xor_self, BitVec.xor_zero]
      rw [ih (Nat.le_of_succ_le_succ h)]

theorem chacha20Loop_back (key nonce : List Byte) (n : Nat) (data : List Byte) :
    (chacha20Loop key nonce n data).2.length = data.length ∧
      (chacha20Loop key nonce n (chacha20Loop key nonce n data).2).2 = data := by
  induction n, data using chacha20Loop.induct key nonce with
  | case1 n =>
    rw [chacha20Loop_nil, chacha20Loop_nil]
    exact ⟨rfl, rfl⟩
  | case2 n data h ih =>
    obtain ⟨hlen, hback⟩ := ih
    have hchunk : (zipWith (· ^^^ ·) (data.take chacha20BlockSize)
        (chacha20Block key n nonce)).length = min chacha20BlockSize data.length := by
      rw [length_zipWith, chacha20Block_length, length_take]
      omega
    have hpos : 0 < data.length := List.length_pos_iff.mpr h
    rw [chacha20Loop_step h]
    dsimp only
    generalize hrest : (chacha20Loop key nonce ((n + 1) % 2 ^ 32) (data.drop chacha20BlockSize)).2 = rest
      at hlen hback ⊢
    generalize hxor : zipWith (· ^^^ ·) (data.take chacha20BlockSize) (chacha20Block key n nonce) =
      chunk at hchunk ⊢
    rw [length_drop] at hlen
    have hsize : (chunk ++ rest).length = data.length := by
      rw [length_append, hchunk, hlen]
      omega
    refine ⟨hsize, ?_⟩
    have hne : chunk ++ rest ≠ [] := by
      rw [← length_pos_iff, hsize]
      exact hpos
    have hsplit : (chunk ++ rest).take chacha20BlockSize = chunk ∧
        (chunk ++ rest).drop chacha20BlockSize = rest := by
      rcases Nat.lt_or_ge data.length chacha20BlockSize with hshort | hlong
      · have hnil : rest = [] := length_eq_zero_iff.mp (by omega)
        rw [hnil, append_nil]
        exact ⟨take_of_length_le (by omega), drop_of_length_le (by omega)⟩
      · have hfull : chunk.length = chacha20BlockSize := by omega
        exact ⟨take_left' hfull, drop_left' hfull⟩
    rw [chacha20Loop_step hne]
    dsimp only
    rw [hsplit.1, hsplit.2, hback, ← hxor, xor_twice (by
      rw [length_take, chacha20Block_length]
      omega), take_append_drop]

theorem chacha20Loop_counters {key nonce : List Byte} {n : Nat} {data : List Byte}
    (hfits : n + (data.length + 63) / 64 ≤ 2 ^ 32) :
    (chacha20Loop key nonce n data).1 = List.range' n ((data.length + 63) / 64) := by
  induction n, data using chacha20Loop.induct key nonce with
  | case1 n =>
    rw [chacha20Loop_nil]
    rfl
  | case2 n data h ih =>
    have hpos : 0 < data.length := List.length_pos_iff.mpr h
    have hblocks : (data.length + 63) / 64 = ((data.drop chacha20BlockSize).length + 63) / 64 + 1 := by
      rw [length_drop, chacha20BlockSize]
      omega
    rw [chacha20Loop_step h, hblocks, range'_succ]
    rw [hblocks] at hfits
    by_cases hrest : data.drop chacha20BlockSize = []
    · rw [hrest, chacha20Loop_nil]
      rfl
    · have hmore : 0 < (data.drop chacha20BlockSize).length := List.length_pos_iff.mpr hrest
      have hnext : (n + 1) % 2 ^ 32 = n + 1 := Nat.mod_eq_of_lt (by omega)
      rw [hnext] at ih ⊢
      rw [ih (by omega)]

theorem foldl_or_zero (f : Nat → Byte) (n : Nat) :
    (range n).foldl (fun diff i => diff ||| f i) 0 = 0 ↔ ∀ i < n, f i = 0 := by
  induction n with
  | zero => simp
  | succ n ih =>
    rw [range_succ, foldl_append, foldl_cons, foldl_nil]
    refine BitVec.or_eq_zero_iff.trans ⟨?_, fun hall => ?_⟩
    · rintro ⟨hbelow, hlast⟩ i hi
      rcases Nat.lt_succ_iff_lt_or_eq.mp hi with hlt | rfl
      · exact ih.mp hbelow i hlt
      · exact hlast
    · exact ⟨ih.mpr fun i hi => hall i (Nat.lt_succ_of_lt hi), hall n (Nat.lt_succ_self n)⟩

theorem constantTimeCompare_eq {a b : List Byte} (ha : a.length = 16) (hb : b.length = 16) :
    constantTimeCompare a b = 0 ↔ a = b := by
  have hzero : constantTimeCompare a b = 0 ↔ ∀ i < 16, a.getD i 0 ^^^ b.getD i 0 = 0 := by
    rw [← foldl_or_zero]
    unfold constantTimeCompare
    split
    · next h => exact ⟨fun _ => h, fun _ => rfl⟩
    · next h => exact ⟨nofun, fun heq => absurd heq h⟩
  rw [hzero]
  constructor
  · intro hsame
    refine ext_getElem (ha.trans hb.symm) fun i hi hj => ?_
    have h := BitVec.xor_eq_zero_iff.mp (hsame i (ha ▸ hi))
    simpa [hi, hj] using h
  · rintro rfl i _
    exact BitVec.xor_self

theorem tag_length (o : Overflow) (key : List Byte) (pieces : List (List Byte)) : (o.poly1305Tag key pieces).length = 16 := rfl

/-- A byte of a text under the keystream: that of its place in its block, the blocks counted
from 1. -/
def streamByte (key nonce text : List Byte) (i : Nat) : Byte :=
  text.getD i 0 ^^^ (chacha20Block key (1 + i / 64) nonce).getD (i % 64) 0

/-- What is authenticated: both texts, each with zeros up to a whole block, and their lengths. -/
def aeadMessage (aad ct : List Byte) : List Byte :=
  aad ++ replicate ((16 - aad.length % 16) % 16) 0 ++
    (ct ++ replicate ((16 - ct.length % 16) % 16) 0) ++
    (range 8).map (fun i => BitVec.ofNat 8 (aad.length / 256 ^ i)) ++
    (range 8).map (fun i => BitVec.ofNat 8 (ct.length / 256 ^ i))

/-- The tag as a number: the polynomial of the message under the first half of the key of
block 0, and the second half of that key. -/
def aeadTag (key nonce aad ct : List Byte) : Nat :=
  let oneTime := (chacha20Block key 0 nonce).take 32
  (polySum (clampedKey oneTime) (macBlocks (aeadMessage aad ct)) % poly1305Prime + keyPad oneTime) %
    2 ^ 128

/-- What a call that succeeds computes: the text under the keystream, the tag of the
ciphertext, and no block but those two use. -/
structure AeadComputed (key nonce aad text ct : List Byte) (call : AeadCall) : Prop where
  length : call.out.length = text.length
  stream : ∀ i < text.length, call.out.getD i 0 = streamByte key nonce text i
  tagLength : call.tag.length = 16
  tagged : leValue call.tag = aeadTag key nonce aad ct
  blocks : List.Perm call.counters (0 :: List.range' 1 ((text.length + 63) / 64))

/-- The construction is right: decryption undoes encryption, the tag is that of the
polynomial, a wrong tag changes nothing, and no call asks for a block twice. -/
structure AeadSound : Prop where
  roundTrip : ∀ key nonce aad plaintext ciphertext tag buffer : List Byte,
    1 + (plaintext.length + 63) / 64 ≤ 2 ^ 32 →
    let sealed := chacha20Poly1305Encrypt key nonce aad plaintext ciphertext tag
    let opened := chacha20Poly1305Decrypt key nonce aad sealed.out sealed.tag buffer
    sealed.rc = 0 ∧ opened.rc = 0 ∧ opened.out = plaintext
  /-- Whatever an overflow would give, so none happens. -/
  mac : ∀ (o : Overflow) (key : List Byte) (pieces : List (List Byte)),
    (o.poly1305Tag key pieces).length = 16 ∧
    leValue (o.poly1305Tag key pieces) =
      (polySum (clampedKey key) (macBlocks pieces.flatten) % poly1305Prime + keyPad key) % 2 ^ 128
  /-- The tag a received one is compared with. -/
  recomputed : ∀ key nonce aad ciphertext : List Byte,
    (computeAeadTag key nonce aad ciphertext).length = 16 ∧
      leValue (computeAeadTag key nonce aad ciphertext) = aeadTag key nonce aad ciphertext
  seals : ∀ key nonce aad plaintext ciphertext tag : List Byte,
    let call := chacha20Poly1305Encrypt key nonce aad plaintext ciphertext tag
    call.rc = 0 → AeadComputed key nonce aad plaintext call.out call
  opens : ∀ key nonce aad ciphertext tag plaintext : List Byte, tag.length = 16 →
    let call := chacha20Poly1305Decrypt key nonce aad ciphertext tag plaintext
    call.rc = 0 → AeadComputed key nonce aad ciphertext ciphertext call
  failsClosed : ∀ key nonce aad ciphertext tag plaintext : List Byte, tag.length = 16 →
    tag ≠ computeAeadTag key nonce aad ciphertext →
    (chacha20Poly1305Decrypt key nonce aad ciphertext tag plaintext).rc ≠ 0 ∧
      (chacha20Poly1305Decrypt key nonce aad ciphertext tag plaintext).out = plaintext
  counters : ∀ key nonce aad input tag output : List Byte,
    (chacha20Poly1305Encrypt key nonce aad input output tag).counters.Nodup ∧
      (chacha20Poly1305Decrypt key nonce aad input tag output).counters.Nodup

/-- Byte `i` of a pass that starts at block `n`. -/
theorem chacha20Loop_stream (key nonce : List Byte) (n : Nat) (data : List Byte)
    (hfits : n + (data.length + 63) / 64 ≤ 2 ^ 32) :
    ∀ i < data.length, (chacha20Loop key nonce n data).2.getD i 0 =
      data.getD i 0 ^^^ (chacha20Block key (n + i / 64) nonce).getD (i % 64) 0 := by
  induction n, data using chacha20Loop.induct key nonce with
  | case1 n =>
    intro i hi
    exact absurd hi (Nat.not_lt_zero i)
  | case2 n data h ih =>
    intro i hi
    have hrestLen : (data.drop chacha20BlockSize).length = data.length - 64 := length_drop
    have hchunk : (zipWith (· ^^^ ·) (data.take chacha20BlockSize)
        (chacha20Block key n nonce)).length = min 64 data.length := by
      rw [length_zipWith, chacha20Block_length, length_take, chacha20BlockSize]
      omega
    rw [chacha20Loop_step h]
    dsimp only
    by_cases hin : i < 64
    · -- the byte is in this block
      have hblock : i < (chacha20Block key n nonce).length := by
        rw [chacha20Block_length]
        exact hin
      have htake : i < (data.take chacha20BlockSize).length := by
        rw [length_take, chacha20BlockSize]
        omega
      have hzip : i < (zipWith (· ^^^ ·) (data.take chacha20BlockSize)
          (chacha20Block key n nonce)).length := by
        omega
      rw [Nat.div_eq_of_lt hin, Nat.mod_eq_of_lt hin, show n + 0 = n from rfl, getD_append _ _ _ _ hzip,
        getD_eq_getElem _ _ hzip, getElem_zipWith, getD_eq_getElem _ _ hi,
        getD_eq_getElem _ _ hblock, getElem_take]
    · -- it is in a later one, and there is a counter for that one
      have hnext : (n + 1) % 2 ^ 32 = n + 1 := Nat.mod_eq_of_lt (by omega)
      have hlater := ih (by rw [hnext, hrestLen]; omega) (i - 64) (by omega)
      rw [hnext] at hlater ⊢
      rw [getD_append_right _ _ _ _ (by omega), hchunk,
        show i - min 64 data.length = i - 64 by omega, hlater]
      have hdiv : n + 1 + (i - 64) / 64 = n + i / 64 := by omega
      have hmod : (i - 64) % 64 = i % 64 := by omega
      have hback : chacha20BlockSize + (i - 64) = i := by
        rw [chacha20BlockSize]
        omega
      rw [hdiv, hmod, getD_eq_getElem?_getD, List.getElem?_drop, hback,
        ← getD_eq_getElem?_getD]

/-- A pass that the counter has room for, from block 1. -/
theorem chacha20Encrypt_spec
    (h : chacha20Encrypt key 1 nonce data = some (counters, out)) :
    out.length = data.length ∧ (∀ i < data.length, out.getD i 0 = streamByte key nonce data i) ∧
      counters = List.range' 1 ((data.length + 63) / 64) := by
  unfold chacha20Encrypt at h
  split at h
  · next hnil =>
    cases h
    rw [hnil]
    exact ⟨rfl, fun i hi => absurd hi (Nat.not_lt_zero i), rfl⟩
  · split at h
    · cases h
    · next hfits =>
      have hloop : chacha20Loop key nonce 1 data = (counters, out) := Option.some.inj h
      have hlength := (chacha20Loop_back key nonce 1 data).1
      have hstream := chacha20Loop_stream key nonce 1 data (not_lt.mp hfits)
      have hcounters := @chacha20Loop_counters key nonce 1 data (not_lt.mp hfits)
      rw [hloop] at hlength hstream hcounters
      exact ⟨hlength, hstream, hcounters⟩

/-- The five updates of the code are the message. -/
theorem aeadMessage_pieces (aad ct : List Byte) :
    [aad, pad16 aad.length, ct, pad16 ct.length, store64 aad.length ++ store64 ct.length].flatten =
      aeadMessage aad ct := by
  simp only [flatten_cons, flatten_nil, append_nil, aeadMessage, append_assoc]
  rfl

theorem computeAeadTag_spec (key nonce aad ct : List Byte) :
    (computeAeadTag key nonce aad ct).length = 16 ∧
      leValue (computeAeadTag key nonce aad ct) = aeadTag key nonce aad ct := by
  refine ⟨tag_length _ _ _, ?_⟩
  unfold computeAeadTag aeadTag
  rw [tag_spec, aeadMessage_pieces]

theorem chacha20Encrypt_fits (h : n + (data.length + 63) / 64 ≤ 2 ^ 32) :
    chacha20Encrypt key n nonce data = some (chacha20Loop key nonce n data) := by
  unfold chacha20Encrypt
  split
  · next hnil => rw [hnil, chacha20Loop_nil]
  · rw [if_neg (by omega)]

/-- The blocks of a pass over the data are distinct, and block 0 is none of them. -/
theorem chacha20Encrypt_counters
    (h : chacha20Encrypt key 1 nonce data = some (counters, out)) :
    counters.Nodup ∧ 0 ∉ counters := by
  rw [(chacha20Encrypt_spec h).2.2]
  exact ⟨nodup_range', fun hmem => by simp at hmem⟩

theorem encrypt_computes (key nonce aad plaintext ciphertext tag : List Byte)
    (hrc : (chacha20Poly1305Encrypt key nonce aad plaintext ciphertext tag).rc = 0) :
    AeadComputed key nonce aad plaintext
      (chacha20Poly1305Encrypt key nonce aad plaintext ciphertext tag).out
      (chacha20Poly1305Encrypt key nonce aad plaintext ciphertext tag) := by
  revert hrc
  unfold chacha20Poly1305Encrypt
  split
  · exact fun hrc => absurd hrc (show (-1 : Int) ≠ 0 by decide)
  · next counters out hout =>
    intro _
    obtain ⟨hlength, hstream, hcounters⟩ := chacha20Encrypt_spec hout
    obtain ⟨htagLength, htag⟩ := computeAeadTag_spec key nonce aad out
    refine ⟨hlength, hstream, htagLength, htag, ?_⟩
    rw [← hcounters]
    exact perm_append_singleton 0 counters

theorem decrypt_computes {tag : List Byte} (key nonce aad ciphertext plaintext : List Byte)
    (hlen : tag.length = 16)
    (hrc : (chacha20Poly1305Decrypt key nonce aad ciphertext tag plaintext).rc = 0) :
    AeadComputed key nonce aad ciphertext ciphertext
      (chacha20Poly1305Decrypt key nonce aad ciphertext tag plaintext) := by
  obtain ⟨htagLength, htag⟩ := computeAeadTag_spec key nonce aad ciphertext
  revert hrc
  unfold chacha20Poly1305Decrypt
  split
  · exact fun hrc => absurd hrc (show (-1 : Int) ≠ 0 by decide)
  · next hsame =>
    have htagged : computeAeadTag key nonce aad ciphertext = tag :=
      (constantTimeCompare_eq htagLength hlen).mp (not_not.mp hsame)
    split
    · exact fun hrc => absurd hrc (show (-1 : Int) ≠ 0 by decide)
    · next counters out hout =>
      intro _
      obtain ⟨hlength, hstream, hcounters⟩ := chacha20Encrypt_spec hout
      refine ⟨hlength, hstream, hlen, ?_, ?_⟩
      · rw [← htagged]
        exact htag
      · rw [← hcounters]

/-- The code computes the construction: the keystream from block 1 on, the tag under the key
of block 0, and decryption as the inverse that refuses any other tag. -/
theorem chacha20_poly1305_sound : AeadSound := by
  refine ⟨?_, fun o key pieces => ⟨tag_length o key pieces, tag_spec o key pieces⟩, computeAeadTag_spec,
    encrypt_computes, fun key nonce aad ciphertext _ plaintext hlen hrc =>
      decrypt_computes key nonce aad ciphertext plaintext hlen hrc, ?_, ?_⟩
  · intro key nonce aad plaintext ciphertext tag buffer hfits
    obtain ⟨hlen, hback⟩ := chacha20Loop_back key nonce 1 plaintext
    have hsealed : chacha20Poly1305Encrypt key nonce aad plaintext ciphertext tag =
        ⟨0, (chacha20Loop key nonce 1 plaintext).2,
          computeAeadTag key nonce aad (chacha20Loop key nonce 1 plaintext).2,
          (chacha20Loop key nonce 1 plaintext).1 ++ [0]⟩ := by
      unfold chacha20Poly1305Encrypt
      rw [chacha20Encrypt_fits hfits]
    have hequal : constantTimeCompare
        (computeAeadTag key nonce aad (chacha20Loop key nonce 1 plaintext).2)
        (computeAeadTag key nonce aad (chacha20Loop key nonce 1 plaintext).2) = 0 :=
      (constantTimeCompare_eq (tag_length _ _ _) (tag_length _ _ _)).mpr rfl
    dsimp only
    rw [hsealed]
    unfold chacha20Poly1305Decrypt
    rw [if_neg (not_not.mpr hequal), chacha20Encrypt_fits (by rw [hlen]; exact hfits)]
    exact ⟨rfl, rfl, hback⟩
  · intro key nonce aad ciphertext tag plaintext htag hne
    have hdiff : constantTimeCompare (computeAeadTag key nonce aad ciphertext) tag ≠ 0 :=
      fun hequal => hne ((constantTimeCompare_eq (tag_length _ _ _) htag).mp hequal).symm
    unfold chacha20Poly1305Decrypt
    rw [if_pos hdiff]
    exact ⟨(by decide : (-1 : Int) ≠ 0), rfl⟩
  · intro key nonce aad input tag output
    constructor
    · unfold chacha20Poly1305Encrypt
      split
      · exact nodup_nil
      · next counters out hout =>
        obtain ⟨hnodup, hzero⟩ := chacha20Encrypt_counters hout
        rw [nodup_append]
        refine ⟨hnodup, nodup_singleton 0, fun a ha b hb => ?_⟩
        rw [mem_singleton.mp hb]
        rintro rfl
        exact hzero ha
    · unfold chacha20Poly1305Decrypt
      split
      · exact nodup_singleton 0
      · split
        · exact nodup_singleton 0
        · next counters out hout =>
          obtain ⟨hnodup, hzero⟩ := chacha20Encrypt_counters hout
          exact nodup_cons.mpr ⟨hzero, hnodup⟩

end Proofs

end CapyOS
