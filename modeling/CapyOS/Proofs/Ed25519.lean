import CapyOS.Security.Ed25519

namespace CapyOS.Proofs
open Lib BitVec

theorem load_top (b : Bytes) (o n : Nat) : load b o (n + 1) = load b o n + 256 ^ n * (b (o + n)).toNat := by
  induction n generalizing o with
  | zero => simp [load]
  | succ n ih =>
    rw [load, ih (o + 1), load, Nat.pow_succ, Nat.add_right_comm o 1 n, Nat.add_assoc o n 1]
    ring

theorem load_lt_load {a b : Bytes} {n i : Nat} (hi : i < n) (hd : a i ≠ b i) (habove : ∀ j, i < j → j < n → a j = b j) :
    load a 0 n < load b 0 n ↔ (a i).toNat < (b i).toNat := by
  induction n with
  | zero => omega
  | succ n ih =>
    rw [load_top, load_top, Nat.zero_add]
    have ha := load_lt a 0 n
    have hb := load_lt b 0 n
    by_cases h : i = n
    · subst h
      have hd' : (a i).toNat ≠ (b i).toNat := fun he => hd (eq_of_toNat_eq he)
      constructor
      · intro hlt
        by_contra hge
        have := Nat.mul_le_mul_left (256 ^ i) (show (b i).toNat + 1 ≤ (a i).toNat by omega)
        rw [Nat.mul_add] at this
        omega
      · intro hlt
        have := Nat.mul_le_mul_left (256 ^ i) (show (a i).toNat + 1 ≤ (b i).toNat by omega)
        rw [Nat.mul_add] at this
        omega
    · rw [habove n (by omega) (by omega), Nat.add_lt_add_iff_right]
      exact ih (by omega) (fun j hl hu => habove j hl (by omega))

theorem top_difference (a b : Bytes) (n : Nat) :
    (∀ i < n, a i = b i) ∨ ∃ i < n, a i ≠ b i ∧ ∀ j, i < j → j < n → a j = b j := by
  induction n with
  | zero => exact .inl fun i hi => absurd hi (Nat.not_lt_zero i)
  | succ n ih =>
    by_cases h : a n = b n
    · cases ih with
      | inl hall =>
        refine .inl fun i hi => ?_
        rcases Nat.lt_succ_iff_lt_or_eq.mp hi with hlt | rfl
        · exact hall i hlt
        · exact h
      | inr hex =>
        obtain ⟨i, hi, hd, habove⟩ := hex
        refine .inr ⟨i, by omega, hd, fun j hl hu => ?_⟩
        rcases Nat.lt_succ_iff_lt_or_eq.mp hu with hlt | rfl
        · exact habove j hl hlt
        · exact h
    · exact .inr ⟨n, by omega, h, fun j hl hu => by omega⟩

/-- The difference of two bytes as the promoted subtraction computes it. -/
def byteDifference (a b : Byte) : Int := (a.toNat : Int) - b.toNat

def Flagged (d : Int) : Prop := (-128 ≤ d ∧ d < 0) ∨ 128 ≤ d

theorem shiftedDifference_bit (a b : Byte) : (1 &&& shiftedDifference a b = 1 ∧ Flagged (byteDifference a b)) ∨
    (1 &&& shiftedDifference a b = 0 ∧ ¬ Flagged (byteDifference a b)) := by
  have ha := a.isLt
  have hb := b.isLt
  have hbit : (1 &&& shiftedDifference a b).toNat =
      ((((a.toNat : Int) - b.toNat) / 128) % 256).toNat % 2 := by
    rw [toNat_and]
    change 1 &&& (shiftedDifference a b).toNat = _
    rw [Nat.one_and_eq_mod_two, shiftedDifference, toNat_ofInt, Int.shiftRight_eq_div_pow]
    rfl
  unfold Flagged byteDifference
  by_cases hodd : ((((a.toNat : Int) - b.toNat) / 128) % 256).toNat % 2 = 1
  · refine .inl ⟨eq_of_toNat_eq (by rw [hbit, hodd]; rfl), by omega⟩
  · refine .inr ⟨eq_of_toNat_eq (by rw [hbit]; simp; omega), by omega⟩

theorem walk_decided (s : Bytes) (n : Nat) {w : CanonicalWalk} (h : w.accept ||| w.reject = 1) : canonicalWalk s n w = w := by
  induction n with
  | zero => rfl
  | succ n ih => simpa [canonicalWalk, canonicalStep, h] using ih

theorem walk_accepts (s : Bytes) (n : Nat) : (canonicalWalk s n ⟨0, 0⟩).accept ≠ 0 ↔
      ∃ i < n, (∀ j, i < j → j < n → s j = edLBytes j) ∧ Flagged (byteDifference (s i) (edLBytes i)) := by
  induction n with
  | zero => simp [canonicalWalk]
  | succ n ih =>
    have hstep : canonicalStep ⟨0, 0⟩ (s n) (edLBytes n) =
        ⟨1 &&& shiftedDifference (s n) (edLBytes n), 1 &&& shiftedDifference (edLBytes n) (s n)⟩ := by
      simp [canonicalStep]
    have hlt := shiftedDifference_bit (s n) (edLBytes n)
    have hgt := shiftedDifference_bit (edLBytes n) (s n)
    have hs := (s n).isLt
    have hl := (edLBytes n).isLt
    rw [canonicalWalk, hstep]
    by_cases he : s n = edLBytes n
    · -- equal bytes decide nothing, so the walk goes on below them
      have hzero : ¬ Flagged (byteDifference (edLBytes n) (edLBytes n)) := by
        simp [Flagged, byteDifference]
      have hbit := (shiftedDifference_bit (edLBytes n) (edLBytes n)).resolve_left
        fun hf => hzero hf.2
      rw [he, hbit.1, ih]
      constructor
      · rintro ⟨i, hi, habove, hflag⟩
        refine ⟨i, by omega, fun j hl hu => ?_, hflag⟩
        rcases Nat.lt_succ_iff_lt_or_eq.mp hu with hlt | rfl
        · exact habove j hl hlt
        · exact he
      · rintro ⟨i, hi, habove, hflag⟩
        rcases Nat.lt_succ_iff_lt_or_eq.mp hi with hlt | rfl
        · exact ⟨i, hlt, fun j hl hu => habove j hl (by omega), hflag⟩
        · exact absurd (he ▸ hflag) hzero
    · -- of two different bytes at least one difference is flagged
      have hne : (s n).toNat ≠ (edLBytes n).toNat := fun h => he (eq_of_toNat_eq h)
      have hdecided : (1 &&& shiftedDifference (s n) (edLBytes n)) |||
          (1 &&& shiftedDifference (edLBytes n) (s n)) = 1 := by
        rcases hlt with ⟨h, hf⟩ | ⟨h, hf⟩ <;> rcases hgt with ⟨h', hf'⟩ | ⟨h', hf'⟩ <;>
          rw [h, h'] <;> first | rfl | (unfold Flagged byteDifference at hf hf'; omega)
      rw [walk_decided s n hdecided]
      have hflag : (1 &&& shiftedDifference (s n) (edLBytes n)) ≠ 0 ↔
          Flagged (byteDifference (s n) (edLBytes n)) := by
        rcases hlt with ⟨h, hf⟩ | ⟨h, hf⟩
        · rw [h]
          simp [hf]
        · rw [h]
          simp [hf]
      rw [hflag]
      constructor
      · exact fun hf => ⟨n, by omega, fun j hl hu => by omega, hf⟩
      · rintro ⟨i, hi, habove, hf⟩
        rcases Nat.lt_succ_iff_lt_or_eq.mp hi with hlt | rfl
        · exact absurd (habove n hlt (by omega)) he
        · exact hf

/-- `L`, the order of the prime subgroup. -/
def groupOrder : Nat := 2 ^ 252 + 27742317777372353535851937790883648493

theorem load_edLBytes : load edLBytes 0 32 = groupOrder := by decide

def FirstDifferenceFits (s : Bytes) : Prop :=
  ∀ i < 32, (∀ j, i < j → j < 32 → s j = edLBytes j) →
    -128 ≤ byteDifference (s i) (edLBytes i) ∧ byteDifference (s i) (edLBytes i) ≤ 127

/-- The second half of a signature. -/
def sHalf (signature : Bytes) : Bytes := fun i => signature (32 + i)

/-- The check of S is exact, a signature with S from the order on verifies for no
message and key, and no other is rejected before its equation is looked at. -/
structure StrictAboutS {P F : Type} (g : Ed25519Ops P F) (signature : Bytes) : Prop where
  canonical : scIsCanonical (sHalf signature) = 1 ↔ load (sHalf signature) 0 32 < groupOrder
  rejects : groupOrder ≤ load (sHalf signature) 0 32 → ∀ message publicKey,
    g.ed25519Verify (some signature) message (some publicKey) ≠ 0
  decides : load (sHalf signature) 0 32 < groupOrder → ∀ message publicKey,
    g.ed25519Verify (some signature) message (some publicKey) =
      g.verifyEquation signature message publicKey

theorem scIsCanonical_one (s : Bytes) : scIsCanonical s = 1 ↔ (canonicalWalk s 32 ⟨0, 0⟩).accept ≠ 0 := by
  unfold scIsCanonical
  split <;> simp_all

theorem canonical_iff (s : Bytes) : (scIsCanonical s = 1 ↔ load s 0 32 < groupOrder) ↔ FirstDifferenceFits s := by
  rw [scIsCanonical_one, walk_accepts, ← load_edLBytes]
  rcases top_difference s edLBytes 32 with hall | ⟨i, hi, hd, habove⟩
  · -- the order itself: neither accepted nor below
    have hload : load s 0 32 = load edLBytes 0 32 := load_congr fun i _ hu => hall i (by omega)
    have hnone : ¬ ∃ i < 32, (∀ j, i < j → j < 32 → s j = edLBytes j) ∧
        Flagged (byteDifference (s i) (edLBytes i)) := by
      rintro ⟨i, hi, -, hf⟩
      rw [hall i hi] at hf
      simp [Flagged, byteDifference] at hf
    have hfits : FirstDifferenceFits s := fun i hi _ => by simp [hall i hi, byteDifference]
    simp [hload, hnone, hfits]
  · have hs := (s i).isLt
    have hl := (edLBytes i).isLt
    have hne : (s i).toNat ≠ (edLBytes i).toNat := fun h => hd (eq_of_toNat_eq h)
    -- a byte under which all above agree is the first difference or agrees itself
    have honly : ∀ k < 32, (∀ j, k < j → j < 32 → s j = edLBytes j) → k = i ∨ s k = edLBytes k := by
      intro k hk hagree
      rcases Nat.lt_trichotomy k i with hlt | heq | hgt
      · exact absurd (hagree i hlt hi) hd
      · exact .inl heq
      · exact .inr (habove k hgt hk)
    have hwalk : (∃ k < 32, (∀ j, k < j → j < 32 → s j = edLBytes j) ∧
        Flagged (byteDifference (s k) (edLBytes k))) ↔
        Flagged (byteDifference (s i) (edLBytes i)) := by
      constructor
      · rintro ⟨k, hk, hagree, hf⟩
        rcases honly k hk hagree with rfl | heq
        · exact hf
        · simp [Flagged, byteDifference, heq] at hf
      · exact fun hf => ⟨i, hi, habove, hf⟩
    have hfits : FirstDifferenceFits s ↔ (-128 ≤ byteDifference (s i) (edLBytes i) ∧
        byteDifference (s i) (edLBytes i) ≤ 127) := by
      constructor
      · exact fun h => h i hi habove
      · intro h k hk hagree
        rcases honly k hk hagree with rfl | heq
        · exact h
        · simp [byteDifference, heq]
    rw [hwalk, hfits, load_lt_load hi hd habove]
    unfold Flagged byteDifference
    omega

theorem verify_gate {P F : Type} (g : Ed25519Ops P F) (signature : Bytes) (message : List Byte) (publicKey : Bytes) :
    g.ed25519Verify (some signature) message (some publicKey) =
      if scIsCanonical (sHalf signature) = 1 then g.verifyEquation signature message publicKey else -1 := by
  unfold Ed25519Ops.ed25519Verify sHalf scIsCanonical
  split <;> simp_all

/-- Verification is strict about the scalar exactly when its first byte that differs from the
order, from the top, differs by less than 128. -/
theorem s_checked_strictly {P F : Type} (g : Ed25519Ops P F) (signature : Bytes) :
    StrictAboutS g signature ↔ FirstDifferenceFits (sHalf signature) := by
  rw [← canonical_iff]
  constructor
  · exact fun h => h.canonical
  · intro h
    refine ⟨h, fun hge message publicKey => ?_, fun hlt message publicKey => ?_⟩
    · rw [verify_gate, if_neg fun hone => absurd (h.mp hone) (by omega)]
      decide
    · rw [verify_gate, if_pos (h.mpr hlt)]

def highS : Bytes := fun i => if i = 31 then 0x90 else 0

/-- The order with its byte 13 cleared. -/
def lowS : Bytes := fun i => if i = 13 then 0 else edLBytes i

theorem canonical_check_inexact :
    ¬ (scIsCanonical highS = 1 ↔ load highS 0 32 < groupOrder) ∧
      ¬ (scIsCanonical lowS = 1 ↔ load lowS 0 32 < groupOrder) := by decide

end CapyOS.Proofs
