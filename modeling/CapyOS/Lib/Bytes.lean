import CapyOS.Lib.Numerals

namespace CapyOS.Lib
open List

abbrev Byte := BitVec 8

/-- A buffer addressed by byte offset. Its size is the business of the code
that owns it: offsets past the end are never looked at. -/
abbrev Bytes := Nat → Byte

def zeros : Bytes := fun _ => 0

@[simp] theorem zeros_apply (i : Nat) : zeros i = 0 := rfl

/-- The value of the `n` bytes from offset `o`, least significant byte first. -/
def load (b : Bytes) (o : Nat) : Nat → Nat
  | 0 => 0
  | n + 1 => (b o).toNat + 256 * load b (o + 1) n

/-- Overwrite the `n` bytes from offset `o` with the first bytes of `src`. -/
def blit (b : Bytes) (o n : Nat) (src : Bytes) : Bytes :=
  fun i => if o ≤ i ∧ i < o + n then src (i - o) else b i

/-- The bytes of a value, least significant byte first. -/
def leBytes (v : Nat) : Bytes := fun k => BitVec.ofNat 8 (v / 256 ^ k)

def store (b : Bytes) (o n v : Nat) : Bytes := blit b o n (leBytes v)

theorem load_succ (b : Bytes) (o n : Nat) : load b o (n + 1) = (b o).toNat + 256 * load b (o + 1) n := rfl

theorem load_congr {a b : Bytes} {o n : Nat} (h : ∀ i, o ≤ i → i < o + n → a i = b i) : load a o n = load b o n := by
  induction n generalizing o with
  | zero => rfl
  | succ n ih =>
    rw [load_succ, load_succ, h o (Nat.le_refl o) (by omega), ih (fun i hl hu => h i (by omega) (by omega))]

theorem load_lt (b : Bytes) (o n : Nat) : load b o n < 256 ^ n := by
  induction n generalizing o with
  | zero => exact Nat.one_pos
  | succ n ih =>
    have ht := ih (o + 1)
    have hb := (b o).isLt
    rw [load_succ, Nat.pow_succ]
    omega

theorem load_shift (b : Bytes) (d o n : Nat) : load b (d + o) n = load (fun i => b (d + i)) o n := by
  induction n generalizing o with
  | zero => rfl
  | succ n ih =>
    rw [load_succ, load_succ, Nat.add_assoc, ih]

theorem load_leBytes (v n : Nat) : load (leBytes v) 0 n = v % 256 ^ n := by
  induction n generalizing v with
  | zero => exact (Nat.mod_one v).symm
  | succ n ih =>
    -- the tail of the bytes of `v` is the bytes of `v / 256`
    have htail : load (leBytes v) (0 + 1) n = load (leBytes (v / 256)) 0 n := by
      rw [Nat.add_comm 0 1]
      rw [load_shift]
      apply load_congr
      intro i _ _
      simp [leBytes, Nat.pow_add, Nat.div_div_eq_div_mul]
    rw [load_succ, htail, ih]
    have hhead : (leBytes v 0).toNat = v % 256 := by simp [leBytes]
    rw [hhead, Nat.pow_succ, Nat.mul_comm (256 ^ n) 256, Nat.mod_mul]

theorem load_zeros (o n : Nat) : load zeros o n = 0 := by
  induction n generalizing o with
  | zero => rfl
  | succ n ih => simp [load_succ, ih]

@[simp] theorem blit_inside {b src : Bytes} {o n k : Nat} (h : k < n) : blit b o n src (o + k) = src k := by
  simp [blit, h]

theorem blit_outside {b src : Bytes} {o n i : Nat} (h : i < o ∨ o + n ≤ i) : blit b o n src i = b i := by
  unfold blit
  rw [if_neg (by omega)]

theorem load_blit_inside {b src : Bytes} {o len k n : Nat} (h : k + n ≤ len) :
    load (blit b o len src) (o + k) n = load src k n := by
  rw [load_shift]
  apply load_congr
  intro i _ hu
  exact blit_inside (by omega)

theorem load_blit_outside {b src : Bytes} {o len p n : Nat} (h : p + n ≤ o ∨ o + len ≤ p) :
    load (blit b o len src) p n = load b p n := by
  apply load_congr
  intro i hl hu
  exact blit_outside (by omega)

theorem load_store_same (b : Bytes) (o n v : Nat) : load (store b o n v) o n = v % 256 ^ n := by
  have h := @load_blit_inside b (leBytes v) o n 0 n (by omega)
  simpa [store, load_leBytes] using h

theorem load_store_other {b : Bytes} {o n v p m : Nat} (h : p + m ≤ o ∨ o + n ≤ p) : load (store b o n v) p m = load b p m :=
  load_blit_outside h

/-- Consecutive little-endian fields, each a width in bytes and a value. -/
def pack : List (Nat × Nat) → Bytes
  | [] => zeros
  | (w, v) :: fs => fun k => if k < w then leBytes v k else pack fs (k - w)

def packWidth (fs : List (Nat × Nat)) : Nat := (fs.map Prod.fst).sum

theorem load_pack_head (w v : Nat) (fs : List (Nat × Nat)) : load (pack ((w, v) :: fs)) 0 w = v % 256 ^ w := by
  rw [← load_leBytes]
  apply load_congr
  intro i _ hu
  simp [pack, show i < w by omega]

theorem load_pack_tail {w v o n : Nat} {fs : List (Nat × Nat)} (h : w ≤ o) :
    load (pack ((w, v) :: fs)) o n = load (pack fs) (o - w) n := by
  obtain ⟨k, rfl⟩ := Nat.exists_eq_add_of_le h
  rw [load_shift, Nat.add_sub_cancel_left, show k = 0 + k by omega, load_shift (pack fs)]
  simp only [Nat.zero_add]
  apply load_congr
  intro i _ _
  simp only [pack]
  rw [if_neg (by omega), Nat.add_sub_cancel_left]

theorem load_pack_append {fs gs : List (Nat × Nat)} (o n : Nat) :
    load (pack (fs ++ gs)) (packWidth fs + o) n = load (pack gs) o n := by
  induction fs with
  | nil => simp [packWidth]
  | cons f fs ih =>
    obtain ⟨w, v⟩ := f
    have hw : packWidth ((w, v) :: fs) = w + packWidth fs := by simp [packWidth]
    rw [hw, cons_append, load_pack_tail (by omega), ← ih]
    congr 1
    omega

/-- An array of fields of one width: element `i` sits `i` widths in. -/
theorem load_pack_array {w : Nat} (vs : List Nat) (gs : List (Nat × Nat)) (i : Nat) (h : i < vs.length) :
    load (pack (vs.map (fun v => (w, v)) ++ gs)) (w * i) w = vs[i] % 256 ^ w := by
  induction vs generalizing i with
  | nil => simp at h
  | cons v vs ih =>
    cases i with
    | zero => simpa using load_pack_head w v (vs.map (fun v => (w, v)) ++ gs)
    | succ i =>
      rw [map_cons, cons_append, load_pack_tail (by rw [Nat.mul_succ]; omega)]
      have hs : w * (i + 1) - w = w * i := by rw [Nat.mul_succ]; omega
      simpa [hs] using ih i (by simpa using h)

def field16 (b : Bytes) (o : Nat) : BitVec 16 := BitVec.ofNat 16 (load b o 2)
def field32 (b : Bytes) (o : Nat) : BitVec 32 := BitVec.ofNat 32 (load b o 4)
def field64 (b : Bytes) (o : Nat) : BitVec 64 := BitVec.ofNat 64 (load b o 8)

/-- The first `n` bytes of a buffer. -/
def listBytes (b : Bytes) (n : Nat) : List Byte := (List.range n).map b

@[simp] theorem length_listBytes (b : Bytes) (n : Nat) : (listBytes b n).length = n := by
  simp [listBytes]

theorem listBytes_congr {a b : Bytes} {n : Nat} (h : ∀ i, i < n → a i = b i) : listBytes a n = listBytes b n := by
  apply map_congr_left
  intro i hi
  exact h i (List.mem_range.mp hi)

theorem field32_toNat (b : Bytes) (o : Nat) : (field32 b o).toNat = load b o 4 := by
  have h := load_lt b o 4
  simp only [field32, BitVec.toNat_ofNat]
  exact Nat.mod_eq_of_lt h

theorem field32_congr {a b : Bytes} {o : Nat} (h : ∀ i, o ≤ i → i < o + 4 → a i = b i) : field32 a o = field32 b o := by
  simp only [field32, load_congr h]

section
variable (v : Nat) (fs : List (Nat × Nat))

/-- A typed field at the front of a packed record is the value put there. -/
theorem field16_head (x : BitVec 16) : field16 (pack ((2, x.toNat) :: fs)) 0 = x := by
  simp only [field16, load_pack_head]
  apply BitVec.eq_of_toNat_eq
  have := x.isLt
  simp only [BitVec.toNat_ofNat]
  omega

theorem field32_head (x : BitVec 32) : field32 (pack ((4, x.toNat) :: fs)) 0 = x := by
  simp only [field32, load_pack_head]
  apply BitVec.eq_of_toNat_eq
  have := x.isLt
  simp only [BitVec.toNat_ofNat]
  omega

theorem field64_head (x : BitVec 64) : field64 (pack ((8, x.toNat) :: fs)) 0 = x := by
  simp only [field64, load_pack_head]
  apply BitVec.eq_of_toNat_eq
  have := x.isLt
  simp only [BitVec.toNat_ofNat]
  omega

theorem field16_tail {w o : Nat} (h : w ≤ o) : field16 (pack ((w, v) :: fs)) o = field16 (pack fs) (o - w) := by
  simp only [field16, load_pack_tail h]

theorem field32_tail {w o : Nat} (h : w ≤ o) : field32 (pack ((w, v) :: fs)) o = field32 (pack fs) (o - w) := by
  simp only [field32, load_pack_tail h]

theorem field64_tail {w o : Nat} (h : w ≤ o) : field64 (pack ((w, v) :: fs)) o = field64 (pack fs) (o - w) := by
  simp only [field64, load_pack_tail h]

end

/-- A word of a packed array of words. -/
theorem field32_array (xs : List (BitVec 32)) (gs : List (Nat × Nat)) (i : Nat) (h : i < xs.length) :
    field32 (pack (xs.map (fun x => (4, x.toNat)) ++ gs)) (4 * i) = xs[i] := by
  have hm : xs.map (fun x => (4, x.toNat)) = (xs.map BitVec.toNat).map (fun v => (4, v)) := by
    simp [map_map, Function.comp_def]
  rw [field32, hm, load_pack_array _ _ _ (by simpa using h)]
  apply BitVec.eq_of_toNat_eq
  have := (xs[i]).isLt
  simp only [BitVec.toNat_ofNat, getElem_map]
  omega

/-- Bit `i` of a bitmap: bit `i % 8` of byte `i / 8`. -/
def testBit (b : Bytes) (i : Nat) : Bool := (b (i / 8)).getLsbD (i % 8)

def setBit (b : Bytes) (i : Nat) : Bytes :=
  fun k => if k = i / 8 then b k ||| (1#8 <<< (i % 8)) else b k

def clearBit (b : Bytes) (i : Nat) : Bytes :=
  fun k => if k = i / 8 then b k &&& ~~~(1#8 <<< (i % 8)) else b k

theorem getLsbD_one_shift {i k : Nat} (hi : i < 8) (hk : k < 8) : ((1#8 <<< k : Byte).getLsbD i) = decide (i = k) := by
  rw [BitVec.getLsbD_shiftLeft, BitVec.getLsbD_one]
  by_cases h : i = k
  · subst h
    simp [hi]
  · have hne : i < k ∨ i - k ≠ 0 := by omega
    rcases hne with hlt | hsub
    · simp [h, hlt]
    · simp [h, hsub]

theorem index_eq_of_parts {i j : Nat} (hq : i / 8 = j / 8) (hr : i % 8 = j % 8) : i = j := by
  omega

theorem testBit_setBit (b : Bytes) (i j : Nat) : testBit (setBit b i) j = (decide (j = i) || testBit b j) := by
  unfold testBit setBit
  by_cases hq : j / 8 = i / 8
  · have hs := getLsbD_one_shift (Nat.mod_lt j (by decide : 0 < 8))
      (Nat.mod_lt i (by decide : 0 < 8))
    simp only [hq, if_true, BitVec.getLsbD_or, hs]
    by_cases hji : j = i
    · simp [hji]
    · have hr : j % 8 ≠ i % 8 := fun hr => hji (index_eq_of_parts hq hr)
      simp [hji, hr]
  · have hji : j ≠ i := fun h => hq (by rw [h])
    simp [hq, hji]

/-- Taking the first bits of a bitmap leaves a run of ones. -/
theorem testBit_reserved (n i : Nat) : testBit ((List.range n).foldl setBit zeros) i = decide (i < n) := by
  induction n with
  | zero => simp [testBit]
  | succ n ih =>
    rw [range_succ, foldl_append, foldl_cons, foldl_nil, testBit_setBit, ih]
    by_cases h : i = n
    · simp [h]
    · have : i < n ↔ i < n + 1 := by omega
      simp [h, this]

theorem testBit_clearBit (b : Bytes) (i j : Nat) : testBit (clearBit b i) j = (!decide (j = i) && testBit b j) := by
  unfold testBit clearBit
  by_cases hq : j / 8 = i / 8
  · have hm := Nat.mod_lt j (by decide : 0 < 8)
    have hs := getLsbD_one_shift hm (Nat.mod_lt i (by decide : 0 < 8))
    simp only [hq, if_true, BitVec.getLsbD_and, BitVec.getLsbD_not, hs, hm, decide_true, Bool.true_and]
    by_cases hji : j = i
    · simp [hji]
    · have hr : j % 8 ≠ i % 8 := fun hr => hji (index_eq_of_parts hq hr)
      simp [hji, hr]
  · have hji : j ≠ i := fun h => hq (by rw [h])
    simp [hq, hji]

end CapyOS.Lib
