import CapyOS.Lib.Blocks
import CapyOS.Security.Sha2

namespace CapyOS.Proofs
open Lib Sha2Variant Function List Nat
variable {w : Nat} {κ : Type} {v : Sha2Variant w κ}

/-! ## The hashes of the standard -/

namespace Fips

/-- The primes the constants come from. -/
def primes : List Nat :=
  (List.range 410).filter fun p => decide (2 ≤ p) && (List.range p).all fun d => decide (d < 2) || p % d != 0

def rootFraction (w e p : Nat) : BitVec w := BitVec.ofNat w (Nat.nthRoot e (p * 2 ^ (e * w)))

def constants (w n : Nat) : List (BitVec w) := (primes.take n).map (rootFraction w 3)

def initial (w : Nat) : List (BitVec w) := (primes.take 8).map (rootFraction w 2)

def ch (x y z : BitVec w) : BitVec w := (x &&& y) ^^^ (~~~x &&& z)

def maj (x y z : BitVec w) : BitVec w := (x &&& y) ^^^ (x &&& z) ^^^ (y &&& z)

def rotr (n : Nat) (x : BitVec w) : BitVec w := x >>> n ||| x <<< (w - n)

/-- The functions and sizes of one hash, sizes in bytes. -/
structure Hash (w : Nat) where
  bigSigma0 : BitVec w → BitVec w
  bigSigma1 : BitVec w → BitVec w
  smallSigma0 : BitVec w → BitVec w
  smallSigma1 : BitVec w → BitVec w
  rounds : Nat
  block : Nat
  lengthSize : Nat

/-- SHA-256. -/
def hash256 : Hash 32 where
  bigSigma0 x := rotr 2 x ^^^ rotr 13 x ^^^ rotr 22 x
  bigSigma1 x := rotr 6 x ^^^ rotr 11 x ^^^ rotr 25 x
  smallSigma0 x := rotr 7 x ^^^ rotr 18 x ^^^ x >>> 3
  smallSigma1 x := rotr 17 x ^^^ rotr 19 x ^^^ x >>> 10
  rounds := 64
  block := 64
  lengthSize := 8

/-- SHA-512. -/
def hash512 : Hash 64 where
  bigSigma0 x := rotr 28 x ^^^ rotr 34 x ^^^ rotr 39 x
  bigSigma1 x := rotr 14 x ^^^ rotr 18 x ^^^ rotr 41 x
  smallSigma0 x := rotr 1 x ^^^ rotr 8 x ^^^ x >>> 7
  smallSigma1 x := rotr 19 x ^^^ rotr 61 x ^^^ x >>> 6
  rounds := 80
  block := 128
  lengthSize := 16

/-- The initial hash value. -/
def start (w : Nat) : Sha2State w :=
  let h := fun i => (initial w).getD i 0
  ⟨h 0, h 1, h 2, h 3, h 4, h 5, h 6, h 7⟩

/-- A number in `n` bytes, the most significant one first. -/
def bytes (n x : Nat) : List Byte := (List.range n).map fun j => BitVec.ofNat 8 (x / 256 ^ (n - 1 - j))

/-- The word `t` of a block, most significant byte first. -/
def blockWord (block : List Byte) (t : Nat) : BitVec w :=
  BitVec.ofNat w (Nat.ofDigits 256 ((List.range (w / 8)).map fun j => (block.getD (t * (w / 8) + j) 0).toNat).reverse)

variable (H : Hash w)

/-- `W_t` of a block. -/
def word (block : List Byte) (t : Nat) : BitVec w :=
  if _h : t < 16 then blockWord block t
  else H.smallSigma1 (word block (t - 2)) + word block (t - 7) + H.smallSigma0 (word block (t - 15)) + word block (t - 16)

/-- One step on the working variables. -/
def step (s : Sha2State w) (k m : BitVec w) : Sha2State w :=
  let t1 := s.h + H.bigSigma1 s.e + ch s.e s.f s.g + k + m
  let t2 := H.bigSigma0 s.a + maj s.a s.b s.c
  ⟨t1 + t2, s.a, s.b, s.c, s.d + t1, s.e, s.f, s.g⟩

def compress (s : Sha2State w) (block : List Byte) : Sha2State w :=
  let r := (List.range H.rounds).foldl (fun s t => step H s ((constants w H.rounds).getD t 0) (word H block t)) s
  ⟨s.a + r.a, s.b + r.b, s.c + r.c, s.d + r.d, s.e + r.e, s.f + r.f, s.g + r.g, s.h + r.h⟩

/-- The fewest zeros that fill the last block. -/
def padZeros (n : Nat) : Nat := (H.block - (n + 1 + H.lengthSize) % H.block) % H.block

def pad (message : List Byte) : List Byte :=
  message ++ [0x80] ++ List.replicate (padZeros H message.length) 0 ++ bytes H.lengthSize (8 * message.length)

/-- The digest: the compression function folded over the blocks of the padded message. -/
def digest (message : List Byte) : List Byte :=
  let padded := pad H message
  (foldBlocks (compress H) H.block (padded.length / H.block) (start w) padded).words.flatMap fun x => bytes (w / 8) x.toNat

end Fips

variable {H : Fips.Hash w}

/-- The tables and widths of a variant are those of a hash of the standard. -/
structure Standard (v : Sha2Variant w κ) (H : Fips.Hash w) : Prop where
  k : v.k = Fips.constants w H.rounds
  rounds : v.k.length = H.rounds
  enough : 16 ≤ H.rounds
  init : v.init = Fips.start w
  big0 : ∀ x, rotations v.big0 x = H.bigSigma0 x
  big1 : ∀ x, rotations v.big1 x = H.bigSigma1 x
  small0 : ∀ x, rotationsShift v.small0 x = H.smallSigma0 x
  small1 : ∀ x, rotationsShift v.small1 x = H.smallSigma1 x
  block : v.blockSize = H.block
  lengthAt : v.lengthAt + H.lengthSize = H.block

theorem bigEndian_bytes (n x : Nat) : bigEndian n x = Fips.bytes n x := by
  refine map_congr_left fun j _ => ?_
  rw [shiftRight_eq_div_pow, Nat.pow_mul]

theorem digits_fold (f : Nat → Nat) (n : Nat) : (List.range n).foldl (fun acc j => acc * 256 + f j) 0 =
    Nat.ofDigits 256 ((List.range n).map f).reverse := by
  induction n with
  | zero => rfl
  | succ n ih =>
    rw [range_succ, foldl_append, ih, map_append, reverse_append, map_singleton, reverse_singleton,
      singleton_append, ofDigits_cons, foldl_cons, foldl_nil]
    ring

/-! ## The compression function -/

theorem schedule_length (v : Sha2Variant w κ) (block : List Byte) (n : Nat) : (v.schedule block n).length = n + 16 := by
  induction n with
  | zero => simp [schedule]
  | succ n ih =>
    simp only [schedule, length_append, length_singleton, ih]

theorem schedule_word (hs : Standard v H) (block : List Byte) (n t : Nat) (ht : t < n + 16) :
    (v.schedule block n).getD t 0 = Fips.word H block t := by
  induction n generalizing t with
  | zero =>
    rw [Fips.word, dif_pos (by omega), Fips.blockWord, ← digits_fold]
    simp [schedule, show t < 16 by omega, wordAt]
  | succ n ih =>
    have hlen := schedule_length v block n
    rw [schedule]
    by_cases hlast : t < n + 16
    · rw [getD_append _ _ _ _ (by omega), ih t hlast]
    · have ht' : t = n + 16 := by omega
      subst ht'
      rw [getD_append_right _ _ _ _ (by omega), hlen, Nat.sub_self, getD_cons_zero,
        ih _ (by omega), ih _ (by omega), ih _ (by omega), ih _ (by omega), hs.small0, hs.small1]
      conv_rhs => rw [Fips.word, dif_neg (by omega)]
      ac_rfl

theorem foldl_zip {α β γ : Type} (g : γ → α × β → γ) (x : α) (y : β) (l : List α) (m : List β)
    (h : l.length = m.length) (s : γ) :
    (l.zip m).foldl g s = (List.range l.length).foldl (fun s t => g s (l.getD t x, m.getD t y)) s := by
  induction l generalizing m s with
  | nil => simp
  | cons a l ih =>
    obtain _ | ⟨b, m⟩ := m
    · simp at h
    · have hrest := ih m (by simpa using h) (g s (a, b))
      rw [zip_cons_cons, foldl_cons, hrest, length_cons, range_succ_eq_map, foldl_cons, foldl_map]
      rfl

theorem round_step (hs : Standard v H) (s : Sha2State w) (k m : BitVec w) : v.round s (k, m) = Fips.step H s k m := by
  simp only [Sha2Variant.round, hs.big0, hs.big1]
  rfl

theorem transform_compress (hs : Standard v H) (s : Sha2State w) (block : List Byte) :
    v.transform s block = Fips.compress H s block := by
  have hlen := schedule_length v block (v.k.length - 16)
  have hrounds := hs.rounds
  have hk := hs.enough
  have hfold : (List.range v.k.length).foldl (fun s t => v.round s (v.k.getD t 0, (v.schedule block (v.k.length - 16)).getD t 0)) s =
      (List.range H.rounds).foldl (fun s t => Fips.step H s ((Fips.constants w H.rounds).getD t 0) (Fips.word H block t)) s := by
    rw [hrounds]
    refine foldl_ext _ _ _ fun s t ht => ?_
    rw [schedule_word hs block _ t (by rw [mem_range] at ht; omega), round_step hs, hs.k]
  rw [transform, foldl_zip v.round 0 0 _ _ (by omega), hfold]
  rfl

theorem rootFraction_eq {e p c : Nat} {k : BitVec w} (h : (c * 2 ^ w + k.toNat) ^ e ≤ p * 2 ^ (e * w) ∧
    p * 2 ^ (e * w) < (c * 2 ^ w + k.toNat + 1) ^ e) : Fips.rootFraction w e p = k := by
  rw [Fips.rootFraction, nthRoot_eq_of_le_of_lt h.1 h.2]
  apply BitVec.eq_of_toNat_eq
  rw [BitVec.toNat_ofNat, Nat.mul_comm, mul_add_mod, mod_eq_of_lt k.isLt]

theorem roots_eq {e : Nat} (ks : List (BitVec w)) (ps : List Nat)
    (h : List.Forall₂ (fun p k => ∃ c < 32, (c * 2 ^ w + k.toNat) ^ e ≤ p * 2 ^ (e * w) ∧
      p * 2 ^ (e * w) < (c * 2 ^ w + k.toNat + 1) ^ e) ps ks) : ks = ps.map (Fips.rootFraction w e) := by
  induction h with
  | nil => rfl
  | cons hk _ ih =>
    obtain ⟨c, _, hc⟩ := hk
    rw [map_cons, rootFraction_eq hc, ← ih]

/-- Below 21 * 21 a number that no number below 21 divides has no divisor. -/
theorem primes_small : Fips.primes = (List.range 410).filter fun p =>
    decide (2 ≤ p) && (List.range 21).all fun d => decide (d < 2) || decide (p ≤ d) || p % d != 0 := by
  refine filter_congr fun p hp => ?_
  rw [mem_range] at hp
  rw [Bool.eq_iff_iff]
  simp only [Bool.and_eq_true, decide_eq_true_eq, all_eq_true, mem_range, Bool.or_eq_true, bne_iff_ne]
  refine and_congr_right fun h2 => ⟨fun h d _ => ?_, fun h d hd => ?_⟩
  · by_cases hd : d < p
    · exact (h d hd).imp_left .inl
    · exact .inl (.inr (by omega))
  · by_cases hsmall : d < 21
    · exact (h d hsmall).imp_left fun hle => hle.resolve_right (by omega)
    · refine .inr fun hdvd => ?_
      obtain ⟨e, rfl⟩ := dvd_of_mod_eq_zero hdvd
      have he : e < 21 := by nlinarith
      have he' : e ≠ 0 := by rintro rfl; omega
      have he1 : e ≠ 1 := by rintro rfl; omega
      obtain (hlt | hle) | hno := h e he
      · omega
      · nlinarith
      · exact hno (mul_mod_left d e)

theorem primes_eq : Fips.primes = [ 2, 3, 5, 7, 11, 13, 17, 19, 23, 29, 31, 37, 41, 43, 47, 53, 59, 61, 67, 71,
    73, 79, 83, 89, 97, 101, 103, 107, 109, 113, 127, 131, 137, 139, 149, 151, 157, 163, 167, 173,
    179, 181, 191, 193, 197, 199, 211, 223, 227, 229, 233, 239, 241, 251, 257, 263, 269, 271, 277, 281,
    283, 293, 307, 311, 313, 317, 331, 337, 347, 349, 353, 359, 367, 373, 379, 383, 389, 397, 401, 409] := by
  rw [primes_small]
  decide +kernel

theorem sha256_tables : k256 = Fips.constants 32 64 ∧ sha256.init.words = Fips.initial 32 := by
  rw [Fips.constants, Fips.initial, primes_eq]
  exact ⟨roots_eq k256 _ (by decide +kernel), roots_eq _ _ (by decide +kernel)⟩

theorem sha512_tables : k512 = Fips.constants 64 80 ∧ sha512.init.words = Fips.initial 64 := by
  rw [Fips.constants, Fips.initial, primes_eq]
  exact ⟨roots_eq k512 _ (by decide +kernel), roots_eq _ _ (by decide +kernel)⟩

/-! ## The buffer -/

theorem storeFrom_eq (data bs : List Byte) (i : Nat) (h : i + bs.length ≤ data.length) :
    storeFrom data i bs = data.take i ++ bs ++ data.drop (i + bs.length) := by
  induction bs generalizing data i with
  | nil => simp [storeFrom]
  | cons b bs ih =>
    rw [length_cons] at h ⊢
    rw [storeFrom, ih _ _ (by rw [length_set]; omega), take_set_succ b (by omega), drop_set_of_lt (by omega)]
    simp [Nat.add_assoc, Nat.add_comm 1]

theorem zeroFrom_eq (data : List Byte) (i n : Nat) : zeroFrom data i n = storeFrom data i (List.replicate n 0) := by
  induction n generalizing data i with
  | zero => rfl
  | succ n ih => rw [zeroFrom, ih, replicate_succ, storeFrom]

structure Absorbed (v : Sha2Variant w κ) (ctx : Sha2Ctx w κ) (m : List Byte) : Prop where
  state : ctx.state = foldBlocks v.transform v.blockSize (m.length / v.blockSize) v.init m
  bitlen : ctx.bitlen = v.countBlock^[m.length / v.blockSize] v.noBits
  room : ctx.data.length = v.blockSize
  datalen : ctx.datalen = m.length % v.blockSize
  buffered : ctx.data.take ctx.datalen = leftover v.blockSize m

theorem init_absorbed {data : List Byte} (h : data.length = v.blockSize) : Absorbed v (v.hashInit data) [] where
  state := by simp [hashInit, foldBlocks]
  bitlen := by simp [hashInit]
  room := h
  datalen := by simp [hashInit]
  buffered := by simp [hashInit, leftover]

theorem byte_absorbed {ctx : Sha2Ctx w κ} {m : List Byte} (hB : 0 < v.blockSize) (h : Absorbed v ctx m) (b : Byte) :
    Absorbed v (v.hashByte ctx b) (m ++ [b]) := by
  have hlt := mod_lt m.length hB
  have hin : ctx.datalen < ctx.data.length := by
    rw [h.room, h.datalen]
    exact hlt
  have htake := take_set_succ b hin
  rw [h.buffered] at htake
  unfold hashByte
  split
  next hfull =>
    -- the block is complete: the buffer is the rest of the message
    have hmod : m.length % v.blockSize + 1 = v.blockSize := by rw [← h.datalen]; exact hfull
    obtain ⟨hdiv, hleft⟩ := leftover_fill b hmod
    have hdata : ctx.data.set ctx.datalen b = leftover v.blockSize m ++ [b] := by
      rw [← htake, take_of_length_le]
      rw [length_set, h.room, hfull]
    have hblock : (leftover v.blockSize m ++ [b]).length = v.blockSize := by
      rw [← hdata, length_set, h.room]
    have hsplit : m ++ [b] = m.take (m.length / v.blockSize * v.blockSize) ++ (leftover v.blockSize m ++ [b]) := by
      rw [← append_assoc, whole_append_leftover]
    have hwhole := foldBlocks_append v.transform v.blockSize (m.length / v.blockSize) v.init
      (m.take (m.length / v.blockSize * v.blockSize)) (leftover v.blockSize m) (whole_length m).ge
    rw [whole_append_leftover] at hwhole
    refine ⟨?_, ?_, by rw [length_set, h.room], ?_, by simp [hleft]⟩
    · rw [hdiv, hsplit, foldBlocks_push _ _ _ _ _ _ (whole_length m) hblock, ← hwhole, ← h.state, hdata]
    · rw [hdiv, iterate_succ_apply', ← h.bitlen]
    · rw [← leftover_length, hleft]
      rfl
  next hopen =>
    rw [h.datalen] at hopen
    obtain ⟨hdiv, hleft⟩ := leftover_push b (show m.length % v.blockSize + 1 < v.blockSize by omega)
    refine ⟨?_, ?_, by rw [length_set, h.room], ?_, by rw [htake, hleft]⟩
    · rw [hdiv, foldBlocks_append _ _ _ _ _ _ (div_mul_le_self _ _), ← h.state]
    · rw [hdiv, ← h.bitlen]
    · rw [← leftover_length, hleft, length_append, leftover_length, h.datalen]
      rfl

theorem update_absorbed {ctx : Sha2Ctx w κ} {m : List Byte} (hB : 0 < v.blockSize) (h : Absorbed v ctx m)
    (piece : List Byte) : Absorbed v (v.hashUpdate ctx piece) (m ++ piece) := by
  induction piece generalizing ctx m with
  | nil => simpa [hashUpdate] using h
  | cons b piece ih =>
    have hnext := ih (byte_absorbed hB h b)
    rwa [append_assoc, singleton_append] at hnext

theorem pieces_absorbed {ctx : Sha2Ctx w κ} {m : List Byte} (hB : 0 < v.blockSize) (h : Absorbed v ctx m)
    (pieces : List (List Byte)) : Absorbed v (pieces.foldl v.hashUpdate ctx) (m ++ pieces.flatten) := by
  induction pieces generalizing ctx m with
  | nil => simpa using h
  | cons piece pieces ih =>
    rw [foldl_cons, flatten_cons, ← append_assoc]
    exact ih (update_absorbed hB h piece)

/-! ## The last blocks -/

structure BitCounts (v : Sha2Variant w κ) : Prop where
  lengthAt_lt : v.lengthAt < v.blockSize
  lengthBytes : ∀ n, n < 2 ^ 61 → v.lengthBytes (v.countBlock^[n / v.blockSize] v.noBits) (n % v.blockSize) =
    bigEndian (v.blockSize - v.lengthAt) (8 * n)

theorem bigEndian_length (n x : Nat) : (bigEndian n x).length = n := by simp [bigEndian]

theorem padZeros_spec (hs : Standard v H) (hB : v.lengthAt < v.blockSize) (n : Nat) :
    (n % v.blockSize + 1 ≤ v.lengthAt ∧ Fips.padZeros H n = v.lengthAt - (n % v.blockSize + 1)) ∨
    (v.lengthAt < n % v.blockSize + 1 ∧ Fips.padZeros H n = v.blockSize - (n % v.blockSize + 1) + v.lengthAt) := by
  have hlt := mod_lt n (show 0 < v.blockSize by omega)
  have hsize := hs.lengthAt
  unfold Fips.padZeros
  rw [← hs.block] at hsize ⊢
  rw [Nat.add_assoc, ← mod_add_mod, ← Nat.add_assoc]
  generalize n % v.blockSize = r at *
  rcases Nat.lt_or_ge v.lengthAt (r + 1) with hl | hl
  · right
    refine ⟨hl, ?_⟩
    rw [show r + 1 + H.lengthSize = r + 1 - v.lengthAt + v.blockSize by omega, add_mod_right]
    rcases Nat.lt_or_ge (r + 1 - v.lengthAt) v.blockSize with hr | hr
    · rw [mod_eq_of_lt hr, mod_eq_of_lt (by omega)]
      omega
    · rw [show r + 1 - v.lengthAt = v.blockSize by omega, mod_self, Nat.sub_zero, mod_self]
      omega
  · left
    refine ⟨hl, ?_⟩
    rcases Nat.lt_or_ge (r + 1 + H.lengthSize) v.blockSize with hr | hr
    · rw [mod_eq_of_lt hr, mod_eq_of_lt (by omega)]
      omega
    · rw [show r + 1 + H.lengthSize = v.blockSize by omega, mod_self, Nat.sub_zero, mod_self]
      omega

/-- The blocks behind the whole ones, and the state after them. -/
theorem tail_blocks {ctx : Sha2Ctx w κ} {m tail : List Byte} {n : Nat} (hB : 0 < v.blockSize) (h : Absorbed v ctx m)
    (hlen : (leftover v.blockSize m ++ tail).length = n * v.blockSize) :
    foldBlocks v.transform v.blockSize ((m ++ tail).length / v.blockSize) v.init (m ++ tail) =
      foldBlocks v.transform v.blockSize n ctx.state (leftover v.blockSize m ++ tail) := by
  have hwhole := div_mul_le_self m.length v.blockSize
  have hcount : (m ++ tail).length = (m.length / v.blockSize + n) * v.blockSize := by
    have hsum := div_add_mod m.length v.blockSize
    rw [length_append, leftover_length] at hlen
    rw [length_append, Nat.add_mul, ← hlen, Nat.mul_comm (m.length / v.blockSize)]
    omega
  rw [hcount, Nat.mul_div_cancel _ hB, foldBlocks_add, foldBlocks_append _ _ _ _ _ _ hwhole, ← h.state,
    drop_append_of_le_length hwhole]
  rfl

theorem marked_buffer {ctx : Sha2Ctx w κ} {m : List Byte} (hB : 0 < v.blockSize) (h : Absorbed v ctx m) (stop : Nat)
    (hlo : m.length % v.blockSize + 1 ≤ stop) (hhi : stop ≤ v.blockSize) :
    (zeroFrom (ctx.data.set ctx.datalen 0x80) (ctx.datalen + 1) (stop - (ctx.datalen + 1))).take stop =
      leftover v.blockSize m ++ [0x80] ++ List.replicate (stop - (m.length % v.blockSize + 1)) 0 := by
  have hlt := mod_lt m.length hB
  have htake := @take_set_succ _ ctx.data ctx.datalen 0x80 (by rw [h.room, h.datalen]; exact hlt)
  rw [h.buffered] at htake
  have hlen : (leftover v.blockSize m ++ [0x80]).length = m.length % v.blockSize + 1 := by
    rw [length_append, leftover_length]
    rfl
  rw [zeroFrom_eq, storeFrom_eq _ _ _ (by rw [length_set, length_replicate, h.room, h.datalen]; omega),
    htake, h.datalen]
  apply take_left'
  rw [length_append, hlen, length_replicate]
  omega

theorem zeroFrom_length (data : List Byte) (i n : Nat) : (zeroFrom data i n).length = data.length := by
  induction n generalizing data i with
  | zero => rfl
  | succ n ih => rw [zeroFrom, ih, length_set]

theorem lastState_padded {ctx : Sha2Ctx w κ} {m : List Byte} (hs : Standard v H) (hc : BitCounts v) (h : Absorbed v ctx m)
    (hm : m.length < 2 ^ 61) : v.lastState ctx =
      foldBlocks v.transform v.blockSize ((Fips.pad H m).length / v.blockSize) v.init (Fips.pad H m) := by
  have hL := hc.lengthAt_lt
  have hB : 0 < v.blockSize := by omega
  have hlt := mod_lt m.length hB
  have hbits := hc.lengthBytes m.length hm
  rw [← h.bitlen, ← h.datalen] at hbits
  have hleft : (leftover v.blockSize m).length = m.length % v.blockSize := leftover_length m
  have htail := bigEndian_length (v.blockSize - v.lengthAt) (8 * m.length)
  have hset : (ctx.data.set ctx.datalen 0x80).length = v.blockSize := by rw [length_set, h.room]
  have hsize : H.lengthSize = v.blockSize - v.lengthAt := by
    have hsum := hs.lengthAt
    rw [← hs.block] at hsum
    omega
  unfold Fips.pad
  rw [hsize, ← bigEndian_bytes, append_assoc, append_assoc]
  rcases padZeros_spec hs hL m.length with ⟨hfit, hz⟩ | ⟨hover, hz⟩
  · -- one block
    have hmarked := marked_buffer hB h v.lengthAt hfit (by omega)
    rw [tail_blocks (n := 1) hB h (by simp only [length_append, hleft, htail, length_replicate, length_singleton, hz]; omega)]
    simp only [lastState, gt_iff_lt, h.datalen ▸ show ¬v.lengthAt < m.length % v.blockSize + 1 by omega, if_false]
    rw [hbits, storeFrom_eq _ _ _ (by rw [zeroFrom_length, hset, htail]; omega), hmarked,
      drop_eq_nil_of_le (by rw [zeroFrom_length, hset, htail]; omega), hz]
    rw [foldBlocks, foldBlocks, take_of_length_le]
    · simp only [append_assoc, append_nil]
    · simp only [length_append, hleft, htail, length_replicate, length_singleton]
      omega
  · -- the length does not fit behind the message
    have hmarked := marked_buffer hB h v.blockSize hlt (Nat.le_refl _)
    rw [take_of_length_le (by rw [zeroFrom_length, hset])] at hmarked
    rw [tail_blocks (n := 2) hB h (by simp only [length_append, hleft, htail, length_replicate, length_singleton, hz]; omega)]
    simp only [lastState, gt_iff_lt, h.datalen ▸ hover, if_true]
    have hfirst : (leftover v.blockSize m ++ [0x80] ++
        List.replicate (v.blockSize - (m.length % v.blockSize + 1)) (0 : Byte)).length = v.blockSize := by
      simp only [length_append, hleft, length_replicate, length_singleton]
      omega
    rw [hmarked, hbits, zeroFrom_eq, storeFrom_eq _ _ 0 (by rw [length_replicate, hfirst]; omega),
      take_zero, nil_append, length_replicate, Nat.zero_add]
    rw [storeFrom_eq _ _ _ (by simp only [length_append, length_drop, hfirst, length_replicate, htail]; omega),
      take_left' (length_replicate ..), drop_eq_nil_of_le (by
        simp only [length_append, length_drop, hfirst, length_replicate, htail]; omega), hz]
    have hX : leftover v.blockSize m ++ ([0x80] ++ (List.replicate (v.blockSize - (m.length % v.blockSize + 1) + v.lengthAt) 0 ++
        bigEndian (v.blockSize - v.lengthAt) (8 * m.length))) =
        (leftover v.blockSize m ++ [0x80] ++ List.replicate (v.blockSize - (m.length % v.blockSize + 1)) 0) ++
        (List.replicate v.lengthAt 0 ++ bigEndian (v.blockSize - v.lengthAt) (8 * m.length)) := by
      simp only [replicate_add, append_assoc]
    rw [hX, foldBlocks, foldBlocks, foldBlocks, take_left' hfirst, drop_left' hfirst, append_nil,
      take_of_length_le (by simp only [length_append, length_replicate, htail]; omega)]

/-! ## The counters -/

theorem count256 (n : Nat) : sha256.countBlock^[n] sha256.noBits = BitVec.ofNat 64 (512 * n) := by
  induction n with
  | zero => rfl
  | succ n ih =>
    rw [iterate_succ_apply', ih]
    apply BitVec.eq_of_toNat_eq
    simp [sha256, BitVec.toNat_add, mul_succ]

theorem counts256 : BitCounts sha256 where
  lengthAt_lt := by decide
  lengthBytes n hn := by
    have hsum := div_add_mod n 64
    have hlen : (BitVec.ofNat 64 (512 * (n / 64)) + BitVec.ofNat 64 (n % 64) * 8).toNat = 8 * n := by
      simp only [BitVec.toNat_add, BitVec.toNat_mul, BitVec.toNat_ofNat, BitVec.ofNat_eq_ofNat]
      omega
    rw [count256]
    exact congrArg (bigEndian 8) hlen

theorem count512 (n : Nat) (h : 1024 * n < 2 ^ 64) : sha512.countBlock^[n] sha512.noBits = (BitVec.ofNat 64 (1024 * n), 0) := by
  induction n with
  | zero => rfl
  | succ n ih =>
    rw [iterate_succ_apply', ih (by omega)]
    have hsum : BitVec.ofNat 64 (1024 * n) + 1024 = BitVec.ofNat 64 (1024 * (n + 1)) := by
      apply BitVec.eq_of_toNat_eq
      simp [BitVec.toNat_add, mul_succ]
    have hge : ¬BitVec.ofNat 64 (1024 * (n + 1)) < 1024 := by
      rw [BitVec.lt_def, BitVec.toNat_ofNat, mod_eq_of_lt h]
      simp
    simp only [sha512, hsum, hge, if_false]

theorem bigEndian_zeros (n x : Nat) (h : x < 2 ^ (8 * n)) : bigEndian (n + n) x = List.replicate n 0 ++ bigEndian n x := by
  rw [bigEndian, range_add, map_append]
  congr 1
  · apply ext_getElem (by simp)
    intro j hj _
    rw [length_map, length_range] at hj
    rw [getElem_map, getElem_range, getElem_replicate, shiftRight_eq_div_pow, div_eq_of_lt]
    · rfl
    · exact Nat.lt_of_lt_of_le h (Nat.pow_le_pow_right (by decide) (by omega))
  · rw [map_map, bigEndian]
    refine map_congr_left fun j _ => ?_
    rw [comp_apply, show n + n - 1 - (n + j) = n - 1 - j by omega]

theorem lengthBytes512 (lo : BitVec 64) (r : Nat) (h : ¬lo + BitVec.ofNat 64 r * 8 < lo) :
    sha512.lengthBytes (lo, 0) r = bigEndian 8 0 ++ bigEndian 8 (lo + BitVec.ofNat 64 r * 8).toNat := by
  simp only [sha512, h, if_false]
  rfl

theorem counts512 : BitCounts sha512 where
  lengthAt_lt := by decide
  lengthBytes n hn := by
    have hsum := div_add_mod n 128
    have hlo : (BitVec.ofNat 64 (1024 * (n / 128)) + BitVec.ofNat 64 (n % 128) * 8).toNat = 8 * n := by
      simp only [BitVec.toNat_add, BitVec.toNat_mul, BitVec.toNat_ofNat, BitVec.ofNat_eq_ofNat]
      omega
    have hge : ¬BitVec.ofNat 64 (1024 * (n / 128)) + BitVec.ofNat 64 (n % 128) * 8 <
        BitVec.ofNat 64 (1024 * (n / 128)) := by
      rw [BitVec.lt_def, hlo, BitVec.toNat_ofNat]
      omega
    have hcount := count512 (n / 128) (by omega)
    have hbytes := lengthBytes512 _ _ hge
    rw [hlo] at hbytes
    have hzero : bigEndian 8 0 = List.replicate 8 0 := by decide
    rw [hzero, ← bigEndian_zeros 8 _ (by omega), ← hcount] at hbytes
    exact hbytes

theorem standard256 : Standard sha256 Fips.hash256 where
  k := sha256_tables.1
  rounds := rfl
  enough := by decide
  init := by
    rw [Fips.start, ← sha256_tables.2]
    rfl
  big0 _ := rfl
  big1 _ := rfl
  small0 _ := rfl
  small1 _ := rfl
  block := rfl
  lengthAt := rfl

theorem standard512 : Standard sha512 Fips.hash512 where
  k := sha512_tables.1
  rounds := rfl
  enough := by decide
  init := by
    rw [Fips.start, ← sha512_tables.2]
    rfl
  big0 _ := rfl
  big1 _ := rfl
  small0 _ := rfl
  small1 _ := rfl
  block := rfl
  lengthAt := rfl

theorem pieces_digest (hs : Standard v H) (hc : BitCounts v) {data : List Byte} (hdata : data.length = v.blockSize)
    (pieces : List (List Byte)) (hlen : pieces.flatten.length < 2 ^ 61) :
    v.hashFinal (pieces.foldl v.hashUpdate (v.hashInit data)) = Fips.digest H pieces.flatten := by
  have hL := hc.lengthAt_lt
  have habs := pieces_absorbed (by omega) (init_absorbed hdata) pieces
  rw [nil_append] at habs
  have hcompress : v.transform = Fips.compress H := by
    funext s block
    exact transform_compress hs s block
  rw [hashFinal, lastState_padded hs hc habs hlen, Fips.digest, hcompress, hs.block, hs.init]
  simp only [bigEndian_bytes]

/-- SHA-256 and SHA-512 of a message do not depend on how it is cut, and are those of the
standard. -/
theorem streaming_hashes (pieces : List (List Byte)) (memory256 memory512 : List Byte)
    (h256 : memory256.length = 64) (h512 : memory512.length = 128) (hlen : pieces.flatten.length < 2 ^ 61) :
    sha256Final (pieces.foldl sha256Update (sha256Init memory256)) = Fips.digest Fips.hash256 pieces.flatten ∧
    sha512Final (pieces.foldl sha512Update (sha512Init memory512)) = Fips.digest Fips.hash512 pieces.flatten :=
  ⟨pieces_digest standard256 counts256 h256 pieces hlen, pieces_digest standard512 counts512 h512 pieces hlen⟩

/-- The digest the standard gives for "abc". -/
theorem streaming_hashes_abc : Fips.digest Fips.hash256 [0x61, 0x62, 0x63] = Fips.bytes 32
    0xba7816bf8f01cfea414140de5dae2223b00361a396177a9cb410ff61f20015ad := by
  have habc := (streaming_hashes [[0x61], [], [0x62, 0x63]] (List.replicate 64 7) (List.replicate 128 7) rfl rfl
    (by decide)).1
  exact habc.symm.trans (by decide +kernel)

end CapyOS.Proofs
