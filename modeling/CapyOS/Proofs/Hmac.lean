import CapyOS.Security.Hmac
import CapyOS.Proofs.Sha2

namespace CapyOS.Proofs
open Lib List

/-! ## The standards -/

namespace Rfc
variable {password salt : List Byte}

def hash (m : List Byte) : List Byte := Fips.digest Fips.hash256 m

/-- HMAC over SHA-256. -/
def hmac (key m : List Byte) : List Byte :=
  let k := if key.length > 64 then hash key else key
  let k := k ++ replicate (64 - k.length) 0
  hash (k.map (· ^^^ 0x5c) ++ hash (k.map (· ^^^ 0x36) ++ m))

/-- `T(i)` of RFC 5869. -/
def hkdfT (prk info : List Byte) : Nat → List Byte
  | 0 => []
  | i + 1 => hmac prk (hkdfT prk info i ++ info ++ [BitVec.ofNat 8 (i + 1)])

def hkdfExpand (prk info : List Byte) (len : Nat) : List Byte :=
  ((range ((len + 31) / 32)).flatMap fun i => hkdfT prk info (i + 1)).take len

/-- `U_(j+1)` of block `i`, in RFC 8018. -/
def pbkdfU (password salt : List Byte) (i : Nat) : Nat → List Byte
  | 0 => hmac password (salt ++ Fips.bytes 4 i)
  | j + 1 => hmac password (pbkdfU password salt i j)

def pbkdfF (password salt : List Byte) (c i : Nat) : List Byte :=
  (range (c - 1)).foldl (fun t j => zipWith (· ^^^ ·) t (pbkdfU password salt i (j + 1)))
    (pbkdfU password salt i 0)

def pbkdf2 (password salt : List Byte) (c len : Nat) : List Byte :=
  ((range ((len + 31) / 32)).flatMap fun i => pbkdfF password salt c (i + 1)).take len

end Rfc

theorem hash_length (m : List Byte) : (Rfc.hash m).length = 32 := by
  simp [Rfc.hash, Fips.digest, Sha2State.words, Fips.bytes]

theorem hmac_length (key m : List Byte) : (Rfc.hmac key m).length = 32 := hash_length _

theorem hkdfT_length (prk info : List Byte) (i : Nat) : (Rfc.hkdfT prk info (i + 1)).length = 32 := hmac_length _ _

theorem pbkdfU_length (password salt : List Byte) (i : Nat) : ∀ j, (Rfc.pbkdfU password salt i j).length = 32
  | 0 => hmac_length _ _
  | _ + 1 => hmac_length _ _

theorem blocks_length {block : Nat → List Byte} (h : ∀ i, (block i).length = 32) (n : Nat) :
    ((range n).flatMap block).length = 32 * n := by
  induction n with
  | zero => rfl
  | succ n ih =>
    rw [range_succ, flatMap_append, length_append, ih, flatMap_singleton, h]
    omega

section
variable {memory : Nat → List Byte} (hm : ∀ n, (memory n).length = 64)
include hm

theorem sha256Of_eq (n : Nat) {pieces : List (List Byte)} (h : pieces.flatten.length < 2 ^ 61) :
    sha256Of memory n pieces = Rfc.hash pieces.flatten :=
  pieces_digest standard256 counts256 (hm n) pieces h

theorem hmacKey_eq {key : List Byte} (h : key.length < 2 ^ 61) :
    hmacKey memory key = (if key.length > 64 then Rfc.hash key else key) ∧ (hmacKey memory key).length ≤ 64 := by
  rw [hmacKey, sha256Of_eq hm 0 (by simpa using h), flatten_singleton]
  refine ⟨rfl, ?_⟩
  split
  · rw [hash_length]
    decide
  · omega

omit hm in
theorem hmacPad_eq {key : List Byte} (pad : Byte) (h : key.length ≤ 64) :
    hmacPad key pad = (key ++ replicate (64 - key.length) 0).map (· ^^^ pad) := by
  apply ext_getElem
  · simp only [hmacPad, length_map, length_range, length_append, length_replicate]
    omega
  · intro i h1 h2
    simp only [hmacPad, getElem_map, getElem_range, getElem_append, getElem_replicate]
    by_cases hi : i < key.length
    · simp [hi]
    · simp [hi]

omit hm in
theorem hmacPad_length (key : List Byte) (pad : Byte) : (hmacPad key pad).length = 64 := by simp [hmacPad]

/-- The outer hash over the inner one. -/
theorem hmac_of_inner {key m : List Byte} (hk : key.length < 2 ^ 61) :
    sha256Of memory 2 [hmacPad (hmacKey memory key) 0x5c, Rfc.hash (hmacPad (hmacKey memory key) 0x36 ++ m)] =
      Rfc.hmac key m := by
  obtain ⟨hkey, hle⟩ := hmacKey_eq hm hk
  rw [sha256Of_eq hm 2 (by simp [hmacPad_length, hash_length]), hmacPad_eq _ hle, hmacPad_eq _ hle, hkey]
  simp only [flatten_cons, flatten_nil, append_nil]
  rfl

theorem hmacInternal_eq {key m : List Byte} (hk : key.length < 2 ^ 61) (hd : 64 + m.length < 2 ^ 61) :
    cryptHmacSha256Internal memory key m = Rfc.hmac key m := by
  have hinner := @sha256Of_eq memory hm 1 [hmacPad (hmacKey memory key) 0x36, m] (by simpa [hmacPad_length] using hd)
  simp only [flatten_cons, flatten_nil, append_nil] at hinner
  simp only [cryptHmacSha256Internal, hinner]
  exact hmac_of_inner hm hk

omit hm in
theorem hkdfUpdate_eq (ctx : HkdfHmacCtx) (data : List Byte) :
    hkdfHmacUpdate ctx data = { ctx with inner := sha256Update ctx.inner data } := by
  rw [hkdfHmacUpdate]
  split
  · rename_i h
    rw [List.length_eq_zero_iff.mp h]
    rfl
  · rfl

omit hm in
theorem updates_inner (pieces : List (List Byte)) (ctx : HkdfHmacCtx) :
    pieces.foldl hkdfHmacUpdate ctx = ⟨pieces.foldl sha256Update ctx.inner, ctx.kopad⟩ := by
  induction pieces generalizing ctx with
  | nil => rfl
  | cons p pieces ih => rw [foldl_cons, ih, hkdfUpdate_eq, foldl_cons]

/-- A MAC does not depend on how its message was cut. -/
theorem streamed_hmac {key : List Byte} (pieces : List (List Byte)) (hk : key.length < 2 ^ 61)
    (hd : 64 + pieces.flatten.length < 2 ^ 61) :
    hkdfHmacEnd memory (pieces.foldl hkdfHmacUpdate (hkdfHmacBegin memory key)) = Rfc.hmac key pieces.flatten := by
  have hinner := @sha256Of_eq memory hm 1 (hmacPad (hmacKey memory key) 0x36 :: pieces)
    (by rw [flatten_cons, length_append, hmacPad_length]; exact hd)
  have hstart : sha256Final (pieces.foldl sha256Update (sha256Update (sha256Init (memory 1))
      (hmacPad (hmacKey memory key) 0x36))) = sha256Of memory 1 (hmacPad (hmacKey memory key) 0x36 :: pieces) := by
    rw [sha256Of, foldl_cons]
  rw [updates_inner]
  simp only [hkdfHmacEnd, hkdfHmacBegin]
  rw [hstart, hinner, flatten_cons]
  exact hmac_of_inner hm hk

/-- Both one-call forms and the streaming one are HMAC-SHA-256, whatever the contexts held and
however the message is cut. -/
theorem hmac_exact {key : List Byte} (pieces : List (List Byte)) (hk : key.length < 2 ^ 61)
    (hd : 64 + pieces.flatten.length < 2 ^ 61) :
    cryptHmacSha256 memory key pieces.flatten = Rfc.hmac key pieces.flatten ∧
      cryptHmacSha256Internal memory key pieces.flatten = Rfc.hmac key pieces.flatten ∧
      hkdfHmacEnd memory (pieces.foldl hkdfHmacUpdate (hkdfHmacBegin memory key)) = Rfc.hmac key pieces.flatten :=
  ⟨hmacInternal_eq hm hk hd, hmacInternal_eq hm hk hd, streamed_hmac hm pieces hk hd⟩

/-! ## HKDF -/

theorem expandBlock_eq {prk info tPrev : List Byte} (counter : Nat) (hk : prk.length < 2 ^ 61)
    (ht : tPrev.length ≤ 32) (hi : info.length < 2 ^ 60) :
    expandBlock memory prk info tPrev counter = Rfc.hmac prk (tPrev ++ info ++ [BitVec.ofNat 8 counter]) := by
  have hskip : ∀ (ctx : HkdfHmacCtx) (data : List Byte),
      (if data.length > 0 then hkdfHmacUpdate ctx data else ctx) = hkdfHmacUpdate ctx data := by
    intro ctx data
    split
    · rfl
    · rw [hkdfHmacUpdate, if_pos (by omega)]
  have h := @streamed_hmac memory hm prk [tPrev, info, [BitVec.ofNat 8 counter]] hk
    (by simp only [flatten_cons, flatten_nil, length_append, length_cons, length_nil]; omega)
  simp only [flatten_cons, flatten_nil, append_nil, ← append_assoc] at h
  rw [expandBlock, hskip, hskip]
  exact h

/-- With `k` blocks written and room for the others, the loop writes the rest of them. -/
theorem expandFrom_eq {prk info : List Byte} {outLen : Nat} (hk : prk.length < 2 ^ 61) (hi : info.length < 2 ^ 60)
    (n k : Nat) (hn : n + k = 255) (hlen : outLen ≤ 255 * 32) (hkl : 32 * k < outLen + 32) :
    expandFrom memory prk info outLen n (min (32 * k) outLen) (Rfc.hkdfT prk info k)
      (((range k).flatMap fun i => Rfc.hkdfT prk info (i + 1)).take outLen) =
      some (Rfc.hkdfExpand prk info outLen) := by
  have hTlen : ∀ j, (Rfc.hkdfT prk info j).length ≤ 32 := by
    rintro (_ | j)
    · exact Nat.zero_le _
    · rw [hkdfT_length]
  have hblocks := blocks_length (hkdfT_length prk info)
  have hend : ¬min (32 * k) outLen < outLen →
      some (((range k).flatMap fun i => Rfc.hkdfT prk info (i + 1)).take outLen) =
        some (Rfc.hkdfExpand prk info outLen) := by
    intro h
    rw [Rfc.hkdfExpand, show (outLen + 31) / 32 = k by omega]
  induction n generalizing k with
  | zero =>
    rw [expandFrom, if_neg (by omega)]
    exact hend (by omega)
  | succ n ih =>
    rw [expandFrom]
    by_cases h : min (32 * k) outLen < outLen
    · have hT : Rfc.hmac prk (Rfc.hkdfT prk info k ++ info ++ [BitVec.ofNat 8 (k + 1)]) = Rfc.hkdfT prk info (k + 1) := rfl
      rw [if_pos h, expandBlock_eq hm _ hk (hTlen k) hi, show 255 - n = k + 1 by omega, hT]
      have hnext := ih (k + 1) (by omega) (by omega)
        (fun h => by rw [Rfc.hkdfExpand, show (outLen + 31) / 32 = k + 1 by omega])
      rw [range_succ, flatMap_append, flatMap_singleton, take_append, hblocks,
        take_of_length_le (l := (range k).flatMap _) (by rw [hblocks]; omega)] at hnext
      dsimp only
      rw [take_of_length_le (l := (range k).flatMap _) (by rw [hblocks]; omega)]
      have hchunk : (Rfc.hkdfT prk info (k + 1)).take
          (if min (32 * k) outLen + 32 > outLen then outLen - min (32 * k) outLen else 32) =
          (Rfc.hkdfT prk info (k + 1)).take (outLen - 32 * k) := by
        have := hTlen (k + 1)
        split
        · rw [Nat.min_eq_left (by omega)]
        · rw [take_of_length_le this, take_of_length_le (by omega)]
      have hproduced : min (32 * k) outLen + (if min (32 * k) outLen + 32 > outLen then outLen - min (32 * k) outLen
          else 32) = min (32 * (k + 1)) outLen := by
        split <;> omega
      rw [hchunk, hproduced]
      exact hnext
    · rw [if_neg h]
      exact hend h

theorem hkdfExpand_eq {prk info : List Byte} {outLen : Nat} (hk : prk.length < 2 ^ 61) (hi : info.length < 2 ^ 60) :
    cryptHkdfSha256Expand memory prk info outLen =
      if outLen = 0 then some [] else if outLen > 255 * 32 ∨ prk.length < 32 then none
      else some (Rfc.hkdfExpand prk info outLen) := by
  rw [cryptHkdfSha256Expand]
  by_cases h0 : outLen = 0
  · rw [if_pos h0, if_pos h0]
  · rw [if_neg h0, if_neg h0]
    by_cases h1 : outLen > 255 * 32
    · rw [if_pos h1, if_pos (.inl h1)]
    · rw [if_neg h1]
      by_cases h2 : prk.length < 32
      · rw [if_pos h2, if_pos (.inr h2)]
      · rw [if_neg h2, if_neg (not_or.mpr ⟨h1, h2⟩)]
        have h := @expandFrom_eq memory hm prk info outLen hk hi 255 0 rfl (by omega) (by omega)
        simpa [Rfc.hkdfT] using h

/-- HKDF is that of RFC 5869: the extracted key is the HMAC of the material under the salt, a NULL
or empty one standing for 32 zeros, and up to 255 blocks are expanded from it. -/
theorem hkdf_exact (salt ikm : Option (List Byte)) {info : List Byte} (outLen : Nat)
    (hs : (salt.getD []).length < 2 ^ 61) (hd : 64 + (ikm.getD []).length < 2 ^ 61) (hi : info.length < 2 ^ 60) :
    cryptHkdfSha256 memory salt ikm info outLen =
      if outLen ≤ 255 * 32 then
        some (Rfc.hkdfExpand (Rfc.hmac (if salt.getD [] = [] then replicate 32 0 else salt.getD []) (ikm.getD []))
          info outLen)
      else none := by
  have hextract : cryptHkdfSha256Extract memory salt ikm =
      Rfc.hmac (if salt.getD [] = [] then replicate 32 0 else salt.getD []) (ikm.getD []) := by
    cases salt with
    | none => exact hmacInternal_eq hm (by simp) hd
    | some salt =>
      simp only [cryptHkdfSha256Extract, Option.getD_some, length_eq_zero_iff] at hs ⊢
      refine hmacInternal_eq hm ?_ hd
      split
      · simp
      · exact hs
  rw [cryptHkdfSha256, hextract, hkdfExpand_eq hm (by rw [hmac_length]; decide) hi, hmac_length]
  by_cases h0 : outLen = 0
  · subst h0
    rfl
  · by_cases h1 : outLen ≤ 255 * 32
    · rw [if_neg h0, if_neg (not_or.mpr ⟨Nat.not_lt.mpr h1, by decide⟩), if_pos h1]
    · rw [if_neg h0, if_pos (.inl (Nat.not_le.mp h1)), if_neg h1]

/-! ## PBKDF2 -/

omit hm in
theorem saltBlock_eq (salt : List Byte) {i : Nat} (h : i < 2 ^ 32) :
    saltBlock salt (BitVec.ofNat 32 i) = salt.take 60 ++ Fips.bytes 4 i := by
  have hnumber : ∀ x : BitVec 32, [(x >>> 24).setWidth 8, (x >>> 16).setWidth 8, (x >>> 8).setWidth 8, x.setWidth 8] =
      Sha2Variant.bigEndian 4 x.toNat := by
    intro x
    have hbyte : ∀ k, (x >>> k).setWidth 8 = BitVec.ofNat 8 (x.toNat >>> k) := by
      intro k
      apply BitVec.eq_of_toNat_eq
      simp
    have h0 := hbyte 0
    rw [BitVec.ushiftRight_zero] at h0
    rw [hbyte, hbyte, hbyte, h0]
    rfl
  have htake : salt.take (if salt.length + 4 > 64 then 64 - 4 else salt.length) = salt.take 60 := by
    split
    · rfl
    · rw [take_length, take_of_length_le (by omega)]
  rw [saltBlock, htake, hnumber, bigEndian_bytes, BitVec.toNat_ofNat, Nat.mod_eq_of_lt h]

theorem iterates_eq (hp : password.length < 2 ^ 61) (i n : Nat) :
    (pbkdf2Iterate memory password)^[n] (Rfc.pbkdfU password salt i 0, Rfc.pbkdfU password salt i 0) =
      ((range n).foldl (fun t j => zipWith (· ^^^ ·) t (Rfc.pbkdfU password salt i (j + 1)))
        (Rfc.pbkdfU password salt i 0), Rfc.pbkdfU password salt i n) := by
  induction n with
  | zero => rfl
  | succ n ih =>
    rw [Function.iterate_succ_apply', ih, pbkdf2Iterate]
    dsimp only
    rw [hmacInternal_eq hm hp (by rw [pbkdfU_length]; decide), range_succ, foldl_append]
    rfl

theorem pbkdf2Block_eq (hp : password.length < 2 ^ 61) (iterations : Nat) {i : Nat}
    (hi : i < 2 ^ 32) : pbkdf2Block memory password salt iterations (BitVec.ofNat 32 i) =
      Rfc.pbkdfF password (salt.take 60) iterations i := by
  have hfirst : cryptHmacSha256Internal memory password (saltBlock salt (BitVec.ofNat 32 i)) =
      Rfc.pbkdfU password (salt.take 60) i 0 := by
    rw [saltBlock_eq salt hi, hmacInternal_eq hm hp, Rfc.pbkdfU]
    simp only [length_append, length_take, ← bigEndian_bytes, bigEndian_length]
    omega
  rw [pbkdf2Block, hfirst, iterates_eq hm hp]
  rfl

omit hm in
theorem pbkdfF_length (password salt : List Byte) (c i : Nat) : (Rfc.pbkdfF password salt c i).length = 32 := by
  rw [Rfc.pbkdfF]
  induction c - 1 with
  | zero => exact pbkdfU_length password salt i 0
  | succ n ih =>
    rw [range_succ, foldl_append, foldl_cons, foldl_nil, length_zipWith, ih, pbkdfU_length, Nat.min_self]

omit hm in
/-- Blocks written one after the other over a buffer, the last one cut. -/
theorem cut_blocks (block : Nat → List Byte) (h : ∀ i, (block i).length = 32) (out : List Byte) (n : Nat)
    (hn : 32 * n < out.length + 32) : (range n).foldl (fun buf j =>
      storeAt buf (j * 32) ((block j).take (if j * 32 + 32 > out.length then out.length - j * 32 else 32))) out =
      ((range n).flatMap block).take out.length ++ out.drop (32 * n) := by
  induction n with
  | zero => simp
  | succ n ih =>
    have hdone := blocks_length h n
    generalize hcut : (if n * 32 + 32 > out.length then out.length - n * 32 else 32) = k
    have hk : ((block n).take k).length = k ∧ k = min 32 (out.length - 32 * n) := by
      rw [length_take, h]
      split at hcut <;> omega
    have htake : (((range n).flatMap block) ++ out.drop (32 * n)).take (n * 32) = (range n).flatMap block :=
      take_left' (by omega)
    have hdrop : (((range n).flatMap block) ++ out.drop (32 * n)).drop (n * 32 + k) = out.drop (32 * (n + 1)) := by
      rw [drop_append, drop_of_length_le (by omega), drop_drop, nil_append, hdone]
      by_cases hlast : 32 * (n + 1) ≤ out.length
      · congr 1
        omega
      · rw [drop_of_length_le (by omega), drop_of_length_le (by omega)]
    have hblock : (block n).take k = (block n).take (out.length - 32 * n) := by
      rw [take_eq_take_iff, h]
      omega
    have hfull : ((range n).flatMap block).take out.length = (range n).flatMap block :=
      take_of_length_le (by omega)
    rw [range_succ, foldl_append, ih (by omega), hfull, foldl_cons, foldl_nil, hcut, storeAt, hk.1, htake,
      hdrop, flatMap_append, flatMap_singleton, take_append, hdone, hfull, hblock]

theorem pbkdf2Hmac_eq (iterations : Nat) {out : List Byte} (hp : password.length < 2 ^ 61)
    (hlen : out.length ≤ 2 ^ 32) : pbkdf2HmacSha256 memory password salt iterations out =
      Rfc.pbkdf2 password (salt.take 60) iterations out.length := by
  have hblocks : (out.length + 32 - 1) / 32 % 2 ^ 32 = (out.length + 31) / 32 := by omega
  have hcut := cut_blocks (fun j => Rfc.pbkdfF password (salt.take 60) iterations (j + 1))
    (fun j => pbkdfF_length ..) out ((out.length + 31) / 32) (by omega)
  rw [drop_of_length_le (by omega), append_nil] at hcut
  rw [pbkdf2HmacSha256, hblocks, Rfc.pbkdf2, ← hcut]
  refine foldl_ext _ _ _ fun buf j hj => ?_
  rw [mem_range] at hj
  dsimp only
  rw [pbkdf2Block_eq hm hp iterations (by omega), Nat.mod_eq_of_lt (by omega : j * 32 < 2 ^ 32)]

theorem derived_keys {iterations : Nat} (hp : password.length < 2 ^ 61) (hi : iterations ≠ 0) :
    cryptDeriveXtsKeys memory password salt iterations = some ((Rfc.pbkdf2 password (salt.take 60) iterations 64).take 32,
      ((Rfc.pbkdf2 password (salt.take 60) iterations 64).drop 32).take 32) := by
  rw [cryptDeriveXtsKeys, if_neg hi, pbkdf2Hmac_eq hm iterations hp (by rw [hm]; decide), hm]

/-- PBKDF2 is that of RFC 8018 under the first 60 bytes of the salt: a longer one is cut, without
an error. Of a longer buffer than 4 GiB the last blocks would go back to its start. -/
theorem pbkdf2_exact {password salt : List Byte} (iterations : Nat) {out : List Byte} (hp : password.length < 2 ^ 61)
    (hlen : out.length ≤ 2 ^ 32) : cryptPbkdf2Sha256 memory password salt iterations out =
      if out.length = 0 ∨ iterations = 0 then out else Rfc.pbkdf2 password (salt.take 60) iterations out.length := by
  rw [cryptPbkdf2Sha256, pbkdf2Hmac_eq hm iterations hp hlen]

end

/-- Contexts in which every block was zero. -/
def clearedMemory (_ : Nat) : List Byte := replicate 64 0

theorem cleared_length (n : Nat) : (clearedMemory n).length = 64 := length_replicate

theorem hmac_exact_two_pieces : hkdfHmacEnd clearedMemory ([[1], [2, 3]].foldl hkdfHmacUpdate (hkdfHmacBegin clearedMemory [7])) =
    Rfc.hmac [7] [1, 2, 3] :=
  (hmac_exact cleared_length [[1], [2, 3]] (by decide) (by decide)).2.2

theorem hkdf_exact_no_salt : cryptHkdfSha256 clearedMemory none (some [1, 2]) [3] 40 =
    some (Rfc.hkdfExpand (Rfc.hmac (replicate 32 0) [1, 2]) [3] 40) :=
  hkdf_exact cleared_length none (some [1, 2]) 40 (by decide) (by decide) (by decide)

/-- Salts that agree on their first 60 bytes give one key. -/
theorem pbkdf2_exact_long_salt : cryptPbkdf2Sha256 clearedMemory [1] (replicate 64 5) 1000 (clearedMemory 0) =
    cryptPbkdf2Sha256 clearedMemory [1] (replicate 61 5) 1000 (clearedMemory 0) := by
  rw [pbkdf2_exact cleared_length 1000 (by decide) (by decide), pbkdf2_exact cleared_length 1000 (by decide) (by decide)]
  rfl

end CapyOS.Proofs
