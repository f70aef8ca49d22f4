import CapyOS.Proofs.CryptAesXts
import CapyOS.Proofs.Hmac
import CapyOS.Security.ChaCha20Poly1305
import CapyOS.Security.Rekey

namespace CapyOS.Proofs
open Lib

instance : Finite AesState :=
  Finite.of_injective (fun (s : AesState) i => (s i).toFin) fun _ _ h => funext fun i => BitVec.eq_of_toFin_eq (congrFun h i)

/-- The states are finitely many: a cipher that can be undone reaches all of them, and encryption
undoes decryption too. -/
theorem aesEncryptBlock_decrypt (roundKey : Bytes) (s : AesState) :
    aesEncryptBlock roundKey (aesDecryptBlock roundKey s) = s := by
  have hback : Function.LeftInverse (aesDecryptBlock roundKey) (aesEncryptBlock roundKey) := aesDecryptBlock_encrypt roundKey
  have honto := Finite.surjective_of_injective hback.injective
  exact hback.rightInverse_of_surjective honto s

theorem xtsUnit_undone (crypt : XtsDevice) (encrypt : Bool) (tweak input : AesState) :
    crypt.xtsUnit (!encrypt) tweak (crypt.xtsUnit encrypt tweak input) = input := by
  cases encrypt with
  | false => simp [XtsDevice.xtsUnit, aesEncryptBlock_decrypt]
  | true => exact xtsUnit_back crypt tweak input

theorem xtsFrom_above (crypt : XtsDevice) (encrypt : Bool) (input : Bytes) (n i : Nat) (tweak : AesState) (output : Bytes)
    {k : Nat} (hk : (i + n) * 16 ≤ k) : crypt.xtsFrom encrypt input n i tweak output k = output k := by
  induction n generalizing i tweak output with
  | zero => rfl
  | succ n ih =>
    rw [XtsDevice.xtsFrom, ih (i + 1) _ _ (by omega)]
    exact blit_outside (.inr (by omega))

/-- The device of a volume, for the two keys it was opened with. -/
def volumeXts (key : List Byte × List Byte) : XtsDevice where
  lower := ⟨cryptMaxBlockSize, 0, fun _ => zeros, fun _ => false, fun _ => false, by decide, by decide⟩
  blockSize := cryptMaxBlockSize
  blockCount := 0
  dataCtx := aesKeyExpand (bufferBytes key.1)
  tweakCtx := aesKeyExpand (bufferBytes key.2)

/-- `xts_crypt` of a block in place. -/
def xtsBlock (encrypt : Bool) (key : List Byte × List Byte) (n : Nat) (b : Bytes) : Bytes :=
  (volumeXts key).xtsCrypt n b b encrypt

theorem xtsBlock_undone (key : List Byte × List Byte) (n : Nat) (encrypt : Bool) (b : Bytes) :
    xtsBlock (!encrypt) key n (xtsBlock encrypt key n b) = b := by
  have hunits : (volumeXts key).blockSize / aesBlocklen = 256 := by
    change cryptMaxBlockSize / aesBlocklen = 256
    decide
  have hout : ∀ (e : Bool) (k : Nat) (b : Bytes), 4096 ≤ k → xtsBlock e key n b k = b k :=
    fun e k b hk => xtsFrom_above (volumeXts key) e b ((volumeXts key).blockSize / aesBlocklen) 0 _ b (by
      rw [hunits]
      omega)
  funext k
  by_cases hk : k < 4096
  · have hm : k / 16 < 256 := by omega
    rw [byte_of_unit (xtsBlock _ _ _ _), xtsBlock, xtsCrypt_unit (volumeXts key) rfl _ _ _ _ hm, xtsBlock,
      xtsCrypt_unit (volumeXts key) rfl _ _ _ _ hm, xtsUnit_undone]
    exact (byte_of_unit b k).symm
  · rw [hout _ k _ (by omega), hout _ k _ (by omega)]

/-- Under any keys and at any block number, encryption and decryption of a block undo each other, in
both orders. -/
theorem xts_inverse (key : List Byte × List Byte) (n : Nat) :
    Function.LeftInverse (xtsBlock false key n) (xtsBlock true key n) ∧
      Function.RightInverse (xtsBlock false key n) (xtsBlock true key n) :=
  ⟨xtsBlock_undone key n true, xtsBlock_undone key n false⟩

/-- The primitives the volume code calls, with Argon2id as it may be. -/
def volumePrimitives (memory : Nat → List Byte) (password : List Byte) (argon2id : List Byte → Nat → Nat → List Byte × List Byte) :
    VolumeCrypto (List Byte × List Byte) where
  deriveXtsKeys salt iterations := (cryptDeriveXtsKeys memory password salt iterations).getD ([], [])
  deriveXtsKeysArgon2id := argon2id
  hmacSha256 key m := bufferBytes (cryptHmacSha256 memory (key.1 ++ key.2) m)
  encrypt := xtsBlock true
  decrypt := xtsBlock false
  decrypt_encrypt key n b := xtsBlock_undone key n true b
  encrypt_decrypt key n b := xtsBlock_undone key n false b

/-- The keys of a password, for the salt and the iterations of a header. -/
def passwordKeys (password : List Byte) (h : VolumeHeader) : List Byte × List Byte :=
  let derived := Rfc.pbkdf2 password ((listBytes h.kdfSalt h.kdfSaltLen).take 60) h.kdfTCost 64
  (derived.take 32, (derived.drop 32).take 32)

theorem listBytes_eq {b : Bytes} {l : List Byte} {n : Nat} (hl : l.length = n) :
    (∀ i, i < n → bufferBytes l i = b i) ↔ listBytes b n = l := by
  have hown : listBytes (bufferBytes l) n = l := by
    subst hl
    exact List.ext_getElem (by simp) fun i _ h => by simp [listBytes, bufferBytes, h]
  refine ⟨fun h => (listBytes_congr h).symm.trans hown, fun h i hi => ?_⟩
  have hi' := congrArg (fun l : List Byte => l[i]?) (h.trans hown.symm)
  simpa [listBytes, hi] using hi'.symm

theorem pbkdf2_length (password salt : List Byte) (c : Nat) : (Rfc.pbkdf2 password salt c 64).length = 64 := by
  simp only [Rfc.pbkdf2, List.length_take, List.length_flatMap, pbkdfF_length]
  rfl

theorem tag_verified {memory : Nat → List Byte} (hm : ∀ n, (memory n).length = 64) (password : List Byte)
    (argon2id : List Byte → Nat → Nat → List Byte × List Byte) (h : VolumeHeader) (key : List Byte × List Byte)
    (hkey : (key.1 ++ key.2).length = 64) :
    volumeHeaderVerifyCheckTag (volumePrimitives memory password argon2id) h key = true ↔
      listBytes h.kdfCheckTag 32 = Rfc.hmac (key.1 ++ key.2) (volumeHeaderCheckContext ++ listBytes h 104) := by
  have hmac : cryptHmacSha256 memory (key.1 ++ key.2) (volumeHeaderCheckContext ++ listBytes h 104) =
      Rfc.hmac (key.1 ++ key.2) (volumeHeaderCheckContext ++ listBytes h 104) := by
    refine hmacInternal_eq hm (by omega) ?_
    rw [List.length_append, length_listBytes]
    decide
  rw [volumeHeaderVerifyCheckTag, decide_eq_true_iff, ← hmac]
  exact listBytes_eq ((congrArg List.length hmac).trans (hmac_length _ _))

/-- A password opens a volume made with PBKDF2 when the tag of the header is the MAC of what stands
before it, under the keys that the password and the first 60 bytes of the salt give. -/
theorem volume_opens_exact {memory : Nat → List Byte} (hm : ∀ n, (memory n).length = 64) {password : List Byte}
    (hp : password.length < 2 ^ 61) (argon2id : List Byte → Nat → Nat → List Byte × List Byte) {h : VolumeHeader}
    (hkdf : h.kdfAlgoId = volumeKdfAlgoPbkdf2Sha256) :
    volumeHeaderDeriveKeys (volumePrimitives memory password argon2id) h =
      if vhValidateParams h.kdfAlgoId h.kdfTCost h.kdfMCost h.kdfSaltLen h.dataOffsetLba h.reservedLbaCount = true ∧
          listBytes h.kdfCheckTag 32 = Rfc.hmac ((passwordKeys password h).1 ++ (passwordKeys password h).2)
            (volumeHeaderCheckContext ++ listBytes h 104) then
        some (passwordKeys password h)
      else none := by
  rw [volumeHeaderDeriveKeys]
  by_cases hvalid : vhValidateParams h.kdfAlgoId h.kdfTCost h.kdfMCost h.kdfSaltLen h.dataOffsetLba h.reservedLbaCount = true
  · have hiterations : h.kdfTCost ≠ 0 := by
      simp only [vhValidateParams, hkdf, beq_self_eq_true, if_true, Bool.and_eq_true, decide_eq_true_eq] at hvalid
      omega
    have hkeys : (volumePrimitives memory password argon2id).deriveXtsKeys (listBytes h.kdfSalt h.kdfSaltLen) h.kdfTCost =
        passwordKeys password h := by
      simp only [volumePrimitives, derived_keys hm hp hiterations, Option.getD_some]
      rfl
    have htag := tag_verified hm password argon2id h (passwordKeys password h) (by simp [passwordKeys, pbkdf2_length])
    rw [if_pos hvalid]
    dsimp only
    rw [hkdf, beq_self_eq_true, if_pos rfl, hkeys]
    by_cases hverified : volumeHeaderVerifyCheckTag (volumePrimitives memory password argon2id) h (passwordKeys password h) = true
    · rw [if_pos hverified, ← hkdf, if_pos ⟨hvalid, htag.mp hverified⟩]
    · rw [if_neg hverified, if_neg fun hh => hverified (htag.mpr hh.2)]
  · rw [if_neg hvalid, if_neg fun hh => hvalid hh.1]

/-- A header with 1000 iterations and a salt of 16 bytes. -/
def keyedHeader : VolumeHeader :=
  (volumeHeaderInit volumeKdfAlgoPbkdf2Sha256 1000 0 (List.replicate 16 5) 2 1 0 []).getD zeros

/-- The same header with the tag of the password `[1]`. -/
def sealedHeader : VolumeHeader :=
  volumeHeaderComputeCheckTag (volumePrimitives clearedMemory [1] fun _ _ _ => ([], [])) keyedHeader (passwordKeys [1] keyedHeader)

theorem sealed_load {o n : Nat} (h : o + n ≤ 104) : load sealedHeader o n = load keyedHeader o n :=
  load_blit_outside (.inl h)

theorem sealed_keys : passwordKeys [1] sealedHeader = passwordKeys [1] keyedHeader := by
  have hlen : sealedHeader.kdfSaltLen = 16 := (sealed_load (by decide)).trans (by decide)
  have hlen' : keyedHeader.kdfSaltLen = 16 := by decide
  have hcost : sealedHeader.kdfTCost = keyedHeader.kdfTCost := sealed_load (by decide)
  have hsalt : listBytes sealedHeader.kdfSalt 16 = listBytes keyedHeader.kdfSalt 16 :=
    listBytes_congr fun i hi => blit_outside (.inl (by simp only [volumeHeaderCheckTagOffset]; omega))
  rw [passwordKeys, passwordKeys, hlen, hlen', hcost, hsalt]

/-- The password whose tag a header carries opens it. -/
theorem volume_opens_exact_sealed :
    volumeHeaderDeriveKeys (volumePrimitives clearedMemory [1] fun _ _ _ => ([], [])) sealedHeader =
      some (passwordKeys [1] sealedHeader) := by
  have hkdf : sealedHeader.kdfAlgoId = volumeKdfAlgoPbkdf2Sha256 := (sealed_load (by decide)).trans (by decide)
  have hparams : vhValidateParams sealedHeader.kdfAlgoId sealedHeader.kdfTCost sealedHeader.kdfMCost sealedHeader.kdfSaltLen
      sealedHeader.dataOffsetLba sealedHeader.reservedLbaCount = true := by
    simp (disch := decide) only [VolumeHeader.kdfAlgoId, VolumeHeader.kdfTCost, VolumeHeader.kdfMCost, VolumeHeader.kdfSaltLen,
      VolumeHeader.dataOffsetLba, VolumeHeader.reservedLbaCount, sealed_load]
    decide
  have htag : volumeHeaderVerifyCheckTag (volumePrimitives clearedMemory [1] fun _ _ _ => ([], [])) sealedHeader
      (passwordKeys [1] sealedHeader) = true := by
    rw [volumeHeaderVerifyCheckTag, decide_eq_true_iff, sealed_keys]
    intro i hi
    have hbefore : listBytes sealedHeader volumeHeaderCheckTagOffset = listBytes keyedHeader volumeHeaderCheckTagOffset :=
      listBytes_congr fun j hj => blit_outside (.inl hj)
    rw [vhComputeTag, hbefore]
    exact (blit_inside hi).symm
  rw [volume_opens_exact cleared_length (by decide) _ (h := sealedHeader) hkdf]
  exact if_pos ⟨hparams, (tag_verified cleared_length [1] _ _ _ (by simp [passwordKeys, pbkdf2_length])).mp htag⟩

end CapyOS.Proofs
