import CapyOS.Security.CryptAesXts

namespace CapyOS.Proofs
open Lib Function
variable {crypt after : XtsDevice} {n : Nat}

/-! The operations of a round and their inverses. -/

theorem xor_middle (a b c d : Byte) : (a ^^^ b) ^^^ (c ^^^ d) = (a ^^^ c) ^^^ (b ^^^ d) := by
  ac_rfl

theorem rsbox_sbox (x : Byte) : rsbox (sbox x) = x := by
  -- A quarter of the table at a time.
  have hquarter : ∀ q < 4, ∀ i < 64, rsbox (sbox (BitVec.ofNat 8 (64 * q + i))) = BitVec.ofNat 8 (64 * q + i) := by
    intro q hq
    interval_cases q <;> decide +kernel
  have hx := x.isLt
  have hat := hquarter (x.toNat / 64) (by omega) (x.toNat % 64) (by omega)
  rwa [Nat.div_add_mod, BitVec.ofNat_toNat, BitVec.setWidth_eq] at hat

theorem xtime_xor (x y : Byte) : xtime (x ^^^ y) = xtime x ^^^ xtime y := by
  have hbit : ∀ z : Byte, z >>> 7 = 0 ∨ z >>> 7 = 1 := fun z => by bv_omega
  -- the reduction of the two high bits is linear too
  have hhigh : (x >>> 7 ^^^ y >>> 7) * (0x1b : Byte) =
      (x >>> 7) * (0x1b : Byte) ^^^ (y >>> 7) * (0x1b : Byte) := by
    rcases hbit x with hx | hx <;> rcases hbit y with hy | hy <;> rw [hx, hy] <;> rfl
  have hshift : (x ^^^ y) >>> 7 = x >>> 7 ^^^ y >>> 7 := BitVec.ushiftRight_xor_distrib x y 7
  have hdouble : (x ^^^ y) <<< 1 = x <<< 1 ^^^ y <<< 1 := BitVec.shiftLeft_xor_distrib x y 1
  rw [xtime, hshift, hdouble, hhigh]
  exact xor_middle _ _ _ _

theorem multiplyFrom_xor (n : Nat) (x y p q r : Byte) :
    multiplyFrom n (x ^^^ y) p (q ^^^ r) = multiplyFrom n x p q ^^^ multiplyFrom n y p r := by
  induction n generalizing x y p q r with
  | zero => rfl
  | succ n ih =>
    simp only [multiplyFrom]
    split
    · rfl
    · rw [xtime_xor]
      split
      · rw [xor_middle]
        exact ih _ _ _ _ _
      · exact ih _ _ _ _ _

theorem multiply_xor (x y p : Byte) : multiply (x ^^^ y) p = multiply x p ^^^ multiply y p := by
  have h := multiplyFrom_xor 8 x y p 0 0
  rwa [BitVec.xor_self] at h

theorem unmixed_byte : ∀ a : Byte, (multiply (multiply a 2) 0x0e ^^^ multiply a 0x0b ^^^ multiply a 0x0d ^^^
      multiply (multiply a 3) 0x09 = a) ∧ (multiply (multiply a 2) 0x09 ^^^ multiply a 0x0e ^^^ multiply a 0x0b ^^^
      multiply (multiply a 3) 0x0d = 0) ∧ (multiply (multiply a 2) 0x0d ^^^ multiply a 0x09 ^^^ multiply a 0x0e ^^^
      multiply (multiply a 3) 0x0b = 0) ∧ (multiply (multiply a 2) 0x0b ^^^ multiply a 0x0d ^^^ multiply a 0x09 ^^^
      multiply (multiply a 3) 0x0e = 0) :=
  forall_and.mpr ⟨by decide +kernel, forall_and.mpr ⟨by decide +kernel,
    forall_and.mpr ⟨by decide +kernel, by decide +kernel⟩⟩⟩

def Column.xor (c d : Column) : Column :=
  ⟨c.a0 ^^^ d.a0, c.a1 ^^^ d.a1, c.a2 ^^^ d.a2, c.a3 ^^^ d.a3⟩

/-- The column with its bytes moved down by one. -/
def Column.turn (c : Column) : Column := ⟨c.a3, c.a0, c.a1, c.a2⟩

theorem mixColumn_xor (c d : Column) : mixColumn (Column.xor c d) = Column.xor (mixColumn c) (mixColumn d) := by
  simp only [mixColumn, Column.xor, multiply_xor, Column.mk.injEq]
  refine ⟨?_, ?_, ?_, ?_⟩ <;> ac_rfl

theorem invMixColumn_xor (c d : Column) : invMixColumn (Column.xor c d) = Column.xor (invMixColumn c) (invMixColumn d) := by
  simp only [invMixColumn, Column.xor, multiply_xor, Column.mk.injEq]
  refine ⟨?_, ?_, ?_, ?_⟩ <;> ac_rfl

theorem mixColumn_turn (c : Column) : mixColumn (Column.turn c) = Column.turn (mixColumn c) := by
  simp only [mixColumn, Column.turn, Column.mk.injEq]
  refine ⟨?_, ?_, ?_, ?_⟩ <;> ac_rfl

theorem invMixColumn_turn (c : Column) : invMixColumn (Column.turn c) = Column.turn (invMixColumn c) := by
  simp only [invMixColumn, Column.turn, Column.mk.injEq]
  refine ⟨?_, ?_, ?_, ?_⟩ <;> ac_rfl

theorem multiply_zero (p : Byte) : multiply 0 p = 0 := by
  have h := multiply_xor 0 0 p
  rwa [BitVec.xor_self, BitVec.xor_self] at h

theorem unmix_first (a : Byte) : invMixColumn (mixColumn ⟨a, 0, 0, 0⟩) = ⟨a, 0, 0, 0⟩ := by
  obtain ⟨h0, h1, h2, h3⟩ := unmixed_byte a
  have hr : ∀ x : Byte, x ^^^ 0 = x := fun _ => BitVec.xor_zero
  simp only [mixColumn, invMixColumn, multiply_zero, hr, h0, h1, h2, h3]

theorem unmix_turn {c : Column} (h : invMixColumn (mixColumn c) = c) :
    invMixColumn (mixColumn (Column.turn c)) = Column.turn c := by
  rw [mixColumn_turn, invMixColumn_turn, h]

theorem unmix (c : Column) : invMixColumn (mixColumn c) = c := by
  obtain ⟨a, b, d, e⟩ := c
  have hsum : (⟨a, b, d, e⟩ : Column) = Column.xor ⟨a, 0, 0, 0⟩
      (Column.xor (Column.turn ⟨b, 0, 0, 0⟩) (Column.xor (Column.turn (Column.turn ⟨d, 0, 0, 0⟩))
        (Column.turn (Column.turn (Column.turn ⟨e, 0, 0, 0⟩))))) := by
    simp [Column.xor, Column.turn]
  rw [hsum]
  simp only [mixColumn_xor, invMixColumn_xor, unmix_first, unmix_turn (unmix_first b),
    unmix_turn (unmix_turn (unmix_first d)), unmix_turn (unmix_turn (unmix_turn (unmix_first e)))]

theorem column_ofColumns (columns : Fin 4 → Column) (i : Fin 4) : column (ofColumns columns) i = columns i := by
  have hdiv : ∀ r < 4, ((i : Nat) * 4 + r) / 4 = i := fun r hr => by omega
  have hmod : ∀ r < 4, ((i : Nat) * 4 + r) % 4 = r := fun r hr => by omega
  simp only [column, ofColumns, hdiv, hmod, Nat.mul_div_cancel, Nat.mul_mod_left, Nat.reduceLT]
  rfl

theorem ofColumns_column (s : AesState) : ofColumns (column s) = s := by
  have hbyte : ∀ c r : Fin 4, (column s c).byte r = s ⟨c * 4 + r, by omega⟩ := by
    intro c r
    match r with
    | 0 | 1 | 2 | 3 => rfl
  funext i
  rw [ofColumns, hbyte]
  congr 1
  exact Fin.ext (Nat.div_add_mod' i 4)

theorem invMixColumns_mixColumns (s : AesState) : invMixColumns (mixColumns s) = s := by
  simp only [invMixColumns, mixColumns, column_ofColumns, unmix]
  exact ofColumns_column s

theorem invShiftRows_shiftRows (s : AesState) : invShiftRows (shiftRows s) = s := by
  have hback : ∀ i, shiftRowsFrom (invShiftRowsFrom i) = i := by decide
  funext i
  rw [invShiftRows, shiftRows, hback i]

theorem invSubBytes_subBytes (s : AesState) : invSubBytes (subBytes s) = s :=
  funext fun i => rsbox_sbox (s i)

@[simp] theorem addRoundKey_twice (s k : AesState) : addRoundKey (addRoundKey s k) k = s := by
  funext i
  simp [addRoundKey, BitVec.xor_assoc]

/-! The cipher. -/

theorem decryptRounds_encryptRounds (roundKey : Bytes) (n : Nat) (s : AesState) :
    decryptRounds roundKey n (shiftRows (subBytes (encryptRounds roundKey n s))) = shiftRows (subBytes s) := by
  induction n with
  | zero => rfl
  | succ n ih =>
    rw [decryptRounds, invShiftRows_shiftRows, invSubBytes_subBytes, encryptRounds,
      addRoundKey_twice, invMixColumns_mixColumns, ih]

/-- Whatever the round keys are, decryption undoes encryption. -/
theorem aesDecryptBlock_encrypt (roundKey : Bytes) (s : AesState) :
    aesDecryptBlock roundKey (aesEncryptBlock roundKey s) = s := by
  simp only [aesDecryptBlock, aesEncryptBlock, addRoundKey_twice, decryptRounds_encryptRounds,
    invShiftRows_shiftRows, invSubBytes_subBytes]

/-! One block. -/

theorem xtsUnit_back (crypt : XtsDevice) (tweak input : AesState) :
    crypt.xtsUnit false tweak (crypt.xtsUnit true tweak input) = input := by
  simp [XtsDevice.xtsUnit, aesDecryptBlock_encrypt]

def tweakAt (tweak : AesState) : Nat → AesState
  | 0 => tweak
  | i + 1 => tweakAt (gfMulx tweak) i

theorem xtsFrom_below (crypt : XtsDevice) (encrypt : Bool) (input : Bytes) (n i : Nat)
    (tweak : AesState) (output : Bytes) {k : Nat} (hk : k < i * 16) :
    crypt.xtsFrom encrypt input n i tweak output k = output k := by
  induction n generalizing i tweak output with
  | zero => rfl
  | succ n ih =>
    rw [XtsDevice.xtsFrom, ih (i + 1) _ _ (by omega)]
    exact blit_outside (.inl hk)

theorem xtsFrom_unit (crypt : XtsDevice) (encrypt : Bool) (input : Bytes) (n i m : Nat)
    (tweak : AesState) (output : Bytes) (hm : m < n) : stateAt (crypt.xtsFrom encrypt input n i tweak output) ((i + m) * 16) =
      crypt.xtsUnit encrypt (tweakAt tweak m) (stateAt input ((i + m) * 16)) := by
  induction n generalizing i m tweak output with
  | zero => omega
  | succ n ih =>
    rw [XtsDevice.xtsFrom]
    cases m with
    | zero =>
      funext j
      have hj := j.isLt
      rw [stateAt, xtsFrom_below _ _ _ _ _ _ _ (by omega), Nat.add_zero, blit_inside hj, AesState.bytes, dif_pos hj]
      rfl
    | succ m =>
      have hi : i + (m + 1) = i + 1 + m := by omega
      rw [hi]
      exact ih (i + 1) m (gfMulx tweak) _ (by omega)

theorem byte_of_unit (b : Bytes) (k : Nat) : b k = stateAt b (k / 16 * 16) ⟨k % 16, Nat.mod_lt _ (by decide)⟩ := by
  change b k = b (k / 16 * 16 + k % 16)
  rw [Nat.div_add_mod']

theorem xtsCrypt_unit (crypt : XtsDevice) (hsize : crypt.blockSize = cryptMaxBlockSize)
    (n : Nat) (input output : Bytes) (encrypt : Bool) {m : Nat} (hm : m < 256) :
    stateAt (crypt.xtsCrypt n input output encrypt) (m * 16) = crypt.xtsUnit encrypt
      (tweakAt (aesEncryptBlock crypt.tweakCtx (setBlockNumber n)) m) (stateAt input (m * 16)) := by
  have hunits : crypt.blockSize / aesBlocklen = 256 := by rw [hsize]; rfl
  have h := xtsFrom_unit crypt encrypt input 256 0 m
    (aesEncryptBlock crypt.tweakCtx (setBlockNumber n)) output hm
  rw [Nat.zero_add] at h
  rw [XtsDevice.xtsCrypt, hunits, h]

theorem xtsCrypt_back (crypt : XtsDevice) (hsize : crypt.blockSize = cryptMaxBlockSize)
    (blockNo : Nat) (data temp buffer : Bytes) {k : Nat} (hk : k < 4096) :
    crypt.xtsCrypt blockNo (crypt.xtsCrypt blockNo data temp true) buffer false k = data k := by
  have hm : k / 16 < 256 := by omega
  rw [byte_of_unit (crypt.xtsCrypt blockNo (crypt.xtsCrypt blockNo data temp true) buffer false) k,
    xtsCrypt_unit crypt hsize _ _ _ _ hm, xtsCrypt_unit crypt hsize _ _ _ _ hm, xtsUnit_back]
  exact (byte_of_unit data k).symm

/-! The device. -/

/-- A request to the crypt device with the caller's buffer. -/
inductive CryptOp
  | read (blockNo : Nat) (buffer : Bytes)
  | write (blockNo : Nat) (buffer : Bytes)

def cryptStep (crypt : XtsDevice) : CryptOp → Option XtsDevice
  | .read n buffer => (crypt.read n buffer).map fun _ => crypt
  | .write n buffer => if (crypt.write n buffer).1 then some (crypt.write n buffer).2 else none

def cryptRun (crypt : XtsDevice) : List CryptOp → Option XtsDevice
  | [] => some crypt
  | op :: ops => (cryptStep crypt op).bind fun after => cryptRun after ops

/-- The data the last of the requests to write block `n` carries. -/
def lastWritten (n : Nat) : List CryptOp → Option Bytes
  | [] => none
  | .read _ _ :: ops => lastWritten n ops
  | .write m data :: ops => (lastWritten n ops).or (if m = n then some data else none)

/-- The two devices have the same keys and sizes, and their lower devices answer
the same requests. -/
structure SameCipher (crypt after : XtsDevice) : Prop where
  blockSize : after.blockSize = crypt.blockSize
  blockCount : after.blockCount = crypt.blockCount
  dataCtx : after.dataCtx = crypt.dataCtx
  tweakCtx : after.tweakCtx = crypt.tweakCtx
  canRead : ∀ n, after.lower.canRead n = crypt.lower.canRead n

theorem SameCipher.refl (crypt : XtsDevice) : SameCipher crypt crypt :=
  ⟨rfl, rfl, rfl, rfl, fun _ => rfl⟩

theorem SameCipher.trans {a b c : XtsDevice} (h : SameCipher a b) (h' : SameCipher b c) : SameCipher a c :=
  ⟨h'.blockSize.trans h.blockSize, h'.blockCount.trans h.blockCount, h'.dataCtx.trans h.dataCtx, h'.tweakCtx.trans h.tweakCtx,
    fun n => (h'.canRead n).trans (h.canRead n)⟩

theorem SameCipher.xtsFrom (h : SameCipher crypt after) (e : Bool)
    (input : Bytes) (n i : Nat) (tweak : AesState) (output : Bytes) :
    after.xtsFrom e input n i tweak output = crypt.xtsFrom e input n i tweak output := by
  induction n generalizing i tweak output with
  | zero => rfl
  | succ n ih =>
    have hunit : after.xtsUnit e tweak (stateAt input (i * 16)) =
        crypt.xtsUnit e tweak (stateAt input (i * 16)) := by
      simp only [XtsDevice.xtsUnit, h.dataCtx]
    rw [XtsDevice.xtsFrom, XtsDevice.xtsFrom, hunit, ih]

theorem SameCipher.xtsCrypt (h : SameCipher crypt after) (n : Nat) (input output : Bytes) (e : Bool) :
    after.xtsCrypt n input output e = crypt.xtsCrypt n input output e := by
  rw [XtsDevice.xtsCrypt, XtsDevice.xtsCrypt, h.xtsFrom, h.blockSize, h.tweakCtx]

theorem SameCipher.read (h : SameCipher crypt after)
    (hblock : after.lower.blocks n = crypt.lower.blocks n) (buffer : Bytes) : after.read n buffer = crypt.read n buffer := by
  simp only [XtsDevice.read, XtsDevice.cryptReadBlock, blockDeviceRead, h.blockSize,
    h.blockCount, h.canRead, hblock, h.xtsCrypt]

theorem read_some {crypt : XtsDevice} {buffer out : Bytes} (h : crypt.read n buffer = some out) :
    out = crypt.xtsCrypt n (crypt.lower.blocks n) buffer false := by
  unfold XtsDevice.read XtsDevice.cryptReadBlock blockDeviceRead at h
  split at h
  · cases h
  · split at h
    · cases h
    · split at h
      · cases h
      · next hread =>
        split at hread
        · cases hread
          exact (Option.some.inj h).symm
        · cases hread

/-- What a successful write leaves: only the one lower block is another. -/
theorem write_some {crypt : XtsDevice} {data : Bytes} (h : (crypt.write n data).1 = true) :
    SameCipher crypt (crypt.write n data).2 ∧ (crypt.write n data).2.lower.blocks =
        update crypt.lower.blocks n (crypt.xtsCrypt n data zeros true) := by
  unfold XtsDevice.write XtsDevice.cryptWriteBlock blockDeviceWrite at *
  split at h
  · cases h
  · next hcount =>
    rw [if_neg hcount]
    split at h
    · cases h
    · next hsize =>
      rw [if_neg hsize]
      refine ⟨⟨rfl, rfl, rfl, rfl, fun m => by simp⟩, ?_⟩
      simp only [BlockDevice.write_blocks, show crypt.lower.canWrite n = true from h, if_true]

theorem cryptStep_same {op : CryptOp}
    (h : cryptStep crypt op = some after) :
    SameCipher crypt after ∧ ∀ n, after.lower.blocks n =
      match lastWritten n [op] with
      | some data => crypt.xtsCrypt n data zeros true
      | none => crypt.lower.blocks n := by
  cases op with
  | read m buffer =>
    obtain ⟨out, -, rfl⟩ := Option.map_eq_some_iff.mp h
    exact ⟨SameCipher.refl crypt, fun n => rfl⟩
  | write m buffer =>
    simp only [cryptStep] at h
    split at h
    · next hok =>
      cases h
      obtain ⟨hsame, hblocks⟩ := write_some hok
      refine ⟨hsame, fun n => ?_⟩
      rw [hblocks]
      by_cases hn : m = n
      · subst hn
        simp [lastWritten]
      · simp [lastWritten, hn, update_of_ne (Ne.symm hn)]
    · cases h

theorem cryptRun_same {ops : List CryptOp}
    (h : cryptRun crypt ops = some after) :
    SameCipher crypt after ∧ ∀ n, after.lower.blocks n =
      match lastWritten n ops with
      | some data => crypt.xtsCrypt n data zeros true
      | none => crypt.lower.blocks n := by
  induction ops generalizing crypt with
  | nil =>
    cases h
    exact ⟨SameCipher.refl _, fun n => rfl⟩
  | cons op ops ih =>
    obtain ⟨mid, hstep, hrest⟩ := Option.bind_eq_some_iff.mp h
    obtain ⟨hsame, hblocks⟩ := cryptStep_same hstep
    obtain ⟨hsame', hblocks'⟩ := ih hrest
    refine ⟨hsame.trans hsame', fun n => ?_⟩
    have hlast : lastWritten n (op :: ops) = (lastWritten n ops).or (lastWritten n [op]) := by
      cases op with
      | read m buffer => simp [lastWritten]
      | write m buffer => simp [lastWritten]
    rw [hblocks' n, hlast]
    cases lastWritten n ops with
    | some data => exact hsame.xtsCrypt n data zeros true
    | none => exact hblocks n

theorem cryptInit_some {kalloc : Bool} {lower : BlockDevice} {key1 key2 : Bytes}
    {crypt : XtsDevice} (h : cryptInit kalloc lower key1 key2 = some crypt) :
    crypt.blockSize = cryptMaxBlockSize ∧ crypt.lower = lower ∧
      crypt.dataCtx = aesKeyExpand key1 ∧ crypt.tweakCtx = aesKeyExpand key2 := by
  unfold cryptInit at h
  split at h
  · cases h
  · next hsize =>
    split at h
    · cases h
    · cases h
      exact ⟨not_not.mp hsize, rfl, rfl, rfl⟩

theorem crypt_refines_lower {kalloc : Bool} {lower : BlockDevice} {key1 key2 : Bytes}
    {crypt after : XtsDevice} {ops : List CryptOp}
    (hinit : cryptInit kalloc lower key1 key2 = some crypt)
    (hrun : cryptRun crypt ops = some after) (n : Nat) :
    (∀ data, lastWritten n ops = some data → ∀ buffer out, after.read n buffer = some out →
      ∀ k < 4096, out k = data k) ∧
    (lastWritten n ops = none → after.lower.blocks n = lower.blocks n ∧
      ∀ buffer, after.read n buffer = crypt.read n buffer) ∧
    (∀ data, (after.write n data).1 = true → (after.write n data).2.lower.blocks =
      update after.lower.blocks n (crypt.xtsCrypt n data zeros true)) ∧
    (∀ key s, aesDecryptBlock (aesKeyExpand key) (aesEncryptBlock (aesKeyExpand key) s) = s) ∧
    ∀ encrypt input output, ∀ m < 256,
      stateAt (crypt.xtsCrypt n input output encrypt) (m * 16) = crypt.xtsUnit encrypt
        (tweakAt (aesEncryptBlock (aesKeyExpand key2) (setBlockNumber n)) m)
        (stateAt input (m * 16)) := by
  obtain ⟨hsize, hlower, -, htweak⟩ := cryptInit_some hinit
  obtain ⟨hsame, hblocks⟩ := cryptRun_same hrun
  refine ⟨fun data hlast buffer out hread k hk => ?_, fun hlast => ?_, fun data hok => ?_,
    fun key s => aesDecryptBlock_encrypt _ s, fun encrypt input output m hm => ?_⟩
  · have hblock : after.lower.blocks n = crypt.xtsCrypt n data zeros true := by
      rw [hblocks n, hlast]
    rw [read_some hread, hblock, hsame.xtsCrypt]
    exact xtsCrypt_back crypt hsize n data zeros buffer hk
  · have hblock : after.lower.blocks n = crypt.lower.blocks n := by
      rw [hblocks n, hlast]
    exact ⟨by rw [hblock, hlower], fun buffer => hsame.read hblock buffer⟩
  · rw [(write_some hok).2, hsame.xtsCrypt]
  · rw [← htweak]
    exact xtsCrypt_unit crypt hsize n input output encrypt hm

def fourBlocks : BlockDevice where
  blockSize := 4096
  blockCount := 4
  blocks := fun _ => zeros
  readFails := fun _ => false
  writeFails := fun _ => false
  blockSize_lt := page_lt
  blockCount_lt := by decide

def fourCrypt : XtsDevice where
  lower := fourBlocks
  blockSize := 4096
  blockCount := 4
  dataCtx := aesKeyExpand zeros
  tweakCtx := aesKeyExpand zeros

theorem crypt_refines_lower_four : ∃ after out,
    cryptRun fourCrypt [.write 1 (fun _ => 7), .write 2 zeros] = some after ∧
    after.read 1 zeros = some out ∧ ∀ k < 4096, out k = 7 := by
  have hinit : cryptInit true fourBlocks zeros zeros = some fourCrypt := rfl
  have hrun : cryptRun fourCrypt [.write 1 (fun _ => 7), .write 2 zeros] =
      some ((fourCrypt.write 1 fun _ => 7).2.write 2 zeros).2 := rfl
  have hread : ∃ out, ((fourCrypt.write 1 fun _ => 7).2.write 2 zeros).2.read 1 zeros = some out :=
    ⟨_, rfl⟩
  obtain ⟨out, hout⟩ := hread
  exact ⟨_, out, hrun, hout, (crypt_refines_lower hinit hrun 1).1 (fun _ => 7) rfl zeros out hout⟩

end CapyOS.Proofs
