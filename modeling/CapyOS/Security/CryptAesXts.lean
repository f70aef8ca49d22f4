import CapyOS.Storage.BlockDevice

namespace CapyOS
open Lib

def sboxTable : List Byte := [
    0x63, 0x7c, 0x77, 0x7b, 0xf2, 0x6b, 0x6f, 0xc5, 0x30, 0x01, 0x67, 0x2b, 0xfe, 0xd7, 0xab, 0x76,
    0xca, 0x82, 0xc9, 0x7d, 0xfa, 0x59, 0x47, 0xf0, 0xad, 0xd4, 0xa2, 0xaf, 0x9c, 0xa4, 0x72, 0xc0,
    0xb7, 0xfd, 0x93, 0x26, 0x36, 0x3f, 0xf7, 0xcc, 0x34, 0xa5, 0xe5, 0xf1, 0x71, 0xd8, 0x31, 0x15,
    0x04, 0xc7, 0x23, 0xc3, 0x18, 0x96, 0x05, 0x9a, 0x07, 0x12, 0x80, 0xe2, 0xeb, 0x27, 0xb2, 0x75,
    0x09, 0x83, 0x2c, 0x1a, 0x1b, 0x6e, 0x5a, 0xa0, 0x52, 0x3b, 0xd6, 0xb3, 0x29, 0xe3, 0x2f, 0x84,
    0x53, 0xd1, 0x00, 0xed, 0x20, 0xfc, 0xb1, 0x5b, 0x6a, 0xcb, 0xbe, 0x39, 0x4a, 0x4c, 0x58, 0xcf,
    0xd0, 0xef, 0xaa, 0xfb, 0x43, 0x4d, 0x33, 0x85, 0x45, 0xf9, 0x02, 0x7f, 0x50, 0x3c, 0x9f, 0xa8,
    0x51, 0xa3, 0x40, 0x8f, 0x92, 0x9d, 0x38, 0xf5, 0xbc, 0xb6, 0xda, 0x21, 0x10, 0xff, 0xf3, 0xd2,
    0xcd, 0x0c, 0x13, 0xec, 0x5f, 0x97, 0x44, 0x17, 0xc4, 0xa7, 0x7e, 0x3d, 0x64, 0x5d, 0x19, 0x73,
    0x60, 0x81, 0x4f, 0xdc, 0x22, 0x2a, 0x90, 0x88, 0x46, 0xee, 0xb8, 0x14, 0xde, 0x5e, 0x0b, 0xdb,
    0xe0, 0x32, 0x3a, 0x0a, 0x49, 0x06, 0x24, 0x5c, 0xc2, 0xd3, 0xac, 0x62, 0x91, 0x95, 0xe4, 0x79,
    0xe7, 0xc8, 0x37, 0x6d, 0x8d, 0xd5, 0x4e, 0xa9, 0x6c, 0x56, 0xf4, 0xea, 0x65, 0x7a, 0xae, 0x08,
    0xba, 0x78, 0x25, 0x2e, 0x1c, 0xa6, 0xb4, 0xc6, 0xe8, 0xdd, 0x74, 0x1f, 0x4b, 0xbd, 0x8b, 0x8a,
    0x70, 0x3e, 0xb5, 0x66, 0x48, 0x03, 0xf6, 0x0e, 0x61, 0x35, 0x57, 0xb9, 0x86, 0xc1, 0x1d, 0x9e,
    0xe1, 0xf8, 0x98, 0x11, 0x69, 0xd9, 0x8e, 0x94, 0x9b, 0x1e, 0x87, 0xe9, 0xce, 0x55, 0x28, 0xdf,
    0x8c, 0xa1, 0x89, 0x0d, 0xbf, 0xe6, 0x42, 0x68, 0x41, 0x99, 0x2d, 0x0f, 0xb0, 0x54, 0xbb, 0x16]

def rsboxTable : List Byte := [
    0x52, 0x09, 0x6a, 0xd5, 0x30, 0x36, 0xa5, 0x38, 0xbf, 0x40, 0xa3, 0x9e, 0x81, 0xf3, 0xd7, 0xfb,
    0x7c, 0xe3, 0x39, 0x82, 0x9b, 0x2f, 0xff, 0x87, 0x34, 0x8e, 0x43, 0x44, 0xc4, 0xde, 0xe9, 0xcb,
    0x54, 0x7b, 0x94, 0x32, 0xa6, 0xc2, 0x23, 0x3d, 0xee, 0x4c, 0x95, 0x0b, 0x42, 0xfa, 0xc3, 0x4e,
    0x08, 0x2e, 0xa1, 0x66, 0x28, 0xd9, 0x24, 0xb2, 0x76, 0x5b, 0xa2, 0x49, 0x6d, 0x8b, 0xd1, 0x25,
    0x72, 0xf8, 0xf6, 0x64, 0x86, 0x68, 0x98, 0x16, 0xd4, 0xa4, 0x5c, 0xcc, 0x5d, 0x65, 0xb6, 0x92,
    0x6c, 0x70, 0x48, 0x50, 0xfd, 0xed, 0xb9, 0xda, 0x5e, 0x15, 0x46, 0x57, 0xa7, 0x8d, 0x9d, 0x84,
    0x90, 0xd8, 0xab, 0x00, 0x8c, 0xbc, 0xd3, 0x0a, 0xf7, 0xe4, 0x58, 0x05, 0xb8, 0xb3, 0x45, 0x06,
    0xd0, 0x2c, 0x1e, 0x8f, 0xca, 0x3f, 0x0f, 0x02, 0xc1, 0xaf, 0xbd, 0x03, 0x01, 0x13, 0x8a, 0x6b,
    0x3a, 0x91, 0x11, 0x41, 0x4f, 0x67, 0xdc, 0xea, 0x97, 0xf2, 0xcf, 0xce, 0xf0, 0xb4, 0xe6, 0x73,
    0x96, 0xac, 0x74, 0x22, 0xe7, 0xad, 0x35, 0x85, 0xe2, 0xf9, 0x37, 0xe8, 0x1c, 0x75, 0xdf, 0x6e,
    0x47, 0xf1, 0x1a, 0x71, 0x1d, 0x29, 0xc5, 0x89, 0x6f, 0xb7, 0x62, 0x0e, 0xaa, 0x18, 0xbe, 0x1b,
    0xfc, 0x56, 0x3e, 0x4b, 0xc6, 0xd2, 0x79, 0x20, 0x9a, 0xdb, 0xc0, 0xfe, 0x78, 0xcd, 0x5a, 0xf4,
    0x1f, 0xdd, 0xa8, 0x33, 0x88, 0x07, 0xc7, 0x31, 0xb1, 0x12, 0x10, 0x59, 0x27, 0x80, 0xec, 0x5f,
    0x60, 0x51, 0x7f, 0xa9, 0x19, 0xb5, 0x4a, 0x0d, 0x2d, 0xe5, 0x7a, 0x9f, 0x93, 0xc9, 0x9c, 0xef,
    0xa0, 0xe0, 0x3b, 0x4d, 0xae, 0x2a, 0xf5, 0xb0, 0xc8, 0xeb, 0xbb, 0x3c, 0x83, 0x53, 0x99, 0x61,
    0x17, 0x2b, 0x04, 0x7e, 0xba, 0x77, 0xd6, 0x26, 0xe1, 0x69, 0x14, 0x63, 0x55, 0x21, 0x0c, 0x7d]

/-- The entries of `Rcon` that the expansion of a 256-bit key reads. -/
def rconTable : List Byte := [0x8d, 0x01, 0x02, 0x04, 0x08, 0x10, 0x20, 0x40]

def sbox (x : Byte) : Byte := sboxTable.getD x.toNat 0
def rsbox (x : Byte) : Byte := rsboxTable.getD x.toNat 0
def rcon (i : Nat) : Byte := rconTable.getD i 0

def xtime (x : Byte) : Byte := (x <<< 1) ^^^ ((x >>> 7) * 0x1b)

/-- The loop of `multiply`: every pass halves `y`, so eight passes end it. -/
def multiplyFrom : Nat → Byte → Byte → Byte → Byte
  | 0, _, _, result => result
  | n + 1, x, y, result =>
    if y = 0 then result
    else multiplyFrom n (xtime x) (y >>> 1) (if y &&& 1 = 1 then result ^^^ x else result)

def multiply (x y : Byte) : Byte := multiplyFrom 8 x y 0

/-- The four bytes `aes_key_expand` makes of the word before word `i`. -/
def keyTemp (roundKey : Bytes) (i : Nat) : Nat → Byte :=
  let tempa : Nat → Byte := fun j => roundKey ((i - 1) * 4 + j)
  if i % 8 = 0 then
    fun j => if j = 0 then sbox (tempa 1) ^^^ rcon (i / 8)
      else if j = 1 then sbox (tempa 2)
      else if j = 2 then sbox (tempa 3)
      else sbox (tempa 0)
  else if i % 8 = 4 then fun j => sbox (tempa j)
  else tempa

/-- Word `i` of the round keys from word `i - 8` and the word before. -/
def keyStep (roundKey : Bytes) (i : Nat) : Bytes :=
  blit roundKey (i * 4) 4 (fun j => roundKey ((i - 8) * 4 + j) ^^^ keyTemp roundKey i j)

/-- `aes_key_expand`: the 240 bytes of round keys of a 32-byte key. -/
def aesKeyExpand (key : Bytes) : Bytes :=
  (List.range' 8 52).foldl keyStep (blit zeros 0 32 key)

/-- The 16 bytes a cipher call works on. -/
abbrev AesState := Fin 16 → Byte

/-- The 16 bytes of a buffer from offset `o`. -/
def stateAt (b : Bytes) (o : Nat) : AesState := fun i => b (o + i)

def AesState.bytes (state : AesState) : Bytes := fun j => if h : j < 16 then state ⟨j, h⟩ else 0

def addRoundKey (state roundKey : AesState) : AesState := fun i => state i ^^^ roundKey i

def subBytes (state : AesState) : AesState := fun i => sbox (state i)

def invSubBytes (state : AesState) : AesState := fun i => rsbox (state i)

/-- Where `shift_rows` takes each byte of the state from. -/
def shiftRowsFrom : Fin 16 → Fin 16 := ![0, 5, 10, 15, 4, 9, 14, 3, 8, 13, 2, 7, 12, 1, 6, 11]

/-- Where `inv_shift_rows` takes each byte of the state from. -/
def invShiftRowsFrom : Fin 16 → Fin 16 := ![0, 13, 10, 7, 4, 1, 14, 11, 8, 5, 2, 15, 12, 9, 6, 3]

def shiftRows (state : AesState) : AesState := fun i => state (shiftRowsFrom i)

def invShiftRows (state : AesState) : AesState := fun i => state (invShiftRowsFrom i)

/-- One column of the state. -/
structure Column where
  a0 : Byte
  a1 : Byte
  a2 : Byte
  a3 : Byte
  deriving DecidableEq

def Column.byte (c : Column) : Fin 4 → Byte := ![c.a0, c.a1, c.a2, c.a3]

/-- Column `i` of the state: its bytes from `i * 4` on. -/
def column (state : AesState) (i : Fin 4) : Column where
  a0 := state ⟨i * 4, by omega⟩
  a1 := state ⟨i * 4 + 1, by omega⟩
  a2 := state ⟨i * 4 + 2, by omega⟩
  a3 := state ⟨i * 4 + 3, by omega⟩

/-- The state made of four columns. -/
def ofColumns (columns : Fin 4 → Column) : AesState :=
  fun i => (columns ⟨i / 4, by omega⟩).byte ⟨i % 4, by omega⟩

def mixColumn (c : Column) : Column where
  a0 := multiply c.a0 2 ^^^ multiply c.a1 3 ^^^ c.a2 ^^^ c.a3
  a1 := c.a0 ^^^ multiply c.a1 2 ^^^ multiply c.a2 3 ^^^ c.a3
  a2 := c.a0 ^^^ c.a1 ^^^ multiply c.a2 2 ^^^ multiply c.a3 3
  a3 := multiply c.a0 3 ^^^ c.a1 ^^^ c.a2 ^^^ multiply c.a3 2

def invMixColumn (c : Column) : Column where
  a0 := multiply c.a0 0x0e ^^^ multiply c.a1 0x0b ^^^ multiply c.a2 0x0d ^^^ multiply c.a3 0x09
  a1 := multiply c.a0 0x09 ^^^ multiply c.a1 0x0e ^^^ multiply c.a2 0x0b ^^^ multiply c.a3 0x0d
  a2 := multiply c.a0 0x0d ^^^ multiply c.a1 0x09 ^^^ multiply c.a2 0x0e ^^^ multiply c.a3 0x0b
  a3 := multiply c.a0 0x0b ^^^ multiply c.a1 0x0d ^^^ multiply c.a2 0x09 ^^^ multiply c.a3 0x0e

def mixColumns (state : AesState) : AesState := ofColumns fun i => mixColumn (column state i)

def invMixColumns (state : AesState) : AesState := ofColumns fun i => invMixColumn (column state i)

/-- The rounds 1 to `n` of `aes_encrypt_block`. -/
def encryptRounds (roundKey : Bytes) : Nat → AesState → AesState
  | 0, state => state
  | n + 1, state =>
    addRoundKey (mixColumns (shiftRows (subBytes (encryptRounds roundKey n state))))
      (stateAt roundKey ((n + 1) * 16))

/-- The rounds `n` down to 1 of `aes_decrypt_block`. -/
def decryptRounds (roundKey : Bytes) : Nat → AesState → AesState
  | 0, state => state
  | n + 1, state =>
    decryptRounds roundKey n (invMixColumns
      (addRoundKey (invSubBytes (invShiftRows state)) (stateAt roundKey ((n + 1) * 16))))

def aes256Nr : Nat := 14

def aesEncryptBlock (roundKey : Bytes) (input : AesState) : AesState :=
  let state := encryptRounds roundKey (aes256Nr - 1) (addRoundKey input (stateAt roundKey 0))
  addRoundKey (shiftRows (subBytes state)) (stateAt roundKey (aes256Nr * 16))

def aesDecryptBlock (roundKey : Bytes) (input : AesState) : AesState :=
  let state := decryptRounds roundKey (aes256Nr - 1)
    (addRoundKey input (stateAt roundKey (aes256Nr * 16)))
  addRoundKey (invSubBytes (invShiftRows state)) (stateAt roundKey 0)

/-- `set_block_number`: the tweak of a 32-bit block number. -/
def setBlockNumber (blockNo : Nat) : AesState :=
  fun i => if (i : Nat) < 4 then BitVec.ofNat 8 (blockNo / 256 ^ (i : Nat)) else 0

/-- `gf_mulx`: the tweak doubled in GF(2^128), low byte first. -/
def gfMulx (tweak : AesState) : AesState :=
  let shifted : AesState :=
    fun i => (tweak i <<< 1) ||| (if i = 0 then (0 : Byte) else tweak (i - 1) >>> 7)
  fun i => if i = 0 ∧ tweak 15 >>> 7 ≠ 0 then shifted i ^^^ 0x87 else shifted i

def aesBlocklen : Nat := 16
def cryptMaxBlockSize : Nat := 4096

/-- A `struct crypt_device` over its lower device. -/
structure XtsDevice where
  lower : BlockDevice
  blockSize : Nat
  blockCount : Nat
  dataCtx : Bytes
  tweakCtx : Bytes

namespace XtsDevice
variable (crypt : XtsDevice)

/-- One 16-byte unit of `xts_crypt`. -/
def xtsUnit (encrypt : Bool) (tweak input : AesState) : AesState :=
  let buffer := addRoundKey input tweak
  let buffer :=
    if encrypt then aesEncryptBlock crypt.dataCtx buffer else aesDecryptBlock crypt.dataCtx buffer
  addRoundKey buffer tweak

/-- The loop of `xts_crypt`: `n` units from unit `i` on, with the tweak of unit `i`. -/
def xtsFrom (encrypt : Bool) (input : Bytes) : Nat → Nat → AesState → Bytes → Bytes
  | 0, _, _, output => output
  | n + 1, i, tweak, output =>
    xtsFrom encrypt input n (i + 1) (gfMulx tweak)
      (blit output (i * 16) 16 (crypt.xtsUnit encrypt tweak (stateAt input (i * 16))).bytes)

def xtsCrypt (blockNo : Nat) (input output : Bytes) (encrypt : Bool) : Bytes :=
  crypt.xtsFrom encrypt input (crypt.blockSize / aesBlocklen) 0
    (aesEncryptBlock crypt.tweakCtx (setBlockNumber blockNo)) output

/-- `crypt_read_block` into a buffer: `none` is its error return. -/
def cryptReadBlock (blockNo : Nat) (buffer : Bytes) : Option Bytes :=
  if crypt.blockSize ≠ cryptMaxBlockSize then none
  else
    match blockDeviceRead crypt.lower blockNo with
    | none => none
    | some temp => some (crypt.xtsCrypt blockNo temp buffer false)

/-- `crypt_write_block`: whether it succeeds, and the device it leaves. The scratch
buffer it encrypts into is all zero between two calls. -/
def cryptWriteBlock (blockNo : Nat) (buffer : Bytes) : Bool × XtsDevice :=
  if crypt.blockSize ≠ cryptMaxBlockSize then (false, crypt)
  else
    let (ok, lower) := blockDeviceWrite crypt.lower blockNo (crypt.xtsCrypt blockNo buffer zeros true)
    (ok, { crypt with lower })

/-- `block_device_read` of the crypt device. -/
def read (blockNo : Nat) (buffer : Bytes) : Option Bytes :=
  if crypt.blockCount ≤ blockNo then none else crypt.cryptReadBlock blockNo buffer

/-- `block_device_write` of the crypt device. -/
def write (blockNo : Nat) (buffer : Bytes) : Bool × XtsDevice :=
  if crypt.blockCount ≤ blockNo then (false, crypt) else crypt.cryptWriteBlock blockNo buffer

end XtsDevice

/-- `crypt_init`: the device over `lower` with two 256-bit keys, where `kalloc` tells
whether there is room for it. -/
def cryptInit (kalloc : Bool) (lower : BlockDevice) (key1 key2 : Bytes) : Option XtsDevice :=
  if lower.blockSize ≠ cryptMaxBlockSize then none
  else if !kalloc then none
  else some
    { lower, blockSize := lower.blockSize, blockCount := lower.blockCount,
      dataCtx := aesKeyExpand key1, tweakCtx := aesKeyExpand key2 }

end CapyOS
