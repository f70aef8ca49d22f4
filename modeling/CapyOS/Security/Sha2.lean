import CapyOS.Lib.Bytes

namespace CapyOS
open Lib

/-! SHA-256 and SHA-512. The two files differ in their tables, their widths and the way
they count bits; the rest is one text over these. -/

structure Sha2State (w : Nat) where
  a : BitVec w
  b : BitVec w
  c : BitVec w
  d : BitVec w
  e : BitVec w
  f : BitVec w
  g : BitVec w
  h : BitVec w
  deriving DecidableEq

namespace Sha2State
variable {w : Nat}

def words (s : Sha2State w) : List (BitVec w) := [s.a, s.b, s.c, s.d, s.e, s.f, s.g, s.h]

def add (s t : Sha2State w) : Sha2State w :=
  ⟨s.a + t.a, s.b + t.b, s.c + t.c, s.d + t.d, s.e + t.e, s.f + t.f, s.g + t.g, s.h + t.h⟩

end Sha2State

/-- What differs between the two hashes: `κ` is the type of the bit counter. -/
structure Sha2Variant (w : Nat) (κ : Type) where
  k : List (BitVec w)
  init : Sha2State w
  /-- The rotations and the shift of the message schedule. -/
  small0 : Nat × Nat × Nat
  small1 : Nat × Nat × Nat
  /-- The rotations of a round. -/
  big0 : Nat × Nat × Nat
  big1 : Nat × Nat × Nat
  blockSize : Nat
  /-- Where the length starts in the last block. -/
  lengthAt : Nat
  noBits : κ
  /-- A whole block is counted. -/
  countBlock : κ → κ
  /-- The length bytes, from the counter and the bytes that are buffered. -/
  lengthBytes : κ → Nat → List Byte

/-- `struct sha256_ctx` and `struct sha512_ctx`. -/
structure Sha2Ctx (w : Nat) (κ : Type) where
  state : Sha2State w
  bitlen : κ
  data : List Byte
  datalen : Nat

namespace Sha2Variant
variable {w : Nat} {κ : Type} (v : Sha2Variant w κ)

def rotations (r : Nat × Nat × Nat) (x : BitVec w) : BitVec w :=
  x.rotateRight r.1 ^^^ x.rotateRight r.2.1 ^^^ x.rotateRight r.2.2

def rotationsShift (r : Nat × Nat × Nat) (x : BitVec w) : BitVec w :=
  x.rotateRight r.1 ^^^ x.rotateRight r.2.1 ^^^ x >>> r.2.2

/-- The big-endian word `i` of a block. -/
def wordAt (block : List Byte) (i : Nat) : BitVec w :=
  BitVec.ofNat w ((List.range (w / 8)).foldl
    (fun acc j => acc * 256 + (block.getD (i * (w / 8) + j) 0).toNat) 0)

/-- The words `w[0]` to `w[15 + n]`. -/
def schedule (block : List Byte) : Nat → List (BitVec w)
  | 0 => (List.range 16).map (wordAt block)
  | n + 1 =>
    let ws := schedule block n
    let i := n + 16
    let s0 := rotationsShift v.small0 (ws.getD (i - 15) 0)
    let s1 := rotationsShift v.small1 (ws.getD (i - 2) 0)
    ws ++ [ws.getD (i - 16) 0 + s0 + ws.getD (i - 7) 0 + s1]

def round (s : Sha2State w) (kw : BitVec w × BitVec w) : Sha2State w :=
  let s1 := rotations v.big1 s.e
  let ch := (s.e &&& s.f) ^^^ (~~~s.e &&& s.g)
  let t1 := s.h + s1 + ch + kw.1 + kw.2
  let s0 := rotations v.big0 s.a
  let maj := (s.a &&& s.b) ^^^ (s.a &&& s.c) ^^^ (s.b &&& s.c)
  let t2 := s0 + maj
  { h := s.g, g := s.f, f := s.e, e := s.d + t1, d := s.c, c := s.b, b := s.a, a := t1 + t2 }

/-- `sha256_transform`, `sha512_transform`. -/
def transform (s : Sha2State w) (block : List Byte) : Sha2State w :=
  s.add ((v.k.zip (v.schedule block (v.k.length - 16))).foldl v.round s)

/-- `sha256_init`, `sha512_init`; `data` is what the memory held. -/
def hashInit (data : List Byte) : Sha2Ctx w κ := ⟨v.init, v.noBits, data, 0⟩

/-- One turn of the loop of `sha256_update`, `sha512_update`. -/
def hashByte (ctx : Sha2Ctx w κ) (b : Byte) : Sha2Ctx w κ :=
  let data := ctx.data.set ctx.datalen b
  if ctx.datalen + 1 = v.blockSize then
    ⟨v.transform ctx.state data, v.countBlock ctx.bitlen, data, 0⟩
  else { ctx with data := data, datalen := ctx.datalen + 1 }

def hashUpdate (ctx : Sha2Ctx w κ) (piece : List Byte) : Sha2Ctx w κ := piece.foldl v.hashByte ctx

/-- `while (i < stop) data[i++] = 0`. -/
def zeroFrom (data : List Byte) (i : Nat) : Nat → List Byte
  | 0 => data
  | n + 1 => zeroFrom (data.set i 0) (i + 1) n

/-- Bytes stored one after the other from a place on. -/
def storeFrom (data : List Byte) (i : Nat) : List Byte → List Byte
  | [] => data
  | b :: bs => storeFrom (data.set i b) (i + 1) bs

/-- The state after the last block. -/
def lastState (ctx : Sha2Ctx w κ) : Sha2State w :=
  let data := ctx.data.set ctx.datalen 0x80
  let i := ctx.datalen + 1
  let (state, data) :=
    if i > v.lengthAt then
      let data := zeroFrom data i (v.blockSize - i)
      (v.transform ctx.state data, zeroFrom data 0 v.lengthAt)
    else (ctx.state, zeroFrom data i (v.lengthAt - i))
  v.transform state (storeFrom data v.lengthAt (v.lengthBytes ctx.bitlen ctx.datalen))

/-- The bytes of a number of `n` bytes, most significant byte first. -/
def bigEndian (n x : Nat) : List Byte := (List.range n).map fun j => BitVec.ofNat 8 (x >>> (8 * (n - 1 - j)))

/-- `sha256_final`, `sha512_final`: the digest. -/
def hashFinal (ctx : Sha2Ctx w κ) : List Byte :=
  (v.lastState ctx).words.flatMap fun x => bigEndian (w / 8) x.toNat

end Sha2Variant

def k256 : List (BitVec 32) :=
  [0x428a2f98, 0x71374491, 0xb5c0fbcf, 0xe9b5dba5, 0x3956c25b, 0x59f111f1,
   0x923f82a4, 0xab1c5ed5, 0xd807aa98, 0x12835b01, 0x243185be, 0x550c7dc3,
   0x72be5d74, 0x80deb1fe, 0x9bdc06a7, 0xc19bf174, 0xe49b69c1, 0xefbe4786,
   0x0fc19dc6, 0x240ca1cc, 0x2de92c6f, 0x4a7484aa, 0x5cb0a9dc, 0x76f988da,
   0x983e5152, 0xa831c66d, 0xb00327c8, 0xbf597fc7, 0xc6e00bf3, 0xd5a79147,
   0x06ca6351, 0x14292967, 0x27b70a85, 0x2e1b2138, 0x4d2c6dfc, 0x53380d13,
   0x650a7354, 0x766a0abb, 0x81c2c92e, 0x92722c85, 0xa2bfe8a1, 0xa81a664b,
   0xc24b8b70, 0xc76c51a3, 0xd192e819, 0xd6990624, 0xf40e3585, 0x106aa070,
   0x19a4c116, 0x1e376c08, 0x2748774c, 0x34b0bcb5, 0x391c0cb3, 0x4ed8aa4a,
   0x5b9cca4f, 0x682e6ff3, 0x748f82ee, 0x78a5636f, 0x84c87814, 0x8cc70208,
   0x90befffa, 0xa4506ceb, 0xbef9a3f7, 0xc67178f2]

def k512 : List (BitVec 64) :=
  [0x428a2f98d728ae22, 0x7137449123ef65cd, 0xb5c0fbcfec4d3b2f, 0xe9b5dba58189dbbc,
   0x3956c25bf348b538, 0x59f111f1b605d019, 0x923f82a4af194f9b, 0xab1c5ed5da6d8118,
   0xd807aa98a3030242, 0x12835b0145706fbe, 0x243185be4ee4b28c, 0x550c7dc3d5ffb4e2,
   0x72be5d74f27b896f, 0x80deb1fe3b1696b1, 0x9bdc06a725c71235, 0xc19bf174cf692694,
   0xe49b69c19ef14ad2, 0xefbe4786384f25e3, 0x0fc19dc68b8cd5b5, 0x240ca1cc77ac9c65,
   0x2de92c6f592b0275, 0x4a7484aa6ea6e483, 0x5cb0a9dcbd41fbd4, 0x76f988da831153b5,
   0x983e5152ee66dfab, 0xa831c66d2db43210, 0xb00327c898fb213f, 0xbf597fc7beef0ee4,
   0xc6e00bf33da88fc2, 0xd5a79147930aa725, 0x06ca6351e003826f, 0x142929670a0e6e70,
   0x27b70a8546d22ffc, 0x2e1b21385c26c926, 0x4d2c6dfc5ac42aed, 0x53380d139d95b3df,
   0x650a73548baf63de, 0x766a0abb3c77b2a8, 0x81c2c92e47edaee6, 0x92722c851482353b,
   0xa2bfe8a14cf10364, 0xa81a664bbc423001, 0xc24b8b70d0f89791, 0xc76c51a30654be30,
   0xd192e819d6ef5218, 0xd69906245565a910, 0xf40e35855771202a, 0x106aa07032bbd1b8,
   0x19a4c116b8d2d0c8, 0x1e376c085141ab53, 0x2748774cdf8eeb99, 0x34b0bcb5e19b48a8,
   0x391c0cb3c5c95a63, 0x4ed8aa4ae3418acb, 0x5b9cca4f7763e373, 0x682e6ff3d6b2b8a3,
   0x748f82ee5defb2fc, 0x78a5636f43172f60, 0x84c87814a1f0ab72, 0x8cc702081a6439ec,
   0x90befffa23631e28, 0xa4506cebde82bde9, 0xbef9a3f7b2c67915, 0xc67178f2e372532b,
   0xca273eceea26619c, 0xd186b8c721c0c207, 0xeada7dd6cde0eb1e, 0xf57d4f7fee6ed178,
   0x06f067aa72176fba, 0x0a637dc5a2c898a6, 0x113f9804bef90dae, 0x1b710b35131c471b,
   0x28db77f523047d84, 0x32caab7b40c72493, 0x3c9ebe0a15c9bebc, 0x431d67c49c100d4c,
   0x4cc5d4becb3e42b6, 0x597f299cfc657e2a, 0x5fcb6fab3ad6faec, 0x6c44198c4a475817]

def sha256 : Sha2Variant 32 (BitVec 64) where
  k := k256
  init := ⟨0x6a09e667, 0xbb67ae85, 0x3c6ef372, 0xa54ff53a, 0x510e527f, 0x9b05688c, 0x1f83d9ab, 0x5be0cd19⟩
  small0 := (7, 18, 3)
  small1 := (17, 19, 10)
  big0 := (2, 13, 22)
  big1 := (6, 11, 25)
  blockSize := 64
  lengthAt := 56
  noBits := 0
  countBlock bits := bits + 512
  lengthBytes bits buffered := Sha2Variant.bigEndian 8 (bits + BitVec.ofNat 64 buffered * 8).toNat

def sha512 : Sha2Variant 64 (BitVec 64 × BitVec 64) where
  k := k512
  init := ⟨0x6a09e667f3bcc908, 0xbb67ae8584caa73b, 0x3c6ef372fe94f82b, 0xa54ff53a5f1d36f1,
    0x510e527fade682d1, 0x9b05688c2b3e6c1f, 0x1f83d9abfb41bd6b, 0x5be0cd19137e2179⟩
  small0 := (1, 8, 7)
  small1 := (19, 61, 6)
  big0 := (28, 34, 39)
  big1 := (14, 18, 41)
  blockSize := 128
  lengthAt := 112
  noBits := (0, 0)
  countBlock bits := (bits.1 + 1024, if bits.1 + 1024 < 1024 then bits.2 + 1 else bits.2)
  lengthBytes bits buffered :=
    let lo := bits.1 + BitVec.ofNat 64 buffered * 8
    let hi := if lo < bits.1 then bits.2 + 1 else bits.2
    Sha2Variant.bigEndian 8 hi.toNat ++ Sha2Variant.bigEndian 8 lo.toNat

def sha256Init (data : List Byte) : Sha2Ctx 32 (BitVec 64) := sha256.hashInit data
def sha256Update (ctx : Sha2Ctx 32 (BitVec 64)) (piece : List Byte) : Sha2Ctx 32 (BitVec 64) :=
  sha256.hashUpdate ctx piece
def sha256Final (ctx : Sha2Ctx 32 (BitVec 64)) : List Byte := sha256.hashFinal ctx

def sha512Init (data : List Byte) : Sha2Ctx 64 (BitVec 64 × BitVec 64) := sha512.hashInit data
def sha512Update (ctx : Sha2Ctx 64 (BitVec 64 × BitVec 64)) (piece : List Byte) :
    Sha2Ctx 64 (BitVec 64 × BitVec 64) :=
  sha512.hashUpdate ctx piece
def sha512Final (ctx : Sha2Ctx 64 (BitVec 64 × BitVec 64)) : List Byte := sha512.hashFinal ctx

end CapyOS
