import CapyOS.Lib.Bytes

namespace CapyOS
open Lib

/-- `ED_L_BYTES`: the order of the prime subgroup, low byte first. -/
def edLBytes : Bytes := fun i =>
  ([0xed, 0xd3, 0xf5, 0x5c, 0x1a, 0x63, 0x12, 0x58,
    0xd6, 0x9c, 0xf7, 0xa2, 0xde, 0xf9, 0xde, 0x14,
    0x00, 0x00, 0x00, 0x00, 0x00, 0x00, 0x00, 0x00,
    0x00, 0x00, 0x00, 0x00, 0x00, 0x00, 0x00, 0x10] : List Byte).getD i 0

/-- What the walk of `sc_is_canonical` has decided so far. -/
structure CanonicalWalk where
  accept : Byte
  reject : Byte
  deriving DecidableEq

/-- `(uint8_t)((a - b) >> 7)`: the bytes are promoted, so the difference is signed
and the shift keeps its sign. -/
def shiftedDifference (a b : Byte) : Byte :=
  BitVec.ofInt 8 (((a.toNat : Int) - b.toNat) >>> (7 : Nat))

def canonicalStep (w : CanonicalWalk) (si li : Byte) : CanonicalWalk :=
  let lt := shiftedDifference si li
  let gt := shiftedDifference li si
  let undecided := 1 - (w.accept ||| w.reject)
  { accept := w.accept ||| (undecided &&& lt), reject := w.reject ||| (undecided &&& gt) }

/-- The loop of `sc_is_canonical` over the bytes below `n`, from the top down. -/
def canonicalWalk (s : Bytes) : Nat → CanonicalWalk → CanonicalWalk
  | 0, w => w
  | i + 1, w => canonicalWalk s i (canonicalStep w (s i) (edLBytes i))

def scIsCanonical (s : Bytes) : Nat :=
  if (canonicalWalk s 32 ⟨0, 0⟩).accept = 0 then 0 else 1

/-- The curve and hash routines `ed25519_verify` calls, over points `P` and field
elements `F`. -/
structure Ed25519Ops (P F : Type) where
  /-- `none` is the nonzero return of `ge_decode`. -/
  geDecode : Bytes → Option P
  sha512ThreeBlock : Bytes → Bytes → List Byte → Bytes
  scReduce64 : Bytes → Bytes
  geNegP : P → P
  geDoubleScalarmult : Bytes → P → Bytes → P
  geDbl : P → P
  x : P → F
  y : P → F
  z : P → F
  feMul : F → F → F
  feNotequal : F → F → Bool

namespace Ed25519Ops
variable {P F : Type} (g : Ed25519Ops P F)

/-- What `ed25519_verify` does once S is accepted as canonical. -/
def verifyEquation (signature : Bytes) (message : List Byte) (publicKey : Bytes) : Int :=
  let sBytes : Bytes := fun i => signature (32 + i)
  match g.geDecode signature with
  | none => -1
  | some r =>
    match g.geDecode publicKey with
    | none => -1
    | some a =>
      let k := g.scReduce64 (g.sha512ThreeBlock signature publicKey message)
      let check := g.geDoubleScalarmult k (g.geNegP a) sBytes
      let r8 := g.geDbl (g.geDbl (g.geDbl r))
      let check8 := g.geDbl (g.geDbl (g.geDbl check))
      let diffx := g.feNotequal (g.feMul (g.x r8) (g.z check8)) (g.feMul (g.x check8) (g.z r8))
      let diffy := g.feNotequal (g.feMul (g.y r8) (g.z check8)) (g.feMul (g.y check8) (g.z r8))
      if diffx || diffy then -1 else 0

def ed25519Verify (signature : Option Bytes) (message : List Byte)
    (publicKey : Option Bytes) : Int :=
  match signature, publicKey with
  | some signature, some publicKey =>
    if scIsCanonical (fun i => signature (32 + i)) = 0 then -1
    else g.verifyEquation signature message publicKey
  | _, _ => -1

end Ed25519Ops

end CapyOS
