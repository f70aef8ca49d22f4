import CapyOS.Lib.Bytes

namespace CapyOS
open Lib

/-! ChaCha20. -/

def chacha20BlockSize : Nat := 64

/-- The bytes of a buffer, as an address reads them. -/
def bufferBytes (l : List Byte) : Bytes := fun i => l.getD i 0

/-- `load32_le` at an offset. -/
def load32 (l : List Byte) (offset : Nat) : Nat := load (bufferBytes l) offset 4

def store32 (v : Nat) : List Byte := (List.range 4).map (leBytes v)

def store64 (v : Nat) : List Byte := (List.range 8).map (leBytes v)

def rotl32 (v : BitVec 32) (n : Nat) : BitVec 32 := (v <<< n) ||| (v >>> (32 - n))

abbrev ChaChaState := Vector (BitVec 32) 16

/-- The macro `QR` on four words of the state. -/
def quarterRound (a b c d : Fin 16) (s : ChaChaState) : ChaChaState :=
  let va := s[a] + s[b]
  let vd := rotl32 (s[d] ^^^ va) 16
  let vc := s[c] + vd
  let vb := rotl32 (s[b] ^^^ vc) 12
  let va := va + vb
  let vd := rotl32 (vd ^^^ va) 8
  let vc := vc + vd
  let vb := rotl32 (vb ^^^ vc) 7
  (((s.set a va).set b vb).set c vc).set d vd

/-- A column round and a diagonal round. -/
def doubleRound (s : ChaChaState) : ChaChaState :=
  let s := quarterRound 0 4 8 12 s
  let s := quarterRound 1 5 9 13 s
  let s := quarterRound 2 6 10 14 s
  let s := quarterRound 3 7 11 15 s
  let s := quarterRound 0 5 10 15 s
  let s := quarterRound 1 6 11 12 s
  let s := quarterRound 2 7 8 13 s
  quarterRound 3 4 9 14 s

def chacha20BlockInner (stateIn : ChaChaState) : ChaChaState :=
  Vector.zipWith (· + ·) (doubleRound^[10] stateIn) stateIn

def chacha20Constants : List (BitVec 32) := [0x61707865, 0x3320646e, 0x79622d32, 0x6b206574]

def chacha20Block (key : List Byte) (counter : Nat) (nonce : List Byte) : List Byte :=
  let stateIn : ChaChaState := Vector.ofFn fun i =>
    if i.val < 4 then chacha20Constants.getD i 0
    else if i.val < 12 then BitVec.ofNat 32 (load32 key (4 * (i.val - 4)))
    else if i.val = 12 then BitVec.ofNat 32 counter
    else BitVec.ofNat 32 (load32 nonce (4 * (i.val - 13)))
  let stateOut := chacha20BlockInner stateIn
  stateOut.toList.flatMap fun v => store32 v.toNat

/-- The loop of `chacha20_encrypt`, with the counters of the blocks it asks for. -/
def chacha20Loop (key nonce : List Byte) (counter : Nat) (data : List Byte) : List Nat × List Byte :=
  if _h : data = [] then ([], [])
  else
    let keystream := chacha20Block key counter nonce
    let rest := chacha20Loop key nonce ((counter + 1) % 2 ^ 32) (data.drop chacha20BlockSize)
    (counter :: rest.1, List.zipWith (· ^^^ ·) (data.take chacha20BlockSize) keystream ++ rest.2)
termination_by data.length
decreasing_by
  have := List.length_pos_iff.mpr _h
  simp [chacha20BlockSize]
  omega

/-- `chacha20_encrypt`: the blocks it asks for and what it writes; `none` when the counter
would wrap. The length is one of memory, far from where adding 63 to it wraps. -/
def chacha20Encrypt (key : List Byte) (initialCounter : Nat) (nonce data : List Byte) :
    Option (List Nat × List Byte) :=
  if data = [] then some ([], [])
  else if initialCounter + (data.length + 63) / 64 > 2 ^ 32 then none
  else some (chacha20Loop key nonce initialCounter data)

/-! Poly1305. -/

/-- What a sum, a product or a narrowing to 32 or 64 bits gives; beyond the width anything. -/
structure Overflow where
  w32 : Nat → Nat
  w64 : Nat → Nat
  w32_eq : ∀ x, x < 2 ^ 32 → w32 x = x
  w64_eq : ∀ x, x < 2 ^ 64 → w64 x = x

/-- The machine keeps the low bits. -/
def machine : Overflow where
  w32 := (· % 2 ^ 32)
  w64 := (· % 2 ^ 64)
  w32_eq _ := Nat.mod_eq_of_lt
  w64_eq _ := Nat.mod_eq_of_lt

/-- Five limbs of 26 bits. -/
structure Limbs where
  x0 : Nat
  x1 : Nat
  x2 : Nat
  x3 : Nat
  x4 : Nat

structure Poly1305State where
  r : Limbs
  h : Limbs
  s : Nat × Nat × Nat × Nat
  /-- The first `buffer_used` bytes of the buffer. -/
  buffer : List Byte

def limbMask : Nat := 0x3FFFFFF

/-- Four words as limbs; a shift to the left drops what leaves the word. -/
def splitWords (t0 t1 t2 t3 : Nat) : Limbs where
  x0 := t0 &&& limbMask
  x1 := ((t0 >>> 26) ||| ((t1 <<< 6) % 2 ^ 32)) &&& limbMask
  x2 := ((t1 >>> 20) ||| ((t2 <<< 12) % 2 ^ 32)) &&& limbMask
  x3 := ((t2 >>> 14) ||| ((t3 <<< 18) % 2 ^ 32)) &&& limbMask
  x4 := t3 >>> 8

def poly1305Init (key : List Byte) : Poly1305State :=
  let r0 := load32 key 0 &&& 0x0FFFFFFF
  let r1 := load32 key 4 &&& 0x0FFFFFFC
  let r2 := load32 key 8 &&& 0x0FFFFFFC
  let r3 := load32 key 12 &&& 0x0FFFFFFC
  let r := splitWords r0 r1 r2 r3
  { r := { r with x4 := r.x4 &&& limbMask }
    h := ⟨0, 0, 0, 0, 0⟩
    s := (load32 key 16, load32 key 20, load32 key 24, load32 key 28)
    buffer := [] }

namespace Overflow
variable (o : Overflow)

/-- A sum of five products of 64 bits. -/
def dot (a b : Limbs) : Nat :=
  o.w64 (o.w64 (o.w64 (o.w64 (o.w64 (a.x0 * b.x0) + o.w64 (a.x1 * b.x1)) + o.w64 (a.x2 * b.x2)) +
    o.w64 (a.x3 * b.x3)) + o.w64 (a.x4 * b.x4))

/-- The block is added to the accumulator. -/
def addBlock (h : Limbs) (block : List Byte) (hibit : Nat) : Limbs :=
  let t := splitWords (load32 block 0) (load32 block 4) (load32 block 8) (load32 block 12)
  ⟨o.w32 (h.x0 + t.x0), o.w32 (h.x1 + t.x1), o.w32 (h.x2 + t.x2), o.w32 (h.x3 + t.x3),
    o.w32 (h.x4 + (t.x4 ||| hibit))⟩

/-- The carries of `poly1305_block`. -/
def carry (d0 d1 d2 d3 d4 : Nat) : Limbs :=
  let c := o.w32 (d0 >>> 26)
  let h0 := d0 % 2 ^ 32 &&& limbMask
  let d1 := o.w64 (d1 + c)
  let c := o.w32 (d1 >>> 26)
  let h1 := d1 % 2 ^ 32 &&& limbMask
  let d2 := o.w64 (d2 + c)
  let c := o.w32 (d2 >>> 26)
  let h2 := d2 % 2 ^ 32 &&& limbMask
  let d3 := o.w64 (d3 + c)
  let c := o.w32 (d3 >>> 26)
  let h3 := d3 % 2 ^ 32 &&& limbMask
  let d4 := o.w64 (d4 + c)
  let c := o.w32 (d4 >>> 26)
  let h4 := d4 % 2 ^ 32 &&& limbMask
  let h0 := o.w32 (h0 + o.w32 (c * 5))
  let c := h0 >>> 26
  ⟨h0 &&& limbMask, o.w32 (h1 + c), h2, h3, h4⟩

def poly1305Block (r h : Limbs) (block : List Byte) (hibit : Nat) : Limbs :=
  let h := o.addBlock h block hibit
  let s1 := o.w32 (5 * r.x1)
  let s2 := o.w32 (5 * r.x2)
  let s3 := o.w32 (5 * r.x3)
  let s4 := o.w32 (5 * r.x4)
  o.carry (o.dot h ⟨r.x0, s4, s3, s2, s1⟩) (o.dot h ⟨r.x1, r.x0, s4, s3, s2⟩)
    (o.dot h ⟨r.x2, r.x1, r.x0, s4, s3⟩) (o.dot h ⟨r.x3, r.x2, r.x1, r.x0, s4⟩)
    (o.dot h ⟨r.x4, r.x3, r.x2, r.x1, r.x0⟩)

/-- The whole blocks of the data, and the bytes left. -/
def absorb (r h : Limbs) (data : List Byte) : Limbs × List Byte :=
  if 16 ≤ data.length then absorb r (o.poly1305Block r h (data.take 16) (1 <<< 24)) (data.drop 16)
  else (h, data)
termination_by data.length
decreasing_by simp; omega

def poly1305Update (st : Poly1305State) (data : List Byte) : Poly1305State :=
  if st.buffer.length > 0 then
    let want := 16 - st.buffer.length
    if data.length < want then { st with buffer := st.buffer ++ data }
    else
      let h := o.poly1305Block st.r st.h (st.buffer ++ data.take want) (1 <<< 24)
      let (h, rest) := o.absorb st.r h (data.drop want)
      { st with h := h, buffer := rest }
  else
    let (h, rest) := o.absorb st.r st.h data
    { st with h := h, buffer := rest }

/-- The last carries, once around. -/
def carryFinal (h : Limbs) : Limbs :=
  let c := h.x1 >>> 26
  let h1 := h.x1 &&& limbMask
  let h2 := o.w32 (h.x2 + c)
  let c := h2 >>> 26
  let h2 := h2 &&& limbMask
  let h3 := o.w32 (h.x3 + c)
  let c := h3 >>> 26
  let h3 := h3 &&& limbMask
  let h4 := o.w32 (h.x4 + c)
  let c := h4 >>> 26
  let h4 := h4 &&& limbMask
  let h0 := o.w32 (h.x0 + o.w32 (c * 5))
  let c := h0 >>> 26
  let h0 := h0 &&& limbMask
  ⟨h0, o.w32 (h1 + c), h2, h3, h4⟩

/-- An unsigned difference, whose bit 31 the caller takes for its sign. -/
def sub32 (a b : Nat) : Nat := (a + (2 ^ 32 - b)) % 2 ^ 32

def select (mask : Nat) (h g : Limbs) : Limbs :=
  let invMask := 2 ^ 32 - 1 - mask
  ⟨(h.x0 &&& invMask) ||| (g.x0 &&& mask), (h.x1 &&& invMask) ||| (g.x1 &&& mask),
    (h.x2 &&& invMask) ||| (g.x2 &&& mask), (h.x3 &&& invMask) ||| (g.x3 &&& mask),
    (h.x4 &&& invMask) ||| (g.x4 &&& mask)⟩

/-- The last subtraction of the prime, made when the accumulator reaches it. -/
def reduce (h : Limbs) : Limbs :=
  let g0 := o.w32 (h.x0 + 5)
  let c := g0 >>> 26
  let g0 := g0 &&& limbMask
  let g1 := o.w32 (h.x1 + c)
  let c := g1 >>> 26
  let g1 := g1 &&& limbMask
  let g2 := o.w32 (h.x2 + c)
  let c := g2 >>> 26
  let g2 := g2 &&& limbMask
  let g3 := o.w32 (h.x3 + c)
  let c := g3 >>> 26
  let g3 := g3 &&& limbMask
  let g4 := sub32 (o.w32 (h.x4 + c)) (1 <<< 26)
  select (sub32 (g4 >>> 31) 1) h ⟨g0, g1, g2, g3, g4⟩

/-- The accumulator and the pad as the tag. -/
def addPad (h : Limbs) (s : Nat × Nat × Nat × Nat) : List Byte :=
  let h0 := h.x0 ||| ((h.x1 <<< 26) % 2 ^ 32)
  let h1 := (h.x1 >>> 6) ||| ((h.x2 <<< 20) % 2 ^ 32)
  let h2 := (h.x2 >>> 12) ||| ((h.x3 <<< 14) % 2 ^ 32)
  let h3 := (h.x3 >>> 18) ||| ((h.x4 <<< 8) % 2 ^ 32)
  let f0 := o.w64 (h0 + s.1)
  let f1 := o.w64 (o.w64 (h1 + s.2.1) + (f0 >>> 32))
  let f2 := o.w64 (o.w64 (h2 + s.2.2.1) + (f1 >>> 32))
  let f3 := o.w64 (o.w64 (h3 + s.2.2.2) + (f2 >>> 32))
  store32 (f0 % 2 ^ 32) ++ store32 (f1 % 2 ^ 32) ++ store32 (f2 % 2 ^ 32) ++ store32 (f3 % 2 ^ 32)

def poly1305Finish (st : Poly1305State) : List Byte :=
  let h :=
    if st.buffer.length > 0 then
      o.poly1305Block st.r st.h
        (st.buffer ++ 1 :: List.replicate (15 - st.buffer.length) 0) 0
    else st.h
  o.addPad (o.reduce (o.carryFinal h)) st.s

/-- A tag of a message given in pieces. -/
def poly1305Tag (key : List Byte) (pieces : List (List Byte)) : List Byte :=
  o.poly1305Finish (pieces.foldl o.poly1305Update (poly1305Init key))

end Overflow

/-! The construction. -/

def pad16 (len : Nat) : List Byte := List.replicate ((16 - len % 16) % 16) 0

/-- `compute_aead_tag`, on the key of block 0. An update of no bytes stands where the code
makes none. -/
def computeAeadTag (key nonce aad ct : List Byte) : List Byte :=
  machine.poly1305Tag ((chacha20Block key 0 nonce).take 32)
    [aad, pad16 aad.length, ct, pad16 ct.length, store64 aad.length ++ store64 ct.length]

/-- What a call leaves: its result, its output buffer and tag, and the counters of the
blocks it asked for. -/
structure AeadCall where
  rc : Int
  out : List Byte
  tag : List Byte
  counters : List Nat

def chacha20Poly1305Encrypt (key nonce aad plaintext ciphertext tag : List Byte) : AeadCall :=
  match chacha20Encrypt key 1 nonce plaintext with
  | none => ⟨-1, ciphertext, tag, []⟩
  | some (counters, out) => ⟨0, out, computeAeadTag key nonce aad out, counters ++ [0]⟩

/-- `crypt_constant_time_compare` over 16 bytes. -/
def constantTimeCompare (a b : List Byte) : Int :=
  if (List.range 16).foldl (fun diff i => diff ||| (a.getD i 0 ^^^ b.getD i 0)) 0 = 0 then 0 else -1

def chacha20Poly1305Decrypt (key nonce aad ciphertext tag plaintext : List Byte) : AeadCall :=
  if constantTimeCompare (computeAeadTag key nonce aad ciphertext) tag ≠ 0 then
    ⟨-1, plaintext, tag, [0]⟩
  else
    match chacha20Encrypt key 1 nonce ciphertext with
    | none => ⟨-1, List.replicate ciphertext.length 0, tag, [0]⟩
    | some (counters, out) => ⟨0, out, tag, 0 :: counters⟩

end CapyOS
