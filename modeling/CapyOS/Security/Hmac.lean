import CapyOS.Security.Sha2

namespace CapyOS
open Lib

/-! HMAC, HKDF and PBKDF2 over SHA-256. A context starts in memory that held anything: `memory n`
is what the buffer of the `n`-th one held. -/

variable (memory : Nat → List Byte)

/-- A hash of some pieces, in the context `n`. -/
def sha256Of (n : Nat) (pieces : List (List Byte)) : List Byte :=
  sha256Final (pieces.foldl sha256Update (sha256Init (memory n)))

/-- A key longer than a block is hashed. -/
def hmacKey (key : List Byte) : List Byte := if key.length > 64 then sha256Of memory 0 [key] else key

/-- `(i < key_len ? key[i] : 0) ^ pad`, for a block. -/
def hmacPad (key : List Byte) (pad : Byte) : List Byte :=
  (List.range 64).map fun i => (if i < key.length then key.getD i 0 else 0) ^^^ pad

def cryptHmacSha256Internal (key data : List Byte) : List Byte :=
  let key := hmacKey memory key
  let kipad := hmacPad key 0x36
  let kopad := hmacPad key 0x5c
  let out := sha256Of memory 1 [kipad, data]
  sha256Of memory 2 [kopad, out]

/-- The public form, with one buffer for both pads. -/
def cryptHmacSha256 (key data : List Byte) : List Byte :=
  let key := hmacKey memory key
  let kPad := hmacPad key 0x36
  let out := sha256Of memory 1 [kPad, data]
  let kPad := hmacPad key 0x5c
  sha256Of memory 2 [kPad, out]

structure HkdfHmacCtx where
  inner : Sha2Ctx 32 (BitVec 64)
  kopad : List Byte

def hkdfHmacBegin (key : List Byte) : HkdfHmacCtx :=
  let key := hmacKey memory key
  ⟨sha256Update (sha256Init (memory 1)) (hmacPad key 0x36), hmacPad key 0x5c⟩

def hkdfHmacUpdate (ctx : HkdfHmacCtx) (data : List Byte) : HkdfHmacCtx :=
  if data.length = 0 then ctx else { ctx with inner := sha256Update ctx.inner data }

def hkdfHmacEnd (ctx : HkdfHmacCtx) : List Byte :=
  let out := sha256Final ctx.inner
  sha256Of memory 2 [ctx.kopad, out]

/-- `none` is a NULL pointer. -/
def cryptHkdfSha256Extract (salt ikm : Option (List Byte)) : List Byte :=
  let effectiveSalt := match salt with
    | some salt => if salt.length = 0 then List.replicate 32 0 else salt
    | none => List.replicate 32 0
  cryptHmacSha256Internal memory effectiveSalt (ikm.getD [])

/-- The next block of the expansion. -/
def expandBlock (prk info tPrev : List Byte) (counter : Nat) : List Byte :=
  let hctx := hkdfHmacBegin memory prk
  let hctx := if tPrev.length > 0 then hkdfHmacUpdate hctx tPrev else hctx
  let hctx := if info.length > 0 then hkdfHmacUpdate hctx info else hctx
  hkdfHmacEnd memory (hkdfHmacUpdate hctx [BitVec.ofNat 8 counter])

/-- The loop of `crypt_hkdf_sha256_expand` with `n` turns left of 255, and what it has written. -/
def expandFrom (prk info : List Byte) (outLen : Nat) : Nat → Nat → List Byte → List Byte → Option (List Byte)
  | 0, produced, _, out => if produced < outLen then none else some out
  | n + 1, produced, tPrev, out =>
    if produced < outLen then
      let t := expandBlock memory prk info tPrev (255 - n)
      let chunk := if produced + 32 > outLen then outLen - produced else 32
      expandFrom prk info outLen n (produced + chunk) t (out ++ t.take chunk)
    else some out

/-- `none` is -1. -/
def cryptHkdfSha256Expand (prk info : List Byte) (outLen : Nat) : Option (List Byte) :=
  if outLen = 0 then some []
  else if outLen > 255 * 32 then none
  else if prk.length < 32 then none
  else expandFrom memory prk info outLen 255 0 [] []

def cryptHkdfSha256 (salt ikm : Option (List Byte)) (info : List Byte) (outLen : Nat) : Option (List Byte) :=
  cryptHkdfSha256Expand memory (cryptHkdfSha256Extract memory salt ikm) info outLen

/-- The salt, as much of it as fits, and the number of the block. -/
def saltBlock (salt : List Byte) (i : BitVec 32) : List Byte :=
  let sbLen := if salt.length + 4 > 64 then 64 - 4 else salt.length
  salt.take sbLen ++ [(i >>> 24).setWidth 8, (i >>> 16).setWidth 8, (i >>> 8).setWidth 8, i.setWidth 8]

/-- `t` and `u` after an iteration. -/
def pbkdf2Iterate (password : List Byte) (tu : List Byte × List Byte) : List Byte × List Byte :=
  let u := cryptHmacSha256Internal memory password tu.2
  (List.zipWith (· ^^^ ·) tu.1 u, u)

def pbkdf2Block (password salt : List Byte) (iterations : Nat) (i : BitVec 32) : List Byte :=
  let u := cryptHmacSha256Internal memory password (saltBlock salt i)
  ((pbkdf2Iterate memory password)^[iterations - 1] (u, u)).1

/-- The buffer with `bytes` written from `offset` on. -/
def storeAt (out : List Byte) (offset : Nat) (bytes : List Byte) : List Byte :=
  out.take offset ++ bytes ++ out.drop (offset + bytes.length)

/-- `pbkdf2_hmac_sha256` on the buffer `out`; `blocks` and `(i - 1) * SHA256_DIGEST_SIZE` are
32-bit numbers. -/
def pbkdf2HmacSha256 (password salt : List Byte) (iterations : Nat) (out : List Byte) : List Byte :=
  let outLen := out.length
  let blocks := (outLen + 32 - 1) / 32 % 2 ^ 32
  (List.range blocks).foldl (fun buf j =>
    let offset := j * 32 % 2 ^ 32
    let toCopy := if offset + 32 > outLen then outLen - offset else 32
    storeAt buf offset ((pbkdf2Block memory password salt iterations (BitVec.ofNat 32 (j + 1))).take toCopy)) out

def cryptPbkdf2Sha256 (password salt : List Byte) (iterations : Nat) (out : List Byte) : List Byte :=
  if out.length = 0 ∨ iterations = 0 then out else pbkdf2HmacSha256 memory password salt iterations out

/-- `crypt_derive_xts_keys` of a password up to its NUL; `none` leaves both keys. -/
def cryptDeriveXtsKeys (password salt : List Byte) (iterations : Nat) : Option (List Byte × List Byte) :=
  if iterations = 0 then none
  else
    let derived := pbkdf2HmacSha256 memory password salt iterations (memory 3)
    some (derived.take 32, (derived.drop 32).take 32)

end CapyOS
