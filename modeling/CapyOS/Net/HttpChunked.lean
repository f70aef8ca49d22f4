import CapyOS.Net.HttpRequest

namespace CapyOS
open Lib

/-! `http_chunked.c` on its buffer. `none` is an access outside the buffer, or a loop that has
not ended after as many turns as it was given; the inner `none` is the code's -1. -/

namespace Chunked
variable (buf : HttpText)

/-- `while (i + 1 < len && !(buf[i] == '\r' && buf[i + 1] == '\n')) i++`. -/
def skipExtension : Nat → Nat → Option Nat
  | 0, i => if i + 1 < buf.length then none else some i
  | n + 1, i =>
    if i + 1 < buf.length then do
      let c ← buf[i]?
      let d ← buf[i + 1]?
      if c = cr ∧ d = lf then some i else skipExtension n (i + 1)
    else some i

/-- The end of the line, which is an error without a digit before. -/
def lineEndAt (i : Nat) (sawDigit : Bool) : Option (Option Nat) :=
  if i + 1 < buf.length then do
    let c ← buf[i]?
    let d ← buf[i + 1]?
    some (if c = cr ∧ d = lf ∧ sawDigit then some (i + 2) else none)
  else some none

/-- Behind the digits: where the line ends. -/
def lineEnd (n i : Nat) (sawDigit : Bool) : Option (Option Nat) := do
  let c ← buf[i]?
  if c = ';' then (skipExtension buf n i).bind fun i => lineEndAt buf i sawDigit else lineEndAt buf i sawDigit

/-- `http_parse_chunk_size` of `buf + i`: the size, and the place behind the line. -/
def parseSize : Nat → Nat → Nat → Bool → Option (Option (Nat × Nat))
  | 0, i, _, _ => if i < buf.length then none else some none
  | n + 1, i, size, sawDigit =>
    if i < buf.length then do
      let c ← buf[i]?
      match httpHexDigit c with
      | some hex =>
        if size > (2 ^ 64 - 1) >>> 4 then some none else parseSize n (i + 1) (size * 16 + hex) true
      | none => (lineEnd buf (n + 1) i sawDigit).map fun r => r.map fun i => (size, i)
    else some none

/-- `buf[pos] == '\r' && buf[pos + 1] == '\n'`. -/
def crlfAt (pos : Nat) : Option Bool := do
  let c ← buf[pos]?
  if c = cr then
    let d ← buf[pos + 1]?
    some (decide (d = lf))
  else some false

/-- `http_chunked_complete` from a place on. -/
def complete : Nat → Nat → Option Bool
  | 0, pos => if pos < buf.length then none else some false
  | n + 1, pos =>
    if pos < buf.length then do
      match ← parseSize buf buf.length pos 0 false with
      | none => some false
      | some (size, pos) =>
        if size = 0 then
          if pos + 1 < buf.length then crlfAt buf pos else some false
        else if buf.length - pos < 2 ∨ size > buf.length - pos - 2 then some false
        else if ← crlfAt buf (pos + size) then complete n (pos + size + 2) else some false
    else some false

/-- `http_memcpy` inside the buffer: byte after byte. -/
def copyWithin : Nat → HttpText → Nat → Nat → Option HttpText
  | 0, body, _, _ => some body
  | n + 1, body, dst, src => do
    let c ← body[src]?
    if dst < body.length then copyWithin n (body.set dst c) (dst + 1) (src + 1) else none

/-- `http_decode_chunked_body` from the places `src` and `dst` on: the buffer, and the length. -/
def decode : Nat → HttpText → Nat → Nat → Option (Option (HttpText × Nat))
  | 0, body, src, _ => if src < body.length then none else some none
  | n + 1, body, src, dst =>
    if src < body.length then do
      match ← parseSize body body.length src 0 false with
      | none => some none
      | some (size, src) =>
        if size = 0 then
          if dst < body.length then some (some (body.set dst (Char.ofNat 0), dst)) else none
        else if size > body.length - src then some none
        else
          let body ← copyWithin size body dst src
          if src + size + 1 ≥ body.length then some none
          else if ← crlfAt body (src + size) then decode n body (src + size + 2) (dst + size) else some none
    else some none

end Chunked

end CapyOS
