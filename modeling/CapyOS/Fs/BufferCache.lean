import CapyOS.Lib.Links
import CapyOS.Storage.BlockDevice

namespace CapyOS
open Lib Function

def bufferCacheMax : Nat := 64
def bufferHashSize : Nat := 256
def bufferBlockSize : Nat := 4096

abbrev BufId := Fin bufferCacheMax

/-- The globals of the buffer cache. A field of `struct buffer_head` is a function
of the buffer; `lru` has the head and tail of the list and the two link fields. A
device is known by its address, with 0 for `NULL`, and `devices` is what stands
behind the addresses. -/
structure BufferCache where
  dev : BufId → Nat
  blockNo : BufId → BitVec 32
  data : BufId → Bytes
  dirty : BufId → Bool
  valid : BufId → Bool
  refcount : BufId → BitVec 16
  hashNext : BufId → Option BufId
  lru : Dll BufId
  hashTable : Nat → Option BufId
  devices : Nat → BlockDevice

/-- The product is a `uint32_t` before it meets the address. -/
def bufferHash (dev : Nat) (blockNo : BitVec 32) : Nat :=
  (dev ^^^ u32 (blockNo.toNat * 2654435761)) % bufferHashSize

namespace BufferCache

def lruRemove (c : BufferCache) (i : BufId) : BufferCache := { c with lru := c.lru.remove i }

def lruInsertFront (c : BufferCache) (i : BufId) : BufferCache :=
  { c with lru := c.lru.insertFront i }

/-- A bucket never holds more nodes than there are buffers. -/
def hashLookup (c : BufferCache) (dev : Nat) (blockNo : BitVec 32) : Option BufId :=
  walk c.hashNext (fun i => c.dev i == dev && c.blockNo i == blockNo) bufferCacheMax
    (c.hashTable (bufferHash dev blockNo))

def hashRemove (c : BufferCache) (i : BufId) : BufferCache :=
  let index := bufferHash (c.dev i) (c.blockNo i)
  let r := unlinkAt (c.hashTable index) c.hashNext i (bufferCacheMax + 1) none
  { c with hashTable := update c.hashTable index r.1, hashNext := r.2 }

def hashInsert (c : BufferCache) (i : BufId) : BufferCache :=
  let index := bufferHash (c.dev i) (c.blockNo i)
  { c with
    hashNext := update c.hashNext i (c.hashTable index),
    hashTable := update c.hashTable index (some i) }

def bufferWriteBack (c : BufferCache) (i : BufId) : Int × BufferCache :=
  if c.dev i = 0 ∨ c.dirty i = false ∨ c.valid i = false then (0, c)
  else if (c.devices (c.dev i)).canWrite (c.blockNo i).toNat then
    (0, { c with
      devices := update c.devices (c.dev i)
        ((c.devices (c.dev i)).write ((c.blockNo i).toNat, c.data i)),
      dirty := update c.dirty i false })
  else (-1, c)

/-- The buffer to reuse and the cache without it, unless every buffer is pinned. -/
def bufferEvict (c : BufferCache) : Option (BufId × BufferCache) :=
  match walk c.lru.prev (fun i => c.refcount i == 0#16) bufferCacheMax c.lru.tail with
  | none => none
  | some i =>
    let c := c.lruRemove i
    let c := if c.dirty i && c.valid i then (c.bufferWriteBack i).2 else c
    let c := c.hashRemove i
    some (i, { c with
      dev := update c.dev i 0,
      blockNo := update c.blockNo i 0,
      dirty := update c.dirty i false,
      valid := update c.valid i false })

/-- `buffer_cache_init`: every buffer is free, the first one longest. -/
def init (devices : Nat → BlockDevice) : BufferCache :=
  (List.finRange bufferCacheMax).foldl lruInsertFront
    { dev := fun _ => 0, blockNo := fun _ => 0, data := fun _ => zeros, dirty := fun _ => false,
      valid := fun _ => false, refcount := fun _ => 0, hashNext := fun _ => none,
      lru := ⟨none, none, fun _ => none, fun _ => none⟩, hashTable := fun _ => none,
      devices := devices }

def bufferGet (c : BufferCache) (dev : Nat) (blockNo : BitVec 32) : Option BufId × BufferCache :=
  if dev = 0 ∨ (c.devices dev).blockSize ≠ bufferBlockSize then (none, c) else
  match c.hashLookup dev blockNo with
  | some i =>
    let c := if c.refcount i = 0#16 then c.lruRemove i else c
    (some i, { c with refcount := update c.refcount i (c.refcount i + 1) })
  | none =>
    match c.bufferEvict with
    | none => (none, c)
    | some (i, c) =>
      let c := { c with
        dev := update c.dev i dev,
        blockNo := update c.blockNo i blockNo,
        refcount := update c.refcount i 1 }
      match blockDeviceRead (c.devices dev) blockNo.toNat with
      | none =>
        (none, lruInsertFront { c with
          dev := update c.dev i 0,
          refcount := update c.refcount i 0 } i)
      | some b =>
        (some i, hashInsert { c with
          data := update c.data i b,
          valid := update c.valid i true,
          dirty := update c.dirty i false } i)

def bufferMarkDirty (c : BufferCache) (i : BufId) : BufferCache :=
  { c with dirty := update c.dirty i true }

def bufferRelease (c : BufferCache) (i : BufId) : BufferCache :=
  if c.refcount i = 0#16 then c
  else
    let c := { c with refcount := update c.refcount i (c.refcount i - 1) }
    if c.refcount i = 0#16 then c.lruInsertFront i else c

/-- One round of the loop of `buffer_cache_sync`, with the code so far. -/
def syncBuffer (dev : Nat) (r : Int × BufferCache) (i : BufId) : Int × BufferCache :=
  if r.2.dev i = dev ∧ r.2.dirty i = true ∧ r.2.valid i = true then
    let w := r.2.bufferWriteBack i
    (if w.1 ≠ 0 then -1 else r.1, w.2)
  else r

def bufferCacheSync (c : BufferCache) (dev : Nat) : Int × BufferCache :=
  (List.finRange bufferCacheMax).foldl (syncBuffer dev) (0, c)

/-- The loop of `buffer_cache_readahead` over `n` more blocks from `pos`. -/
def readaheadFrom (dev : Nat) : Nat → Nat → Nat → BufferCache → Nat × BufferCache
  | 0, _, loaded, c => (loaded, c)
  | n + 1, pos, loaded, c =>
    if 2 ^ 32 ≤ pos then (loaded, c)
    else if (c.devices dev).blockCount ≠ 0 ∧ (c.devices dev).blockCount ≤ pos then (loaded, c)
    else
      match c.bufferGet dev (BitVec.ofNat 32 pos) with
      | (none, c) => (loaded, c)
      | (some i, c) => readaheadFrom dev n (pos + 1) (loaded + 1) (c.bufferRelease i)

def bufferCacheReadahead (c : BufferCache) (dev : Nat) (startBlock count : BitVec 32) :
    Nat × BufferCache :=
  if dev = 0 ∨ (c.devices dev).blockSize ≠ bufferBlockSize ∨ count = 0#32 then (0, c)
  else readaheadFrom dev count.toNat startBlock.toNat 0 c

/-- The loop of `buffer_cache_writeback_pass` from `bh` towards the head, at most
`n` buffers far. -/
def writebackFrom (dev maxBlocks : Nat) :
    Nat → Option BufId → Nat → BufferCache → Nat × BufferCache
  | 0, _, written, c => (written, c)
  | _ + 1, none, written, c => (written, c)
  | n + 1, some i, written, c =>
    if maxBlocks ≤ written then (written, c)
    else
      let prev := c.lru.prev i
      if c.valid i = true ∧ c.dirty i = true ∧ (dev = 0 ∨ c.dev i = dev) then
        let w := c.bufferWriteBack i
        if w.1 ≠ 0 then (written, w.2)
        else writebackFrom dev maxBlocks n prev (written + 1) w.2
      else writebackFrom dev maxBlocks n prev written c

def bufferCacheWritebackPass (c : BufferCache) (dev : Nat) (maxBlocks : BitVec 32) :
    Nat × BufferCache :=
  if maxBlocks = 0#32 then (0, c)
  else writebackFrom dev maxBlocks.toNat bufferCacheMax c.lru.tail 0 c

end BufferCache

/-- What users of the cache can do. Nothing keeps them to buffers they hold. -/
inductive BufOp where
  | get (dev : Nat) (blockNo : BitVec 32)
  | modify (i : BufId) (b : Bytes)
  | release (i : BufId)
  | writeBack (i : BufId)
  | sync (dev : Nat)
  | writebackPass (dev : Nat) (maxBlocks : BitVec 32)
  | readahead (dev : Nat) (startBlock count : BitVec 32)

def BufferCache.step (c : BufferCache) : BufOp → BufferCache
  | .get dev blockNo => (c.bufferGet dev blockNo).2
  | .modify i b => bufferMarkDirty { c with data := update c.data i b } i
  | .release i => c.bufferRelease i
  | .writeBack i => (c.bufferWriteBack i).2
  | .sync dev => (c.bufferCacheSync dev).2
  | .writebackPass dev maxBlocks => (c.bufferCacheWritebackPass dev maxBlocks).2
  | .readahead dev startBlock count => (c.bufferCacheReadahead dev startBlock count).2

/-- What the cache stands for: the contents of every block of every device. -/
abbrev BlockStore := Nat → Nat → Bytes

/-- The devices' own contents. -/
def deviceStore (devices : Nat → BlockDevice) : BlockStore := fun dev b => (devices dev).blocks b

/-- Only a modification of a buffer that holds a block changes what is stored. -/
def storeStep (c : BufferCache) (s : BlockStore) : BufOp → BlockStore
  | .modify i b =>
    if c.dev i = 0 then s
    else update s (c.dev i) (update (s (c.dev i)) (c.blockNo i).toNat b)
  | _ => s

/-- The cache and the store it stands for, side by side. -/
def cacheRun (devices : Nat → BlockDevice) (ops : List BufOp) : BufferCache × BlockStore :=
  ops.foldl (fun r op => (r.1.step op, storeStep r.1 r.2 op))
    (BufferCache.init devices, deviceStore devices)

/-- The contents of blocks that were modified and marked dirty, and that no device
write has succeeded for since. -/
abbrev UnwrittenBlocks := Nat → Nat → Option Bytes

namespace BufferCache
variable (c : BufferCache)

/-- The buffer that `buffer_evict` takes. -/
def victim : Option BufId :=
  walk c.lru.prev (fun i => c.refcount i == 0#16) bufferCacheMax c.lru.tail

/-- A write-back of the buffer reaches the device, and the device takes it. -/
def writeSucceeds (i : BufId) : Bool :=
  c.dev i != 0 && c.dirty i && c.valid i && (c.devices (c.dev i)).canWrite (c.blockNo i).toNat

/-- What is unwritten after a write-back of the buffer. -/
def settle (i : BufId) (p : UnwrittenBlocks) : UnwrittenBlocks :=
  if c.writeSucceeds i then
    fun dev b => if dev = c.dev i ∧ b = (c.blockNo i).toNat then none else p dev b
  else p

def unwrittenEvict (p : UnwrittenBlocks) : UnwrittenBlocks :=
  match c.victim with
  | none => p
  | some i => if c.dirty i && c.valid i then (c.lruRemove i).settle i p else p

def unwrittenGet (dev : Nat) (blockNo : BitVec 32) (p : UnwrittenBlocks) : UnwrittenBlocks :=
  if dev = 0 ∨ (c.devices dev).blockSize ≠ bufferBlockSize then p
  else if (c.hashLookup dev blockNo).isSome then p
  else c.unwrittenEvict p

def unwrittenSync (dev : Nat) : List BufId → BufferCache → UnwrittenBlocks → UnwrittenBlocks
  | [], _, p => p
  | i :: l, c, p =>
    if c.dev i = dev ∧ c.dirty i = true ∧ c.valid i = true then
      unwrittenSync dev l (c.bufferWriteBack i).2 (c.settle i p)
    else unwrittenSync dev l c p

def unwrittenPass (dev maxBlocks : Nat) :
    Nat → Option BufId → Nat → BufferCache → UnwrittenBlocks → UnwrittenBlocks
  | 0, _, _, _, p => p
  | _ + 1, none, _, _, p => p
  | n + 1, some i, written, c, p =>
    if maxBlocks ≤ written then p
    else
      let prev := c.lru.prev i
      if c.valid i = true ∧ c.dirty i = true ∧ (dev = 0 ∨ c.dev i = dev) then
        let w := c.bufferWriteBack i
        if w.1 ≠ 0 then c.settle i p
        else unwrittenPass dev maxBlocks n prev (written + 1) w.2 (c.settle i p)
      else unwrittenPass dev maxBlocks n prev written c p

def unwrittenReadahead (dev : Nat) : Nat → Nat → BufferCache → UnwrittenBlocks → UnwrittenBlocks
  | 0, _, _, p => p
  | n + 1, pos, c, p =>
    if 2 ^ 32 ≤ pos then p
    else if (c.devices dev).blockCount ≠ 0 ∧ (c.devices dev).blockCount ≤ pos then p
    else
      let p := c.unwrittenGet dev (BitVec.ofNat 32 pos) p
      match c.bufferGet dev (BitVec.ofNat 32 pos) with
      | (none, _) => p
      | (some i, c) => unwrittenReadahead dev n (pos + 1) (c.bufferRelease i) p

/-- What is unwritten after a call: the write-backs that the call makes settle
blocks, and a modification of a block's buffer adds one. -/
def unwrittenStep (p : UnwrittenBlocks) : BufOp → UnwrittenBlocks
  | .get dev blockNo => c.unwrittenGet dev blockNo p
  | .modify i b =>
    if c.dev i = 0 then p
    else fun dev n => if dev = c.dev i ∧ n = (c.blockNo i).toNat then some b else p dev n
  | .release _ => p
  | .writeBack i => c.settle i p
  | .sync dev => unwrittenSync dev (List.finRange bufferCacheMax) c p
  | .writebackPass dev maxBlocks =>
    if maxBlocks = 0#32 then p
    else unwrittenPass dev maxBlocks.toNat bufferCacheMax c.lru.tail 0 c p
  | .readahead dev startBlock count =>
    if dev = 0 ∨ (c.devices dev).blockSize ≠ bufferBlockSize ∨ count = 0#32 then p
    else unwrittenReadahead dev count.toNat startBlock.toNat c p

/-- The buffers that `buffer_cache_dirty_count` counts. -/
def dirtyBuffers (dev : Nat) : List BufId :=
  (List.finRange bufferCacheMax).filter fun i => c.valid i && c.dirty i && (dev == 0 || c.dev i == dev)

def bufferCacheDirtyCount (dev : Nat) : Nat := (c.dirtyBuffers dev).length

end BufferCache

/-- A call of the cache, or another set of requests that the devices refuse from
now on. -/
inductive FaultStep where
  | call (op : BufOp)
  | fault (readFails writeFails : Nat → Nat → Bool)

/-- The cache and what is unwritten, after one step. -/
def faultStep (r : BufferCache × UnwrittenBlocks) : FaultStep → BufferCache × UnwrittenBlocks
  | .call op => (r.1.step op, r.1.unwrittenStep r.2 op)
  | .fault readFails writeFails =>
    ({ r.1 with devices := fun dev =>
      { r.1.devices dev with readFails := readFails dev, writeFails := writeFails dev } }, r.2)

def faultRun (c : BufferCache) (steps : List FaultStep) : BufferCache × UnwrittenBlocks :=
  steps.foldl faultStep (c, fun _ _ => none)

end CapyOS
