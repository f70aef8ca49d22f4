import CapyOS.Lib.Numerals

namespace CapyOS

/-- `sizeof(struct header)` -/
def kmemHeaderSize : Nat := 24

def kmemAlign : Nat := 16

def kmemHeaderMagic : BitVec 8 := 0xCC#8

/-- A `struct header`, with the offset in `kheap` at which it stands. `size` does
not count the header. -/
structure KBlock where
  addr : Nat
  size : Nat
  isFree : Bool
  magic : BitVec 8
  deriving DecidableEq, Repr

namespace KBlock
variable (b : KBlock)

/-- The offset of the data, which is what `kalloc` returns. -/
def ptr : Nat := b.addr + kmemHeaderSize

/-- The first offset behind the data. -/
def limit : Nat := b.addr + kmemHeaderSize + b.size

end KBlock

/-- The blocks in the order of their `next` pointers, from `free_list` on. -/
abbrev KHeap := List KBlock

def kinit (heapSize : Nat) : KHeap := [⟨0, heapSize - kmemHeaderSize, true, kmemHeaderMagic⟩]

/-- `(size + (ALIGN - 1)) & ~(ALIGN - 1)` in a `size_t`. -/
def kmemAligned (size : Nat) : Nat := (size + (kmemAlign - 1)) % 2 ^ 64 / kmemAlign * kmemAlign

/-- Take a free block, and give back what is left of it as a block of its own if
that is worth a header. -/
def kmemTake (alignedSize : Nat) (curr : KBlock) : List KBlock :=
  if curr.size ≥ alignedSize + kmemHeaderSize + kmemAlign then
    [{ curr with size := alignedSize, isFree := false },
      ⟨curr.addr + kmemHeaderSize + alignedSize, curr.size - alignedSize - kmemHeaderSize, true,
        kmemHeaderMagic⟩]
  else [{ curr with isFree := false }]

/-- The loop of `kalloc` from a block on. -/
def kmemFind (alignedSize : Nat) : KHeap → Option Nat × KHeap
  | [] => (none, [])
  | curr :: rest =>
    if curr.magic ≠ kmemHeaderMagic then (none, curr :: rest)
    else if curr.isFree ∧ curr.size ≥ alignedSize then (some curr.ptr, kmemTake alignedSize curr ++ rest)
    else
      let r := kmemFind alignedSize rest
      (r.1, curr :: r.2)

def kalloc (size : Nat) (heap : KHeap) : Option Nat × KHeap :=
  if size = 0 then (none, heap) else kmemFind (kmemAligned size) heap

/-- The loop of `kfree` that joins free neighbours, at one block. -/
def kmemMergeFrom (curr : KBlock) : List KBlock → KHeap
  | [] => [curr]
  | next :: rest =>
    if curr.isFree ∧ next.isFree ∧ curr.limit = next.addr then
      kmemMergeFrom { curr with size := curr.size + (kmemHeaderSize + next.size) } rest
    else curr :: kmemMergeFrom next rest

def kmemMerge : KHeap → KHeap
  | [] => []
  | curr :: rest => kmemMergeFrom curr rest

/-- Set the header in front of a pointer free, if its magic is right. -/
def kmemRelease (ptr : Nat) (heap : KHeap) : KHeap :=
  heap.map fun b => if b.ptr = ptr ∧ b.magic = kmemHeaderMagic then { b with isFree := true } else b

def kfree (ptr : Nat) (heap : KHeap) : KHeap := kmemMerge (kmemRelease ptr heap)

def kheapUsed (heap : KHeap) : Nat := ((heap.filter fun b => !b.isFree).map KBlock.size).sum

/-- The size of the block a pointer belongs to. -/
def kmemSizeAt (heap : KHeap) (ptr : Nat) : Nat := ((heap.find? fun b => b.ptr = ptr).map KBlock.size).getD 0

inductive KmemOp where
  | alloc (size : Nat)
  | free (ptr : Nat)

/-- The heap, and the pointers that were handed out and not given back. -/
structure KmemState where
  heap : KHeap
  live : List Nat

/-- The runs of a heap in which only live pointers are freed and no request is larger
than the heap. -/
inductive KmemRun (heapSize : Nat) : List KmemOp → KmemState → Prop
  | start : KmemRun heapSize [] ⟨kinit heapSize, []⟩
  | alloc {ops : List KmemOp} {s : KmemState} {size : Nat} : KmemRun heapSize ops s → size ≤ heapSize →
      KmemRun heapSize (ops ++ [.alloc size])
        ⟨(kalloc size s.heap).2, (kalloc size s.heap).1.toList ++ s.live⟩
  | free {ops : List KmemOp} {s : KmemState} {ptr : Nat} : KmemRun heapSize ops s → ptr ∈ s.live →
      KmemRun heapSize (ops ++ [.free ptr]) ⟨kfree ptr s.heap, s.live.erase ptr⟩

end CapyOS
