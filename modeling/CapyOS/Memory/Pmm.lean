import CapyOS.Lib.Numerals

namespace CapyOS

def pmmPageSize : Nat := 4096

/-- The bits of `pmm_bitmap`. -/
def pmmBitmapBits : Nat := 64 * 1024 / 8 * 8

/-- A `struct pmm_region`: a range of the 64-bit physical address space. -/
structure PmmRegion where
  base : Nat
  length : Nat
  type : Nat
  base_lt : base < 2 ^ 64
  fits : base + length ≤ 2 ^ 64

namespace PmmRegion
variable (r : PmmRegion)

def Holds (a : Nat) : Prop := r.base ≤ a ∧ a < r.base + r.length

/-- The end as `pmm_init` computes it, which is 0 for a region that reaches up to 2^64. -/
def limit : Nat := (r.base + r.length) % 2 ^ 64

/-- The first page of the loop over a region. -/
def firstPage : Nat := (r.base + pmmPageSize - 1) % 2 ^ 64 / pmmPageSize

def endPage : Nat := r.limit / pmmPageSize

/-- The pages the loop over a region visits. -/
def pages : List Nat := List.range' r.firstPage (r.endPage - r.firstPage)

end PmmRegion

/-- The globals of the page allocator. -/
structure Pmm where
  bitmap : Nat → Bool
  totalPages : Nat
  freeCount : Nat
  usedPages : Nat
  reservedPages : Nat

namespace Pmm
variable (s : Pmm)

/-- A page behind the bitmap reads as taken. -/
def bitmapTest (page : Nat) : Bool := if page < pmmBitmapBits then s.bitmap page else true

def bitmapSet (page : Nat) : Pmm :=
  if page < pmmBitmapBits then { s with bitmap := Function.update s.bitmap page true } else s

def bitmapClear (page : Nat) : Pmm :=
  if page < pmmBitmapBits then { s with bitmap := Function.update s.bitmap page false } else s

/-- The body of the loop of `pmm_reserve_range`. -/
def reserveOne (page : Nat) : Pmm :=
  if s.bitmapTest page then s
  else { s.bitmapSet page with
    freeCount := if s.freeCount > 0 then s.freeCount - 1 else s.freeCount
    reservedPages := s.reservedPages + 1 }

def endPage (start length : Nat) : Nat := (start + length + pmmPageSize - 1) % 2 ^ 64 / pmmPageSize

def reserveRange (start length : Nat) : Pmm :=
  (List.range' (start / pmmPageSize) (min (endPage start length) s.totalPages - start / pmmPageSize)).foldl
    reserveOne s

/-- `pmm_reserve_firmware_readonly`, with `vmm_identity_is_writable` as a parameter. -/
def reserveFirmwareReadonly (writable : Nat → Bool) : Pmm :=
  (List.range s.totalPages).foldl
    (fun s i => if writable (i * pmmPageSize) then s else s.reserveOne i) s

/-- The body of the loop of `pmm_init` over the pages of a usable region. -/
def releaseOne (page : Nat) : Pmm :=
  if page < s.totalPages then { s.bitmapClear page with freeCount := s.freeCount + 1 } else s

/-- `pmm_init` up to the fixed reserves. -/
def fill (regions : List PmmRegion) : Pmm :=
  let maxAddr := regions.foldl (fun m r => if r.limit > m then r.limit else m) 0
  let total := if maxAddr / pmmPageSize > pmmBitmapBits then pmmBitmapBits else maxAddr / pmmPageSize
  regions.foldl (fun s r => if r.type ≠ 1 then s else r.pages.foldl releaseOne s)
    ⟨fun _ => true, total, 0, 0, 0⟩

def init (writable : Nat → Bool) (regions : List PmmRegion) : Pmm :=
  (((fill regions).reserveRange 0 pmmPageSize).reserveRange pmmPageSize
    (pmmPageSize * 256)).reserveFirmwareReadonly writable

def allocPage : Nat × Pmm :=
  match (List.range s.totalPages).find? fun i => !s.bitmapTest i with
  | none => (0, s)
  | some i =>
    (i * pmmPageSize, { s.bitmapSet i with freeCount := s.freeCount - 1, usedPages := s.usedPages + 1 })

/-- The body of the loop of `pmm_free_pages`. -/
def freeOne (page : Nat) : Pmm :=
  if page < s.totalPages ∧ s.bitmapTest page then
    { s.bitmapClear page with
      freeCount := s.freeCount + 1
      usedPages := if s.usedPages > 0 then s.usedPages - 1 else s.usedPages }
  else s

def freePage (physAddr : Nat) : Pmm := s.freeOne (physAddr / pmmPageSize)

def freePages (physAddr count : Nat) : Pmm :=
  (List.range count).foldl (fun s i => s.freeOne (physAddr / pmmPageSize + i)) s

/-- The bound `pmm_total_pages - count` of the search, in a `uint64_t`. -/
def searchBound (count : Nat) : Nat := (s.totalPages + 2 ^ 64 - count) % 2 ^ 64

/-- The first offset of a run at which a page is taken. -/
def obstacle (i count : Nat) : Option Nat :=
  (List.range count).find? fun j => s.bitmapTest ((i + j) % 2 ^ 64)

/-- The outer loop of `pmm_alloc_pages` from page `i` on. It answers nothing while it
has not ended after `fuel` rounds. -/
def search (count : Nat) : Nat → Nat → Option (Option Nat)
  | 0, _ => none
  | fuel + 1, i =>
    if i ≤ s.searchBound count then
      match s.obstacle i count with
      | some j => search count fuel ((i + j + 1) % 2 ^ 64)
      | none => some (some i)
    else some none

def takePages (i count : Nat) : Pmm :=
  let taken := (List.range count).foldl (fun s j => s.bitmapSet (i + j)) s
  { taken with freeCount := s.freeCount - count, usedPages := s.usedPages + count }

def allocPages (fuel count : Nat) : Option (Nat × Pmm) :=
  if count = 0 then some (0, s)
  else (s.search count fuel 0).map fun
    | none => (0, s)
    | some i => (i * pmmPageSize, s.takePages i count)

end Pmm

inductive PmmOp where
  | allocPage
  | allocPages (count : Nat)
  | reserveRange (start length : Nat)
  | freePage (physAddr : Nat)
  | freePages (physAddr count : Nat)

/-- The allocator, the pages that were handed out and not freed, and the pages someone
asked to be kept. -/
structure PmmState where
  pmm : Pmm
  allocated : Finset Nat
  reserved : Finset Nat

/-- The pages of a range of bytes. -/
def pageSpan (start length : Nat) : Finset Nat :=
  Finset.Ico (start / pmmPageSize) ((start + length + pmmPageSize - 1) / pmmPageSize)

/-- The pages an address and a count of pages stand for. -/
def pageRun (physAddr count : Nat) : Finset Nat :=
  Finset.Ico (physAddr / pmmPageSize) (physAddr / pmmPageSize + count)

/-- The allocator after `pmm_init`, which keeps the first megabyte and what the firmware
has read-only. -/
def PmmState.start (writable : Nat → Bool) (regions : List PmmRegion) : PmmState where
  pmm := Pmm.init writable regions
  allocated := ∅
  reserved := Finset.range 257 ∪
    (Finset.range (Pmm.init writable regions).totalPages).filter fun p => !writable (p * pmmPageSize)

/-- A call, where only allocated ranges are freed. A call that does not return is no step. -/
inductive PmmStep : PmmState → PmmOp → PmmState → Prop
  | allocPage (s : PmmState) : PmmStep s .allocPage { s with
      pmm := s.pmm.allocPage.2
      allocated := if s.pmm.allocPage.1 = 0 then s.allocated else s.allocated ∪ pageRun s.pmm.allocPage.1 1 }
  | allocPages {s : PmmState} {count fuel addr : Nat} {pmm : Pmm} : count < 2 ^ 64 →
      s.pmm.allocPages fuel count = some (addr, pmm) → PmmStep s (.allocPages count) { s with
        pmm := pmm
        allocated := if addr = 0 then s.allocated else s.allocated ∪ pageRun addr count }
  | reserveRange {s : PmmState} {start length : Nat} : start < 2 ^ 64 → length < 2 ^ 64 →
      PmmStep s (.reserveRange start length) { s with
        pmm := s.pmm.reserveRange start length
        reserved := s.reserved ∪ pageSpan start length }
  | freePage {s : PmmState} {physAddr : Nat} : pageRun physAddr 1 ⊆ s.allocated →
      PmmStep s (.freePage physAddr) { s with
        pmm := s.pmm.freePage physAddr
        allocated := s.allocated \ pageRun physAddr 1 }
  | freePages {s : PmmState} {physAddr count : Nat} : pageRun physAddr count ⊆ s.allocated →
      PmmStep s (.freePages physAddr count) { s with
        pmm := s.pmm.freePages physAddr count
        allocated := s.allocated \ pageRun physAddr count }

/-- The runs from `pmm_init` on whose steps all meet a condition. -/
inductive PmmRun (ok : PmmState → PmmOp → Prop) (writable : Nat → Bool) (regions : List PmmRegion) :
    List PmmOp → PmmState → Prop
  | start : PmmRun ok writable regions [] (.start writable regions)
  | step {ops : List PmmOp} {op : PmmOp} {s t : PmmState} : PmmRun ok writable regions ops s → ok s op →
      PmmStep s op t → PmmRun ok writable regions (ops ++ [op]) t

end CapyOS
