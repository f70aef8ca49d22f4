import CapyOS.Lib.Bytes

namespace CapyOS
open Lib Function

def vmmPageSize : Nat := 4096
def vmmUserTop : Nat := 0x00007FFFFFFFF000
def vmmLowKernelCloneBase : Nat := 0x0000000004000000

structure PageFlags where
  user : Bool
  write : Bool
  noExec : Bool
deriving DecidableEq

/-- A present leaf entry. -/
structure Pte where
  frame : Nat
  flags : PageFlags
deriving DecidableEq

/-- An address space and the memory behind it. Frames are their physical addresses;
`free` are those the page allocator has left, in the order it hands them out, and
`tables shift i` says that the page table for the addresses `i` starts is there. -/
structure VmmSpace where
  free : List Nat
  mem : Nat → Bytes
  tables : Nat → Nat → Bool
  pte : Nat → Option Pte
  rssPages : Nat

namespace VmmSpace

/-- `pmm_alloc_page`, 0 when there is no frame. -/
def pmmAllocPage (s : VmmSpace) : Nat × VmmSpace :=
  match s.free with
  | [] => (0, s)
  | f :: rest => (f, { s with free := rest })

def clearFrame (s : VmmSpace) (phys : Nat) : VmmSpace :=
  { s with mem := update s.mem phys zeros }

/-- `get_or_create_table` for the table whose entries are chosen below bit `shift`. -/
def getOrCreateTable (s : VmmSpace) (shift virt : Nat) : Option VmmSpace :=
  if s.tables shift (virt / 2 ^ shift) then some s
  else
    match s.pmmAllocPage with
    | (phys, s') =>
      if phys = 0 then none
      else
        some { s'.clearFrame phys with
          tables := update s'.tables shift
            (update (s'.tables shift) (virt / 2 ^ shift) true) }

/-- The leaf entry of a page and the count of resident pages. -/
def setLeaf (s : VmmSpace) (virt phys : Nat) (flags : PageFlags) : VmmSpace :=
  { s with
    pte := update s.pte (virt / vmmPageSize) (some ⟨phys, flags⟩)
    rssPages := if flags.user && (s.pte (virt / vmmPageSize)).isNone then s.rssPages + 1
      else s.rssPages }

/-- `vmm_map_page`, with whether it returned 0. Tables made on the way stay. -/
def vmmMapPage (s : VmmSpace) (virt phys : Nat) (flags : PageFlags) : VmmSpace × Bool :=
  match s.getOrCreateTable 39 virt with
  | none => (s, false)
  | some s₁ =>
    match s₁.getOrCreateTable 30 virt with
    | none => (s₁, false)
    | some s₂ =>
      match s₂.getOrCreateTable 21 virt with
      | none => (s₂, false)
      | some s₃ => (s₃.setLeaf virt phys flags, true)

def vmmVirtToPhys (s : VmmSpace) (virt : Nat) : Nat :=
  match s.pte (virt / vmmPageSize) with
  | none => 0
  | some e => e.frame + virt % vmmPageSize

/-- The byte a program finds at an address. -/
def read (s : VmmSpace) (v : Nat) : Option Byte :=
  match s.pte (v / vmmPageSize) with
  | none => none
  | some e => if e.flags.user then some (s.mem e.frame (v % vmmPageSize)) else none

end VmmSpace

/-- An address space as `vmm_create_address_space` makes it: the clone of the kernel's
low tables has split their huge leaves, so that every table below the base is there. The
allocator hands out no frame twice. -/
structure UserSpace extends VmmSpace where
  nodup : free.Nodup
  low : ∀ shift ∈ [39, 30, 21], ∀ virt < vmmLowKernelCloneBase,
    tables shift (virt / 2 ^ shift) = true

/-- A present entry that maps memory. -/
structure LeafEntry where
  frame : Nat
  user : Bool
  write : Bool
  noExec : Bool
  cow : Bool
  huge : Bool
deriving DecidableEq

/-- An entry of a page table, with the table it points at. -/
inductive PageEntry
  | absent
  | leaf (e : LeafEntry)
  | table (entries : List PageEntry)

/-- A `struct vmm_anon_region`. -/
structure AnonRegion where
  start : Nat
  stop : Nat
  flags : PageFlags
deriving DecidableEq

/-- The frames the allocator has left and the sharers it counts for each. -/
structure FrameState where
  free : List Nat
  refcount : Nat → Nat

/-- An address space: the tables of its lower half, by entry of the PML4. -/
structure UserTables where
  pml4 : List (Option (List PageEntry))
  rssPages : Nat
  anonRegions : List AnonRegion

def pageEntries : Nat := 512
def pml4UserEntries : Nat := 256

/-! ### Looking at tables -/

/-- The indices of an address below the PML4. -/
def tablePath (virt : Nat) : List Nat :=
  [virt / 2 ^ 30 % 512, virt / 2 ^ 21 % 512, virt / 2 ^ 12 % 512]

def entryAt (es : List PageEntry) (i : Nat) : PageEntry := es.getD i .absent

/-- The entry that maps an address, 2 MiB and 1 GiB pages included. -/
def leafAt : List Nat → List PageEntry → Option LeafEntry
  | [], _ => none
  | i :: path, es =>
    match entryAt es i with
    | .absent => none
    | .leaf e => some e
    | .table entries => leafAt path entries

def UserTables.leaf (as : UserTables) (virt : Nat) : Option LeafEntry :=
  match as.pml4.getD (virt / 2 ^ 39 % 512) none with
  | none => none
  | some pdpt => leafAt (tablePath virt) pdpt

mutual

/-- The user pages of 4 KiB under an entry. -/
def PageEntry.userLeaves : PageEntry → Nat
  | .absent => 0
  | .leaf e => if e.user && !e.huge then 1 else 0
  | .table entries => entriesUserLeaves entries

def entriesUserLeaves : List PageEntry → Nat
  | [] => 0
  | e :: es => e.userLeaves + entriesUserLeaves es

end

/-- The present user leaf entries of an address space. -/
def UserTables.userLeaves (as : UserTables) : Nat :=
  (as.pml4.map fun t => (t.map entriesUserLeaves).getD 0).sum

/-! ### The clone -/

/-- `pmm_alloc_page` -/
def FrameState.alloc (m : FrameState) : Option (Nat × FrameState) :=
  match m.free with
  | [] => none
  | f :: rest => some (f, { m with free := rest })

def FrameState.refInc (m : FrameState) (frame : Nat) : FrameState :=
  { m with refcount := update m.refcount frame (m.refcount frame + 1) }

/-- What both sides hold of a page after the clone. -/
def LeafEntry.shared (e : LeafEntry) : LeafEntry :=
  if e.user && e.write && !e.huge then { e with write := false, cow := true } else e

mutual

/-- One turn of the loop of `clone_pt_into`: the entry of the clone, and the entry the
source is left with. -/
def clonePtEntry (m : FrameState) : PageEntry → Option (FrameState × PageEntry × PageEntry)
  | .absent => some (m, .absent, .absent)
  | .leaf e => some (m.refInc e.frame, .leaf e.shared, .leaf e.shared)
  | .table entries =>
    match m.alloc with
    | none => none
    | some (_, m₁) =>
      match clonePtInto m₁ entries with
      | none => none
      | some (m₂, dst, src) => some (m₂, .table dst, .table src)

def clonePtInto (m : FrameState) :
    List PageEntry → Option (FrameState × List PageEntry × List PageEntry)
  | [] => some (m, [], [])
  | e :: es =>
    match clonePtEntry m e with
    | none => none
    | some (m₁, d, s) =>
      match clonePtInto m₁ es with
      | none => none
      | some (m₂, ds, ss) => some (m₂, d :: ds, s :: ss)

end

/-- The loop over the PML4. An entry the source does not have stays as the new address
space has it. -/
def clonePml4 (m : FrameState) : List (Option (List PageEntry)) → List (Option (List PageEntry)) →
    Option (FrameState × List (Option (List PageEntry)) × List (Option (List PageEntry)))
  | [], _ => some (m, [], [])
  | _, [] => some (m, [], [])
  | none :: src, fresh :: dst =>
    match clonePml4 m src dst with
    | none => none
    | some (m₁, ds, ss) => some (m₁, fresh :: ds, none :: ss)
  | some pdpt :: src, _ :: dst =>
    match m.alloc with
    | none => none
    | some (_, m₁) =>
      match clonePtInto m₁ pdpt with
      | none => none
      | some (m₂, d, s) =>
        match clonePml4 m₂ src dst with
        | none => none
        | some (m₃, ds, ss) => some (m₃, some d :: ds, some s :: ss)

/-- `vmm_create_address_space`: `low` is the clone of the kernel's first PML4 entry and
`m` what making it leaves of the frames. The registry is empty. -/
def vmmCreateAddressSpace (low : Option (List PageEntry)) : UserTables where
  pml4 := low :: List.replicate (pml4UserEntries - 1) none
  rssPages := 0
  anonRegions := []

/-- `vmm_clone_address_space`: the frames left, the clone, and the source with its
writable pages shared. -/
def vmmCloneAddressSpace (m : FrameState) (low : Option (List PageEntry)) (src : UserTables) :
    Option (FrameState × UserTables × UserTables) :=
  let dst := vmmCreateAddressSpace low
  match clonePml4 m src.pml4 dst.pml4 with
  | none => none
  | some (m₁, d, s) =>
    some (m₁, { dst with pml4 := d, rssPages := src.rssPages }, { src with pml4 := s })

/-! ### Demand paging -/

def rangesOverlap (aStart aEnd bStart bEnd : Nat) : Bool :=
  decide (aStart < bEnd) && decide (bStart < aEnd)

/-- `vmm_register_anon_region`; `room` says whether the node can be allocated. -/
def vmmRegisterAnonRegion (room : Bool) (as : UserTables) (start pageCount : Nat)
    (flags : PageFlags) : Option UserTables :=
  let stop := (start + pageCount * vmmPageSize) % 2 ^ 64
  if pageCount = 0 ∨ stop ≤ start then none
  else if as.anonRegions.any fun r => rangesOverlap start stop r.start r.stop then none
  else if room then some { as with anonRegions := ⟨start, stop, flags⟩ :: as.anonRegions }
  else none

def vmmAnonRegionFind (as : UserTables) (virt : Nat) : Option AnonRegion :=
  as.anonRegions.find? fun r => decide (r.start ≤ virt) && decide (virt < r.stop)

/-- The tables below the PML4 on the way to a page, made where they are missing, and its
entry. A large page on the way has no entry for it. -/
def mapInto (e : LeafEntry) : List Nat → List PageEntry → List Nat →
    Option (List PageEntry × List Nat)
  | [], _, _ => none
  | [i], es, free => some (es.set i (.leaf e), free)
  | i :: j :: path, es, free =>
    match entryAt es i with
    | .leaf _ => none
    | .table entries =>
      match mapInto e (j :: path) entries free with
      | none => none
      | some (entries', free') => some (es.set i (.table entries'), free')
    | .absent =>
      match free with
      | [] => none
      | _ :: rest =>
        match mapInto e (j :: path) (List.replicate pageEntries .absent) rest with
        | none => none
        | some (entries', free') => some (es.set i (.table entries'), free')

/-- `vmm_map_page` for an address of the lower half. -/
def UserTables.mapPage (as : UserTables) (virt phys : Nat) (flags : PageFlags) (free : List Nat) :
    Option (UserTables × List Nat) :=
  let i := virt / 2 ^ 39 % 512
  let e : LeafEntry := ⟨phys, flags.user, flags.write, flags.noExec, false, false⟩
  let wasPresent := (as.leaf virt).isSome
  let rss := if flags.user && !wasPresent then as.rssPages + 1 else as.rssPages
  match as.pml4.getD i none with
  | some pdpt =>
    match mapInto e (tablePath virt) pdpt free with
    | none => none
    | some (pdpt', free') =>
      some ({ as with pml4 := as.pml4.set i (some pdpt'), rssPages := rss }, free')
  | none =>
    match free with
    | [] => none
    | _ :: rest =>
      match mapInto e (tablePath virt) (List.replicate pageEntries .absent) rest with
      | none => none
      | some (pdpt', free') =>
        some ({ as with pml4 := as.pml4.set i (some pdpt'), rssPages := rss }, free')

/-- What a serviced fault leaves: the address space, and the flags and contents of the
page. -/
structure FaultService where
  space : UserTables
  flags : PageFlags
  page : Bytes

/-- `vmm_handle_page_fault` for a page that is not present. -/
def vmmHandlePageFault (as : UserTables) (faultAddr : Nat) (free : List Nat) :
    Option FaultService :=
  match vmmAnonRegionFind as faultAddr with
  | none => none
  | some region =>
    match free with
    | [] => none
    | phys :: rest =>
      match as.mapPage (faultAddr / vmmPageSize * vmmPageSize) phys region.flags rest with
      | none => none
      | some (as', _) => some ⟨as', region.flags, zeros⟩

end CapyOS
