import CapyOS.Memory.Pmm
import CapyOS.Kernel.ElfLoader

namespace CapyOS
open Lib

def vmmUserStack : Nat := 0x00007FFFFFF00000

def elfUserStackEagerPages : Nat := 16

def elfUserStackTotalPages : Nat := 256

/-- The first page of the stack that is mapped at once. -/
def stackBasePage : Nat := vmmUserStack / vmmPageSize - elfUserStackEagerPages

/-- An address space and the allocator, by the frames it holds: its PML4, its tables by level
and place, and what its pages are mapped to. A place is `covered` by a large page of the
kernel that the clone of the low tables has kept. -/
structure FrameSpace where
  pmm : Pmm
  pml4 : Nat
  tables : List ((Nat × Nat) × Nat)
  leaves : List (Nat × Nat)
  covered : Nat → Bool
  regions : List AnonRegion

namespace FrameSpace
variable (s : FrameSpace)

/-- `pmm_alloc_page` -/
def allocFrame : Option Nat × FrameSpace :=
  let (addr, pmm) := s.pmm.allocPage
  (if addr = 0 then none else some (addr / pmmPageSize), { s with pmm := pmm })

/-- `get_or_create_table` for the table whose entries are chosen below bit `shift`. -/
def makeTable (shift page : Nat) : Bool × FrameSpace :=
  let place := page * vmmPageSize / 2 ^ shift
  if (s.tables.lookup (shift, place)).isSome then (true, s)
  else
    match s.allocFrame with
    | (none, s) => (false, s)
    | (some frame, s) => (true, { s with tables := ((shift, place), frame) :: s.tables })

/-- `vmm_map_page`, with whether it returned 0. Behind a large page the entry is written into
the memory of that page. -/
def mapPage (page frame : Nat) : Bool × FrameSpace :=
  if s.covered (page * vmmPageSize / 2 ^ 21) then (true, s)
  else
    match s.makeTable 39 page with
    | (false, s) => (false, s)
    | (true, s) =>
      match s.makeTable 30 page with
      | (false, s) => (false, s)
      | (true, s) =>
        match s.makeTable 21 page with
        | (false, s) => (false, s)
        | (true, s) => (true, { s with leaves := (page, frame) :: s.leaves.filter (·.1 ≠ page) })

/-- `vmm_map_range` -/
def mapRange (s : FrameSpace) (page frame : Nat) : Nat → Bool × FrameSpace
  | 0 => (true, s)
  | n + 1 =>
    match s.mapPage page frame with
    | (false, s) => (false, s)
    | (true, s) => mapRange s (page + 1) (frame + 1) n

/-- `vmm_unmap_range` -/
def unmapRange (page count : Nat) : FrameSpace :=
  { s with leaves := s.leaves.filter fun l => !(page ≤ l.1 && l.1 < page + count) }

/-- `vmm_register_anon_region`; `room` says whether the node can be allocated. -/
def registerAnonRegion (room : Bool) (start pageCount : Nat) (flags : PageFlags) : Option FrameSpace :=
  (vmmRegisterAnonRegion room ⟨[], 0, s.regions⟩ start pageCount flags).map fun as =>
    { s with regions := as.anonRegions }

/-- The frames an address space holds. -/
def held : List Nat := s.leaves.map Prod.snd ++ (s.tables.map Prod.snd ++ [s.pml4])

/-- `vmm_destroy_address_space` of a space that is neither shared nor loaded: the allocator
behind it. -/
def destroy : Pmm := s.held.foldl Pmm.freeOne s.pmm

/-- The loop of `elf_load` over the pages of a segment. What `vmm_map_page` returns is not
looked at. -/
def loadPages (s : FrameSpace) (page : Nat) : Nat → Bool × FrameSpace
  | 0 => (true, s)
  | n + 1 =>
    match s.allocFrame with
    | (none, s) => (false, s)
    | (some frame, s) => loadPages (s.mapPage page frame).2 (page + 1) n

/-- The loop of `elf_load` over the program headers from the `i`-th on, with the end of the
segments if it gets through. -/
def loadHeaders (data : Bytes) (size : Nat) (s : FrameSpace) (brk i : Nat) : Nat → Option Nat × FrameSpace
  | 0 => (some brk, s)
  | n + 1 =>
    let entryOff := i * elfPhentsize data
    if !elfPhdrEntryFits (elfPhoff data) entryOff elfPhdrSize size then (none, s)
    else
      let ph := elfPhdrAt data (elfPhoff data + entryOff)
      if ph.type ≠ ptLoad then loadHeaders data size s brk (i + 1) n
      else if !(elfSumNoWrap ph.vaddr ph.memsz && elfVaddrInUserRange ph.vaddr ph.memsz vmmUserTop) then (none, s)
      else
        match s.loadPages ph.firstPage (ph.endPage - ph.firstPage) with
        | (false, s) => (none, s)
        | (true, s) => loadHeaders data size s (max brk (ph.vaddr + ph.memsz)) (i + 1) n

/-- `elf_load`, with the break it finds. -/
def elfLoad (data : Bytes) (size : Nat) : Option Nat × FrameSpace :=
  if !elfValidate data size then (none, s)
  else
    match loadHeaders data size s 0 0 (elfPhnum data) with
    | (none, s) => (none, s)
    | (some brk, s) => (some ((brk + vmmPageSize - 1) / vmmPageSize * vmmPageSize), s)

end FrameSpace

/-- What a task's saved context has that an exec writes. -/
structure ThreadContext where
  rip : Nat
  rsp : Nat
  contextCr3 : Nat
  cr3 : Nat
deriving DecidableEq

/-- A `struct process` that has a main thread, as far as an exec has to do with it. An address
space is told by the frame of its PML4, a descriptor by what it refers to. -/
structure ExecProcess where
  addressSpace : Option Nat
  mainThread : ThreadContext
  fds : List (Option Nat)
  exitCode : Int
  brk : Nat
  heapStart : Nat
  stackTop : Nat
deriving DecidableEq

def elfInitialUserRsp (stackTop : Nat) : Nat := stackTop / 16 * 16

/-- The part of the loader behind a stack that could not be set up. -/
def stackFailed (s : FrameSpace) (addr : Nat) : FrameSpace :=
  let s := s.unmapRange stackBasePage elfUserStackEagerPages
  { s with pmm := s.pmm.freePages addr elfUserStackEagerPages }

/-- `elf_load_into_process`, with whether it returned 0; it has not returned while the search
for the stack's frames has not ended after `fuel` rounds. `room` is the allocation of a region. -/
def elfLoadIntoProcess (fuel : Nat) (room : Bool) (p : ExecProcess) (s : FrameSpace) (data : Bytes) (size : Nat) :
    Option (Bool × ExecProcess × FrameSpace) :=
  match s.elfLoad data size with
  | (none, s) => some (false, p, s)
  | (some brk, s) =>
    let p := { p with brk := brk, heapStart := brk }
    match s.pmm.allocPages fuel elfUserStackEagerPages with
    | none => none
    | some (addr, pmm) =>
      let s := { s with pmm := pmm }
      if addr = 0 then some (false, p, s)
      else
        match s.mapRange stackBasePage (addr / pmmPageSize) elfUserStackEagerPages with
        | (false, s) => some (false, p, stackFailed s addr)
        | (true, s) =>
          let p := { p with stackTop := vmmUserStack }
          let expansion := elfUserStackTotalPages - elfUserStackEagerPages
          let start := (stackBasePage - expansion) * vmmPageSize
          match s.registerAnonRegion room start expansion ⟨true, true, true⟩ with
          | none => some (false, p, stackFailed s addr)
          | some s =>
            let context : ThreadContext :=
              { rip := elfEntry data, rsp := elfInitialUserRsp p.stackTop,
                contextCr3 := s.pml4 * vmmPageSize, cr3 := s.pml4 * vmmPageSize }
            some (true, { p with mainThread := context }, s)

/-- What an exec depends on: the space `vmm_create_address_space` makes, if it does, with what
it leaves of the allocator, the allocation of a region, and the allocator behind the destroyed
old space. -/
structure ExecEnv where
  create : Pmm → Option FrameSpace × Pmm
  room : Bool
  destroyOld : Pmm → Pmm

/-- `process_exec_replace`: whether it returned 0, the process and the allocator. -/
def processExecReplace (fuel : Nat) (env : ExecEnv) (p : ExecProcess) (pmm : Pmm) (data : Bytes) (size : Nat) :
    Option (Bool × ExecProcess × Pmm) :=
  if !elfValidate data size then some (false, p, pmm)
  else
    match env.create pmm with
    | (none, pmm) => some (false, p, pmm)
    | (some s, _) =>
      match elfLoadIntoProcess fuel env.room { p with addressSpace := some s.pml4 } s data size with
      | none => none
      | some (false, p', s) => some (false, { p' with addressSpace := p.addressSpace }, s.destroy)
      | some (true, p', s) => some (true, { p' with exitCode := 0 }, env.destroyOld s.pmm)

end CapyOS
