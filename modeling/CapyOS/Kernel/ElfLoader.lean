import CapyOS.Memory.AddressSpace

namespace CapyOS
open Lib

def ptLoad : Nat := 1
def ptPhdr : Nat := 6
def pfX : Nat := 0x1
def pfW : Nat := 0x2
def emX86_64 : Nat := 62
def etExec : Nat := 2
def etDyn : Nat := 3
def elfHeaderSize : Nat := 64
def elfPhdrSize : Nat := 56

/-- What the loader reads of a `struct elf64_phdr`. -/
structure Elf64Phdr where
  type : Nat
  flags : Nat
  offset : Nat
  vaddr : Nat
  filesz : Nat
  memsz : Nat
deriving DecidableEq

def elfPhdrAt (data : Bytes) (o : Nat) : Elf64Phdr where
  type := load data o 4
  flags := load data (o + 4) 4
  offset := load data (o + 8) 8
  vaddr := load data (o + 16) 8
  filesz := load data (o + 32) 8
  memsz := load data (o + 40) 8

def elfEntry (data : Bytes) : Nat := load data 24 8
def elfPhoff (data : Bytes) : Nat := load data 32 8
def elfPhentsize (data : Bytes) : Nat := load data 54 2
def elfPhnum (data : Bytes) : Nat := load data 56 2

def elfPhdrEntryFits (phOff entryOff entrySize size : Nat) : Bool :=
  decide (phOff ≤ size) && decide (entryOff ≤ size - phOff) &&
    decide (entrySize ≤ size - phOff - entryOff)

def elfRangeInBounds (off span size : Nat) : Bool :=
  decide (off ≤ size) && decide (span ≤ size - off)

def elfSumNoWrap (base span : Nat) : Bool := decide (base ≤ 2 ^ 64 - 1 - span)

def elfVaddrInUserRange (vaddr memsz userTop : Nat) : Bool :=
  decide (vaddr ≤ userTop) && decide (memsz ≤ userTop - vaddr)

def elfValidate (data : Bytes) (size : Nat) : Bool :=
  decide (elfHeaderSize ≤ size) && data 0 == 0x7F && data 1 == 0x45 && data 2 == 0x4C &&
    data 3 == 0x46 && data 4 == 2 && data 5 == 1 && load data 18 2 == emX86_64 &&
    (load data 16 2 == etExec || load data 16 2 == etDyn)

namespace Elf64Phdr
variable (ph : Elf64Phdr)

/-- The flags of the segment's pages. -/
def pageFlags : PageFlags :=
  ⟨true, decide (ph.flags &&& pfW ≠ 0), decide (ph.flags &&& pfX = 0)⟩

def firstPage : Nat := ph.vaddr / vmmPageSize
def endPage : Nat := (ph.vaddr + ph.memsz + vmmPageSize - 1) / vmmPageSize

end Elf64Phdr

/-- A zeroed frame for each page. What `vmm_map_page` returns is not looked at. -/
def elfMapPages (s : VmmSpace) (virt : Nat) (flags : PageFlags) : Nat → Option VmmSpace
  | 0 => some s
  | n + 1 =>
    match s.pmmAllocPage with
    | (phys, s') =>
      if phys = 0 then none
      else elfMapPages ((s'.clearFrame phys).vmmMapPage virt phys flags).1
        (virt + vmmPageSize) flags n

/-- The copy loop: the part of the segment that lies in the page at hand, up to `n`
times. It stops at a page that is not mapped. -/
def elfCopy (data : Bytes) (ph : Elf64Phdr) (s : VmmSpace) (copied : Nat) : Nat → VmmSpace
  | 0 => s
  | n + 1 =>
    if copied < ph.filesz then
      let curVaddr := (ph.vaddr + copied) % 2 ^ 64
      let pageBase := curVaddr / vmmPageSize * vmmPageSize
      let pageOff := curVaddr - pageBase
      let toCopy := min (ph.filesz - copied) (vmmPageSize - pageOff)
      let pagePhys := s.vmmVirtToPhys pageBase
      if pagePhys = 0 then s
      else
        let frame := blit (s.mem pagePhys) pageOff toCopy fun i => data (ph.offset + copied + i)
        elfCopy data ph { s with mem := Function.update s.mem pagePhys frame } (copied + toCopy) n
    else s

/-- One `PT_LOAD` header. Data that lies outside the image is not copied, and the
load goes on; every turn of the copy loop takes a byte, so `filesz` turns are enough. -/
def elfLoadSegment (data : Bytes) (size : Nat) (s : VmmSpace) (ph : Elf64Phdr) : Option VmmSpace :=
  if !(elfSumNoWrap ph.vaddr ph.memsz && elfVaddrInUserRange ph.vaddr ph.memsz vmmUserTop) then none
  else
    match elfMapPages s (ph.firstPage * vmmPageSize) ph.pageFlags (ph.endPage - ph.firstPage) with
    | none => none
    | some s' =>
      if decide (0 < ph.filesz) && elfRangeInBounds ph.offset ph.filesz size then
        some (elfCopy data ph s' 0 ph.filesz)
      else some s'

structure ElfLoadResult where
  entryPoint : Nat
  brk : Nat
  phdrVaddr : Nat
  phnum : Nat

/-- The loop over the program headers from the `i`-th on. -/
def elfLoadLoop (data : Bytes) (size : Nat) (s : VmmSpace) (r : ElfLoadResult) (i : Nat) :
    Nat → Option (VmmSpace × ElfLoadResult)
  | 0 => some (s, r)
  | n + 1 =>
    let entryOff := i * elfPhentsize data
    if !elfPhdrEntryFits (elfPhoff data) entryOff elfPhdrSize size then none
    else
      let ph := elfPhdrAt data (elfPhoff data + entryOff)
      if ph.type = ptPhdr then elfLoadLoop data size s { r with phdrVaddr := ph.vaddr } (i + 1) n
      else if ph.type ≠ ptLoad then elfLoadLoop data size s r (i + 1) n
      else
        match elfLoadSegment data size s ph with
        | none => none
        | some s' =>
          elfLoadLoop data size s' { r with brk := max r.brk (ph.vaddr + ph.memsz) } (i + 1) n

/-- `elf_load`; `none` is the return value -1. -/
def elfLoad (s : VmmSpace) (data : Bytes) (size : Nat) : Option (VmmSpace × ElfLoadResult) :=
  if !elfValidate data size then none
  else
    match elfLoadLoop data size s ⟨elfEntry data, 0, 0, elfPhnum data⟩ 0 (elfPhnum data) with
    | none => none
    | some (s', r) =>
      some (s', { r with brk := (r.brk + vmmPageSize - 1) / vmmPageSize * vmmPageSize })

end CapyOS
