import CapyOS.Lib.Bytes
import CapyOS.Lib.Writes

namespace CapyOS
open Lib Function

/-- The value a `uint32_t` keeps of a larger number. -/
def u32 (n : Nat) : Nat := n % 2 ^ 32

theorem u32_of_lt {n : Nat} (h : n < 2 ^ 32) : u32 n = n := Nat.mod_eq_of_lt h

theorem u32_lt (n : Nat) : u32 n < 2 ^ 32 := Nat.mod_lt _ (by decide)

/-- Which request sizes `kmalloc` satisfies while a call runs. A size that can be
had once during the call can be had again. -/
abbrev Heap := Nat → Bool

/-- A heap in which no request fails. -/
def ampleHeap : Heap := fun _ => true

@[simp] theorem ampleHeap_apply (n : Nat) : ampleHeap n = true := rfl

/-- A `struct block_device` with what its backend stores. Blocks whose reads or
writes fail are part of the device. -/
structure BlockDevice where
  blockSize : Nat
  blockCount : Nat
  blocks : Nat → Bytes
  readFails : Nat → Bool
  writeFails : Nat → Bool
  blockSize_lt : blockSize < 2 ^ 32
  blockCount_lt : blockCount < 2 ^ 32

theorem sector_lt : 512 < 2 ^ 32 := by decide

theorem page_lt : 4096 < 2 ^ 32 := by decide

theorem eight_lt : 8 < 2 ^ 32 := by decide

theorem sixtyFour_lt : 64 < 2 ^ 32 := by decide

theorem word_lt (n : BitVec 32) : n.toNat < 2 ^ 32 := n.isLt

/-- A block number and the contents sent to it. -/
abbrev Write := Nat × Bytes

namespace BlockDevice

def canRead (d : BlockDevice) (n : Nat) : Bool := decide (n < d.blockCount) && !d.readFails n

def canWrite (d : BlockDevice) (n : Nat) : Bool := decide (n < d.blockCount) && !d.writeFails n

/-- The device after one write request; a refused request changes nothing. -/
def write (d : BlockDevice) (w : Write) : BlockDevice :=
  if d.canWrite w.1 then { d with blocks := update d.blocks w.1 w.2 } else d

/-- The device after a sequence of write requests, oldest first. -/
def apply (d : BlockDevice) (ws : List Write) : BlockDevice := ws.foldl write d

/-- No request inside the device fails. -/
def Reliable (d : BlockDevice) : Prop := ∀ n, d.readFails n = false ∧ d.writeFails n = false

end BlockDevice

def blockDeviceRead (d : BlockDevice) (n : Nat) : Option Bytes :=
  if d.canRead n then some (d.blocks n) else none

/-- The result of `block_device_write` and the device it leaves. -/
def blockDeviceWrite (d : BlockDevice) (n : Nat) (b : Bytes) : Bool × BlockDevice :=
  (d.canWrite n, d.write (n, b))

namespace BlockDevice
variable (d : BlockDevice)

@[simp] theorem write_blockSize (w : Write) : (d.write w).blockSize = d.blockSize := by
  unfold write; split <;> rfl

@[simp] theorem write_blockCount (w : Write) : (d.write w).blockCount = d.blockCount := by
  unfold write; split <;> rfl

@[simp] theorem write_readFails (w : Write) : (d.write w).readFails = d.readFails := by
  unfold write; split <;> rfl

@[simp] theorem write_writeFails (w : Write) : (d.write w).writeFails = d.writeFails := by
  unfold write; split <;> rfl

@[simp] theorem write_canWrite (w : Write) (n : Nat) : (d.write w).canWrite n = d.canWrite n := by
  simp [canWrite]

@[simp] theorem write_canRead (w : Write) (n : Nat) : (d.write w).canRead n = d.canRead n := by
  simp [canRead]

theorem write_blocks (w : Write) :
    (d.write w).blocks = if d.canWrite w.1 then update d.blocks w.1 w.2 else d.blocks := by
  unfold write; split <;> rfl

theorem write_other {n : Nat} (w : Write) (h : n ≠ w.1) : (d.write w).blocks n = d.blocks n := by
  rw [write_blocks]
  split
  · exact update_of_ne h _ _
  · rfl

theorem write_same {n : Nat} (b : Bytes) (h : d.canWrite n = true) : (d.write (n, b)).blocks n = b := by
  simp [write_blocks, h]

@[simp] theorem apply_nil : d.apply [] = d := rfl

@[simp] theorem apply_cons (w : Write) (ws : List Write) : d.apply (w :: ws) = (d.write w).apply ws := rfl

theorem apply_append (xs ys : List Write) : d.apply (xs ++ ys) = (d.apply xs).apply ys :=
  List.foldl_append

@[simp] theorem apply_blockSize (ws : List Write) : (d.apply ws).blockSize = d.blockSize := by
  induction ws generalizing d with
  | nil => rfl
  | cons w ws ih => simp [ih]

@[simp] theorem apply_blockCount (ws : List Write) : (d.apply ws).blockCount = d.blockCount := by
  induction ws generalizing d with
  | nil => rfl
  | cons w ws ih => simp [ih]

@[simp] theorem apply_readFails (ws : List Write) : (d.apply ws).readFails = d.readFails := by
  induction ws generalizing d with
  | nil => rfl
  | cons w ws ih => simp [ih]

@[simp] theorem apply_writeFails (ws : List Write) : (d.apply ws).writeFails = d.writeFails := by
  induction ws generalizing d with
  | nil => rfl
  | cons w ws ih => simp [ih]

@[simp] theorem apply_canWrite (ws : List Write) (n : Nat) : (d.apply ws).canWrite n = d.canWrite n := by
  simp [canWrite]

@[simp] theorem apply_canRead (ws : List Write) (n : Nat) : (d.apply ws).canRead n = d.canRead n := by
  simp [canRead]

theorem apply_reliable {ws : List Write} (h : d.Reliable) : (d.apply ws).Reliable := by
  intro n
  simpa using h n

/-- The blocks after a sequence of writes are those of the store the accepted
writes make. -/
theorem apply_blocks (ws : List Write) : (d.apply ws).blocks = applyWrites d.blocks (ws.filter (fun w => d.canWrite w.1)) := by
  induction ws generalizing d with
  | nil => rfl
  | cons w ws ih =>
    rw [apply_cons, ih, List.filter_cons, write_blocks]
    simp only [write_canWrite]
    split
    · rfl
    · rfl

theorem apply_other {ws : List Write} {n : Nat} (h : n ∉ ws.map Prod.fst) : (d.apply ws).blocks n = d.blocks n := by
  rw [apply_blocks]
  apply applyWrites_other
  intro hm
  obtain ⟨w, hw, he⟩ := List.mem_map.mp hm
  exact h (List.mem_map.mpr ⟨w, (List.mem_filter.mp hw).1, he⟩)

/-- Among writes to distinct blocks, each accepted one is the last to its block. -/
theorem apply_of_mem {ws : List Write} {n : Nat} {b : Bytes} (hn : (ws.map Prod.fst).Nodup)
    (hm : (n, b) ∈ ws) (hw : d.canWrite n = true) : (d.apply ws).blocks n = b := by
  rw [apply_blocks]
  apply applyWrites_of_mem
  · exact hn.sublist (List.filter_sublist.map Prod.fst)
  · exact List.mem_filter.mpr ⟨hm, hw⟩

/-- Two devices of the same shape with the same blocks are equal. -/
theorem ext_blocks {d e : BlockDevice} (hs : d.blockSize = e.blockSize)
    (hc : d.blockCount = e.blockCount) (hb : d.blocks = e.blocks)
    (hr : d.readFails = e.readFails) (hw : d.writeFails = e.writeFails) : d = e := by
  cases d
  cases e
  simp_all

/-- Redoing a whole sequence of writes on a device that already took a prefix
of it gives the same device. -/
theorem apply_redo (ws : List Write) (n : Nat) : (d.apply (ws.take n)).apply ws = d.apply ws := by
  apply ext_blocks
  · simp
  · simp
  · simp only [apply_blocks, apply_canWrite]
    generalize hf : (fun w : Write => d.canWrite w.1) = f
    obtain ⟨m, hm⟩ : ∃ m, (ws.take n).filter f = (ws.filter f).take m := by
      refine ⟨((ws.take n).filter f).length, ?_⟩
      have hs : ws.filter f = (ws.take n).filter f ++ (ws.drop n).filter f := by
        rw [← List.filter_append, List.take_append_drop]
      rw [hs, List.take_left]
    rw [hm]
    exact applyWrites_redo _ _ _
  · simp
  · simp

theorem Reliable.canWrite {d : BlockDevice} (h : d.Reliable) {n : Nat} (hn : n < d.blockCount) : d.canWrite n = true := by
  simp [BlockDevice.canWrite, hn, (h n).2]

theorem Reliable.canRead {d : BlockDevice} (h : d.Reliable) {n : Nat} (hn : n < d.blockCount) : d.canRead n = true := by
  simp [BlockDevice.canRead, hn, (h n).1]

end BlockDevice

theorem blockDeviceRead_of_canRead {d : BlockDevice} {n : Nat} (h : d.canRead n = true) :
    blockDeviceRead d n = some (d.blocks n) := by
  simp [blockDeviceRead, h]

theorem blockDeviceRead_some {d : BlockDevice} {n : Nat} {b : Bytes}
    (h : blockDeviceRead d n = some b) : d.canRead n = true ∧ b = d.blocks n := by
  unfold blockDeviceRead at h
  split at h
  · rename_i hr
    exact ⟨hr, (Option.some.inj h).symm⟩
  · cases h

end CapyOS
