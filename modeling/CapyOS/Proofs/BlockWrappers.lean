import CapyOS.Storage.BlockWrappers

namespace CapyOS.Proofs
open Lib Nat
variable {lower dev : BlockOps} {heap : Heap}

/-- The same device with other contents. -/
structure Shaped (base d : BlockDevice) : Prop where
  size : d.blockSize = base.blockSize
  count : d.blockCount = base.blockCount
  readFails : d.readFails = base.readFails
  writeFails : d.writeFails = base.writeFails

theorem Shaped.write {base d : BlockDevice} (h : Shaped base d) (w : Write) : Shaped base (d.write w) :=
  ⟨by simp [h.size], by simp [h.count], by simp [h.readFails], by simp [h.writeFails]⟩

/-- A request for `n` blocks from `first` on, with its result: only these blocks
change, all of them when it succeeds, and it fails on a bad block alone. -/
structure Transfer (base d : BlockDevice) (first n : Nat) (src : Bytes)
    (r : Bool × BlockDevice) : Prop where
  shaped : Shaped base r.2
  others : ∀ m, m < first ∨ first + n ≤ m → r.2.blocks m = d.blocks m
  stored : r.1 = true → ∀ q < n, ∀ j < base.blockSize,
    r.2.blocks (first + q) j = src (q * base.blockSize + j)
  fails : r.1 = false ↔ ∃ q < n, base.writeFails (first + q) = true

/-- The result of reading `n` blocks from `first` on into a buffer at `o`. -/
structure Fetch (base d : BlockDevice) (first n o : Nat) (r : Option Bytes) : Prop where
  copied : ∀ b, r = some b → ∀ q < n, ∀ j < base.blockSize,
    b (o + q * base.blockSize + j) = d.blocks (first + q) j
  fails : r = none ↔ ∃ q < n, base.readFails (first + q) = true

/-- Block `i` of the driver is the `ratio` blocks of the device that start
`i * ratio` behind `start`. -/
structure Window (base : BlockDevice) (o : BlockOps) (start ratio : Nat) : Prop where
  size : o.blockSize = ratio * base.blockSize
  inside : start + o.blockCount * ratio ≤ base.blockCount
  fetch : ∀ d, Shaped base d → ∀ i < o.blockCount,
    Fetch base d (start + i * ratio) ratio 0 (o.read d i)
  transfer : ∀ d, Shaped base d → ∀ i < o.blockCount, ∀ src,
    Transfer base d (start + i * ratio) ratio src (o.write d i src)

namespace Transfer
variable {base d d' : BlockDevice} {first m n : Nat} {src : Bytes} {r : Bool × BlockDevice}

/-- A request that failed early is part of any longer one. -/
theorem stop (h : Transfer base d first m src (false, d')) (n : Nat) : Transfer base d first (m + n) src (false, d') where
  shaped := h.shaped
  others k hk := h.others k (by omega)
  stored hf := by simp at hf
  fails := by
    obtain ⟨q, hq, hf⟩ := h.fails.mp rfl
    exact ⟨fun _ => ⟨q, by omega, hf⟩, fun _ => rfl⟩

theorem append (h : Transfer base d first m src (true, d'))
    (h' : Transfer base d' (first + m) n (fun x => src (m * base.blockSize + x)) r) : Transfer base d first (m + n) src r where
  shaped := h'.shaped
  others k hk := by
    rw [h'.others k (by omega)]
    exact h.others k (by omega)
  stored ht q hq j hj := by
    by_cases hqm : q < m
    · rw [h'.others _ (by omega)]
      exact h.stored rfl q hqm j hj
    · obtain ⟨p, rfl⟩ := Nat.exists_eq_add_of_le (Nat.le_of_not_lt hqm)
      have hs := h'.stored ht p (by omega) j hj
      rw [Nat.add_assoc] at hs
      rw [hs, Nat.add_mul, Nat.add_assoc]
  fails := by
    have hgood : ¬∃ q < m, base.writeFails (first + q) = true := fun he => by
      simpa using h.fails.mpr he
    rw [h'.fails]
    constructor
    · rintro ⟨q, hq, hf⟩
      exact ⟨m + q, by omega, by rwa [← Nat.add_assoc]⟩
    · rintro ⟨q, hq, hf⟩
      have hqm : m ≤ q := by
        by_contra hlt
        exact hgood ⟨q, by omega, hf⟩
      refine ⟨q - m, by omega, ?_⟩
      rwa [Nat.add_assoc, Nat.add_sub_cancel' hqm]

end Transfer

theorem deviceOps_window (d : BlockDevice) : Window d (deviceOps d) 0 1 where
  size := by simp [deviceOps]
  inside := by simp [deviceOps]
  fetch s hs i hi := by
    have hi' : i < s.blockCount := by rw [hs.count]; exact hi
    have hread : (deviceOps d).read s i = if d.readFails i then none else some (s.blocks i) := by
      simp only [BlockOps.read, if_pos hi]
      simp only [deviceOps, blockDeviceRead, BlockDevice.canRead, hi', hs.readFails]
      cases d.readFails i <;> simp
    rw [hread]
    constructor
    · intro b hb q hq j hj
      obtain rfl : q = 0 := by omega
      split at hb
      · simp at hb
      · simp at hb
        simp [hb]
    · cases hf : d.readFails i <;> simp [hf]
  transfer s hs i hi src := by
    have hi' : i < s.blockCount := by rw [hs.count]; exact hi
    have hwrite : (deviceOps d).write s i src = (!d.writeFails i, s.write (i, src)) := by
      simp only [BlockOps.write, if_pos hi]
      simp [deviceOps, blockDeviceWrite, BlockDevice.canWrite, hi', hs.writeFails]
    rw [hwrite]
    refine ⟨hs.write _, ?_, ?_, ?_⟩
    · intro m hm
      exact s.write_other _ (by simp; omega)
    · intro ht q hq j hj
      obtain rfl : q = 0 := by omega
      have hcan : s.canWrite i = true := by
        simpa [BlockDevice.canWrite, hi', hs.writeFails] using ht
      simp [s.write_same src hcan]
    · cases hf : d.writeFails i <;> simp [hf]

/-! ### Windows at an offset -/

theorem blockOffsetWrap_some {startLba lbaCount : UInt32}
    (h : blockOffsetWrap heap lower startLba lbaCount = some dev) :
    dev.blockSize = lower.blockSize ∧ dev.blockCount = lbaCount.toNat ∧ startLba.toNat + dev.blockCount ≤ lower.blockCount ∧
    dev.readBlock = offRead lower startLba.toNat lbaCount.toNat ∧
    dev.writeBlock = offWrite lower startLba.toNat lbaCount.toNat := by
  unfold blockOffsetWrap at h
  split_ifs at h with h0 hs hc hh
  obtain rfl := Option.some.inj h
  exact ⟨rfl, rfl, by simp only; omega, rfl, rfl⟩

/-- No address the window computes wraps or leaves the lower device. -/
theorem offset_address {startLba lbaCount : UInt32}
    (h : blockOffsetWrap heap lower startLba lbaCount = some dev) {i : Nat} (hi : i < dev.blockCount) :
    u32 (startLba.toNat + i) = startLba.toNat + i ∧ startLba.toNat + i < lower.blockCount := by
  obtain ⟨_, _, hin, _, _⟩ := blockOffsetWrap_some h
  have hlt := lower.blockCount_lt
  exact ⟨u32_of_lt (by omega), by omega⟩

theorem Window.offset {base : BlockDevice} {lower dev : BlockOps} {start ratio : Nat}
    (hw : Window base lower start ratio) {heap : Heap} {startLba lbaCount : UInt32}
    (h : blockOffsetWrap heap lower startLba lbaCount = some dev) : Window base dev (start + startLba.toNat * ratio) ratio := by
  obtain ⟨hsize, hcount, hin, hr, hwr⟩ := blockOffsetWrap_some h
  have hbase (i : Nat) :
      start + startLba.toNat * ratio + i * ratio = start + (startLba.toNat + i) * ratio := by ring
  refine ⟨hsize.trans hw.size, ?_, ?_, ?_⟩
  · rw [hbase]
    have hle := Nat.mul_le_mul_right ratio hin
    exact le_trans (Nat.add_le_add_left hle start) hw.inside
  · intro d hd i hi
    obtain ⟨hu, hlt⟩ := offset_address h hi
    have hread : dev.read d i = lower.read d (startLba.toNat + i) := by
      simp only [BlockOps.read, if_pos hi, hr, offRead, if_pos (hcount ▸ hi), hu]
    rw [hread, hbase]
    exact hw.fetch d hd _ hlt
  · intro d hd i hi src
    obtain ⟨hu, hlt⟩ := offset_address h hi
    have hwrite : dev.write d i src = lower.write d (startLba.toNat + i) src := by
      simp only [BlockOps.write, if_pos hi, hwr, offWrite, if_pos (hcount ▸ hi), hu]
    rw [hwrite, hbase]
    exact hw.transfer d hd _ hlt src

/-! ### Chunks -/

theorem blockChunkedWrap_some {chunkSize : UInt32}
    (h : blockChunkedWrap heap lower chunkSize = some dev) : ∃ ratio, dev.blockSize = ratio * lower.blockSize ∧ 0 < ratio ∧
      chunkSize.toNat / lower.blockSize = ratio ∧ dev.blockCount = lower.blockCount / ratio ∧
      dev.readBlock = chunkRead lower ratio ∧ dev.writeBlock = chunkWrite lower ratio := by
  unfold blockChunkedWrap at h
  simp only at h
  split_ifs at h with hm hr hh hc
  obtain rfl := Option.some.inj h
  have hdvd : lower.blockSize ∣ chunkSize.toNat :=
    dvd_of_mod_eq_zero (not_not.mp (not_or.mp hm).2)
  exact ⟨_, (Nat.div_mul_cancel hdvd).symm, Nat.pos_of_ne_zero (not_or.mp hr).1, rfl, rfl, rfl, rfl⟩

section
variable {heap : Heap} {lower dev : BlockOps} {chunkSize : UInt32}

theorem chunk_address (h : blockChunkedWrap heap lower chunkSize = some dev) {i k : Nat}
    (hi : i < dev.blockCount) (hk : k < chunkSize.toNat / lower.blockSize) :
    u32 (u32 (i * (chunkSize.toNat / lower.blockSize)) + k) = i * (chunkSize.toNat / lower.blockSize) + k ∧
      i * (chunkSize.toNat / lower.blockSize) + k < lower.blockCount ∧ u32 (k * lower.blockSize) = k * lower.blockSize ∧
      (k + 1) * lower.blockSize ≤ dev.blockSize := by
  obtain ⟨ratio, hsize, hpos, hratio, hcount, _, _⟩ := blockChunkedWrap_some h
  rw [hratio] at hk ⊢
  have hrow : (i + 1) * ratio ≤ lower.blockCount := by
    rw [hcount] at hi
    exact le_trans (Nat.mul_le_mul_right ratio hi) (div_mul_le_self _ _)
  rw [succ_mul] at hrow
  have hlt := lower.blockCount_lt
  have hbytes : (k + 1) * lower.blockSize ≤ dev.blockSize := by
    rw [hsize]
    exact Nat.mul_le_mul_right _ hk
  have hle : k * lower.blockSize ≤ (k + 1) * lower.blockSize :=
    Nat.mul_le_mul_right _ (le_succ k)
  have hdev := dev.blockSize_lt
  exact ⟨by rw [u32_of_lt (n := i * ratio) (by omega), u32_of_lt (by omega)], by omega, u32_of_lt (by omega), hbytes⟩

end

section
variable {base d : BlockDevice} {lower : BlockOps} {start ratio first : Nat}

theorem chunkReadLoop_fetch (hw : Window base lower start ratio) (hd : Shaped base d) (n : Nat)
    (dst : Bytes) (i : Nat) (hin : first + i + n ≤ lower.blockCount) (hfit : (i + n) * lower.blockSize < 2 ^ 32) :
    Fetch base d (start + (first + i) * ratio) (n * ratio) (i * lower.blockSize) (chunkReadLoop lower first d dst i n) ∧
      ∀ b, chunkReadLoop lower first d dst i n = some b → ∀ x < i * lower.blockSize, b x = dst x := by
  induction n generalizing dst i with
  | zero =>
    refine ⟨⟨?_, ?_⟩, ?_⟩
    · intro b _ q hq
      omega
    · simp [chunkReadLoop]
    · intro b hb x _
      simp only [chunkReadLoop, Option.some.injEq] at hb
      rw [hb]
  | succ n ih =>
    have hlt := lower.blockCount_lt
    have hmul : (i + (n + 1)) * lower.blockSize =
        i * lower.blockSize + lower.blockSize + n * lower.blockSize := by ring
    have hoff : u32 (i * lower.blockSize) = i * lower.blockSize := u32_of_lt (by omega)
    have hnum : u32 (first + i) = first + i := u32_of_lt (by omega)
    have hone := hw.fetch d hd (first + i) (by omega)
    have hnext : start + (first + (i + 1)) * ratio = start + (first + i) * ratio + ratio := by ring
    have hcells : (n + 1) * ratio = ratio + n * ratio := by ring
    simp only [chunkReadLoop, hnum, hoff]
    cases hr : lower.read d (first + i) with
    | none =>
      obtain ⟨q, hq, hf⟩ := hone.fails.mp hr
      refine ⟨⟨by simp, ⟨fun _ => ⟨q, by omega, hf⟩, fun _ => rfl⟩⟩, by simp⟩
    | some c =>
      obtain ⟨hrest, hkept⟩ := ih (blit dst (i * lower.blockSize) lower.blockSize c) (i + 1)
        (by omega) (by rw [show i + 1 + n = i + (n + 1) by omega]; exact hfit)
      have hstep : (i + 1) * lower.blockSize = i * lower.blockSize + lower.blockSize :=
        succ_mul _ _
      have hgood : ¬∃ q < ratio, base.readFails (start + (first + i) * ratio + q) = true :=
        fun he => by simpa [hr] using hone.fails.mpr he
      refine ⟨⟨?_, ?_⟩, ?_⟩
      · intro b hb q hq j hj
        by_cases hqr : q < ratio
        · -- the bytes of this block are kept by the rest of the loop
          have hbyte : q * base.blockSize + j < lower.blockSize := by
            rw [hw.size]
            have := Nat.mul_le_mul_right base.blockSize hqr
            rw [succ_mul] at this
            omega
          rw [Nat.add_assoc, hkept b hb _ (by omega), blit_inside hbyte]
          simpa using hone.copied c hr q hqr j hj
        · obtain ⟨p, rfl⟩ := Nat.exists_eq_add_of_le (Nat.le_of_not_lt hqr)
          have hp := hrest.copied b hb p (by omega) j hj
          rw [hnext, hstep, hw.size] at hp
          rw [hw.size, ← Nat.add_assoc, ← hp]
          congr 1
          ring
      · rw [hrest.fails, hnext]
        constructor
        · rintro ⟨q, hq, hf⟩
          exact ⟨ratio + q, by omega, by rwa [← Nat.add_assoc]⟩
        · rintro ⟨q, hq, hf⟩
          have hqr : ratio ≤ q := by
            by_contra hc
            exact hgood ⟨q, by omega, hf⟩
          refine ⟨q - ratio, by omega, ?_⟩
          rwa [Nat.add_assoc, Nat.add_sub_cancel' hqr]
      · intro b hb x hx
        rw [hkept b hb x (by omega), blit_outside (by omega)]

theorem chunkWriteLoop_transfer (hw : Window base lower start ratio) (src : Bytes) (n : Nat)
    (d : BlockDevice) (hd : Shaped base d) (i : Nat) (hin : first + i + n ≤ lower.blockCount)
    (hfit : (i + n) * lower.blockSize < 2 ^ 32) : Transfer base d (start + (first + i) * ratio) (n * ratio)
      (fun x => src (i * lower.blockSize + x)) (chunkWriteLoop lower first src d i n) := by
  induction n generalizing d i with
  | zero =>
    refine ⟨hd, fun _ _ => rfl, ?_, ?_⟩
    · intro _ q hq
      omega
    · simp [chunkWriteLoop]
  | succ n ih =>
    have hlt := lower.blockCount_lt
    have hmul : (i + (n + 1)) * lower.blockSize =
        i * lower.blockSize + lower.blockSize + n * lower.blockSize := by ring
    have hoff : u32 (i * lower.blockSize) = i * lower.blockSize := u32_of_lt (by omega)
    have hnum : u32 (first + i) = first + i := u32_of_lt (by omega)
    have hone := hw.transfer d hd (first + i) (by omega) (fun x => src (i * lower.blockSize + x))
    have hcells : (n + 1) * ratio = ratio + n * ratio := by ring
    simp only [chunkWriteLoop, hnum, hoff, hcells]
    generalize lower.write d (first + i) (fun x => src (i * lower.blockSize + x)) = r at hone ⊢
    obtain ⟨ok, d'⟩ := r
    cases ok with
    | false => exact hone.stop _
    | true =>
      have hrest := ih d' hone.shaped (i + 1) (by omega)
        (by rw [show i + 1 + n = i + (n + 1) by omega]; exact hfit)
      have hnext : start + (first + (i + 1)) * ratio = start + (first + i) * ratio + ratio := by
        ring
      have hsrc : (fun x => src ((i + 1) * lower.blockSize + x)) =
          fun x => src (i * lower.blockSize + (ratio * base.blockSize + x)) := by
        funext x
        rw [succ_mul, hw.size, Nat.add_assoc]
      rw [hnext, hsrc] at hrest
      exact hone.append hrest

theorem Window.chunked {dev : BlockOps} (hw : Window base lower start ratio) {heap : Heap}
    {chunkSize : UInt32} (h : blockChunkedWrap heap lower chunkSize = some dev) :
    Window base dev start (chunkSize.toNat / lower.blockSize * ratio) := by
  obtain ⟨per, hsize, hpos, hper, hcount, hr, hwr⟩ := blockChunkedWrap_some h
  rw [hper]
  have hall : dev.blockCount * per ≤ lower.blockCount := by
    rw [hcount]
    exact div_mul_le_self _ _
  have hrow {i : Nat} (hi : i < dev.blockCount) : i * per + 0 + per ≤ lower.blockCount := by
    have hle := Nat.mul_le_mul_right per hi
    rw [succ_mul] at hle
    omega
  have hfit : (0 + per) * lower.blockSize < 2 ^ 32 := by
    rw [Nat.zero_add, ← hsize]
    exact dev.blockSize_lt
  have hbase (i : Nat) : start + i * (per * ratio) = start + (i * per + 0) * ratio := by ring
  have hfirst {i : Nat} (hi : i < dev.blockCount) : u32 (i * per) = i * per := by
    have := hrow hi
    have hlt := lower.blockCount_lt
    exact u32_of_lt (by omega)
  refine ⟨?_, ?_, ?_, ?_⟩
  · rw [hsize, hw.size, Nat.mul_assoc]
  · rw [← Nat.mul_assoc]
    exact le_trans (Nat.add_le_add_left (Nat.mul_le_mul_right ratio hall) start) hw.inside
  · intro d hd i hi
    have hread : dev.read d i = chunkReadLoop lower (i * per) d zeros 0 per := by
      simp only [BlockOps.read, if_pos hi, hr, chunkRead, hfirst hi]
    rw [hread, hbase]
    simpa using (chunkReadLoop_fetch hw hd per zeros 0 (hrow hi) hfit).1
  · intro d hd i hi src
    have hwrite : dev.write d i src = chunkWriteLoop lower (i * per) src d 0 per := by
      simp only [BlockOps.write, if_pos hi, hwr, chunkWrite, hfirst hi]
    rw [hwrite, hbase]
    simpa using chunkWriteLoop_transfer hw src per d hd 0 (hrow hi) hfit

end

/-- A driver made from the device by any number of wrappers, with where its
blocks start and how many of the device's each stands for. -/
inductive Wrapped (base : BlockDevice) : BlockOps → Nat → Nat → Prop where
  | device : Wrapped base (deviceOps base) 0 1
  | offset {heap lower dev start ratio startLba lbaCount} :
      Wrapped base lower start ratio →
      blockOffsetWrap heap lower startLba lbaCount = some dev →
      Wrapped base dev (start + startLba.toNat * ratio) ratio
  | chunked {heap lower dev start ratio} {chunkSize : UInt32} :
      Wrapped base lower start ratio →
      blockChunkedWrap heap lower chunkSize = some dev →
      Wrapped base dev start (chunkSize.toNat / lower.blockSize * ratio)

theorem Wrapped.window {base : BlockDevice} {o : BlockOps} {start ratio : Nat}
    (h : Wrapped base o start ratio) : Window base o start ratio := by
  induction h with
  | device => exact deviceOps_window base
  | offset _ hwrap ih => exact ih.offset hwrap
  | chunked _ hwrap ih => exact ih.chunked hwrap

theorem window_disjoint {start ratio i j k l : Nat} (hij : i ≠ j) (hk : k < ratio)
    (hl : l < ratio) : start + i * ratio + k ≠ start + j * ratio + l := by
  intro he
  have hdiv (n m : Nat) (hm : m < ratio) : (n * ratio + m) / ratio = n := by
    rw [Nat.mul_comm, mul_add_div (by omega), div_eq_of_lt hm, Nat.add_zero]
  apply hij
  rw [← hdiv i k hk, ← hdiv j l hl]
  congr 1
  omega

/-- Every stack of wrappers is an exact window on the device: a block of it reads
as the blocks of the device it stands for, in order, and writes these and no
others; none of the addresses on the way wraps, and two blocks share nothing. -/
theorem wrapped_blocks_window (base : BlockDevice) (o : BlockOps) (start ratio : Nat)
    (h : Wrapped base o start ratio) :
    Window base o start ratio ∧
    (∀ i j k l, i ≠ j → k < ratio → l < ratio → start + i * ratio + k ≠ start + j * ratio + l) ∧
    (∀ heap dev (startLba lbaCount : UInt32),
      blockOffsetWrap heap o startLba lbaCount = some dev → ∀ i < dev.blockCount,
        u32 (startLba.toNat + i) = startLba.toNat + i ∧ startLba.toNat + i < o.blockCount) ∧
    (∀ heap dev (chunkSize : UInt32), blockChunkedWrap heap o chunkSize = some dev →
      ∀ i < dev.blockCount, ∀ k < chunkSize.toNat / o.blockSize,
        u32 (u32 (i * (chunkSize.toNat / o.blockSize)) + k) =
            i * (chunkSize.toNat / o.blockSize) + k ∧
          i * (chunkSize.toNat / o.blockSize) + k < o.blockCount ∧
          u32 (k * o.blockSize) = k * o.blockSize ∧
          (k + 1) * o.blockSize ≤ dev.blockSize) :=
  ⟨h.window, fun _ _ _ _ hij hk hl => window_disjoint hij hk hl,
    fun _ _ _ _ hwrap _ hi => offset_address hwrap hi,
    fun _ _ _ hwrap _ hi _ hk => chunk_address hwrap hi hk⟩

def eightBlocks : BlockDevice where
  blockSize := 512
  blockCount := 8
  blocks _ := zeros
  readFails _ := false
  writeFails _ := false
  blockSize_lt := sector_lt
  blockCount_lt := eight_lt

theorem wrapped_blocks_window_chunks : ∃ o, Wrapped eightBlocks o 2 2 ∧
    o.blockCount = 2 ∧ Window eightBlocks o 2 2 := by
  have hoff := @Wrapped.offset eightBlocks ampleHeap _ _ _ _ 2 4 .device rfl
  have hchunk := @Wrapped.chunked eightBlocks ampleHeap _ _ _ _ 1024 hoff rfl
  exact ⟨_, hchunk, rfl, (wrapped_blocks_window _ _ _ _ hchunk).1⟩

end CapyOS.Proofs
