import CapyOS.Kernel.ElfLoader

namespace CapyOS.Proofs
open Lib Function List

/-! ### Pages of their own -/

/-- Each of a set of pages has a frame of its own, which the allocator does not have. -/
structure OwnsPages (s : VmmSpace) (S : Nat → Prop) : Prop where
  nodup : s.free.Nodup
  low : ∀ shift ∈ [39, 30, 21], ∀ virt < vmmLowKernelCloneBase,
    s.tables shift (virt / 2 ^ shift) = true
  mapped : ∀ p, S p → ∃ e, s.pte p = some e ∧ e.flags.user = true ∧ e.frame ∉ s.free ∧ e.frame ≠ 0
  apart : ∀ p q e e', S p → S q → s.pte p = some e → s.pte q = some e' → e.frame = e'.frame → p = q

theorem UserSpace.ownsNone (u : UserSpace) : OwnsPages u.toVmmSpace fun _ => False where
  nodup := u.nodup
  low := u.low
  mapped := fun _ h => h.elim
  apart := fun _ _ _ _ h => h.elim

section
variable {s s' : VmmSpace} {S T : Nat → Prop} {virt : Nat} {flags : PageFlags}

theorem OwnsPages.congr (h : OwnsPages s S) (hST : ∀ p, T p ↔ S p) : OwnsPages s T := by
  obtain rfl : T = S := funext fun p => propext (hST p)
  exact h

theorem read_of_pte {v : Nat} {e : Pte} (he : s.pte (v / vmmPageSize) = some e)
    (hu : e.flags.user = true) : s.read v = some (s.mem e.frame (v % vmmPageSize)) := by
  simp only [VmmSpace.read, he, hu, if_true]

theorem vmmMapPage_low (hlow : ∀ shift ∈ [39, 30, 21], ∀ virt < vmmLowKernelCloneBase,
    s.tables shift (virt / 2 ^ shift) = true) (hv : virt < vmmLowKernelCloneBase) (phys : Nat) :
    s.vmmMapPage virt phys flags = (s.setLeaf virt phys flags, true) := by
  have htable (shift : Nat) (hs : shift ∈ [39, 30, 21]) :
      s.getOrCreateTable shift virt = some s := by
    rw [VmmSpace.getOrCreateTable, if_pos (hlow shift hs virt hv)]
  rw [VmmSpace.vmmMapPage, htable 39 (by decide)]
  simp only
  rw [htable 30 (by decide)]
  simp only
  rw [htable 21 (by decide)]

/-- The memory after one page was given a zeroed frame: the page reads as zeros and
no other page of the set reads differently. -/
structure FreshPage (s s' : VmmSpace) (S : Nat → Prop) (p : Nat) (flags : PageFlags) : Prop where
  owns : OwnsPages s' fun q => q = p ∨ S q
  zero : ∀ v, v / vmmPageSize = p → s'.read v = some 0
  same : ∀ v, S (v / vmmPageSize) → v / vmmPageSize ≠ p → s'.read v = s.read v
  leaf : ∃ e, s'.pte p = some e ∧ e.flags = flags
  leaves : ∀ q, q ≠ p → s'.pte q = s.pte q

theorem OwnsPages.fresh (h : OwnsPages s S) {f : Nat} {rest : List Nat} (hfree : s.free = f :: rest)
    (hf : f ≠ 0) (hv : virt < vmmLowKernelCloneBase) (huser : flags.user = true) :
    FreshPage s ((({ s with free := rest } : VmmSpace).clearFrame f).vmmMapPage virt f flags).1 S
      (virt / vmmPageSize) flags := by
  have hnodup := h.nodup
  rw [hfree, nodup_cons] at hnodup
  rw [vmmMapPage_low (s := ({ s with free := rest } : VmmSpace).clearFrame f) h.low hv]
  -- the frame is not one of the pages'
  have hother (q : Nat) (hq : S q) : ∃ e, s.pte q = some e ∧ e.flags.user = true ∧
      e.frame ∉ rest ∧ e.frame ≠ 0 ∧ e.frame ≠ f := by
    obtain ⟨e, he, hu, hnot, hz⟩ := h.mapped q hq
    rw [hfree, mem_cons, not_or] at hnot
    exact ⟨e, he, hu, hnot.2, hz, hnot.1⟩
  have hpte (q : Nat) (hq : q ≠ virt / vmmPageSize) :
      ((({ s with free := rest } : VmmSpace).clearFrame f).setLeaf virt f flags).pte q = s.pte q :=
    update_of_ne hq _ _
  have hself : ((({ s with free := rest } : VmmSpace).clearFrame f).setLeaf virt f flags).pte
      (virt / vmmPageSize) = some ⟨f, flags⟩ := update_self _ _ _
  refine ⟨⟨hnodup.2, h.low, ?_, ?_⟩, ?_, ?_, ⟨_, hself, rfl⟩, hpte⟩
  · intro q hq
    by_cases he : q = virt / vmmPageSize
    · exact ⟨_, he ▸ hself, huser, hnodup.1, hf⟩
    · obtain ⟨e, he', hu, hnot, hz, -⟩ := hother q (hq.resolve_left he)
      exact ⟨e, (hpte q he).trans he', hu, hnot, hz⟩
  · intro q r e e' hq hr he he' hframe
    by_cases hqp : q = virt / vmmPageSize
    · by_cases hrp : r = virt / vmmPageSize
      · rw [hqp, hrp]
      · rw [hqp, hself] at he
        obtain ⟨x, hx, -, -, -, hne⟩ := hother r (hr.resolve_left hrp)
        rw [hpte r hrp, hx] at he'
        obtain rfl := Option.some.inj he'
        obtain rfl := Option.some.inj he
        exact absurd hframe.symm hne
    · obtain ⟨x, hx, -, -, -, hne⟩ := hother q (hq.resolve_left hqp)
      rw [hpte q hqp, hx] at he
      obtain rfl := Option.some.inj he
      by_cases hrp : r = virt / vmmPageSize
      · rw [hrp, hself] at he'
        obtain rfl := Option.some.inj he'
        exact absurd hframe hne
      · rw [hpte r hrp] at he'
        exact h.apart q r x e' (hq.resolve_left hqp) (hr.resolve_left hrp) hx he' hframe
  · intro v hvp
    have hzero : ((({ s with free := rest } : VmmSpace).clearFrame f).setLeaf virt f flags).mem f =
        zeros := update_self _ _ _
    rw [read_of_pte (hvp ▸ hself) huser, hzero]
    rfl
  · intro v hS hvp
    obtain ⟨e, he, hu, -, -, hne⟩ := hother _ hS
    rw [read_of_pte ((hpte _ hvp).trans he) hu, read_of_pte he hu]
    exact congrArg some (congrFun (update_of_ne hne _ _) _)

structure FreshPages (s s' : VmmSpace) (S : Nat → Prop) (p n : Nat) (flags : PageFlags) : Prop where
  owns : OwnsPages s' fun q => (p ≤ q ∧ q < p + n) ∨ S q
  zero : ∀ v, p ≤ v / vmmPageSize → v / vmmPageSize < p + n → s'.read v = some 0
  same : ∀ v, S (v / vmmPageSize) → ¬(p ≤ v / vmmPageSize ∧ v / vmmPageSize < p + n) →
    s'.read v = s.read v
  leaf : ∀ q, p ≤ q → q < p + n → ∃ e, s'.pte q = some e ∧ e.flags = flags
  leaves : ∀ q, ¬(p ≤ q ∧ q < p + n) → s'.pte q = s.pte q

theorem elfMapPages_fresh {p n : Nat} (h : OwnsPages s S) (huser : flags.user = true)
    (hv : (p + n) * vmmPageSize ≤ vmmLowKernelCloneBase)
    (hmap : elfMapPages s (p * vmmPageSize) flags n = some s') : FreshPages s s' S p n flags := by
  induction n generalizing s S p with
  | zero =>
    obtain rfl := Option.some.inj hmap
    refine ⟨h.congr fun q => ?_, fun v hl hu => ?_, fun v _ _ => rfl, fun q hl hu => ?_,
      fun q _ => rfl⟩
    · constructor
      · rintro (hq | hq)
        · omega
        · exact hq
      · exact .inr
    · omega
    · omega
  | succ n ih =>
    rw [elfMapPages] at hmap
    cases hfree : s.free with
    | nil =>
      simp only [VmmSpace.pmmAllocPage, hfree, if_true] at hmap
      cases hmap
    | cons f rest =>
      simp only [VmmSpace.pmmAllocPage, hfree] at hmap
      split at hmap
      · cases hmap
      rename_i hf
      have hpage : p * vmmPageSize / vmmPageSize = p := Nat.mul_div_cancel p (by decide)
      have hnext : p * vmmPageSize + vmmPageSize = (p + 1) * vmmPageSize := (Nat.succ_mul _ _).symm
      have hfresh := @OwnsPages.fresh s S (p * vmmPageSize) flags h f rest hfree hf
        (by simp only [vmmPageSize] at hv ⊢; omega) huser
      rw [hpage] at hfresh
      rw [hnext] at hmap
      have hrest := ih hfresh.owns (by rw [Nat.add_right_comm]; exact hv) hmap
      refine ⟨hrest.owns.congr fun q => ?_, fun v hl hu => ?_, fun v hS hout => ?_,
        fun q hl hu => ?_, fun q hout => ?_⟩
      · constructor
        · rintro (hq | hq)
          · by_cases hqp : q = p
            · exact .inr (.inl hqp)
            · exact .inl (by omega)
          · exact .inr (.inr hq)
        · rintro (hq | hq | hq)
          · exact .inl (by omega)
          · exact .inl (by omega)
          · exact .inr hq
      · by_cases hvp : v / vmmPageSize = p
        · rw [hrest.same v (.inl hvp) (by omega), hfresh.zero v hvp]
        · exact hrest.zero v (by omega) (by omega)
      · rw [hrest.same v (.inr hS) (by omega), hfresh.same v hS (by omega)]
      · by_cases hqp : q = p
        · obtain ⟨e, he, hflags⟩ := hfresh.leaf
          exact ⟨e, by rw [hrest.leaves q (by omega), hqp, he], hflags⟩
        · exact hrest.leaf q (by omega) (by omega)
      · rw [hrest.leaves q (by omega), hfresh.leaves q (by omega)]

theorem OwnsPages.write (h : OwnsPages s S) {p o n : Nat} {e : Pte} (hp : S p)
    (he : s.pte p = some e) (ho : o + n ≤ vmmPageSize) (src : Bytes) :
    OwnsPages { s with mem := update s.mem e.frame (blit (s.mem e.frame) o n src) } S ∧ ∀ v, S (v / vmmPageSize) →
        VmmSpace.read { s with mem := update s.mem e.frame (blit (s.mem e.frame) o n src) } v =
        if p * vmmPageSize + o ≤ v ∧ v < p * vmmPageSize + o + n then some (src (v - (p * vmmPageSize + o))) else s.read v := by
  refine ⟨⟨h.nodup, h.low, h.mapped, h.apart⟩, fun v hS => ?_⟩
  obtain ⟨e', he', hu, -, -⟩ := h.mapped _ hS
  have hdiv := Nat.div_add_mod v vmmPageSize
  have hmod : v % vmmPageSize < vmmPageSize := Nat.mod_lt _ (by decide)
  rw [Nat.mul_comm] at hdiv
  rw [read_of_pte (s := { s with mem := update s.mem e.frame _ }) he' hu, read_of_pte he' hu]
  by_cases hvp : v / vmmPageSize = p
  · obtain rfl : e' = e := Option.some.inj (he'.symm.trans (hvp ▸ he))
    rw [hvp] at hdiv
    simp only [update_self]
    split
    · rename_i hin
      obtain ⟨k, hk⟩ := Nat.exists_eq_add_of_le hin.1
      rw [show v % vmmPageSize = o + k by omega, blit_inside (by omega), show v - (p * vmmPageSize + o) = k by omega]
    · rename_i hout
      rw [blit_outside (by omega)]
  · have hne : e'.frame ≠ e.frame := fun hf => hvp (h.apart _ _ _ _ hS hp he' he hf)
    have hout : ¬(p * vmmPageSize + o ≤ v ∧ v < p * vmmPageSize + o + n) := by
      rintro ⟨hl, hr⟩
      apply hvp
      apply Nat.div_eq_of_lt_le
      · omega
      · rw [Nat.succ_mul]
        omega
    rw [if_neg hout]
    simp only [update_of_ne hne]

variable {data : Bytes} {size : Nat} {ph : Elf64Phdr}

theorem elfCopy_read {n copied : Nat} (h : OwnsPages s S)
    (hS : ∀ k < ph.filesz, S ((ph.vaddr + k) / vmmPageSize)) (hwrap : ph.vaddr + ph.filesz < 2 ^ 64)
    (hn : ph.filesz - copied ≤ n) :
    OwnsPages (elfCopy data ph s copied n) S ∧ (elfCopy data ph s copied n).pte = s.pte ∧
      ∀ v, S (v / vmmPageSize) → (elfCopy data ph s copied n).read v =
        if ph.vaddr + copied ≤ v ∧ v < ph.vaddr + ph.filesz then
          some (data (ph.offset + (v - ph.vaddr)))
        else s.read v := by
  induction n generalizing s copied with
  | zero =>
    refine ⟨h, rfl, fun v _ => ?_⟩
    rw [if_neg (by omega)]
    rfl
  | succ n ih =>
    rw [elfCopy]
    split
    · rename_i hlt
      have hcur : (ph.vaddr + copied) % 2 ^ 64 = ph.vaddr + copied := Nat.mod_eq_of_lt (by omega)
      rw [hcur]
      simp only
      obtain ⟨e, he, -, -, hz⟩ := h.mapped _ (hS copied hlt)
      generalize hp : (ph.vaddr + copied) / vmmPageSize = p at he
      have hSp : S p := hp ▸ hS copied hlt
      have hphys : s.vmmVirtToPhys (p * vmmPageSize) = e.frame := by
        rw [VmmSpace.vmmVirtToPhys, Nat.mul_div_cancel p (by decide), he, Nat.mul_mod_left]
        rfl
      rw [hphys, if_neg hz]
      have hdiv := Nat.div_add_mod (ph.vaddr + copied) vmmPageSize
      have hmod : (ph.vaddr + copied) % vmmPageSize < vmmPageSize := Nat.mod_lt _ (by decide)
      rw [hp, Nat.mul_comm] at hdiv
      generalize hlen : min (ph.filesz - copied)
        (vmmPageSize - (ph.vaddr + copied - p * vmmPageSize)) = len
      have hpos : 0 < len := by omega
      obtain ⟨howns, hread⟩ := h.write hSp he
        (show ph.vaddr + copied - p * vmmPageSize + len ≤ vmmPageSize by omega)
        fun i => data (ph.offset + copied + i)
      obtain ⟨howns', hpte', hread'⟩ := ih howns (show ph.filesz - (copied + len) ≤ n by omega)
      refine ⟨howns', hpte', fun v hv => ?_⟩
      rw [hread' v hv, hread v hv,
        show p * vmmPageSize + (ph.vaddr + copied - p * vmmPageSize) = ph.vaddr + copied by omega]
      by_cases hin : ph.vaddr + copied ≤ v ∧ v < ph.vaddr + ph.filesz
      · rw [if_pos hin]
        by_cases hnow : v < ph.vaddr + copied + len
        · rw [if_neg (by omega), if_pos ⟨hin.1, hnow⟩,
            show ph.offset + copied + (v - (ph.vaddr + copied)) =
              ph.offset + (v - ph.vaddr) by omega]
        · rw [if_pos (by omega)]
      · rw [if_neg hin, if_neg (by omega), if_neg (by omega)]
    · refine ⟨h, rfl, fun v _ => ?_⟩
      rw [if_neg (by omega)]

/-! ### Segments -/

/-- The segment has the page mapped. -/
def Covers (ph : Elf64Phdr) (p : Nat) : Prop := ph.firstPage ≤ p ∧ p < ph.endPage

instance (ph : Elf64Phdr) (p : Nat) : Decidable (Covers ph p) := inferInstanceAs (Decidable (_ ∧ _))

def segmentByte (data : Bytes) (size : Nat) (ph : Elf64Phdr) (v : Nat) : Byte :=
  if elfRangeInBounds ph.offset ph.filesz size = true ∧ ph.vaddr ≤ v ∧ v < ph.vaddr + ph.filesz then
    data (ph.offset + (v - ph.vaddr))
  else 0

def LowSegment (ph : Elf64Phdr) : Prop :=
  ph.vaddr + ph.memsz ≤ vmmLowKernelCloneBase ∧ ph.filesz ≤ ph.memsz

theorem covers_range {k : Nat} (hk : k < ph.memsz) : Covers ph ((ph.vaddr + k) / vmmPageSize) := by
  refine ⟨Nat.div_le_div_right (Nat.le_add_right _ _), ?_⟩
  simp only [Elf64Phdr.endPage, vmmPageSize]
  omega

structure SegmentLoaded (data : Bytes) (size : Nat) (s s' : VmmSpace) (S : Nat → Prop)
    (ph : Elf64Phdr) : Prop where
  owns : OwnsPages s' fun q => Covers ph q ∨ S q
  byte : ∀ v, Covers ph (v / vmmPageSize) → s'.read v = some (segmentByte data size ph v)
  same : ∀ v, S (v / vmmPageSize) → ¬Covers ph (v / vmmPageSize) → s'.read v = s.read v
  leaf : ∀ q, Covers ph q → ∃ e, s'.pte q = some e ∧ e.flags = ph.pageFlags
  leaves : ∀ q, ¬Covers ph q → s'.pte q = s.pte q

theorem elfLoadSegment_loaded (h : OwnsPages s S) (hlow : LowSegment ph)
    (hload : elfLoadSegment data size s ph = some s') : SegmentLoaded data size s s' S ph := by
  obtain ⟨hbase, hsize⟩ := hlow
  unfold elfLoadSegment at hload
  split at hload
  · cases hload
  split at hload
  · cases hload
  rename_i s₁ hmap
  have hend : ph.firstPage + (ph.endPage - ph.firstPage) = ph.endPage := by
    simp only [Elf64Phdr.firstPage, Elf64Phdr.endPage, vmmPageSize]
    omega
  have hpages := elfMapPages_fresh h rfl (by
    rw [hend]
    simp only [Elf64Phdr.endPage, vmmPageSize, vmmLowKernelCloneBase] at hbase ⊢
    omega) hmap
  have hcov (q : Nat) : (ph.firstPage ≤ q ∧ q < ph.firstPage + (ph.endPage - ph.firstPage)) ↔
      Covers ph q := by rw [hend]; exact Iff.rfl
  have howns : OwnsPages s₁ fun q => Covers ph q ∨ S q :=
    hpages.owns.congr fun q => or_congr_left (hcov q).symm
  have hzero (v : Nat) (hv : Covers ph (v / vmmPageSize)) : s₁.read v = some 0 := by
    obtain ⟨hl, hu⟩ := (hcov _).mpr hv
    exact hpages.zero v hl hu
  have hsame (v : Nat) (hS : S (v / vmmPageSize)) (hv : ¬Covers ph (v / vmmPageSize)) :
      s₁.read v = s.read v := hpages.same v hS (mt (hcov _).mp hv)
  have hleaf (q : Nat) (hq : Covers ph q) : ∃ e, s₁.pte q = some e ∧ e.flags = ph.pageFlags := by
    obtain ⟨hl, hu⟩ := (hcov _).mpr hq
    exact hpages.leaf q hl hu
  have hleaves (q : Nat) (hq : ¬Covers ph q) : s₁.pte q = s.pte q :=
    hpages.leaves q (mt (hcov _).mp hq)
  split at hload
  · rename_i hcopy
    obtain rfl := Option.some.inj hload
    simp only [Bool.and_eq_true, decide_eq_true_eq] at hcopy
    obtain ⟨howns', hpte', hread'⟩ := @elfCopy_read _ _ data ph ph.filesz 0 howns
      (fun k hk => .inl (covers_range (by omega)))
      (by simp only [vmmLowKernelCloneBase] at hbase; omega) (Nat.sub_le _ _)
    refine ⟨howns', fun v hv => ?_, fun v hS hv => ?_, fun q hq => hpte' ▸ hleaf q hq,
      fun q hq => hpte' ▸ hleaves q hq⟩
    · rw [hread' v (.inl hv), hzero v hv, segmentByte, Nat.add_zero]
      by_cases hin : ph.vaddr ≤ v ∧ v < ph.vaddr + ph.filesz
      · rw [if_pos hin, if_pos ⟨hcopy.2, hin⟩]
      · rw [if_neg hin, if_neg fun hall => hin hall.2]
    · rw [hread' v (.inr hS), if_neg, hsame v hS hv]
      rintro ⟨hl, hu⟩
      apply hv
      have hcovers := @covers_range ph (v - ph.vaddr) (by omega)
      rwa [show ph.vaddr + (v - ph.vaddr) = v by omega] at hcovers
  · rename_i hcopy
    obtain rfl := Option.some.inj hload
    refine ⟨howns, fun v hv => ?_, hsame, hleaf, hleaves⟩
    rw [hzero v hv, segmentByte, if_neg]
    rintro ⟨hbounds, hl, hu⟩
    exact hcopy (by rw [hbounds, decide_eq_true (by omega : 0 < ph.filesz)]; rfl)

/-! ### The whole image -/

def segmentsFrom (data : Bytes) (i : Nat) : Nat → List Elf64Phdr
  | 0 => []
  | n + 1 =>
    let ph := elfPhdrAt data (elfPhoff data + i * elfPhentsize data)
    if ph.type = ptLoad then ph :: segmentsFrom data (i + 1) n else segmentsFrom data (i + 1) n

def elfSegments (data : Bytes) : List Elf64Phdr := segmentsFrom data 0 (elfPhnum data)

/-- Some segment has the page mapped. -/
def CoveredPage (L : List Elf64Phdr) (p : Nat) : Prop := ∃ ph ∈ L, Covers ph p

instance (L : List Elf64Phdr) (p : Nat) : Decidable (CoveredPage L p) :=
  inferInstanceAs (Decidable (∃ ph ∈ L, Covers ph p))

def loadedByte (data : Bytes) (size : Nat) (L : List Elf64Phdr) (v : Nat) (old : Option Byte) :
    Option Byte :=
  L.foldl (fun old ph =>
    if Covers ph (v / vmmPageSize) then some (segmentByte data size ph v) else old) old

def maxEnd (L : List Elf64Phdr) (brk : Nat) : Nat :=
  L.foldl (fun brk ph => max brk (ph.vaddr + ph.memsz)) brk

variable {L : List Elf64Phdr} {v : Nat}

theorem covered_cons {p : Nat} : CoveredPage (ph :: L) p ↔ Covers ph p ∨ CoveredPage L p := by
  simp [CoveredPage]

theorem loadedByte_covered (h : CoveredPage L (v / vmmPageSize)) (x y : Option Byte) :
    loadedByte data size L v x = loadedByte data size L v y := by
  induction L generalizing x y with
  | nil =>
    obtain ⟨_, hmem, _⟩ := h
    cases hmem
  | cons ph L ih =>
    simp only [loadedByte, foldl_cons]
    by_cases hph : Covers ph (v / vmmPageSize)
    · rw [if_pos hph, if_pos hph]
    · exact ih ((covered_cons.mp h).resolve_left hph) _ _

theorem loadedByte_zero (h : ∀ b ∈ L, segmentByte data size b v = 0) (x : Option Byte) :
    loadedByte data size L v x = if CoveredPage L (v / vmmPageSize) then some 0 else x := by
  induction L generalizing x with
  | nil =>
    rw [if_neg]
    · rfl
    · rintro ⟨_, hmem, _⟩
      cases hmem
  | cons ph L ih =>
    simp only [forall_mem_cons] at h
    rw [loadedByte, foldl_cons, h.1]
    have hrest := ih h.2 (if Covers ph (v / vmmPageSize) then some 0 else x)
    rw [loadedByte] at hrest
    rw [hrest]
    simp only [covered_cons]
    by_cases hph : Covers ph (v / vmmPageSize)
    · simp [hph]
    · simp [hph]

structure ImageLoaded (data : Bytes) (size : Nat) (s s' : VmmSpace) (S : Nat → Prop)
    (L : List Elf64Phdr) : Prop where
  owns : OwnsPages s' fun q => CoveredPage L q ∨ S q
  byte : ∀ v, (CoveredPage L (v / vmmPageSize) ∨ S (v / vmmPageSize)) →
    s'.read v = loadedByte data size L v (s.read v)
  leaf : ∀ q, CoveredPage L q →
    ∃ e, s'.pte q = some e ∧ ∃ ph ∈ L, Covers ph q ∧ e.flags = ph.pageFlags
  leaves : ∀ q, ¬CoveredPage L q → s'.pte q = s.pte q

theorem ImageLoaded.nil (h : OwnsPages s S) : ImageLoaded data size s s S [] where
  owns := h.congr fun q => by simp [CoveredPage]
  byte := fun v _ => rfl
  leaf := by
    rintro q ⟨_, hmem, _⟩
    cases hmem
  leaves := fun q _ => rfl

theorem ImageLoaded.cons {s₁ : VmmSpace} (h : SegmentLoaded data size s s₁ S ph)
    (hrest : ImageLoaded data size s₁ s' (fun q => Covers ph q ∨ S q) L) : ImageLoaded data size s s' S (ph :: L) where
  owns := hrest.owns.congr fun q => by rw [covered_cons, or_assoc, or_left_comm]
  byte := by
    intro v hv
    rw [loadedByte, foldl_cons]
    by_cases hph : Covers ph (v / vmmPageSize)
    · rw [if_pos hph, ← h.byte v hph]
      exact hrest.byte v (.inr (.inl hph))
    · rw [if_neg hph]
      by_cases hS : S (v / vmmPageSize)
      · rw [← h.same v hS hph]
        exact hrest.byte v (.inr (.inr hS))
      · rw [covered_cons] at hv
        have hcov := (hv.resolve_right hS).resolve_left hph
        rw [hrest.byte v (.inl hcov)]
        exact loadedByte_covered hcov _ _
  leaf := by
    intro q hq
    by_cases hcov : CoveredPage L q
    · obtain ⟨e, he, b, hb, hbq, hflags⟩ := hrest.leaf q hcov
      exact ⟨e, he, b, mem_cons_of_mem _ hb, hbq, hflags⟩
    · have hph := (covered_cons.mp hq).resolve_right hcov
      obtain ⟨e, he, hflags⟩ := h.leaf q hph
      exact ⟨e, by rw [hrest.leaves q hcov, he], ph, mem_cons_self, hph, hflags⟩
  leaves := by
    intro q hq
    rw [covered_cons, not_or] at hq
    rw [hrest.leaves q hq.2, h.leaves q hq.1]

theorem elfLoadLoop_loaded {r r' : ElfLoadResult} {i n : Nat} (h : OwnsPages s S)
    (hlow : ∀ ph ∈ segmentsFrom data i n, LowSegment ph) (hload : elfLoadLoop data size s r i n = some (s', r')) :
    ImageLoaded data size s s' S (segmentsFrom data i n) ∧ r'.brk = maxEnd (segmentsFrom data i n) r.brk := by
  induction n generalizing s S r i with
  | zero =>
    obtain ⟨rfl, rfl⟩ := Prod.mk.inj (Option.some.inj hload)
    exact ⟨.nil h, rfl⟩
  | succ n ih =>
    rw [elfLoadLoop] at hload
    simp only at hload
    split at hload
    · cases hload
    rw [segmentsFrom] at hlow ⊢
    generalize elfPhdrAt data (elfPhoff data + i * elfPhentsize data) = ph at hload hlow ⊢
    by_cases hphdr : ph.type = ptPhdr
    · have hne : ph.type ≠ ptLoad := by
        rw [hphdr]
        decide
      rw [if_pos hphdr] at hload
      rw [if_neg hne] at hlow ⊢
      have hrest := ih h hlow hload
      exact hrest
    · rw [if_neg hphdr] at hload
      by_cases htype : ph.type = ptLoad
      · rw [if_neg (not_not.mpr htype)] at hload
        rw [if_pos htype] at hlow ⊢
        rw [forall_mem_cons] at hlow
        split at hload
        · cases hload
        rename_i s₁ hseg
        have hloaded := elfLoadSegment_loaded h hlow.1 hseg
        obtain ⟨himage, hbrk⟩ := ih hloaded.owns hlow.2 hload
        exact ⟨.cons hloaded himage, hbrk⟩
      · rw [if_pos htype] at hload
        rw [if_neg htype] at hlow ⊢
        exact ih h hlow hload

end

/-- `a` stands somewhere in front of `b`. -/
def Before (L : List Elf64Phdr) (a b : Elf64Phdr) : Prop := ∃ L₁ L₂, L = L₁ ++ a :: L₂ ∧ b ∈ L₂

def HoldsByte (ph : Elf64Phdr) (v : Nat) : Prop := ph.vaddr ≤ v ∧ v < ph.vaddr + ph.memsz

/-- A file whose segments lie apart from each other below the base. -/
structure WellPlaced (data : Bytes) : Prop where
  low : ∀ ph ∈ elfSegments data, LowSegment ph
  apart : ∀ a b, Before (elfSegments data) a b → ∀ v, HoldsByte a v → ¬HoldsByte b v

def ImageComplete (data : Bytes) (s : VmmSpace) : Prop :=
  ∀ ph ∈ elfSegments data, ∀ k < ph.memsz,
    s.read (ph.vaddr + k) = some (if k < ph.filesz then data (ph.offset + k) else 0)

def DataInside (data : Bytes) (size : Nat) : Prop :=
  ∀ ph ∈ elfSegments data, 0 < ph.filesz → elfRangeInBounds ph.offset ph.filesz size = true

def SharedPagesBlank (data : Bytes) : Prop :=
  ∀ a b, Before (elfSegments data) a b → ∀ k < a.filesz,
    Covers b ((a.vaddr + k) / vmmPageSize) → data (a.offset + k) = 0

def PagesAsked (data : Bytes) (s : VmmSpace) : Prop :=
  ∀ p, CoveredPage (elfSegments data) p → ∃ e, s.pte p = some e ∧
    (e.flags.write = true → ∃ ph ∈ elfSegments data, Covers ph p ∧ ph.flags &&& pfW ≠ 0) ∧
    (e.flags.noExec = false → ∃ ph ∈ elfSegments data, Covers ph p ∧ ph.flags &&& pfX ≠ 0)

section
variable {data : Bytes} {size : Nat} {s s' : VmmSpace} {S : Nat → Prop}

/-- What a byte of a segment reads as: zero under a page that was mapped again. -/
theorem ImageLoaded.segment (h : ImageLoaded data size s s' S (elfSegments data))
    (hp : WellPlaced data) (hin : DataInside data size) {a : Elf64Phdr} {L₁ L₂ : List Elf64Phdr}
    (hL : elfSegments data = L₁ ++ a :: L₂) {k : Nat} (hk : k < a.memsz) : s'.read (a.vaddr + k) =
      if CoveredPage L₂ ((a.vaddr + k) / vmmPageSize) then some 0
      else some (if k < a.filesz then data (a.offset + k) else 0) := by
  have hmem : a ∈ elfSegments data := by
    rw [hL]
    simp
  have hcov := covers_range hk
  have hlater : ∀ b ∈ L₂, segmentByte data size b (a.vaddr + k) = 0 := by
    intro b hb
    have hbmem : b ∈ elfSegments data := by
      rw [hL]
      simp [hb]
    have hnot := hp.apart a b ⟨L₁, L₂, hL, hb⟩ (a.vaddr + k) ⟨by omega, by omega⟩
    have hsize := (hp.low b hbmem).2
    rw [segmentByte, if_neg]
    rintro ⟨-, hl, hu⟩
    exact hnot ⟨hl, by omega⟩
  have hself : segmentByte data size a (a.vaddr + k) =
      if k < a.filesz then data (a.offset + k) else 0 := by
    rw [segmentByte, Nat.add_sub_cancel_left]
    by_cases hkf : k < a.filesz
    · rw [if_pos hkf, if_pos ⟨hin a hmem (by omega), by omega, by omega⟩]
    · rw [if_neg hkf, if_neg]
      rintro ⟨-, -, hu⟩
      omega
  rw [h.byte _ (.inl ⟨a, hmem, hcov⟩), hL, loadedByte, foldl_append, foldl_cons, if_pos hcov, hself]
  exact loadedByte_zero hlater _

theorem ImageLoaded.complete_iff (h : ImageLoaded data size s s' S (elfSegments data))
    (hp : WellPlaced data) (hin : DataInside data size) : ImageComplete data s' ↔ SharedPagesBlank data := by
  constructor
  · rintro hall a b ⟨L₁, L₂, hL, hb⟩ k hk hcov
    have hmem : a ∈ elfSegments data := by
      rw [hL]
      simp
    have hmemsz : k < a.memsz := Nat.lt_of_lt_of_le hk (hp.low a hmem).2
    have hread := hall a hmem k hmemsz
    rw [h.segment hp hin hL hmemsz, if_pos ⟨b, hb, hcov⟩, if_pos hk] at hread
    exact (Option.some.inj hread).symm
  · intro hblank a hmem k hk
    obtain ⟨L₁, L₂, hL⟩ := append_of_mem hmem
    rw [h.segment hp hin hL hk]
    by_cases hcov : CoveredPage L₂ ((a.vaddr + k) / vmmPageSize)
    · rw [if_pos hcov]
      obtain ⟨b, hb, hcovers⟩ := hcov
      by_cases hkf : k < a.filesz
      · rw [if_pos hkf, hblank a b ⟨L₁, L₂, hL, hb⟩ k hkf hcovers]
      · rw [if_neg hkf]
    · rw [if_neg hcov]

theorem ImageLoaded.asked (h : ImageLoaded data size s s' S (elfSegments data)) : PagesAsked data s' := by
  intro p hp
  obtain ⟨e, he, ph, hmem, hcov, hflags⟩ := h.leaf p hp
  refine ⟨e, he, fun hw => ⟨ph, hmem, hcov, ?_⟩, fun hx => ⟨ph, hmem, hcov, ?_⟩⟩
  · rw [hflags] at hw
    exact of_decide_eq_true hw
  · rw [hflags] at hx
    exact of_decide_eq_false hx

end

/-- A file that is loaded has its segments in memory, and its data inside the image,
exactly when its data lies inside the image and no later segment maps a page again on
which there is more than zeros. Its pages have the flags some segment asks for and the
break is the end of its last page in any case. -/
theorem elf_load_complete_iff (u : UserSpace) (data : Bytes) (size : Nat) (hp : WellPlaced data)
    {s' : VmmSpace} {r : ElfLoadResult} (hload : elfLoad u.toVmmSpace data size = some (s', r)) :
    ((ImageComplete data s' ∧ DataInside data size) ↔
      (SharedPagesBlank data ∧ DataInside data size)) ∧
    PagesAsked data s' ∧
    r.brk = (maxEnd (elfSegments data) 0 + vmmPageSize - 1) / vmmPageSize * vmmPageSize := by
  unfold elfLoad at hload
  split at hload
  · cases hload
  split at hload
  · cases hload
  rename_i s₁ r₁ hloop
  obtain ⟨rfl, rfl⟩ := Prod.mk.inj (Option.some.inj hload)
  obtain ⟨himage, hbrk⟩ := elfLoadLoop_loaded (UserSpace.ownsNone u) hp.low hloop
  exact ⟨and_congr_left fun hin => himage.complete_iff hp hin, himage.asked, by rw [hbrk]; rfl⟩

def threeFrames : UserSpace where
  free := [0x800000, 0x801000, 0x802000]
  mem := fun _ => zeros
  tables := fun _ _ => true
  pte := fun _ => none
  rssPages := 0
  nodup := by decide
  low := fun _ _ _ _ => rfl

def elfHeader (n : Nat) : List (Nat × Nat) :=
  [(4, 0x464C457F), (1, 2), (1, 1), (10, 0), (2, etExec), (2, emX86_64), (4, 1), (8, 0x1000),
    (8, 64),
    (8, 0), (4, 0), (2, 64), (2, 56), (2, n), (6, 0)]

def loadHeader (flags offset vaddr filesz memsz : Nat) : List (Nat × Nat) :=
  [(4, ptLoad), (4, flags), (8, offset), (8, vaddr), (8, 0), (8, filesz), (8, memsz), (8, 4096)]

def smallElf : Bytes := pack (elfHeader 1 ++ loadHeader 5 0 0x1000 4 4)

def sharingElf : Bytes :=
  pack (elfHeader 2 ++ loadHeader 5 0 0x1000 4 4 ++ loadHeader 6 0 0x1004 0 4)

theorem smallElf_segments : elfSegments smallElf = [⟨1, 5, 0, 0x1000, 4, 4⟩] := by decide +kernel

theorem sharingElf_segments : elfSegments sharingElf = [⟨1, 5, 0, 0x1000, 4, 4⟩, ⟨1, 6, 0, 0x1004, 0, 4⟩] := by decide +kernel

theorem Before.not_single {a b c : Elf64Phdr} (h : Before [a] b c) : False := by
  obtain ⟨L₁, L₂, hL, hmem⟩ := h
  cases L₁ with
  | nil =>
    obtain ⟨-, rfl⟩ := List.cons.inj hL
    cases hmem
  | cons x L₁ => simp at hL

theorem Before.pair {a b c d : Elf64Phdr} (h : Before [a, b] c d) : c = a ∧ d = b := by
  obtain ⟨L₁, L₂, hL, hmem⟩ := h
  cases L₁ with
  | nil =>
    obtain ⟨rfl, rfl⟩ := List.cons.inj hL
    exact ⟨rfl, List.mem_singleton.mp hmem⟩
  | cons x L₁ =>
    obtain ⟨-, hL⟩ := List.cons.inj hL
    exact (Before.not_single ⟨L₁, L₂, hL, hmem⟩).elim

theorem smallElf_wellPlaced : WellPlaced smallElf where
  low := by
    rw [smallElf_segments]
    intro ph hph
    obtain rfl := List.mem_singleton.mp hph
    exact ⟨by decide, by decide⟩
  apart := by
    rw [smallElf_segments]
    exact fun a b h => h.not_single.elim

theorem smallElf_complete :
    ∃ s' r, elfLoad threeFrames.toVmmSpace smallElf 120 = some (s', r) ∧
      ImageComplete smallElf s' := by
  obtain ⟨⟨s', r⟩, hload⟩ := Option.isSome_iff_exists.mp
    (by decide +kernel : (elfLoad threeFrames.toVmmSpace smallElf 120).isSome = true)
  have hiff := (elf_load_complete_iff threeFrames smallElf 120 smallElf_wellPlaced hload).1
  refine ⟨s', r, hload, (hiff.mpr ⟨?_, ?_⟩).1⟩
  · intro a b h
    rw [smallElf_segments] at h
    exact h.not_single.elim
  · intro ph hph _
    rw [smallElf_segments] at hph
    obtain rfl := List.mem_singleton.mp hph
    decide

/-- The second segment's page takes the place of the first one's: the text is gone. -/
theorem sharing_elf_loses_text :
    WellPlaced sharingElf ∧ DataInside sharingElf 176 ∧
      ∃ s' r, elfLoad threeFrames.toVmmSpace sharingElf 176 = some (s', r) ∧
        ¬ImageComplete sharingElf s' := by
  refine ⟨⟨?_, ?_⟩, ?_, ?_⟩
  · rw [sharingElf_segments]
    simp [LowSegment, vmmLowKernelCloneBase]
  · rw [sharingElf_segments]
    intro a b h v ha hb
    obtain ⟨rfl, rfl⟩ := h.pair
    simp only [HoldsByte] at ha hb
    omega
  · rw [DataInside, sharingElf_segments]
    decide
  · have hread : ((elfLoad threeFrames.toVmmSpace sharingElf 176).map fun p => p.1.read 0x1000) =
        some (some 0) := by decide
    obtain ⟨⟨s', r⟩, hload, hzero⟩ := Option.map_eq_some_iff.mp hread
    refine ⟨s', r, hload, fun hall => ?_⟩
    have htext := hall ⟨1, 5, 0, 0x1000, 4, 4⟩ (by rw [sharingElf_segments]; simp) 0 (by decide)
    rw [show (⟨1, 5, 0, 0x1000, 4, 4⟩ : Elf64Phdr).vaddr + 0 = 0x1000 from rfl, hzero] at htext
    exact absurd htext (by decide)

end CapyOS.Proofs
