import CapyOS.Memory.Kmem
import CapyOS.Lib.Ranges

namespace CapyOS.Proofs
open Lib List

abbrev KTiles : Nat → KHeap → Nat → Prop := Tiles KBlock.addr KBlock.limit

def usedBlocks (heap : KHeap) : KHeap := heap.filter fun b => !b.isFree

def usedPtrs (heap : KHeap) : List Nat := (usedBlocks heap).map KBlock.ptr

/-- No two neighbours are both free. -/
abbrev NoFreePair (heap : KHeap) : Prop := heap.IsChain fun a b => ¬ (a.isFree = true ∧ b.isFree = true)

structure KmemSound (heapSize : Nat) (s : KmemState) : Prop where
  tiles : KTiles 0 s.heap heapSize
  magic : ∀ b ∈ s.heap, b.magic = kmemHeaderMagic
  apart : NoFreePair s.heap
  live : s.live.Perm (usedPtrs s.heap)

theorem addr_le_limit (b : KBlock) : b.addr ≤ b.limit := by
  unfold KBlock.limit
  omega

section
variable {heap pre rest : KHeap} {curr : KBlock} {n a e : Nat}

/-- The pieces of a block that was taken lie where the block was. -/
theorem take_tiles : KTiles curr.addr (kmemTake n curr) curr.limit := by
  unfold kmemTake
  split
  · refine ⟨rfl, rfl, ?_⟩
    simp only [KBlock.limit, Tiles]
    omega
  · exact ⟨rfl, rfl⟩

theorem take_magic (h : curr.magic = kmemHeaderMagic) : ∀ b ∈ kmemTake n curr, b.magic = kmemHeaderMagic := by
  intro b hb
  unfold kmemTake at hb
  split at hb
  · rcases mem_cons.mp hb with rfl | hb
    · exact h
    · rw [mem_singleton.mp hb]
  · rw [mem_singleton.mp hb]
    exact h

theorem take_used : usedPtrs (kmemTake n curr) = [curr.ptr] := by
  unfold kmemTake
  split <;> rfl

theorem used_append (xs ys : KHeap) : usedPtrs (xs ++ ys) = usedPtrs xs ++ usedPtrs ys := by
  simp only [usedPtrs, usedBlocks, filter_append, map_append]

theorem used_free (h : curr.isFree = true) : usedPtrs (curr :: rest) = usedPtrs rest := by
  simp [usedPtrs, usedBlocks, h]

theorem take_apart (h : NoFreePair (pre ++ curr :: rest)) (hfree : curr.isFree = true) :
    NoFreePair (pre ++ (kmemTake n curr ++ rest)) := by
  obtain ⟨hpre, htail, hlast⟩ := isChain_append.mp h
  obtain ⟨hhead, hrest⟩ := isChain_cons.mp htail
  have hused : ∀ y ∈ rest.head?, y.isFree = false := by
    intro y hy
    have hpair := hhead y hy
    simpa [hfree] using hpair
  refine isChain_append.mpr ⟨hpre, ?_, ?_⟩
  · unfold kmemTake
    split
    · refine isChain_cons.mpr ⟨by simp, isChain_cons.mpr ⟨?_, hrest⟩⟩
      intro y hy
      simp [hused y hy]
    · exact isChain_cons.mpr ⟨by simp, hrest⟩
  · intro x hx y hy
    have hpair := hlast x hx curr rfl
    have hx : x.isFree = false := by simpa [hfree] using hpair
    simp [hx]

/-- What the search of `kalloc` comes to in a heap whose headers are intact. -/
theorem find_cases (hmagic : ∀ b ∈ heap, b.magic = kmemHeaderMagic) :
    (kmemFind n heap = (none, heap) ∧ ∀ b ∈ heap, b.isFree = true → b.size < n) ∨
    ∃ pre curr rest, heap = pre ++ curr :: rest ∧ curr.isFree = true ∧ n ≤ curr.size ∧
      kmemFind n heap = (some curr.ptr, pre ++ (kmemTake n curr ++ rest)) := by
  induction heap with
  | nil => exact .inl ⟨rfl, fun b hb => nomatch hb⟩
  | cons b heap ih =>
    have hb : b.magic = kmemHeaderMagic := hmagic b (by simp)
    by_cases hfit : b.isFree ∧ b.size ≥ n
    · refine .inr ⟨[], b, heap, rfl, hfit.1, hfit.2, ?_⟩
      simp [kmemFind, hb, hfit]
    · have hstep : kmemFind n (b :: heap) = ((kmemFind n heap).1, b :: (kmemFind n heap).2) := by
        simp [kmemFind, hb, hfit]
      rcases ih (fun c hc => hmagic c (by simp [hc])) with ⟨hnone, hsmall⟩ | ⟨pre, curr, rest, hheap, hfree, hsize, hsome⟩
      · refine .inl ⟨by rw [hstep, hnone], ?_⟩
        intro c hc hcfree
        rcases mem_cons.mp hc with rfl | hc
        · exact Nat.lt_of_not_le fun hle => hfit ⟨hcfree, hle⟩
        · exact hsmall c hc hcfree
      · refine .inr ⟨b :: pre, curr, rest, by rw [hheap]; rfl, hfree, hsize, ?_⟩
        rw [hstep, hsome]
        rfl

theorem mergeFrom_kept (htiles : KTiles a (curr :: rest) e) (hmagic : ∀ b ∈ curr :: rest, b.magic = kmemHeaderMagic) :
    KTiles a (kmemMergeFrom curr rest) e ∧ (∀ b ∈ kmemMergeFrom curr rest, b.magic = kmemHeaderMagic) ∧
    usedPtrs (kmemMergeFrom curr rest) = usedPtrs (curr :: rest) ∧ NoFreePair (kmemMergeFrom curr rest) ∧
    ∀ b ∈ (kmemMergeFrom curr rest).head?, b.isFree = curr.isFree := by
  induction rest generalizing curr a with
  | nil => exact ⟨htiles, hmagic, rfl, isChain_singleton _, by simp [kmemMergeFrom]⟩
  | cons next rest ih =>
    obtain ⟨hcurr, hnext, hrest⟩ := htiles
    rw [kmemMergeFrom]
    split
    next hboth =>
      -- the joined block begins where `curr` does and ends where `next` did
      have hlimit : KBlock.limit { curr with size := curr.size + (kmemHeaderSize + next.size) } = next.limit := by
        simp only [KBlock.limit, ← hboth.2.2]
        omega
      have hjoined : ∀ b ∈ { curr with size := curr.size + (kmemHeaderSize + next.size) } :: rest,
          b.magic = kmemHeaderMagic := by
        intro b hb
        rcases mem_cons.mp hb with rfl | hb
        · exact hmagic curr (by simp)
        · exact hmagic b (by simp [hb])
      obtain ⟨ht, hm, hu, hn, hh⟩ :=
        @ih { curr with size := curr.size + (kmemHeaderSize + next.size) } a ⟨hcurr, hlimit ▸ hrest⟩ hjoined
      refine ⟨ht, hm, ?_, hn, hh⟩
      rw [hu, used_free hboth.1, used_free hboth.2.1]
      exact used_free hboth.1
    next hboth =>
      obtain ⟨ht, hm, hu, hn, hh⟩ := @ih next curr.limit ⟨hnext, hrest⟩
        (fun b hb => hmagic b (mem_cons_of_mem _ hb))
      refine ⟨⟨hcurr, ht⟩, ?_, ?_, isChain_cons.mpr ⟨?_, hn⟩, by simp⟩
      · intro b hb
        rcases mem_cons.mp hb with rfl | hb
        · exact hmagic b (by simp)
        · exact hm b hb
      · have hleft := used_append [curr] (kmemMergeFrom next rest)
        have hright := used_append [curr] (next :: rest)
        rw [hu] at hleft
        exact hleft.trans hright.symm
      · intro b hb hpair
        exact hboth ⟨hpair.1, hh b hb ▸ hpair.2, hnext.symm⟩

end

section
variable {heapSize : Nat} {heap : KHeap} {ptr : Nat}

theorem ptrs_nodup (h : KTiles 0 heap heapSize) : (heap.map KBlock.ptr).Nodup := by
  refine pairwise_map.mpr ((h.pairwise addr_le_limit).imp ?_)
  intro b c hle heq
  simp only [KBlock.limit, KBlock.ptr, kmemHeaderSize] at hle heq
  omega

theorem used_nodup (h : KTiles 0 heap heapSize) : (usedPtrs heap).Nodup :=
  (ptrs_nodup h).sublist (List.filter_sublist.map KBlock.ptr)

theorem release_tiles {a : Nat} (h : KTiles a heap heapSize) : KTiles a (kmemRelease ptr heap) heapSize := by
  induction heap generalizing a with
  | nil => exact h
  | cons b heap ih =>
    refine ⟨?_, ?_⟩
    · rw [← h.1]
      dsimp only
      split <;> rfl
    · have hlimit : (if b.ptr = ptr ∧ b.magic = kmemHeaderMagic then { b with isFree := true } else b).limit
          = b.limit := by
        split <;> rfl
      rw [hlimit]
      exact ih h.2

theorem release_magic (h : ∀ b ∈ heap, b.magic = kmemHeaderMagic) : ∀ b ∈ kmemRelease ptr heap, b.magic = kmemHeaderMagic := by
  intro b hb
  obtain ⟨c, hc, rfl⟩ := mem_map.mp hb
  split <;> exact h c hc

theorem release_used (h : ∀ b ∈ heap, b.magic = kmemHeaderMagic) :
    usedPtrs (kmemRelease ptr heap) = (usedPtrs heap).filter (· != ptr) := by
  induction heap with
  | nil => rfl
  | cons b heap ih =>
    have hb : b.magic = kmemHeaderMagic := h b (by simp)
    have hrest := ih fun c hc => h c (by simp [hc])
    have hsplit := used_append [b] heap
    have hnew := used_append (kmemRelease ptr [b]) (kmemRelease ptr heap)
    rw [singleton_append] at hsplit
    have hone : usedPtrs (kmemRelease ptr [b]) = (usedPtrs [b]).filter (· != ptr) := by
      by_cases hp : b.ptr = ptr <;> cases hf : b.isFree <;>
        simp [kmemRelease, usedPtrs, usedBlocks, hb, hp, hf]
    rw [hsplit, filter_append, ← hrest, ← hone]
    exact hnew

theorem merge_kept (htiles : KTiles 0 heap heapSize) (hmagic : ∀ b ∈ heap, b.magic = kmemHeaderMagic) :
    KTiles 0 (kmemMerge heap) heapSize ∧ (∀ b ∈ kmemMerge heap, b.magic = kmemHeaderMagic) ∧
    usedPtrs (kmemMerge heap) = usedPtrs heap ∧ NoFreePair (kmemMerge heap) := by
  cases heap with
  | nil => exact ⟨htiles, hmagic, rfl, isChain_nil⟩
  | cons curr rest =>
    obtain ⟨ht, hm, hu, hn, -⟩ := mergeFrom_kept htiles hmagic
    exact ⟨ht, hm, hu, hn⟩

theorem sizeAt_ptr (h : KTiles 0 heap heapSize) {b : KBlock} (hb : b ∈ heap) : kmemSizeAt heap b.ptr = b.size := by
  have hnodup := ptrs_nodup h
  clear h
  induction heap with
  | nil => exact nomatch hb
  | cons c heap ih =>
    rcases mem_cons.mp hb with rfl | hb
    · simp [kmemSizeAt]
    · obtain ⟨hnot, hnodup⟩ := nodup_cons.mp hnodup
      have hne : c.ptr ≠ b.ptr := by
        intro heq
        exact hnot (heq ▸ mem_map_of_mem hb)
      rw [← ih hb hnodup]
      simp [kmemSizeAt, hne]

end

section
variable {heapSize size ptr : Nat} {ops : List KmemOp} {s : KmemState}

theorem init_sound (h : kmemHeaderSize ≤ heapSize) : KmemSound heapSize ⟨kinit heapSize, []⟩ where
  tiles := by
    refine ⟨rfl, ?_⟩
    simp only [KBlock.limit, Tiles]
    omega
  magic := by
    intro b hb
    rw [mem_singleton.mp hb]
  apart := isChain_singleton _
  live := List.Perm.refl _

theorem alloc_sound (h : KmemSound heapSize s) :
    KmemSound heapSize ⟨(kalloc size s.heap).2, (kalloc size s.heap).1.toList ++ s.live⟩ := by
  unfold kalloc
  split
  · exact h
  · rcases @find_cases s.heap (kmemAligned size) h.magic with
      ⟨hfind, -⟩ | ⟨pre, curr, rest, hheap, hfree, hsize, hfind⟩
    · rw [hfind]
      exact h
    · rw [hfind]
      have htiles := h.tiles
      have hmagic := h.magic
      have hapart := h.apart
      have hlive := h.live
      rw [hheap] at htiles hmagic hapart hlive
      obtain ⟨m, hpre, haddr, hrest⟩ := htiles.split
      refine ⟨hpre.append ((haddr ▸ take_tiles).append hrest), ?_, take_apart hapart hfree, ?_⟩
      · intro b hb
        rcases mem_append.mp hb with hb | hb
        · exact hmagic b (by simp [hb])
        · rcases mem_append.mp hb with hb | hb
          · exact take_magic (hmagic curr (by simp)) b hb
          · exact hmagic b (by simp [hb])
      · rw [used_append, used_free hfree] at hlive
        rw [used_append, used_append, take_used]
        exact (hlive.cons curr.ptr).trans perm_middle.symm

theorem free_sound (h : KmemSound heapSize s) : KmemSound heapSize ⟨kfree ptr s.heap, s.live.erase ptr⟩ := by
  obtain ⟨ht, hm, hu, hn⟩ := merge_kept (@release_tiles heapSize s.heap ptr 0 h.tiles) (release_magic h.magic)
  refine ⟨ht, hm, hn, ?_⟩
  rw [kfree, hu, release_used h.magic, ← (used_nodup h.tiles).erase_eq_filter]
  exact h.live.erase ptr

theorem run_sound (h : kmemHeaderSize ≤ heapSize) (run : KmemRun heapSize ops s) : KmemSound heapSize s := by
  induction run with
  | start => exact init_sound h
  | alloc run hsize ih => exact alloc_sound ih
  | free run hptr ih => exact free_sound ih

/-- A request that the heap could hold is rounded up, and not past the end of a `size_t`. -/
theorem le_aligned (hbound : heapSize + kmemAlign ≤ 2 ^ 64) (hsize : size ≤ heapSize) :
    size ≤ kmemAligned size ∧ kmemAligned size < size + kmemAlign ∧ kmemAligned size % kmemAlign = 0 := by
  simp only [kmemAligned, kmemAlign] at *
  omega

theorem used_sum (h : KmemSound heapSize s) : kheapUsed s.heap = (s.live.map (kmemSizeAt s.heap)).sum := by
  have hsizes : (usedPtrs s.heap).map (kmemSizeAt s.heap) = (usedBlocks s.heap).map KBlock.size := by
    rw [usedPtrs, map_map]
    refine map_congr_left ?_
    intro b hb
    exact sizeAt_ptr h.tiles (mem_of_mem_filter hb)
  rw [(h.live.map (kmemSizeAt s.heap)).sum_eq, hsizes]
  rfl

theorem empty_init (hpos : kmemHeaderSize ≤ heapSize) (h : KmemSound heapSize s) (hlive : s.live = []) :
    s.heap = kinit heapSize := by
  obtain ⟨heap, live⟩ := s
  obtain ⟨htiles, hmagic, hapart, hperm⟩ := h
  simp only at hlive htiles hmagic hapart hperm ⊢
  rw [hlive] at hperm
  have hused : usedBlocks heap = [] := map_eq_nil_iff.mp hperm.symm.eq_nil
  have hfree : ∀ b ∈ heap, b.isFree = true := by
    intro b hb
    have hb := filter_eq_nil_iff.mp hused b hb
    simpa using hb
  match heap, htiles, hmagic, hapart, hfree with
  | [], htiles, _, _, _ =>
    have hzero : 0 = heapSize := htiles
    simp only [kmemHeaderSize] at hpos
    omega
  | [b], htiles, hmagic, _, hfree =>
    obtain ⟨haddr, hlimit⟩ := htiles
    have hlimit : b.limit = heapSize := hlimit
    have hsize : b.size = heapSize - kmemHeaderSize := by
      rw [KBlock.limit, haddr] at hlimit
      omega
    have hm := hmagic b (by simp)
    have hf := hfree b (by simp)
    cases b
    simp only at haddr hsize hm hf
    rw [kinit, haddr, hsize, hm, hf]
  | b :: c :: rest, _, _, hapart, hfree =>
    have hpair := (isChain_cons.mp hapart).1 c rfl
    exact absurd ⟨hfree b (by simp), hfree c (by simp)⟩ hpair

theorem alloc_holds (h : KmemSound heapSize s) (hbound : heapSize + kmemAlign ≤ 2 ^ 64) (hsize : size ≤ heapSize)
    (hptr : (kalloc size s.heap).1 = some ptr) : size ≤ kmemSizeAt (kalloc size s.heap).2 ptr := by
  have hafter := @alloc_sound heapSize size s h
  unfold kalloc at hptr hafter ⊢
  split at hptr
  next => exact nomatch hptr
  next hpos =>
    rw [if_neg hpos] at hafter ⊢
    rcases @find_cases s.heap (kmemAligned size) h.magic with
      ⟨hfind, -⟩ | ⟨pre, curr, rest, hheap, hfree, hfits, hfind⟩
    · rw [hfind] at hptr
      exact nomatch hptr
    · rw [hfind] at hptr hafter ⊢
      cases hptr
      have htaken : ∃ b ∈ kmemTake (kmemAligned size) curr, b.ptr = curr.ptr ∧ kmemAligned size ≤ b.size := by
        unfold kmemTake
        split
        · exact ⟨_, mem_cons_self, rfl, Nat.le_refl _⟩
        · exact ⟨_, mem_cons_self, rfl, hfits⟩
      obtain ⟨b, hb, hbptr, hbsize⟩ := htaken
      rw [← hbptr, sizeAt_ptr hafter.tiles (by simp [hb])]
      exact Nat.le_trans (le_aligned hbound hsize).1 hbsize

/-- Over every run the heap stays tiled by its blocks, the live ones apart and inside
it and counted by `kheap_used`; a request is refused only for want of a free block. -/
theorem heap_integrity (hheader : kmemHeaderSize ≤ heapSize) (hbound : heapSize + kmemAlign ≤ 2 ^ 64)
    (run : KmemRun heapSize ops s) :
    KTiles 0 s.heap heapSize ∧ s.live.Perm (usedPtrs s.heap) ∧ s.live.Nodup ∧
    (usedBlocks s.heap).Pairwise (fun b c => b.limit ≤ c.addr) ∧ (∀ b ∈ usedBlocks s.heap, b.limit ≤ heapSize) ∧
    NoFreePair s.heap ∧
    (∀ size, 0 < size → size ≤ heapSize → size ≤ kmemAligned size ∧
      ((kalloc size s.heap).1 = none → ∀ b ∈ s.heap, b.isFree = true → b.size < kmemAligned size) ∧
      ∀ ptr, (kalloc size s.heap).1 = some ptr → size ≤ kmemSizeAt (kalloc size s.heap).2 ptr) ∧
    kheapUsed s.heap = (s.live.map (kmemSizeAt s.heap)).sum ∧
    (s.live = [] → s.heap = kinit heapSize) := by
  have h := run_sound hheader run
  refine ⟨h.tiles, h.live, h.live.nodup_iff.mpr (used_nodup h.tiles),
    (h.tiles.pairwise addr_le_limit).sublist filter_sublist, ?_, h.apart, ?_, used_sum h, empty_init hheader h⟩
  · intro b hb
    exact (h.tiles.bounds addr_le_limit (mem_of_mem_filter hb)).2
  · intro size hpos hsize
    refine ⟨(le_aligned hbound hsize).1, ?_, fun ptr => alloc_holds h hbound hsize⟩
    intro hnone
    rw [kalloc, if_neg (Nat.ne_of_gt hpos)] at hnone
    rcases @find_cases s.heap (kmemAligned size) h.magic with
      ⟨-, hsmall⟩ | ⟨pre, curr, rest, -, -, -, hfind⟩
    · exact hsmall
    · rw [hfind] at hnone
      exact nomatch hnone

end

theorem heap_integrity_sixteen_mib : ∃ ops s, KmemRun (16 * 1024 * 1024) ops s ∧ s.live = [24] ∧
    KTiles 0 s.heap (16 * 1024 * 1024) := by
  have hfirst := @KmemRun.alloc _ _ _ 100 (@KmemRun.start (16 * 1024 * 1024)) (by decide)
  have hrun := @KmemRun.alloc _ _ _ 5 hfirst (by decide)
  have hfreed := @KmemRun.free _ _ _ 160 hrun (by decide)
  refine ⟨_, _, hfreed, by decide, ?_⟩
  exact (heap_integrity (by decide) (by decide) hfreed).1

/-- An empty request is refused on a heap that is one free block. -/
theorem empty_request_refused : (kalloc 0 (kinit (16 * 1024 * 1024))).1 = none ∧
    ∃ b ∈ kinit (16 * 1024 * 1024), b.isFree = true ∧ kmemAligned 0 ≤ b.size := by
  exact ⟨rfl, _, mem_cons_self, rfl, by decide⟩

section
variable {heap : KHeap} {n size heapSize : Nat}

def HasRoom (n : Nat) (b : KBlock) : Bool := b.isFree && decide (n ≤ b.size)

theorem find_first (hmagic : ∀ b ∈ heap, b.magic = kmemHeaderMagic) :
    (kmemFind n heap).1 = (heap.find? (HasRoom n)).map KBlock.ptr := by
  induction heap with
  | nil => rfl
  | cons b heap ih =>
    have hb : b.magic = kmemHeaderMagic := hmagic b (by simp)
    have hrest := ih fun c hc => hmagic c (by simp [hc])
    by_cases hfit : b.isFree = true ∧ n ≤ b.size
    · have hfound : HasRoom n b = true := by simp [HasRoom, hfit]
      rw [List.find?_cons_of_pos hfound]
      simp [kmemFind, hb, hfit]
    · have hskipped : ¬ HasRoom n b = true := by simpa [HasRoom] using hfit
      rw [List.find?_cons_of_neg hskipped, ← hrest]
      have hfit : ¬ (b.isFree = true ∧ b.size ≥ n) := hfit
      simp [kmemFind, hb, hfit]

def Honoured (heapSize size : Nat) (heap : KHeap) : Prop :=
  ∀ ptr, (kalloc size heap).1 = some ptr → ptr % kmemAlign = 0 ∧
    ∃ b ∈ (kalloc size heap).2, b.ptr = ptr ∧ size ≤ b.size ∧ b.limit ≤ heapSize

theorem taken_block {curr : KBlock} {pre rest : KHeap} (htiles : KTiles 0 (pre ++ curr :: rest) heapSize) :
    ∃ b ∈ kmemTake n curr, b.ptr = curr.ptr ∧ (b.size = curr.size ∨ b.size = n ∧ n + kmemHeaderSize + kmemAlign ≤ curr.size) ∧
      b.limit ≤ heapSize := by
  have hlimit := (htiles.bounds addr_le_limit (mem_append_right pre mem_cons_self)).2
  unfold kmemTake
  split
  next hsplit =>
    refine ⟨_, mem_cons_self, rfl, .inr ⟨rfl, hsplit⟩, ?_⟩
    simp only [KBlock.limit] at hlimit ⊢
    omega
  next => exact ⟨_, mem_cons_self, rfl, .inl rfl, hlimit⟩

/-- A header is no multiple of the alignment, so that the pointer is aligned behind
every second possible address only; and a request near the end of a `size_t` is rounded
up to nothing. -/
theorem request_honoured (hbound : heapSize + kmemAlign ≤ 2 ^ 64) (hsize : size < 2 ^ 64)
    (htiles : KTiles 0 heap heapSize) (hmagic : ∀ b ∈ heap, b.magic = kmemHeaderMagic) :
    Honoured heapSize size heap ↔
      size = 0 ∨ ∀ b, heap.find? (HasRoom (kmemAligned size)) = some b →
        size + (kmemAlign - 1) < 2 ^ 64 ∧ b.addr % kmemAlign = 8 := by
  by_cases hzero : size = 0
  · simp [Honoured, kalloc, hzero]
  have hcall : kalloc size heap = kmemFind (kmemAligned size) heap := if_neg hzero
  have hfirst := @find_first heap (kmemAligned size) hmagic
  rcases @find_cases heap (kmemAligned size) hmagic with
    ⟨hnone, -⟩ | ⟨pre, curr, rest, hheap, -, hfits, hfound⟩
  · rw [hnone] at hfirst
    have hnothing := Option.map_eq_none_iff.mp hfirst.symm
    constructor
    · intro _
      refine .inr fun b hb => ?_
      rw [hnothing] at hb
      exact nomatch hb
    · intro _ ptr hptr
      rw [hcall, hnone] at hptr
      exact nomatch hptr
  rw [hfound] at hfirst
  obtain ⟨first, hfind, hptr⟩ := Option.map_eq_some_iff.mp hfirst.symm
  have hmem := List.mem_of_find?_eq_some hfind
  -- two blocks at one address are the same block
  have hsame : first = curr := by
    have hnodup := ptrs_nodup htiles
    have hcurr : curr ∈ heap := hheap ▸ mem_append_right pre mem_cons_self
    exact inj_on_of_nodup_map hnodup hmem hcurr hptr
  rw [hsame] at hfind
  have hcurrBound : curr.size + kmemHeaderSize ≤ heapSize := by
    have hlimit := (htiles.bounds addr_le_limit (hsame ▸ hmem)).2
    simp only [KBlock.limit] at hlimit
    omega
  have halign : curr.ptr % kmemAlign = 0 ↔ curr.addr % kmemAlign = 8 := by
    simp only [KBlock.ptr, kmemHeaderSize, kmemAlign]
    omega
  have hround : size ≤ kmemAligned size ↔ size + (kmemAlign - 1) < 2 ^ 64 := by
    simp only [kmemAligned, kmemAlign]
    omega
  -- a request that wraps is larger than every block there is
  have hwrap : ¬ size + (kmemAlign - 1) < 2 ^ 64 → curr.size < size := by
    simp only [kmemAlign, kmemHeaderSize] at hbound hcurrBound ⊢
    omega
  rw [hheap] at htiles
  obtain ⟨b, hb, hbptr, hbsize, hblimit⟩ := @taken_block (kmemAligned size) heapSize curr pre rest htiles
  have hpart : b ∈ pre ++ (kmemTake (kmemAligned size) curr ++ rest) := by simp [hb]
  constructor
  · intro hhonoured
    obtain ⟨haligned, c, hc, hcptr, hcsize, -⟩ := hhonoured curr.ptr (by rw [hcall, hfound])
    refine .inr fun d hd => ?_
    rw [hfind] at hd
    cases hd
    refine ⟨?_, halign.mp haligned⟩
    rw [hcall, hfound] at hc
    -- the block behind the pointer is the one that was taken
    have hafter : KTiles 0 (pre ++ (kmemTake (kmemAligned size) curr ++ rest)) heapSize := by
      obtain ⟨m, hpre, haddr, hrest⟩ := htiles.split
      exact hpre.append ((haddr ▸ take_tiles).append hrest)
    have hcb : c = b := by
      refine inj_on_of_nodup_map (ptrs_nodup hafter) hc hpart ?_
      exact hcptr.trans hbptr.symm
    rw [hcb] at hcsize
    refine Decidable.byContradiction fun hno => ?_
    have hsmall := hwrap hno
    rcases hbsize with hkept | ⟨hcut, hroom⟩
    · omega
    · exact hno (hround.mp (hcut ▸ hcsize))
  · rintro (hempty | hcond) ptr hptr
    · exact absurd hempty hzero
    obtain ⟨hnowrap, haddr⟩ := hcond curr hfind
    rw [hcall, hfound] at hptr
    cases hptr
    rw [hcall, hfound]
    refine ⟨halign.mpr haddr, b, hpart, hbptr, ?_, hblimit⟩
    have hle := hround.mpr hnowrap
    rcases hbsize with hkept | ⟨hcut, -⟩ <;> omega

end

/-- The first block of the heap stands where the pointer behind its header is not
aligned: the first request of every boot. -/
theorem first_request_misaligned : KTiles 0 (kinit (16 * 1024 * 1024)) (16 * 1024 * 1024) ∧
    (∀ b ∈ kinit (16 * 1024 * 1024), b.magic = kmemHeaderMagic) ∧
    (kalloc 1 (kinit (16 * 1024 * 1024))).1 = some 24 ∧
    ¬ Honoured (16 * 1024 * 1024) 1 (kinit (16 * 1024 * 1024)) := by
  refine ⟨⟨rfl, rfl⟩, by decide, rfl, fun h => ?_⟩
  have haligned := (h 24 rfl).1
  exact absurd haligned (by decide)

theorem request_honoured_behind_a_block : ∃ heap : KHeap, Honoured 144 8 heap ∧
    (kalloc 8 heap).1 = some 128 := by
  have htiles : KTiles 0 [⟨0, 80, false, kmemHeaderMagic⟩, ⟨104, 16, true, kmemHeaderMagic⟩] 144 :=
    ⟨rfl, rfl, rfl⟩
  refine ⟨_, (request_honoured (by decide) (by decide) htiles (by decide)).mpr (.inr ?_), rfl⟩
  intro b hb
  cases hb
  decide

end CapyOS.Proofs
