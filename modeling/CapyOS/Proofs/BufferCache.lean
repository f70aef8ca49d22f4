import CapyOS.Fs.BufferCache

namespace CapyOS.Proofs
open Lib BufferCache Function List
variable {i : BufId} {dev : Nat}

/-- The lists of the cache are sound: the LRU list has the unpinned buffers but
`out`, each bucket the buffers whose block hashes to it, and no block has two
buffers. -/
structure LinkedBut (out : BufId → Prop) (c : BufferCache) : Prop where
  lru : ∃ l, c.lru.Holds l ∧ ∀ i, i ∈ l ↔ c.refcount i = 0#16 ∧ ¬ out i
  hash : ∀ h, ∃ l, Chain c.hashNext (c.hashTable h) l ∧
    ∀ i, i ∈ l ↔ c.dev i ≠ 0 ∧ bufferHash (c.dev i) (c.blockNo i) = h
  unique : ∀ i j, c.dev i ≠ 0 → c.dev i = c.dev j → c.blockNo i = c.blockNo j → i = j
  valid : ∀ i, c.valid i = true ↔ c.dev i ≠ 0

def Linked : BufferCache → Prop := LinkedBut (fun _ => False)

structure Coherent (c : BufferCache) (s : BlockStore) : Prop where
  held : ∀ i, c.dev i ≠ 0 → c.data i = s (c.dev i) (c.blockNo i).toNat
  clean : ∀ i, c.dev i ≠ 0 → c.dirty i = false →
    (c.devices (c.dev i)).blocks (c.blockNo i).toNat = s (c.dev i) (c.blockNo i).toNat
  absent : ∀ dev b, (∀ i, c.dev i ≠ 0 → c.dev i = dev → (c.blockNo i).toNat ≠ b) →
    (c.devices dev).blocks b = s dev b
  onDevice : ∀ i, c.dev i ≠ 0 → (c.blockNo i).toNat < (c.devices (c.dev i)).blockCount
  reliable : ∀ dev, (c.devices dev).Reliable

theorem buffers_length {l : List BufId} (h : l.Nodup) : l.length ≤ bufferCacheMax := by
  have hs : l ⊆ List.finRange bufferCacheMax := fun i _ => mem_finRange i
  simpa using List.Nodup.length_le_of_subset h hs

section
variable {c : BufferCache} {s : BlockStore} {out : BufId → Prop}

/-- Storing a block's own contents on its device changes nothing else. -/
theorem Coherent.flush (h : Coherent c s) (hi : c.dev i ≠ 0) : Coherent { c with
      devices := update c.devices (c.dev i) ((c.devices (c.dev i)).write ((c.blockNo i).toNat, c.data i)),
      dirty := update c.dirty i false } s := by
  have hcan := (h.reliable (c.dev i)).canWrite (h.onDevice i hi)
  -- what the devices hold afterwards, block by block
  have hblocks : ∀ dev b, (update c.devices (c.dev i)
      ((c.devices (c.dev i)).write ((c.blockNo i).toNat, c.data i)) dev).blocks b =
      if dev = c.dev i ∧ b = (c.blockNo i).toNat then s dev b else (c.devices dev).blocks b := by
    intro dev b
    by_cases hd : dev = c.dev i
    · subst hd
      rw [update_self]
      by_cases hb : b = (c.blockNo i).toNat
      · subst hb
        rw [if_pos ⟨rfl, rfl⟩, BlockDevice.write_same _ _ hcan, h.held i hi]
      · rw [if_neg (fun hh => hb hh.2), BlockDevice.write_other _ _ hb]
    · rw [update_of_ne hd, if_neg (fun hh => hd hh.1)]
  have hshape : ∀ dev, (update c.devices (c.dev i)
      ((c.devices (c.dev i)).write ((c.blockNo i).toNat, c.data i)) dev).blockCount =
      (c.devices dev).blockCount ∧ ((c.devices dev).Reliable →
        (update c.devices (c.dev i)
          ((c.devices (c.dev i)).write ((c.blockNo i).toNat, c.data i)) dev).Reliable) := by
    intro dev
    by_cases hd : dev = c.dev i
    · subst hd
      rw [update_self]
      exact ⟨BlockDevice.write_blockCount _ _, fun hr n => by simpa using hr n⟩
    · rw [update_of_ne hd]
      exact ⟨rfl, id⟩
  refine ⟨h.held, fun j hj hd => ?_, fun dev b hno => ?_, fun j hj => ?_, fun dev => ?_⟩
  · simp only at hj hd ⊢
    rw [hblocks]
    split
    · rfl
    · rename_i hne
      by_cases hji : j = i
      · subst hji
        exact absurd ⟨rfl, rfl⟩ hne
      · rw [update_of_ne hji] at hd
        exact h.clean j hj hd
  · simp only at hno ⊢
    rw [hblocks]
    split
    · rfl
    · exact h.absent dev b hno
  · simp only at hj ⊢
    rw [(hshape _).1]
    exact h.onDevice j hj
  · exact (hshape dev).2 (h.reliable dev)

theorem writeBack_cases (h : Coherent c s) (i : BufId) : (c.bufferWriteBack i = (0, c) ∧
      (c.dev i = 0 ∨ c.dirty i = false ∨ c.valid i = false)) ∨ (c.dev i ≠ 0 ∧ c.bufferWriteBack i = (0, { c with
      devices := update c.devices (c.dev i) ((c.devices (c.dev i)).write ((c.blockNo i).toNat, c.data i)),
      dirty := update c.dirty i false })) := by
  unfold bufferWriteBack
  by_cases hskip : c.dev i = 0 ∨ c.dirty i = false ∨ c.valid i = false
  · rw [if_pos hskip]
    exact .inl ⟨rfl, hskip⟩
  · rw [if_neg hskip]
    have hi : c.dev i ≠ 0 := fun h0 => hskip (.inl h0)
    rw [if_pos ((h.reliable (c.dev i)).canWrite (h.onDevice i hi))]
    exact .inr ⟨hi, rfl⟩

structure Flushed (c c' : BufferCache) (i : BufId) : Prop where
  dev : c'.dev = c.dev
  blockNo : c'.blockNo = c.blockNo
  data : c'.data = c.data
  refcount : c'.refcount = c.refcount
  lru : c'.lru = c.lru
  others : ∀ j, j ≠ i → c'.dirty j = c.dirty j
  cleaned : c.dirty i = false → c'.dirty i = false

theorem writeBack_spec (hl : LinkedBut out c) (h : Coherent c s) (i : BufId) :
    (c.bufferWriteBack i).1 = 0 ∧ LinkedBut out (c.bufferWriteBack i).2 ∧
      Coherent (c.bufferWriteBack i).2 s ∧ Flushed c (c.bufferWriteBack i).2 i ∧
      (c.valid i = true → (c.bufferWriteBack i).2.dirty i = false) := by
  rcases writeBack_cases h i with ⟨he, hwhy⟩ | ⟨hi, he⟩
  · rw [he]
    refine ⟨rfl, hl, h, ⟨rfl, rfl, rfl, rfl, rfl, fun _ _ => rfl, id⟩, fun hv => ?_⟩
    rcases hwhy with h0 | hd | hv'
    · exact absurd h0 ((hl.valid i).mp hv)
    · exact hd
    · rw [hv] at hv'
      cases hv'
  · rw [he]
    refine ⟨rfl, { hl with }, h.flush hi,
      ⟨rfl, rfl, rfl, rfl, rfl, fun j hj => ?_, fun _ => ?_⟩, fun _ => ?_⟩
    · exact update_of_ne hj _ _
    · exact update_self ..
    · exact update_self ..

end

def Buckets (c : BufferCache) (keep : BufId → Prop) : Prop :=
  ∀ h, ∃ l, Chain c.hashNext (c.hashTable h) l ∧
    ∀ i, i ∈ l ↔ keep i ∧ bufferHash (c.dev i) (c.blockNo i) = h

section
variable {c : BufferCache} {s : BlockStore} {keep : BufId → Prop}

theorem hashRemove_buckets (h : Buckets c keep) (i : BufId) : Buckets (c.hashRemove i) (fun j => keep j ∧ j ≠ i) := by
  intro k
  obtain ⟨l, hl, hmem⟩ := h (bufferHash (c.dev i) (c.blockNo i))
  have hlen := buffers_length hl.nodup
  obtain ⟨hchain, hsame⟩ := unlinkAt_head i hl (Nat.lt_succ_of_le hlen)
  unfold hashRemove
  simp only
  by_cases hk : k = bufferHash (c.dev i) (c.blockNo i)
  · subst hk
    refine ⟨l.erase i, ?_, fun j => ?_⟩
    · rw [update_self]
      exact hchain
    · rw [hl.nodup.mem_erase_iff, hmem]
      exact ⟨fun ⟨hne, hj, he⟩ => ⟨⟨hj, hne⟩, he⟩, fun ⟨⟨hj, hne⟩, he⟩ => ⟨hne, hj, he⟩⟩
  · obtain ⟨l', hl', hmem'⟩ := h k
    refine ⟨l', ?_, fun j => ?_⟩
    · rw [update_of_ne hk]
      refine hl'.congr (fun j hj => hsame j (fun hjl => ?_))
      exact hk (((hmem' j).mp hj).2.symm.trans ((hmem j).mp hjl).2)
    · rw [hmem']
      refine ⟨fun ⟨hj, he⟩ => ⟨⟨hj, ?_⟩, he⟩, fun ⟨⟨hj, _⟩, he⟩ => ⟨hj, he⟩⟩
      rintro rfl
      exact hk he.symm

theorem hashInsert_buckets (h : Buckets c keep) (hi : ¬ keep i) :
    Buckets (c.hashInsert i) (fun j => keep j ∨ j = i) := by
  intro k
  obtain ⟨l, hl, hmem⟩ := h k
  have hil : i ∉ l := fun hm => hi ((hmem i).mp hm).1
  have hchain : ∀ v, Chain (update c.hashNext i v) (c.hashTable k) l := by
    intro v
    refine hl.congr (fun j hj => update_of_ne ?_ _ _)
    rintro rfl
    exact hil hj
  unfold hashInsert
  simp only
  by_cases hk : k = bufferHash (c.dev i) (c.blockNo i)
  · refine ⟨i :: l, ?_, fun j => ?_⟩
    · rw [hk, update_self, ← hk]
      refine .cons i l ?_
      rw [update_self]
      exact hchain _
    · rw [mem_cons, hmem]
      constructor
      · rintro (rfl | ⟨hj, he⟩)
        · exact ⟨.inr rfl, hk.symm⟩
        · exact ⟨.inl hj, he⟩
      · rintro ⟨hj | rfl, he⟩
        · exact .inr ⟨hj, he⟩
        · exact .inl rfl
  · refine ⟨l, ?_, fun j => ?_⟩
    · rw [update_of_ne hk]
      exact hchain _
    · rw [hmem]
      refine ⟨fun ⟨hj, he⟩ => ⟨.inl hj, he⟩, ?_⟩
      rintro ⟨hj | rfl, he⟩
      · exact ⟨hj, he⟩
      · exact absurd he.symm hk

/-- Only the buffers that hold a block matter, and not how they are linked. -/
theorem Coherent.of_held {c' : BufferCache} (h : Coherent c s) (hdev : c'.dev = c.dev) (hheld : ∀ j, c.dev j ≠ 0 →
      c'.blockNo j = c.blockNo j ∧ c'.data j = c.data j ∧ c'.dirty j = c.dirty j)
    (hdevices : c'.devices = c.devices) : Coherent c' s := by
  refine ⟨fun j hj => ?_, fun j hj hd => ?_, fun dev b hno => ?_, fun j hj => ?_, fun dev => ?_⟩
  · rw [hdev] at hj ⊢
    obtain ⟨hb, hdata, _⟩ := hheld j hj
    rw [hb, hdata]
    exact h.held j hj
  · rw [hdev] at hj ⊢
    obtain ⟨hb, _, hdirty⟩ := hheld j hj
    rw [hb, hdevices]
    exact h.clean j hj (hdirty ▸ hd)
  · rw [hdevices]
    refine h.absent dev b (fun j hj hd => ?_)
    rw [← (hheld j hj).1]
    exact hno j (by rw [hdev]; exact hj) (by rw [hdev]; exact hd)
  · rw [hdev] at hj ⊢
    rw [(hheld j hj).1, hdevices]
    exact h.onDevice j hj
  · rw [hdevices]
    exact h.reliable dev

theorem Coherent.forget (h : Coherent c s) (hi : c.dev i = 0 ∨ c.dirty i = false) : Coherent { c with
      dev := update c.dev i 0, blockNo := update c.blockNo i 0, dirty := update c.dirty i false,
      valid := update c.valid i false } s := by
  have hother : ∀ j, update c.dev i 0 j ≠ 0 → j ≠ i := by
    rintro j hj rfl
    exact hj (update_self ..)
  refine ⟨fun j hj => ?_, fun j hj hd => ?_, fun dev b hno => ?_, fun j hj => ?_, h.reliable⟩
  · have hne := hother j hj
    simp only [update_of_ne hne] at hj ⊢
    exact h.held j hj
  · have hne := hother j hj
    simp only [update_of_ne hne] at hj hd ⊢
    exact h.clean j hj hd
  · by_cases hheld : c.dev i ≠ 0 ∧ c.dev i = dev ∧ (c.blockNo i).toNat = b
    · obtain ⟨h0, rfl, rfl⟩ := hheld
      rcases hi with hi | hi
      · exact absurd hi h0
      · exact h.clean i h0 hi
    · refine h.absent dev b (fun j hj hd hb => ?_)
      by_cases hji : j = i
      · subst hji
        exact hheld ⟨hj, hd, hb⟩
      · have := hno j
        simp only [update_of_ne hji] at this
        exact this hj hd hb
  · have hne := hother j hj
    simp only [update_of_ne hne] at hj ⊢
    exact h.onDevice j hj

structure Evicted (c c' : BufferCache) (s : BlockStore) (i : BufId) : Prop where
  linked : LinkedBut (fun j => j = i) c'
  coherent : Coherent c' s
  empty : c'.dev i = 0
  unpinned : c.refcount i = 0#16
  refcount : c'.refcount = c.refcount
  dev : ∀ j, j ≠ i → c'.dev j = c.dev j
  blockNo : ∀ j, j ≠ i → c'.blockNo j = c.blockNo j

theorem evict_spec {c' : BufferCache} (hl : Linked c) (h : Coherent c s)
    (he : c.bufferEvict = some (i, c')) : Evicted c c' s i := by
  obtain ⟨l, hlru, hmem⟩ := hl.lru
  have hfind := hlru.bwd.walk (fun i => c.refcount i == 0#16)
    (Nat.le_trans (Nat.le_of_eq length_reverse) (buffers_length hlru.fwd.nodup))
  unfold bufferEvict at he
  rw [hfind] at he
  cases hf : l.reverse.find? (fun i => c.refcount i == 0#16) with
  | none => simp [hf] at he
  | some j =>
    simp only [hf, Option.some.injEq, Prod.mk.injEq] at he
    obtain ⟨rfl, rfl⟩ := he
    have hjl : j ∈ l := List.mem_reverse.mp (List.mem_of_find?_eq_some hf)
    have hl1 : LinkedBut (fun i => i = j) (c.lruRemove j) := by
      refine ⟨⟨l.erase j, hlru.remove hjl, fun i => ?_⟩, hl.hash, hl.unique, hl.valid⟩
      rw [hlru.fwd.nodup.mem_erase_iff, hmem]
      exact ⟨fun ⟨hne, hr, _⟩ => ⟨hr, hne⟩, fun ⟨hr, hne⟩ => ⟨hne, hr, not_false⟩⟩
    have hc1 : Coherent (c.lruRemove j) s := { h with }
    -- the buffer is written back first if that is needed
    obtain ⟨c2, hc2eq, hl2, hc2, hflush, hclean⟩ : ∃ c2, (if (c.lruRemove j).dirty j && (c.lruRemove j).valid j then
          ((c.lruRemove j).bufferWriteBack j).2 else c.lruRemove j) = c2 ∧
        LinkedBut (fun i => i = j) c2 ∧ Coherent c2 s ∧ Flushed (c.lruRemove j) c2 j ∧
        (c2.dev j = 0 ∨ c2.dirty j = false) := by
      refine ⟨_, rfl, ?_⟩
      obtain ⟨_, hlw, hcw, hfw, hdw⟩ := writeBack_spec hl1 hc1 j
      by_cases hd : ((c.lruRemove j).dirty j && (c.lruRemove j).valid j) = true
      · rw [if_pos hd]
        simp only [Bool.and_eq_true] at hd
        exact ⟨hlw, hcw, hfw, .inr (hdw hd.2)⟩
      · rw [if_neg hd]
        refine ⟨hl1, hc1, ⟨rfl, rfl, rfl, rfl, rfl, fun _ _ => rfl, id⟩, ?_⟩
        by_cases hv : (c.lruRemove j).valid j = true
        · exact .inr (by simpa [hv] using hd)
        · exact .inl (by_contra fun h0 => hv ((hl1.valid j).mpr h0))
    rw [hc2eq]
    have hb := hashRemove_buckets hl2.hash j
    have hc3 : Coherent (c2.hashRemove j) s :=
      ⟨hc2.held, hc2.clean, hc2.absent, hc2.onDevice, hc2.reliable⟩
    refine ⟨⟨hl2.lru, fun k => ?_, fun i i' hi hd hb' => ?_, fun i => ?_⟩, hc3.forget hclean, ?_, ?_,
      hflush.refcount, ?_, ?_⟩
    · obtain ⟨l', hl', hmem'⟩ := hb k
      refine ⟨l', hl', fun i => ?_⟩
      rw [hmem']
      by_cases hij : i = j
      · subst hij
        simp
      · simp only [update_of_ne hij]
        exact ⟨fun ⟨⟨hd, _⟩, hk⟩ => ⟨hd, hk⟩, fun ⟨hd, hk⟩ => ⟨⟨hd, hij⟩, hk⟩⟩
    · have hij : i ≠ j := by
        rintro rfl
        exact hi (update_self ..)
      have hij' : i' ≠ j := by
        rintro rfl
        simp only [update_self, update_of_ne hij] at hi hd
        exact hi hd
      simp only [update_of_ne hij, update_of_ne hij'] at hi hd hb'
      exact hl2.unique i i' hi hd hb'
    · by_cases hij : i = j
      · subst hij
        simp
      · simp only [update_of_ne hij]
        exact hl2.valid i
    · exact update_self ..
    · exact ((hmem j).mp hjl).1
    · intro i hij
      exact (update_of_ne hij _ _).trans (congrFun hflush.dev i)
    · intro i hij
      exact (update_of_ne hij _ _).trans (congrFun hflush.blockNo i)

/-- A lookup finds the buffer of a block, if there is one. -/
theorem hashLookup_spec (h : Buckets c (fun i => c.dev i ≠ 0)) (hdev : dev ≠ 0) (blockNo : BitVec 32) :
    (∀ i, c.hashLookup dev blockNo = some i → c.dev i = dev ∧ c.blockNo i = blockNo) ∧
    (c.hashLookup dev blockNo = none → ∀ i, c.dev i = dev → c.blockNo i ≠ blockNo) := by
  obtain ⟨l, hchain, hmem⟩ := h (bufferHash dev blockNo)
  unfold hashLookup
  rw [hchain.walk _ (buffers_length hchain.nodup)]
  constructor
  · intro i hi
    have := List.find?_some hi
    simpa using this
  · intro hn i hd hb
    have := List.find?_eq_none.mp hn i ((hmem i).mpr ⟨show c.dev i ≠ 0 from hd ▸ hdev, by rw [hd, hb]⟩)
    simp [hd, hb] at this

end

section
variable {c : BufferCache} {s : BlockStore}

structure Got (c c' : BufferCache) (s : BlockStore) (dev : Nat) (blockNo : BitVec 32) (i : BufId) :
    Prop where
  coherent : Coherent c' s
  dev : c'.dev i = dev
  blockNo : c'.blockNo i = blockNo
  valid : c'.valid i = true
  others : ∀ j, j ≠ i →
    c'.dev j = c.dev j ∧ c'.blockNo j = c.blockNo j ∧ c'.refcount j = c.refcount j

theorem pin_ne_zero {r : BitVec 16} (h : r ≠ 65535#16) : r + 1 ≠ 0#16 := by
  intro hz
  apply h
  calc r = r + 1 - 1 := (BitVec.add_sub_cancel r 1).symm
    _ = 65535#16 := by rw [hz]; rfl

theorem get_hit (hl : Linked c) (h : Coherent c s) {blockNo : BitVec 32}
    (hok : ¬ (dev = 0 ∨ (c.devices dev).blockSize ≠ bufferBlockSize)) (hi : c.hashLookup dev blockNo = some i) :
    (c.bufferGet dev blockNo).1 = some i ∧ Got c (c.bufferGet dev blockNo).2 s dev blockNo i ∧
      (c.refcount i ≠ 65535#16 → Linked (c.bufferGet dev blockNo).2) := by
  obtain ⟨hd, hb⟩ := (hashLookup_spec hl.hash (fun h0 => hok (.inl h0)) blockNo).1 i hi
  have hv : c.valid i = true := (hl.valid i).mpr (by rw [hd]; exact fun h0 => hok (.inl h0))
  obtain ⟨l, hlru, hmem⟩ := hl.lru
  unfold BufferCache.bufferGet
  rw [if_neg hok, hi]
  simp only
  by_cases hr : c.refcount i = 0#16
  · have hil : i ∈ l := (hmem i).mpr ⟨hr, not_false⟩
    rw [if_pos hr]
    refine ⟨trivial, ⟨{ h with }, hd, hb, hv, fun j hj =>
      ⟨rfl, rfl, update_of_ne hj _ _⟩⟩, fun _ => ?_⟩
    refine ⟨⟨l.erase i, hlru.remove hil, fun j => ?_⟩, hl.hash, hl.unique, hl.valid⟩
    rw [hlru.fwd.nodup.mem_erase_iff, hmem]
    by_cases hj : j = i
    · subst hj
      simp [lruRemove, hr]
    · simp [hj, lruRemove]
  · rw [if_neg hr]
    refine ⟨trivial, ⟨{ h with }, hd, hb, hv, fun j hj =>
      ⟨rfl, rfl, update_of_ne hj _ _⟩⟩, fun hw => ?_⟩
    refine ⟨⟨l, hlru, fun j => ?_⟩, hl.hash, hl.unique, hl.valid⟩
    rw [hmem]
    by_cases hj : j = i
    · subst hj
      have hpin : ¬ c.refcount j + 1#16 = 0#16 := pin_ne_zero hw
      simp [hr, hpin]
    · simp [hj]

theorem get_miss (hl : Linked c) (h : Coherent c s) {blockNo : BitVec 32}
    (hok : ¬ (dev = 0 ∨ (c.devices dev).blockSize ≠ bufferBlockSize)) (hn : c.hashLookup dev blockNo = none) :
    Linked (c.bufferGet dev blockNo).2 ∧ Coherent (c.bufferGet dev blockNo).2 s ∧ ∀ i, (c.bufferGet dev blockNo).1 = some i →
        Got c (c.bufferGet dev blockNo).2 s dev blockNo i := by
  have hdev : dev ≠ 0 := fun h0 => hok (.inl h0)
  have hnone := (hashLookup_spec hl.hash hdev blockNo).2 hn
  unfold BufferCache.bufferGet
  rw [if_neg hok, hn]
  simp only
  cases hev : c.bufferEvict with
  | none => exact ⟨hl, h, fun i hi => by cases hi⟩
  | some r =>
    obtain ⟨i, c1⟩ := r
    have he := evict_spec hl h hev
    obtain ⟨l, hlru, hmem⟩ := he.linked.lru
    have hil : i ∉ l := fun hm => ((hmem i).mp hm).2 rfl
    -- no other buffer has the block either
    have hfree : ∀ j, j ≠ i → c1.dev j = dev → c1.blockNo j ≠ blockNo := by
      intro j hj hd
      rw [he.dev j hj] at hd
      rw [he.blockNo j hj]
      exact hnone j hd
    simp only
    cases hread : blockDeviceRead (c1.devices dev) blockNo.toNat with
    | none =>
      refine ⟨⟨⟨i :: l, hlru.insertFront hil, fun j => ?_⟩, fun k => ?_, fun j j' hj hd hb => ?_,
        fun j => ?_⟩, ?_, fun i hi => by cases hi⟩
      · rw [mem_cons, hmem]
        by_cases hj : j = i
        · subst hj
          simp [lruInsertFront]
        · simp [hj, lruInsertFront]
      · obtain ⟨l', hl', hmem'⟩ := he.linked.hash k
        refine ⟨l', hl', fun j => ?_⟩
        rw [hmem']
        by_cases hj : j = i
        · subst hj
          simp [lruInsertFront, he.empty]
        · simp [hj, lruInsertFront]
      · have hji : j ≠ i := by
          rintro rfl
          simp [lruInsertFront] at hj
        have hji' : j' ≠ i := by
          rintro rfl
          simp [lruInsertFront, hji] at hj hd
          exact hj hd
        simp only [lruInsertFront, update_of_ne hji, update_of_ne hji'] at hj hd hb
        exact he.linked.unique j j' hj hd hb
      · by_cases hj : j = i
        · subst hj
          have hv := he.linked.valid j
          rw [he.empty] at hv
          simp [lruInsertFront, hv]
        · have hv := he.linked.valid j
          simp [lruInsertFront, hj, hv]
      · refine he.coherent.of_held ?_ ?_ rfl
        · simp [lruInsertFront, ← he.empty]
        · intro j hj
          have hji : j ≠ i := by
            rintro rfl
            exact hj he.empty
          simp [lruInsertFront, hji]
    | some b =>
      obtain ⟨hcan, hbytes⟩ := blockDeviceRead_some hread
      have hstored : b = s dev blockNo.toNat := by
        rw [hbytes]
        refine he.coherent.absent dev blockNo.toNat (fun j hj hd hb => ?_)
        have hji : j ≠ i := by
          rintro rfl
          exact hj he.empty
        exact hfree j hji hd (BitVec.eq_of_toNat_eq hb)
      have hlink : Linked (hashInsert { c1 with
          dev := update c1.dev i dev, blockNo := update c1.blockNo i blockNo,
          refcount := update c1.refcount i 1, data := update c1.data i b,
          valid := update c1.valid i true, dirty := update c1.dirty i false } i) := by
        refine ⟨⟨l, hlru, fun j => ?_⟩, ?_, fun j j' hj hd hb => ?_, fun j => ?_⟩
        · rw [hmem]
          by_cases hj : j = i
          · subst hj
            simp [hashInsert]
          · simp [hj, hashInsert]
        · have hbuckets : Buckets { c1 with
              dev := update c1.dev i dev, blockNo := update c1.blockNo i blockNo,
              refcount := update c1.refcount i 1, data := update c1.data i b,
              valid := update c1.valid i true,
              dirty := update c1.dirty i false } (fun j => c1.dev j ≠ 0) := by
            intro k
            obtain ⟨l', hl', hmem'⟩ := he.linked.hash k
            refine ⟨l', hl', fun j => ?_⟩
            rw [hmem']
            by_cases hj : j = i
            · subst hj
              simp [he.empty]
            · simp [hj]
          intro k
          obtain ⟨l', hl', hmem'⟩ := hashInsert_buckets hbuckets (not_not_intro he.empty) k
          refine ⟨l', hl', fun j => ?_⟩
          rw [hmem']
          by_cases hj : j = i
          · subst hj
            simp [hashInsert, hdev]
          · simp [hashInsert, hj]
        · by_cases hji : j = i
          · by_cases hji' : j' = i
            · rw [hji, hji']
            · subst hji
              simp only [hashInsert, update_self, update_of_ne hji'] at hd hb
              exact absurd hb.symm (hfree j' hji' hd.symm)
          · by_cases hji' : j' = i
            · subst hji'
              simp only [hashInsert, update_self, update_of_ne hji] at hd hb
              exact absurd hb (hfree j hji hd)
            · simp only [hashInsert, update_of_ne hji, update_of_ne hji'] at hj hd hb
              exact he.linked.unique j j' hj hd hb
        · by_cases hj : j = i
          · subst hj
            simp [hashInsert, hdev]
          · simpa [hashInsert, hj] using he.linked.valid j
      have hco := he.coherent
      have hcoh : Coherent (hashInsert { c1 with
          dev := update c1.dev i dev, blockNo := update c1.blockNo i blockNo,
          refcount := update c1.refcount i 1, data := update c1.data i b,
          valid := update c1.valid i true, dirty := update c1.dirty i false } i) s := by
        refine ⟨fun j hj => ?_, fun j hj hd => ?_, fun dev' b' hno => ?_, fun j hj => ?_,
          hco.reliable⟩
        · by_cases hji : j = i
          · subst hji
            simpa [hashInsert] using hstored
          · simp only [hashInsert, update_of_ne hji] at hj ⊢
            exact hco.held j hj
        · by_cases hji : j = i
          · subst hji
            simpa [hashInsert, ← hbytes] using hstored
          · simp only [hashInsert, update_of_ne hji] at hj hd ⊢
            exact hco.clean j hj hd
        · refine hco.absent dev' b' (fun j hj hd => ?_)
          have hji : j ≠ i := by
            rintro rfl
            exact hj he.empty
          have := hno j
          simp only [hashInsert, update_of_ne hji] at this
          exact this hj hd
        · by_cases hji : j = i
          · subst hji
            have hlt : blockNo.toNat < (c1.devices dev).blockCount := by
              simp only [BlockDevice.canRead, Bool.and_eq_true, decide_eq_true_eq] at hcan
              exact hcan.1
            simpa [hashInsert] using hlt
          · simp only [hashInsert, update_of_ne hji] at hj ⊢
            exact hco.onDevice j hj
      refine ⟨hlink, hcoh, ?_⟩
      rintro _ ⟨⟩
      refine ⟨hcoh, ?_, ?_, ?_, fun j hj => ?_⟩
      · simp [hashInsert]
      · simp [hashInsert]
      · simp [hashInsert]
      · simp [hashInsert, hj, he.dev j hj, he.blockNo j hj, he.refcount]

end

section
variable {c : BufferCache} {s : BlockStore}

theorem get_spec (hl : Linked c) (h : Coherent c s) (dev : Nat) (blockNo : BitVec 32) : Coherent (c.bufferGet dev blockNo).2 s ∧
      (∀ i, (c.bufferGet dev blockNo).1 = some i → Got c (c.bufferGet dev blockNo).2 s dev blockNo i) ∧
      ((∀ i, c.dev i = dev → c.blockNo i = blockNo → c.refcount i ≠ 65535#16) → Linked (c.bufferGet dev blockNo).2) := by
  by_cases hok : dev = 0 ∨ (c.devices dev).blockSize ≠ bufferBlockSize
  · have he : c.bufferGet dev blockNo = (none, c) := by
      unfold BufferCache.bufferGet
      rw [if_pos hok]
    rw [he]
    exact ⟨h, nofun, fun _ => hl⟩
  · cases hi : c.hashLookup dev blockNo with
    | none =>
      obtain ⟨hlink, hcoh, hgot⟩ := get_miss hl h hok hi
      exact ⟨hcoh, hgot, fun _ => hlink⟩
    | some i =>
      obtain ⟨hret, hgot, hlink⟩ := get_hit hl h hok hi
      obtain ⟨hd, hb⟩ := (hashLookup_spec hl.hash (fun h0 => hok (.inl h0)) blockNo).1 i hi
      refine ⟨hgot.coherent, fun j hj => ?_, fun hw => hlink (hw i hd hb)⟩
      rw [hret] at hj
      cases hj
      exact hgot

theorem release_spec (hl : Linked c) (h : Coherent c s) (i : BufId) :
    Linked (c.bufferRelease i) ∧ Coherent (c.bufferRelease i) s ∧
      (c.bufferRelease i).dev = c.dev ∧ (c.bufferRelease i).blockNo = c.blockNo ∧
      ∀ j, j ≠ i → (c.bufferRelease i).refcount j = c.refcount j := by
  unfold bufferRelease
  by_cases hr : c.refcount i = 0#16
  · rw [if_pos hr]
    exact ⟨hl, h, rfl, rfl, fun _ _ => rfl⟩
  · obtain ⟨l, hlru, hmem⟩ := hl.lru
    rw [if_neg hr]
    simp only [update_self]
    by_cases hz : c.refcount i - 1 = 0#16
    · have hil : i ∉ l := fun hm => hr ((hmem i).mp hm).1
      rw [if_pos hz]
      refine ⟨⟨⟨i :: l, hlru.insertFront hil, fun j => ?_⟩, hl.hash, hl.unique, hl.valid⟩,
        { h with }, rfl, rfl, fun j hj => update_of_ne hj _ _⟩
      rw [mem_cons, hmem]
      by_cases hj : j = i
      · subst hj
        simpa [lruInsertFront] using hz
      · simp [hj, lruInsertFront]
    · rw [if_neg hz]
      refine ⟨⟨⟨l, hlru, fun j => ?_⟩, hl.hash, hl.unique, hl.valid⟩,
        { h with }, rfl, rfl, fun j hj => update_of_ne hj _ _⟩
      rw [hmem]
      by_cases hj : j = i
      · subst hj
        have hz' : ¬ c.refcount j - 1#16 = 0#16 := hz
        simp [hr, hz']
      · simp [hj]

theorem modify_spec (hl : Linked c) (h : Coherent c s) (i : BufId) (b : Bytes) :
    Linked (c.step (.modify i b)) ∧ Coherent (c.step (.modify i b)) (storeStep c s (.modify i b)) := by
  refine ⟨{ hl with }, ?_⟩
  simp only [step, bufferMarkDirty, storeStep]
  by_cases h0 : c.dev i = 0
  · rw [if_pos h0]
    refine h.of_held rfl (fun j hj => ?_) rfl
    have hji : j ≠ i := by
      rintro rfl
      exact hj h0
    simp [hji]
  · rw [if_neg h0]
    -- only the block of buffer `i` is stored anew, and no other buffer has it
    have hstore : ∀ dev n, update s (c.dev i)
        (update (s (c.dev i)) (c.blockNo i).toNat b) dev n =
        if dev = c.dev i ∧ n = (c.blockNo i).toNat then b else s dev n := by
      intro dev n
      by_cases hd : dev = c.dev i
      · subst hd
        by_cases hn : n = (c.blockNo i).toNat
        · simp [hn]
        · simp [hn]
      · simp [hd]
    have hother : ∀ j, c.dev j ≠ 0 → j ≠ i →
        ¬ (c.dev j = c.dev i ∧ (c.blockNo j).toNat = (c.blockNo i).toNat) := by
      rintro j hj hji ⟨hd, hb⟩
      exact hji (hl.unique j i hj hd (BitVec.eq_of_toNat_eq hb))
    refine ⟨fun j hj => ?_, fun j hj hd => ?_, fun dev n hno => ?_, h.onDevice, h.reliable⟩
    · rw [hstore]
      by_cases hji : j = i
      · subst hji
        simp
      · rw [if_neg (hother j hj hji)]
        simpa [hji] using h.held j hj
    · have hji : j ≠ i := by
        rintro rfl
        simp at hd
      simp only [update_of_ne hji] at hd
      rw [hstore, if_neg (hother j hj hji)]
      exact h.clean j hj hd
    · rw [hstore, if_neg]
      · exact h.absent dev n hno
      · rintro ⟨hd, hn⟩
        exact hno i h0 hd.symm hn.symm

theorem syncBuffers_spec (dev : Nat) (l : List BufId) (hl : Linked c) (h : Coherent c s) :
    let r := l.foldl (syncBuffer dev) (0, c)
    r.1 = 0 ∧ Linked r.2 ∧ Coherent r.2 s ∧ r.2.dev = c.dev ∧ r.2.blockNo = c.blockNo ∧
      (∀ j, c.dirty j = false → r.2.dirty j = false) ∧
      (∀ j ∈ l, c.dev j = dev → c.dev j ≠ 0 → r.2.dirty j = false) := by
  induction l generalizing c with
  | nil => exact ⟨rfl, hl, h, rfl, rfl, fun _ hd => hd, by simp⟩
  | cons i l ih =>
    rw [foldl_cons]
    -- the round on buffer `i` leaves a sound cache with the buffer clean, if it is the device's
    obtain ⟨c', he, hl', hc', hdev, hblk, hkeep, hclean⟩ : ∃ c', syncBuffer dev (0, c) i = (0, c') ∧
        Linked c' ∧ Coherent c' s ∧ c'.dev = c.dev ∧ c'.blockNo = c.blockNo ∧
        (∀ j, c.dirty j = false → c'.dirty j = false) ∧
        (c.dev i = dev → c.dev i ≠ 0 → c'.dirty i = false) := by
      unfold syncBuffer
      by_cases hi : c.dev i = dev ∧ c.dirty i = true ∧ c.valid i = true
      · obtain ⟨hrc, hlw, hcw, hfw, hdw⟩ := writeBack_spec hl h i
        simp only [if_pos hi, hrc]
        refine ⟨_, rfl, hlw, hcw, hfw.dev, hfw.blockNo, fun j hj => ?_, fun _ _ => hdw hi.2.2⟩
        by_cases hji : j = i
        · subst hji
          exact hfw.cleaned hj
        · rw [hfw.others j hji]
          exact hj
      · simp only [if_neg hi]
        refine ⟨c, rfl, hl, h, rfl, rfl, fun _ hd => hd, fun hd h0 => ?_⟩
        have hv := (hl.valid i).mpr h0
        by_contra hdirty
        exact hi ⟨hd, by simpa using hdirty, hv⟩
    rw [he]
    obtain ⟨hrc, hlr, hcr, hdr, hbr, hkr, hcl⟩ := ih hl' hc'
    refine ⟨hrc, hlr, hcr, hdr.trans hdev, hbr.trans hblk, fun j hj => hkr j (hkeep j hj), ?_⟩
    intro j hj hd h0
    rcases List.mem_cons.mp hj with rfl | hj
    · exact hkr j (hclean hd h0)
    · exact hcl j hj (by rw [hdev]; exact hd) (by rw [hdev]; exact h0)

theorem sync_spec (hl : Linked c) (h : Coherent c s) (dev : Nat) :
    (c.bufferCacheSync dev).1 = 0 ∧ Linked (c.bufferCacheSync dev).2 ∧ Coherent (c.bufferCacheSync dev).2 s ∧
      ∀ b, ((c.bufferCacheSync dev).2.devices dev).blocks b = s dev b := by
  have hall := syncBuffers_spec dev (List.finRange bufferCacheMax) hl h
  unfold bufferCacheSync
  generalize (List.finRange bufferCacheMax).foldl (syncBuffer dev) (0, c) = r at hall
  obtain ⟨hrc, hl', hc', hdev, _, _, hclean⟩ := hall
  refine ⟨hrc, hl', hc', fun b => ?_⟩
  by_cases hheld : ∃ i, r.2.dev i ≠ 0 ∧ r.2.dev i = dev ∧ (r.2.blockNo i).toNat = b
  · obtain ⟨i, h0, rfl, rfl⟩ := hheld
    rw [hdev] at h0
    have hdirty := hclean i (mem_finRange i) (congrFun hdev i).symm h0
    rw [← hdev] at h0
    exact hc'.clean i h0 hdirty
  · exact hc'.absent dev b (fun i h0 hd hb => hheld ⟨i, h0, hd, hb⟩)

theorem writebackFrom_spec (dev maxBlocks n : Nat) (bh : Option BufId) (written : Nat) (hl : Linked c) (h : Coherent c s) :
    Linked (writebackFrom dev maxBlocks n bh written c).2 ∧ Coherent (writebackFrom dev maxBlocks n bh written c).2 s := by
  induction n generalizing bh written c with
  | zero => exact ⟨hl, h⟩
  | succ n ih =>
    cases bh with
    | none => exact ⟨hl, h⟩
    | some i =>
      obtain ⟨hrc, hlw, hcw, _, _⟩ := writeBack_spec hl h i
      simp only [writebackFrom]
      split
      · exact ⟨hl, h⟩
      · split
        · rw [if_neg (not_not_intro hrc)]
          exact ih _ _ hlw hcw
        · exact ih _ _ hl h

theorem readaheadFrom_spec (dev n pos loaded : Nat) (hl : Linked c) (h : Coherent c s)
    (hw : ∀ i, c.dev i = dev → pos ≤ (c.blockNo i).toNat → (c.blockNo i).toNat < pos + n → c.refcount i ≠ 65535#16) :
    Linked (readaheadFrom dev n pos loaded c).2 ∧ Coherent (readaheadFrom dev n pos loaded c).2 s := by
  induction n generalizing pos loaded c with
  | zero => exact ⟨hl, h⟩
  | succ n ih =>
    simp only [readaheadFrom]
    split
    · exact ⟨hl, h⟩
    · rename_i hpos
      split
      · exact ⟨hl, h⟩
      · have hnat : (BitVec.ofNat 32 pos).toNat = pos := by
          rw [BitVec.toNat_ofNat]
          exact Nat.mod_eq_of_lt (by omega)
        obtain ⟨hcoh, hgot, hlink⟩ := get_spec hl h dev (BitVec.ofNat 32 pos)
        have hlink := hlink (fun i hd hb =>
          hw i hd (Nat.le_of_eq (by rw [hb, hnat])) (by rw [hb, hnat]; omega))
        cases hg : c.bufferGet dev (BitVec.ofNat 32 pos) with
        | mk r c' =>
          rw [hg] at hcoh hgot hlink
          cases r with
          | none => exact ⟨hlink, hcoh⟩
          | some i =>
            have hgot := hgot i rfl
            obtain ⟨hlr, hcr, hdr, hbr, hrr⟩ := release_spec hlink hcoh i
            refine ih _ _ hlr hcr (fun j hd hlo hhi => ?_)
            rw [hdr] at hd
            rw [hbr] at hlo hhi
            have hji : j ≠ i := by
              rintro rfl
              rw [hgot.blockNo, hnat] at hlo
              omega
            obtain ⟨hdj, hbj, hrj⟩ := hgot.others j hji
            rw [hrr j hji, hrj]
            rw [hdj] at hd
            rw [hbj] at hlo hhi
            exact hw j hd (by omega) (by omega)

def NoWrap (c : BufferCache) : BufOp → Prop
  | .get dev blockNo =>
    ∀ i, c.dev i = dev → c.blockNo i = blockNo → c.refcount i ≠ 65535#16
  | .readahead dev startBlock count =>
    ∀ i, c.dev i = dev → startBlock.toNat ≤ (c.blockNo i).toNat →
      (c.blockNo i).toNat < startBlock.toNat + count.toNat → c.refcount i ≠ 65535#16
  | _ => True

theorem step_spec (hl : Linked c) (h : Coherent c s) (op : BufOp) (hw : NoWrap c op) :
    Linked (c.step op) ∧ Coherent (c.step op) (storeStep c s op) := by
  cases op with
  | get dev blockNo =>
    obtain ⟨hcoh, _, hlink⟩ := get_spec hl h dev blockNo
    exact ⟨hlink hw, hcoh⟩
  | modify i b => exact modify_spec hl h i b
  | release i =>
    obtain ⟨hl', hc', _⟩ := release_spec hl h i
    exact ⟨hl', hc'⟩
  | writeBack i =>
    obtain ⟨_, hl', hc', _⟩ := writeBack_spec hl h i
    exact ⟨hl', hc'⟩
  | sync dev =>
    obtain ⟨_, hl', hc', _⟩ := sync_spec hl h dev
    exact ⟨hl', hc'⟩
  | writebackPass dev maxBlocks =>
    simp only [step, bufferCacheWritebackPass, storeStep]
    split
    · exact ⟨hl, h⟩
    · exact writebackFrom_spec dev maxBlocks.toNat bufferCacheMax c.lru.tail 0 hl h
  | readahead dev startBlock count =>
    simp only [step, bufferCacheReadahead, storeStep]
    split
    · exact ⟨hl, h⟩
    · exact readaheadFrom_spec dev count.toNat startBlock.toNat 0 hl h hw

end

def NoWrapFrom (c : BufferCache) : List BufOp → Prop
  | [] => True
  | op :: ops => NoWrap c op ∧ NoWrapFrom (c.step op) ops

theorem run_spec (ops : List BufOp) {c : BufferCache} {s : BlockStore} (hl : Linked c)
    (h : Coherent c s) (hw : NoWrapFrom c ops) :
    let r := ops.foldl (fun r op => (r.1.step op, storeStep r.1 r.2 op)) (c, s)
    Linked r.1 ∧ Coherent r.1 r.2 := by
  induction ops generalizing c s with
  | nil => exact ⟨hl, h⟩
  | cons op ops ih =>
    obtain ⟨hl', hc'⟩ := step_spec hl h op hw.1
    exact ih hl' hc' hw.2

theorem insertAll_spec (l : List BufId) (c : BufferCache) :
    l.foldl lruInsertFront c = { c with lru := l.foldl Dll.insertFront c.lru } := by
  induction l generalizing c with
  | nil => rfl
  | cons i l ih =>
    rw [foldl_cons, ih]
    rfl

theorem insertAll_holds (l : List BufId) {d : Dll BufId} {m : List BufId} (h : d.Holds m)
    (hn : l.Nodup) (hd : ∀ i ∈ l, i ∉ m) : (l.foldl Dll.insertFront d).Holds (l.reverse ++ m) := by
  induction l generalizing d m with
  | nil => exact h
  | cons i l ih =>
    obtain ⟨hi, hn⟩ := List.nodup_cons.mp hn
    rw [foldl_cons, reverse_cons, append_assoc]
    refine ih (h.insertFront (hd i mem_cons_self)) hn (fun j hj => ?_)
    rw [singleton_append, mem_cons, not_or]
    refine ⟨?_, hd j (mem_cons_of_mem _ hj)⟩
    rintro rfl
    exact hi hj

theorem init_spec {devices : Nat → BlockDevice} (hd : ∀ dev, (devices dev).Reliable) :
    Linked (init devices) ∧ Coherent (init devices) (deviceStore devices) := by
  unfold init
  rw [insertAll_spec]
  constructor
  · refine ⟨⟨_, insertAll_holds _ ⟨.nil, .nil⟩ (nodup_finRange _) (by simp), fun i => ?_⟩,
      fun k => ⟨[], .nil, fun i => ?_⟩, fun i j h0 => ?_, fun i => ?_⟩
    · simp
    · simp
    · exact absurd rfl h0
    · simp
  · refine ⟨fun i h0 => absurd rfl h0, fun i h0 => absurd rfl h0, fun _ _ _ => rfl,
      fun i h0 => absurd rfl h0, hd⟩

/-- As long as no pin count wraps, the cache is as good as the devices themselves:
its lists are sound, a get returns what is stored for the block, and a sync brings
a device up to date. -/
theorem cache_refines (devices : Nat → BlockDevice) (hd : ∀ dev, (devices dev).Reliable)
    (ops : List BufOp) (hw : NoWrapFrom (init devices) ops) :
    Linked (cacheRun devices ops).1 ∧
    (∀ dev blockNo i, ((cacheRun devices ops).1.bufferGet dev blockNo).1 = some i →
      ((cacheRun devices ops).1.bufferGet dev blockNo).2.dev i = dev ∧
      ((cacheRun devices ops).1.bufferGet dev blockNo).2.blockNo i = blockNo ∧
      ((cacheRun devices ops).1.bufferGet dev blockNo).2.data i =
        (cacheRun devices ops).2 dev blockNo.toNat) ∧
    (∀ dev, ((cacheRun devices ops).1.bufferCacheSync dev).1 = 0 ∧
      (∀ b, (((cacheRun devices ops).1.bufferCacheSync dev).2.devices dev).blocks b =
        (cacheRun devices ops).2 dev b) ∧
      ∀ i, ((cacheRun devices ops).1.bufferCacheSync dev).2.dev i ≠ 0 →
        ((cacheRun devices ops).1.bufferCacheSync dev).2.dev i = dev →
        ((cacheRun devices ops).1.bufferCacheSync dev).2.data i =
          (((cacheRun devices ops).1.bufferCacheSync dev).2.devices dev).blocks
            (((cacheRun devices ops).1.bufferCacheSync dev).2.blockNo i).toNat) := by
  obtain ⟨hl0, hc0⟩ := init_spec hd
  obtain ⟨hl, hc⟩ := run_spec ops hl0 hc0 hw
  change Linked (cacheRun devices ops).1 at hl
  change Coherent (cacheRun devices ops).1 (cacheRun devices ops).2 at hc
  refine ⟨hl, fun dev blockNo i hi => ?_, fun dev => ?_⟩
  · obtain ⟨hcoh, hgot, _⟩ := get_spec hl hc dev blockNo
    have hg := hgot i hi
    have hdev : dev ≠ 0 := by
      rintro rfl
      simp [BufferCache.bufferGet] at hi
    refine ⟨hg.dev, hg.blockNo, ?_⟩
    rw [hcoh.held i (by rw [hg.dev]; exact hdev), hg.dev, hg.blockNo]
  · obtain ⟨hrc, _, hcoh, hblocks⟩ := sync_spec hl hc dev
    refine ⟨hrc, hblocks, fun i h0 hdi => ?_⟩
    rw [hblocks, hcoh.held i h0, hdi]

/-- Reliable devices of 64 blocks behind every address. -/
def smallDevices : Nat → BlockDevice := fun _ =>
  ⟨4096, 64, fun _ => zeros, fun _ => false, fun _ => false, page_lt, sixtyFour_lt⟩

/-- The buffer that is free longest at the start. -/
def firstBuffer : BufId := ⟨0, by decide⟩

def smallRun : List BufOp := [.get 1 5, .modify firstBuffer (fun _ => 7), .release firstBuffer]

theorem smallRun_refines :
    Linked (cacheRun smallDevices smallRun).1 ∧
      ∀ b, (((cacheRun smallDevices smallRun).1.bufferCacheSync 1).2.devices 1).blocks b =
        (cacheRun smallDevices smallRun).2 1 b := by
  have hw : NoWrapFrom (init smallDevices) smallRun := by
    refine ⟨?_, trivial, trivial, trivial⟩
    have hall : ∀ i, (init smallDevices).dev i ≠ 1 := by decide
    exact fun i hi => absurd hi (hall i)
  obtain ⟨hl, _, hs⟩ := cache_refines smallDevices (fun _ _ => ⟨rfl, rfl⟩) smallRun hw
  exact ⟨hl, (hs 1).2.1⟩

/-- A cache in which the first buffer is pinned `n` times. -/
def pinned (c : BufferCache) (n : Nat) : BufferCache :=
  { c with refcount := update c.refcount firstBuffer (BitVec.ofNat 16 n) }

section
variable {c : BufferCache} {dev : Nat} {blockNo : BitVec 32}

theorem pinned_step (hok : ¬ (dev = 0 ∨ (c.devices dev).blockSize ≠ bufferBlockSize))
    (hlook : c.hashLookup dev blockNo = some firstBuffer) {n : Nat} (h0 : n ≠ 0)
    (hn : n < 65536) : (pinned c n).step (.get dev blockNo) = pinned c (n + 1) := by
  have hlook' : (pinned c n).hashLookup dev blockNo = some firstBuffer := hlook
  have hok' : ¬ (dev = 0 ∨ ((pinned c n).devices dev).blockSize ≠ bufferBlockSize) := hok
  have hr : ¬ (pinned c n).refcount firstBuffer = 0#16 := by
    simp only [pinned, update_self]
    intro hz
    have := congrArg BitVec.toNat hz
    simp only [BitVec.toNat_ofNat] at this
    omega
  simp only [step, BufferCache.bufferGet, if_neg hok', hlook', if_neg hr]
  simp only [pinned, update_self, update_idem, BitVec.ofNat_add]
  rfl

theorem pinned_run (hok : ¬ (dev = 0 ∨ (c.devices dev).blockSize ≠ bufferBlockSize))
    (hlook : c.hashLookup dev blockNo = some firstBuffer) (n : Nat) (hn : n < 65536) :
    (List.replicate n (BufOp.get dev blockNo)).foldl step (pinned c 1) = pinned c (n + 1) := by
  induction n with
  | zero => rfl
  | succ n ih =>
    rw [replicate_succ', foldl_append, ih (by omega)]
    exact pinned_step hok hlook (by omega) hn

end

theorem cacheRun_cache (devices : Nat → BlockDevice) (ops : List BufOp) :
    (cacheRun devices ops).1 = ops.foldl step (init devices) := by
  unfold cacheRun
  generalize init devices = c
  generalize deviceStore devices = s
  induction ops generalizing c s with
  | nil => rfl
  | cons op ops ih => exact ih _ _

def fetchedOnce : BufferCache := (init smallDevices).step (.get 1 0)

/-- A block that is fetched 65536 times and never released has a pin count of 0
but is not on the LRU list. -/
theorem pinnedRun_not_linked :
    ¬ Linked (cacheRun smallDevices (List.replicate 65536 (.get 1 0))).1 := by
  intro hl
  have hone : fetchedOnce = pinned fetchedOnce 1 := by
    have hr : fetchedOnce.refcount firstBuffer = BitVec.ofNat 16 1 := by decide
    unfold pinned
    rw [← hr, update_eq_self]
  have hrun : (cacheRun smallDevices (List.replicate 65536 (.get 1 0))).1 =
      pinned fetchedOnce 65536 := by
    rw [cacheRun_cache, replicate_succ, foldl_cons]
    rw [show (init smallDevices).step (.get 1 0) = pinned fetchedOnce 1 from hone]
    exact pinned_run (by decide) (by decide) 65535 (by omega)
  rw [hrun] at hl
  obtain ⟨l, hlru, hmem⟩ := hl.lru
  obtain ⟨hl0, hc0⟩ := @init_spec smallDevices (fun _ _ => ⟨rfl, rfl⟩)
  have hfree : ∀ i, (init smallDevices).dev i ≠ 1 := by decide
  obtain ⟨l', hlru', hmem'⟩ :=
    (step_spec hl0 hc0 (.get 1 0) (fun i hi => absurd hi (hfree i))).1.lru
  -- the LRU links have not changed since the first get
  have hsame : l = l' := hlru.fwd.unique hlru'.fwd
  have hin : firstBuffer ∈ l := (hmem firstBuffer).mpr (by simp [pinned])
  rw [hsame, hmem'] at hin
  have hpin : fetchedOnce.refcount firstBuffer ≠ 0#16 := by decide
  exact hpin hin.1

end CapyOS.Proofs
