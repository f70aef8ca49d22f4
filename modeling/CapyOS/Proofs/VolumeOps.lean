import CapyOS.Fs.CapyfsRun
import CapyOS.Proofs.CapyfsLayout

namespace CapyOS.Proofs
open Lib FsM Function
variable {ino : Nat} {b : Nat}

theorem readInodeAt_congr {a b : Bytes} {o : Nat}
    (h : ∀ i, o ≤ i → i < o + inodeDiskSize → a i = b i) : readInodeAt a o = readInodeAt b o := by
  simp only [inodeDiskSize] at h
  have h16 : ∀ p, o ≤ p → p + 2 ≤ o + 72 → field16 a p = field16 b p := by
    intro p hlo hhi
    simp only [field16, load_congr (fun i hl hu => h i (by omega) (by omega) : ∀ i, p ≤ i → i < p + 2 → a i = b i)]
  have h32 : ∀ p, o ≤ p → p + 4 ≤ o + 72 → field32 a p = field32 b p :=
    fun p hlo hhi => field32_congr (fun i hl hu => h i (by omega) (by omega))
  simp only [readInodeAt, CapyInodeDisk.mk.injEq]
  refine ⟨h16 _ (by omega) (by omega), h16 _ (by omega) (by omega), h32 _ (by omega) (by omega),
    h32 _ (by omega) (by omega), h32 _ (by omega) (by omega), h16 _ (by omega) (by omega),
    h16 _ (by omega) (by omega), ?_, h32 _ (by omega) (by omega)⟩
  funext i
  exact h32 _ (by omega) (by omega)

theorem readInodeAt_shift (b : Bytes) (o : Nat) : readInodeAt b o = readInodeAt (fun i => b (o + i)) 0 := by
  simp only [readInodeAt, field16, field32, CapyInodeDisk.mk.injEq]
  have h : ∀ k n, load b (o + k) n = load (fun i => b (o + i)) (0 + k) n := by
    intro k n
    rw [load_shift, Nat.zero_add]
  refine ⟨?_, ?_, ?_, ?_, ?_, ?_, ?_, ?_, ?_⟩
  · rw [← h 0 2, Nat.add_zero]
  all_goals first
    | rw [← h]
    | (funext i; rw [Nat.add_assoc, h, Nat.add_assoc])

theorem readInode_bytes (x : CapyInodeDisk) : readInodeAt x.bytes 0 = x := by
  obtain ⟨mode, links, size, uid, gid, perm, reserved, direct, indirect⟩ := x
  have hptr : ∀ i (h : i < (List.ofFn direct ++ [indirect]).length),
      field32 (CapyInodeDisk.bytes ⟨mode, links, size, uid, gid, perm, reserved, direct, indirect⟩)
        (20 + 4 * i) = (List.ofFn direct ++ [indirect])[i] := by
    intro i h
    have ha := field32_array (List.ofFn direct ++ [indirect]) [] i h
    rw [List.append_nil] at ha
    rw [← ha]
    simp only [field32, CapyInodeDisk.bytes, CapyInodeDisk.fields]
    exact congrArg (BitVec.ofNat 32) (load_pack_append (4 * i) 4)
  simp only [readInodeAt, CapyInodeDisk.mk.injEq]
  refine ⟨?_, ?_, ?_, ?_, ?_, ?_, ?_, ?_, ?_⟩
  · simp [CapyInodeDisk.bytes, CapyInodeDisk.fields, field16_head]
  · simp [CapyInodeDisk.bytes, CapyInodeDisk.fields, field16_head, field16_tail]
  · simp [CapyInodeDisk.bytes, CapyInodeDisk.fields, field32_head, field32_tail]
  · simp [CapyInodeDisk.bytes, CapyInodeDisk.fields, field32_head, field32_tail]
  · simp [CapyInodeDisk.bytes, CapyInodeDisk.fields, field32_head, field32_tail]
  · simp [CapyInodeDisk.bytes, CapyInodeDisk.fields, field16_head, field16_tail]
  · simp [CapyInodeDisk.bytes, CapyInodeDisk.fields, field16_head, field16_tail]
  · funext i
    rw [Nat.zero_add, hptr i.val (by simp; omega), List.getElem_append_left (by simp), List.getElem_ofFn]
  · have h := hptr 12 (by simp)
    simpa using h

theorem readInodeAt_blit (b : Bytes) (o : Nat) (x : CapyInodeDisk) : readInodeAt (blit b o inodeDiskSize x.bytes) o = x := by
  rw [readInodeAt_shift]
  refine Eq.trans ?_ (readInode_bytes x)
  apply readInodeAt_congr
  intro i _ hi
  exact blit_inside (by omega)

/-- The regions of a volume lie one after another and hold what their counts say. -/
structure SoundLayout (m : CapySuper) : Prop where
  fit : RegionsFit m
  bmap : 1 ≤ m.bmapStart.toNat
  imap : m.bmapStart.toNat ≤ m.imapStart.toNat
  inode : m.imapStart.toNat ≤ m.inodeStart.toNat
  data : m.inodeStart.toNat ≤ m.dataStart.toNat
  room : m.dataStart.toNat ≤ m.blockCount.toNat
  root : 0 < m.inodeCount.toNat
  inodeNo : ∀ ino, ino < m.inodeCount.toNat →
    inodeBlockNo m ino = m.inodeStart.toNat + ino / inodesPerBlock
  imapNo : ∀ ino, ino < m.inodeCount.toNat →
    imapBlockNo m ino = m.imapStart.toNat + ino / bitsPerBlock
  bmapNo : ∀ b, b < m.blockCount.toNat →
    bmapBlockNo m b = m.bmapStart.toNat + b / bitsPerBlock

/-- An error-free device with room for the volume. -/
structure Carries (m : CapySuper) (d : BlockDevice) : Prop where
  layout : SoundLayout m
  size : d.blockSize = capyfsBlockSize
  reliable : d.Reliable
  room : m.blockCount.toNat ≤ d.blockCount

section
variable {m : CapySuper} {d : BlockDevice}

theorem Carries.write (h : Carries m d) (w : Write) : Carries m (d.write w) := by
  refine ⟨h.layout, ?_, fun n => ?_, ?_⟩
  · simpa using h.size
  · simpa using h.reliable n
  · simpa using h.room

theorem Carries.write_same (h : Carries m d) {n : Nat} (hn : n < m.blockCount.toNat) (c : Bytes) :
    (d.write (n, c)).blocks n = c :=
  d.write_same c (h.reliable.canWrite (Nat.lt_of_lt_of_le hn h.room))

theorem Carries.read (h : Carries m d) {n : Nat} (hn : n < m.blockCount.toNat) : blockDeviceRead d n = some (d.blocks n) :=
  blockDeviceRead_of_canRead (h.reliable.canRead (Nat.lt_of_lt_of_le hn h.room))

theorem volumeOf_data (h : Carries m d) (hlo : m.dataStart.toNat ≤ b) (hhi : b < m.blockCount.toNat) (c : Bytes) :
    volumeOf m (d.write (b, c)) = (volumeOf m d).store b c := by
  have hl := h.layout
  ext1
  · funext ino
    simp only [volumeOf, Volume.store]
    by_cases hi : ino < m.inodeCount.toNat
    · have hreg := hl.fit.imap ino hi
      have := hl.data
      rw [d.write_other (b, c) (show imapBlockNo m ino ≠ b by omega)]
    · simp [hi]
  · funext b'
    simp only [volumeOf, Volume.store]
    by_cases hb : m.dataStart.toNat ≤ b' ∧ b' < m.blockCount.toNat
    · have hreg := hl.fit.bmap b' hb.1 hb.2
      have := hl.data
      have := hl.inode
      rw [d.write_other (b, c) (show bmapBlockNo m b' ≠ b by omega)]
    · simp [hb]
  · funext ino
    simp only [volumeOf, Volume.store]
    by_cases hi : ino < m.inodeCount.toNat
    · have hreg := hl.fit.inode ino hi
      rw [d.write_other (b, c) (show inodeBlockNo m ino ≠ b by omega)]
    · simp [hi]
  · funext b'
    simp only [volumeOf, Volume.store]
    by_cases hb' : b' = b
    · subst hb'
      rw [if_pos ⟨hlo, hhi⟩, update_self, h.write_same hhi]
    · rw [update_of_ne hb', d.write_other (b, c) hb']

theorem volumeOf_inode (h : Carries m d) (hi : ino < m.inodeCount.toNat) (x : CapyInodeDisk) :
    volumeOf m (d.write (inodeBlockNo m ino, blit (d.blocks (inodeBlockNo m ino)) (inodeOffset ino) inodeDiskSize x.bytes)) =
      (volumeOf m d).put ino x := by
  have hl := h.layout
  have hreg := hl.fit.inode ino hi
  have hroom := hl.room
  generalize hc : blit (d.blocks (inodeBlockNo m ino)) (inodeOffset ino) inodeDiskSize x.bytes = c
  ext1
  · funext ino'
    simp only [volumeOf, Volume.put]
    by_cases hi' : ino' < m.inodeCount.toNat
    · have hreg' := hl.fit.imap ino' hi'
      rw [d.write_other (inodeBlockNo m ino, c)
        (show imapBlockNo m ino' ≠ inodeBlockNo m ino by omega)]
    · simp [hi']
  · funext b
    simp only [volumeOf, Volume.put]
    by_cases hb : m.dataStart.toNat ≤ b ∧ b < m.blockCount.toNat
    · have hreg' := hl.fit.bmap b hb.1 hb.2
      have := hl.inode
      rw [d.write_other (inodeBlockNo m ino, c)
        (show bmapBlockNo m b ≠ inodeBlockNo m ino by omega)]
    · simp [hb]
  · funext ino'
    simp only [volumeOf, Volume.put]
    by_cases he : ino' = ino
    · subst he
      rw [if_pos hi, update_self, h.write_same (by omega), ← hc, readInodeAt_blit]
    · rw [update_of_ne he]
      by_cases hi' : ino' < m.inodeCount.toNat
      · rw [if_pos hi', if_pos hi']
        by_cases hblk : inodeBlockNo m ino' = inodeBlockNo m ino
        · -- records of one block do not overlap
          rw [hblk, h.write_same (by omega), ← hc]
          apply readInodeAt_congr
          intro i hlo hhi
          apply blit_outside
          have hno := hl.inodeNo ino hi
          have hno' := hl.inodeNo ino' hi'
          simp only [inodeOffset, inodeDiskSize, inodesPerBlock_eq] at *
          omega
        · rw [d.write_other (inodeBlockNo m ino, c) hblk]
      · rw [if_neg hi', if_neg hi']
  · funext b
    simp only [volumeOf, Volume.put]
    by_cases hb : m.dataStart.toNat ≤ b ∧ b < m.blockCount.toNat
    · rw [d.write_other (inodeBlockNo m ino, c) (show b ≠ inodeBlockNo m ino by omega)]
    · rw [if_neg hb, if_neg hb]

theorem volumeOf_imap (h : Carries m d) (hi : ino < m.inodeCount.toNat) (c : Bytes)
    (bit : Bool) (hc : ∀ j, testBit c j =
      if j = ino % bitsPerBlock then bit else testBit (d.blocks (imapBlockNo m ino)) j) :
    volumeOf m (d.write (imapBlockNo m ino, c)) =
      { volumeOf m d with imap := update (volumeOf m d).imap ino bit } := by
  have hl := h.layout
  have hreg := hl.fit.imap ino hi
  have hdata := hl.data
  have hroom := hl.room
  ext1
  · funext ino'
    by_cases he : ino' = ino
    · subst he
      simp only [volumeOf, update_self]
      rw [h.write_same (by omega), hc, if_pos rfl]
      simp [hi]
    · simp only [volumeOf, update_of_ne he]
      by_cases hi' : ino' < m.inodeCount.toNat
      · by_cases hblk : imapBlockNo m ino' = imapBlockNo m ino
        · have hno := hl.imapNo ino hi
          have hno' := hl.imapNo ino' hi'
          have hbit : ino' % bitsPerBlock ≠ ino % bitsPerBlock := by
            simp only [bitsPerBlock_eq] at *
            omega
          rw [hblk, h.write_same (by omega), hc, if_neg hbit]
        · rw [d.write_other (imapBlockNo m ino, c) hblk]
      · simp [hi']
  · funext b
    simp only [volumeOf]
    by_cases hb : m.dataStart.toNat ≤ b ∧ b < m.blockCount.toNat
    · have hreg' := hl.fit.bmap b hb.1 hb.2
      rw [d.write_other (imapBlockNo m ino, c)
        (show bmapBlockNo m b ≠ imapBlockNo m ino by omega)]
    · simp [hb]
  · funext ino'
    simp only [volumeOf]
    by_cases hi' : ino' < m.inodeCount.toNat
    · have hreg' := hl.fit.inode ino' hi'
      rw [d.write_other (imapBlockNo m ino, c)
        (show inodeBlockNo m ino' ≠ imapBlockNo m ino by omega)]
    · rw [if_neg hi', if_neg hi']
  · funext b
    simp only [volumeOf]
    by_cases hb : m.dataStart.toNat ≤ b ∧ b < m.blockCount.toNat
    · rw [d.write_other (imapBlockNo m ino, c) (show b ≠ imapBlockNo m ino by omega)]
    · rw [if_neg hb, if_neg hb]

theorem volumeOf_bmap (h : Carries m d) (hlo : m.dataStart.toNat ≤ b)
    (hhi : b < m.blockCount.toNat) (c : Bytes) (bit : Bool) (hc : ∀ j, testBit c j =
      if j = b % bitsPerBlock then bit else testBit (d.blocks (bmapBlockNo m b)) j) :
    volumeOf m (d.write (bmapBlockNo m b, c)) = { volumeOf m d with bmap := update (volumeOf m d).bmap b bit } := by
  have hl := h.layout
  have hreg := hl.fit.bmap b hlo hhi
  have hinode := hl.inode
  have hdata := hl.data
  have hroom := hl.room
  ext1
  · funext ino
    simp only [volumeOf]
    by_cases hi : ino < m.inodeCount.toNat
    · have hreg' := hl.fit.imap ino hi
      rw [d.write_other (bmapBlockNo m b, c) (show imapBlockNo m ino ≠ bmapBlockNo m b by omega)]
    · simp [hi]
  · funext b'
    by_cases he : b' = b
    · subst he
      simp only [volumeOf, update_self]
      rw [h.write_same (by omega), hc, if_pos rfl]
      simp [hlo, hhi]
    · simp only [volumeOf, update_of_ne he]
      by_cases hb : m.dataStart.toNat ≤ b' ∧ b' < m.blockCount.toNat
      · by_cases hblk : bmapBlockNo m b' = bmapBlockNo m b
        · have hno := hl.bmapNo b hhi
          have hno' := hl.bmapNo b' hb.2
          have hbit : b' % bitsPerBlock ≠ b % bitsPerBlock := by
            simp only [bitsPerBlock_eq] at *
            omega
          rw [hblk, h.write_same (by omega), hc, if_neg hbit]
        · rw [d.write_other (bmapBlockNo m b, c) hblk]
      · simp [hb]
  · funext ino
    simp only [volumeOf]
    by_cases hi : ino < m.inodeCount.toNat
    · have hreg' := hl.fit.inode ino hi
      rw [d.write_other (bmapBlockNo m b, c) (show inodeBlockNo m ino ≠ bmapBlockNo m b by omega)]
    · rw [if_neg hi, if_neg hi]
  · funext b'
    simp only [volumeOf]
    by_cases hb : m.dataStart.toNat ≤ b' ∧ b' < m.blockCount.toNat
    · rw [d.write_other (bmapBlockNo m b, c) (show b' ≠ bmapBlockNo m b by omega)]
    · rw [if_neg hb, if_neg hb]

end

def Yields {α : Type} (m : CapySuper) (v : Volume) (f : FsM α) (Q : Option α → Volume → Prop) :
    Prop :=
  ∀ s, Carries m s.dev → volumeOf m s.dev = v →
    Carries m (f s).2.dev ∧ Q (f s).1 (volumeOf m (f s).2.dev)

variable {m : CapySuper} {v : Volume} {α β : Type}

namespace Yields

theorem mono {f : FsM α} {Q R : Option α → Volume → Prop} (h : Yields m v f Q)
    (hQ : ∀ a v', Q a v' → R a v') : Yields m v f R :=
  fun s hc hv => ⟨(h s hc hv).1, hQ _ _ (h s hc hv).2⟩

theorem pure {a : α} {R : Option α → Volume → Prop} (h : R (some a) v) : Yields m v (Pure.pure a : FsM α) R := by
  intro s hc hv
  refine ⟨hc, ?_⟩
  rw [pure_apply, hv]
  exact h

theorem fail {R : Option α → Volume → Prop} (h : R none v) : Yields m v (FsM.fail : FsM α) R := by
  intro s hc hv
  refine ⟨hc, ?_⟩
  rw [fail_apply, hv]
  exact h

theorem bind {x : FsM α} {f : α → FsM β} {Q : Option α → Volume → Prop} {R : Option β → Volume → Prop} (hx : Yields m v x Q)
    (hf : ∀ a v', Q (some a) v' → Yields m v' (f a) R) (hn : ∀ v', Q none v' → R none v') : Yields m v (x >>= f) R := by
  intro s hc hv
  obtain ⟨hc', hq⟩ := hx s hc hv
  cases hr : x s with
  | mk a s' =>
    rw [hr] at hc' hq
    cases a with
    | none =>
      rw [bind_none hr]
      exact ⟨hc', hn _ hq⟩
    | some a =>
      rw [bind_some hr]
      exact hf a _ hq s' hc' rfl

theorem tried {x : FsM α} {f : Option α → FsM β} {Q : Option α → Volume → Prop}
    {R : Option β → Volume → Prop} (hx : Yields m v x Q)
    (hf : ∀ a v', Q a v' → Yields m v' (f a) R) : Yields m v (attempt x >>= f) R := by
  intro s hc hv
  obtain ⟨hc', hq⟩ := hx s hc hv
  rw [bind_some (attempt_apply x s)]
  exact hf _ _ hq _ hc' rfl

theorem seq {x : FsM α} {f : α → FsM β} {a : α} {v' : Volume} {R : Option β → Volume → Prop}
    (hx : Yields m v x (fun r w => r = some a ∧ w = v')) (hf : Yields m v' (f a) R) : Yields m v (x >>= f) R := by
  refine hx.bind ?_ ?_
  · rintro _ _ ⟨he, rfl⟩
    cases he
    exact hf
  · rintro _ ⟨he, _⟩
    cases he

theorem next {x : FsM α} {f : α → FsM β} {Q : α → Volume → Prop} {R : Option β → Volume → Prop}
    (hx : Yields m v x (fun r w => ∃ a, r = some a ∧ Q a w))
    (hf : ∀ a v', Q a v' → Yields m v' (f a) R) : Yields m v (x >>= f) R := by
  refine hx.bind ?_ ?_
  · rintro _ w ⟨a, he, hq⟩
    cases he
    exact hf _ w hq
  · rintro _ ⟨_, he, _⟩
    cases he

theorem triedSeq {x : FsM α} {f : Option α → FsM β} {a : α} {v' : Volume}
    {R : Option β → Volume → Prop} (hx : Yields m v x (fun r w => r = some a ∧ w = v'))
    (hf : Yields m v' (f (some a)) R) : Yields m v (FsM.attempt x >>= f) R := by
  refine hx.tried ?_
  rintro _ _ ⟨rfl, rfl⟩
  exact hf

end Yields

def InData (m : CapySuper) (b : Nat) : Prop := m.dataStart.toNat ≤ b ∧ b < m.blockCount.toNat

/-- What a call does to the volume when nothing can go wrong. -/
abbrev Does (m : CapySuper) (v : Volume) (f : FsM α) (a : α) (v' : Volume) : Prop :=
  Yields m v f (fun r w => r = some a ∧ w = v')

theorem getBlock_does (hb : InData m b) : Does m v (bufferGet b) (v.data b) v := by
  rintro s hc rfl
  refine ⟨hc, ?_, rfl⟩
  simp only [bufferGet]
  rw [hc.read hb.2]
  simp [volumeOf, hb.1, hb.2]

theorem putBlock_does (hb : InData m b) (c : Bytes) : Does m v (bufferPut b c) () (v.store b c) := by
  rintro s hc rfl
  exact ⟨hc.write _, rfl, volumeOf_data hc hb.1 hb.2 c⟩

theorem readInode_does (hi : ino < m.inodeCount.toNat) : Does m v (capyfsReadInodeDisk m ino) (v.inode ino) v := by
  rintro s hc rfl
  have hreg := hc.layout.fit.inode ino hi
  have hroom := hc.layout.room
  have hget : bufferGet (inodeBlockNo m ino) s = (some (s.dev.blocks (inodeBlockNo m ino)), s) := by
    simp only [bufferGet]
    rw [hc.read (by omega)]
  unfold capyfsReadInodeDisk
  rw [if_neg (by omega), bind_some hget]
  refine ⟨hc, ?_, rfl⟩
  simp [pure_apply, volumeOf, hi]

theorem writeInode_does (hi : ino < m.inodeCount.toNat) (x : CapyInodeDisk) :
    Does m v (capyfsWriteInodeDisk m ino x) () (v.put ino x) := by
  rintro s hc rfl
  have hreg := hc.layout.fit.inode ino hi
  have hroom := hc.layout.room
  have hget : bufferGet (inodeBlockNo m ino) s = (some (s.dev.blocks (inodeBlockNo m ino)), s) := by
    simp only [bufferGet]
    rw [hc.read (by omega)]
  unfold capyfsWriteInodeDisk
  rw [if_neg (by omega), bind_some hget]
  exact ⟨hc.write _, rfl, volumeOf_inode hc hi x⟩

/-- A bit of the block bitmap, and the volume once it is set. -/
theorem bmap_bit {s : Fs} (hc : Carries m s.dev) (hb : InData m b) :
    bufferGet (bmapBlockNo m b) s = (some (s.dev.blocks (bmapBlockNo m b)), s) ∧
      testBit (s.dev.blocks (bmapBlockNo m b)) (b % bitsPerBlock) = (volumeOf m s.dev).bmap b := by
  have hreg := hc.layout.fit.bmap b hb.1 hb.2
  have := hc.layout.inode
  have := hc.layout.data
  have := hc.layout.room
  constructor
  · simp only [bufferGet]
    rw [hc.read (by omega)]
  · simp [volumeOf, hb.1, hb.2]

theorem imap_bit {s : Fs} (hc : Carries m s.dev) (hi : ino < m.inodeCount.toNat) :
    bufferGet (imapBlockNo m ino) s = (some (s.dev.blocks (imapBlockNo m ino)), s) ∧
      testBit (s.dev.blocks (imapBlockNo m ino)) (ino % bitsPerBlock) = (volumeOf m s.dev).imap ino := by
  have hreg := hc.layout.fit.imap ino hi
  have := hc.layout.data
  have := hc.layout.room
  constructor
  · simp only [bufferGet]
    rw [hc.read (by omega)]
  · simp [volumeOf, hi]

theorem testBit_setBit_if (c : Bytes) (i j : Nat) : testBit (setBit c i) j = if j = i then true else testBit c j := by
  rw [testBit_setBit]
  by_cases h : j = i <;> simp [h]

theorem testBit_clearBit_if (c : Bytes) (i j : Nat) : testBit (clearBit c i) j = if j = i then false else testBit c j := by
  rw [testBit_clearBit]
  by_cases h : j = i <;> simp [h]

def takeInode (v : Volume) (ino : Nat) : Volume := { v with imap := update v.imap ino true }

def dropInode (v : Volume) (ino : Nat) : Volume := { v with imap := update v.imap ino false }

def takeBlock (v : Volume) (b : Nat) : Volume :=
  { v with bmap := update v.bmap b true, data := update v.data b zeros }

def dropBlock (v : Volume) (b : Nat) : Volume := { v with bmap := update v.bmap b false }

theorem allocInodeFrom_yields (n ino : Nat) (hn : ino + n = m.inodeCount.toNat) :
    Yields m v (allocInodeFrom m n ino) (fun r w => match r with
      | none => w = v
      | some i => i < m.inodeCount.toNat ∧ v.imap i = false ∧ w = takeInode v i) := by
  induction n generalizing ino with
  | zero => exact Yields.fail rfl
  | succ n ih =>
    intro s hc hv
    have hi : ino < m.inodeCount.toNat := by omega
    obtain ⟨hget, hbit⟩ := imap_bit hc hi
    simp only [allocInodeFrom]
    rw [bind_some hget, hbit, hv]
    cases htaken : v.imap ino with
    | true =>
      rw [if_pos rfl]
      exact ih (ino + 1) (by omega) s hc hv
    | false =>
      rw [if_neg (by simp)]
      refine ⟨hc.write _, hi, htaken, ?_⟩
      have hw := volumeOf_imap hc hi _ true (testBit_setBit_if _ (ino % bitsPerBlock))
      rw [hv] at hw
      exact hw

theorem allocInode_yields : Yields m v (capyfsAllocInode m) (fun r w => match r with
    | none => w = v
    | some i => i < m.inodeCount.toNat ∧ v.imap i = false ∧ w = takeInode v i) :=
  allocInodeFrom_yields m.inodeCount.toNat 0 (Nat.zero_add _)

theorem freeInodeBit_does (hi : ino < m.inodeCount.toNat) :
    Does m v (capyfsFreeInodeBit m ino) () (dropInode v ino) := by
  rintro s hc rfl
  obtain ⟨hget, _⟩ := imap_bit hc hi
  unfold capyfsFreeInodeBit clearBitmapBit
  rw [if_neg (by omega), bind_some (by rw [attempt_apply, hget])]
  exact ⟨hc.write _, rfl, volumeOf_imap hc hi _ false (testBit_clearBit_if _ (ino % bitsPerBlock))⟩

theorem freeBlock_does (hb : InData m b) : Does m v (capyfsFreeBlock m b) () (dropBlock v b) := by
  rintro s hc rfl
  obtain ⟨hget, _⟩ := bmap_bit hc hb
  have := hb.1
  have := hb.2
  unfold capyfsFreeBlock clearBitmapBit
  rw [if_neg (by omega), bind_some (by rw [attempt_apply, hget])]
  exact ⟨hc.write _, rfl, volumeOf_bmap hc hb.1 hb.2 _ false (testBit_clearBit_if _ (b % bitsPerBlock))⟩

def Allocates (m : CapySuper) (v : Volume) (r : Option Nat) (w : Volume) : Prop :=
  match r with
  | none => w = v
  | some b => InData m b ∧ v.bmap b = false ∧ w = takeBlock v b

def Full (m : CapySuper) (v : Volume) : Prop := ∀ b, InData m b → v.bmap b = true

/-- A search that finds nothing has seen every block taken. -/
theorem tryAllocRange_yields (n blk : Nat) (hlo : m.dataStart.toNat ≤ blk) (hhi : blk + n ≤ m.blockCount.toNat) :
    Yields m v (capyfsTryAllocRange m n blk) (fun r w => Allocates m v r w ∧
      (r = none → ∀ b, blk ≤ b → b < blk + n → v.bmap b = true)) := by
  induction n generalizing blk with
  | zero => exact Yields.fail ⟨rfl, fun _ b h1 h2 => by omega⟩
  | succ n ih =>
    intro s hc hv
    have hb : InData m blk := ⟨hlo, by omega⟩
    obtain ⟨hget, hbit⟩ := bmap_bit hc hb
    simp only [capyfsTryAllocRange]
    rw [bind_some hget, hbit, hv]
    cases htaken : v.bmap blk with
    | true =>
      rw [if_pos rfl]
      refine Yields.mono (R := fun r w => Allocates m v r w ∧
          (r = none → ∀ b, blk ≤ b → b < blk + (n + 1) → v.bmap b = true))
        (ih (blk + 1) (by omega) (by omega)) (fun r w hr => ⟨hr.1, fun hnone b h1 h2 => ?_⟩) s hc hv
      rcases Nat.lt_or_eq_of_le h1 with hlt | rfl
      · exact hr.2 hnone b hlt (by omega)
      · exact htaken
    | false =>
      rw [if_neg (by simp)]
      have hw := volumeOf_bmap hc hb.1 hb.2 _ true (testBit_setBit_if _ (blk % bitsPerBlock))
      rw [hv] at hw
      rw [bind_some (show bufferPut _ _ s = (some (), _) from rfl)]
      have hrest : Yields m { v with bmap := update v.bmap blk true }
          (bufferGet blk >>= fun _ => bufferPut blk zeros >>= fun _ =>
            setHint (u32 (blk + 1)) >>= fun _ => Pure.pure blk)
          (fun r w => Allocates m v r w ∧ (r = none → ∀ b, blk ≤ b → b < blk + (n + 1) → v.bmap b = true)) := by
        refine (getBlock_does hb).seq ((putBlock_does hb zeros).seq ?_)
        intro s' hc' hv'
        exact ⟨hc', ⟨hb, htaken, hv'⟩, fun h => by cases h⟩
      exact hrest _ (hc.write _) hw

theorem allocBlock_yields (hl : SoundLayout m) : Yields m v (capyfsAllocBlock m)
    (fun r w => Allocates m v r w ∧ (r = none → Full m v)) := by
  have hroom := hl.room
  intro s hc hv
  unfold capyfsAllocBlock
  simp only
  rw [bind_some (show getHint s = (some s.hint, s) from rfl)]
  generalize hh : (if s.hint < m.dataStart.toNat ∨ m.blockCount.toNat ≤ s.hint then
    m.dataStart.toNat else s.hint) = hint
  have hlo : m.dataStart.toNat ≤ hint := by
    rw [← hh]
    split <;> omega
  have hhi : hint ≤ m.blockCount.toNat := by
    rw [← hh]
    split <;> omega
  refine Yields.tried (R := fun r w => Allocates m v r w ∧ (r = none → Full m v))
    (tryAllocRange_yields (m.blockCount.toNat - hint) hint hlo (by omega)) ?_ s hc hv
  rintro r w ⟨hq, hupper⟩
  cases r with
  | some b => exact Yields.pure ⟨hq, fun h => by cases h⟩
  | none =>
    cases hq
    have hupper := hupper rfl
    simp only
    split
    next =>
      refine (tryAllocRange_yields (hint - m.dataStart.toNat) m.dataStart.toNat (Nat.le_refl _)
        (by omega)).mono (fun r w hlower => ⟨hlower.1, fun hnone b hb => ?_⟩)
      by_cases hlt : b < hint
      · exact hlower.2 hnone b hb.1 (by omega)
      · exact hupper b (Nat.le_of_not_lt hlt) (by have := hb.2; omega)
    next =>
      refine Yields.fail ⟨rfl, fun _ b hb => hupper b ?_ ?_⟩
      · have := hb.1
        omega
      · have := hb.2
        omega

end CapyOS.Proofs
