import CapyOS.Lib.Records
import CapyOS.Fs.CapyfsCheck

namespace CapyOS.Proofs
open Lib List
variable {r : CapyfsCheckReport} {m : CapySuper}

section
variable (d : BlockDevice)

def superOf : CapySuper := readCapySuper (d.blocks 0)

def rootOf : CapyInodeDisk := readInodeAt (d.blocks (superOf d).inodeStart.toNat) 0

/-- The indirect block of the root, blank when there is none. -/
def rootIndirect : Bytes :=
  if (rootOf d).indirect = 0#32 then zeros else d.blocks (rootOf d).indirect.toNat

/-- The bit is set, in a map block that can be read. -/
def Marked (start bit : Nat) : Prop :=
  d.canRead (u32 (start + bit / bitsPerBlock)) = true ∧
    testBit (d.blocks (u32 (start + bit / bitsPerBlock))) (bit % bitsPerBlock) = true

/-- An allocated block of the data region. -/
def BlockPlaced (block : Nat) : Prop :=
  (superOf d).dataStart.toNat ≤ block ∧ block < (superOf d).blockCount.toNat ∧
    Marked d (superOf d).bmapStart.toNat block

def RootEntryValid (b : Bytes) (off : Nat) : Prop :=
  (direntIno b off).toNat = 0 ∨
    ((direntIno b off).toNat < (superOf d).inodeCount.toNat ∧
      Marked d (superOf d).imapStart.toNat (direntIno b off).toNat) ∧
    nameHasTerminator (direntName b off) capyfsNameMax = true

/-- Entry `i` of the root has a block, and is valid there. -/
def DirentSound (i : Nat) : Prop :=
  ∃ block, rootBlock (rootOf d) (rootIndirect d) (i / direntsPerBlock) = some block ∧
    block ≠ 0#32 ∧ BlockPlaced d block.toNat ∧ d.canRead block.toNat = true ∧
    RootEntryValid d (d.blocks block.toNat) (i % direntsPerBlock)

def RecordSound (x : CapyInodeDisk) : Prop :=
  x.isDir = true ∧ x.links ≠ 0#16 ∧ x.size.toNat % direntSize = 0 ∧ x.size.toNat ≤ maxRootSize

/-- A healthy image up to the entries of the root's indirect block. -/
structure RootHead : Prop where
  device : d.blockSize = capyfsBlockSize ∧ d.blockCount ≠ 0
  readable : d.canRead 0 = true ∧ d.canRead (superOf d).inodeStart.toNat = true
  layout : (superOf d).blockCount.toNat ≤ d.blockCount ∧ validateLayout (superOf d) = true
  reserved : ∀ b, b < (superOf d).dataStart.toNat → Marked d (superOf d).bmapStart.toNat b
  rootBit : Marked d (superOf d).imapStart.toNat 0
  record : RecordSound (rootOf d)
  direct : ∀ i, (rootOf d).direct i ≠ 0#32 → BlockPlaced d ((rootOf d).direct i).toNat
  indirect : (rootOf d).indirect ≠ 0#32 →
    BlockPlaced d (rootOf d).indirect.toNat ∧ d.canRead (rootOf d).indirect.toNat = true

/-- A healthy image: every pointer of the root is zero or an allocated block, and
its entries are valid. -/
structure HealthyRoot : Prop extends RootHead d where
  entries : ∀ k, k < entriesPerBlock → indirectEntry (rootIndirect d) k ≠ 0#32 →
    BlockPlaced d (indirectEntry (rootIndirect d) k).toNat
  dirents : ∀ i, i < (rootOf d).size.toNat / direntSize → DirentSound d i

def pointerCount : Nat :=
  (finRange 12).countP (fun i => (rootOf d).direct i ≠ 0#32) +
    if (rootOf d).indirect = 0#32 then 0
    else 1 + (List.range' 0 entriesPerBlock).countP (fun k => indirectEntry (rootIndirect d) k ≠ 0#32)

def FirstRefused (b : Bytes) : Prop :=
  ∀ k, k + 1 < entriesPerBlock → (∀ j, j < k → indirectEntry b j = 0#32) →
    indirectEntry b k ≠ 0#32 → ¬ BlockPlaced d (indirectEntry b k).toNat

def EntriesKept : Prop := RootHead d → FirstRefused d (rootIndirect d)

end

structure Decides (x : Check CheckState) (P : Prop) (c : Nat) : Prop where
  accepts : P → ∃ s, x = .ok s ∧ s.report.rootReferencedBlocks = c
  refuses : ¬ P → ∃ r, x = .error r

section
variable {d : BlockDevice} {P Q : Prop} {c e : Nat} {s : CheckState}

theorem Decides.ok (h : s.report.rootReferencedBlocks = c) : Decides (.ok s) True c :=
  ⟨fun _ => ⟨s, rfl, h⟩, fun hn => absurd trivial hn⟩

theorem Decides.error (r : CapyfsCheckReport) (hP : ¬ P) : Decides (.error r) P c :=
  ⟨fun h => absurd h hP, fun _ => ⟨r, rfl⟩⟩

theorem Decides.congr {x : Check CheckState} (h : Decides x P c) (hPQ : P ↔ Q) : Decides x Q c :=
  ⟨fun hq => h.accepts (hPQ.mpr hq), fun hq => h.refuses (fun hp => hq (hPQ.mp hp))⟩

theorem Decides.bind {x : Check CheckState} {f : CheckState → Check CheckState} (hx : Decides x P c)
    (hf : ∀ s, s.report.rootReferencedBlocks = c → P → Decides (f s) Q e) : Decides (x >>= f) (P ∧ Q) e := by
  by_cases hP : P
  · obtain ⟨s, rfl, hs⟩ := hx.accepts hP
    have hstep := hf s hs hP
    exact ⟨fun h => hstep.accepts h.2, fun h => hstep.refuses (fun hq => h ⟨hP, hq⟩)⟩
  · obtain ⟨r, rfl⟩ := hx.refuses hP
    exact ⟨fun h => absurd h.1 hP, fun _ => ⟨r, rfl⟩⟩

theorem blockDeviceRead_unreadable {n : Nat} (h : d.canRead n = false) : blockDeviceRead d n = none :=
  if_neg (by simp [h])

theorem requireBit_decides (start bit place : Nat) (s : CheckState) :
    Decides (requireBit d start bit place s) (Marked d start bit) s.report.rootReferencedBlocks := by
  unfold requireBit bitmapTestOnDisk Marked
  cases hread : d.canRead (u32 (start + bit / bitsPerBlock)) with
  | false =>
    simp only [blockDeviceRead_unreadable hread]
    exact .error _ (fun h => Bool.false_ne_true h.1)
  | true =>
    simp only [blockDeviceRead_of_canRead hread]
    cases htest : testBit (d.blocks (u32 (start + bit / bitsPerBlock))) (bit % bitsPerBlock) with
    | false => exact .error _ (fun h => Bool.false_ne_true h.2)
    | true => exact (Decides.ok rfl).congr (by simp)

theorem checkPointer_decides (block place : Nat) (s : CheckState) :
    Decides (checkPointer d (superOf d) block place s) (BlockPlaced d block) s.report.rootReferencedBlocks := by
  unfold checkPointer BlockPlaced
  split
  next hout => exact .error _ (fun h => by omega)
  next hin =>
    exact (requireBit_decides _ block place s).congr
      ⟨fun h => ⟨by omega, by omega, h⟩, fun h => h.2.2⟩

theorem checkRootDirect_decides (l : List (Fin 12)) (s : CheckState) : Decides (checkRootDirect d (superOf d) (rootOf d) l s)
      (∀ i ∈ l, (rootOf d).direct i ≠ 0#32 → BlockPlaced d ((rootOf d).direct i).toNat)
      (s.report.rootReferencedBlocks + l.countP (fun i => (rootOf d).direct i ≠ 0#32)) := by
  induction l generalizing s with
  | nil => exact (Decides.ok rfl).congr ⟨fun _ _ h => by simp at h, fun _ => trivial⟩
  | cons i rest ih =>
    unfold checkRootDirect
    split
    next hzero =>
      rw [countP_cons_of_neg (by simpa using hzero)]
      exact (ih s).congr (by simp [hzero])
    next hne =>
      rw [countP_cons_of_pos (by simpa using hne)]
      have hrest : ∀ s' : CheckState, s'.report.rootReferencedBlocks = s.report.rootReferencedBlocks →
          Decides (checkRootDirect d (superOf d) (rootOf d) rest (countBlock s'))
            (∀ j ∈ rest, (rootOf d).direct j ≠ 0#32 → BlockPlaced d ((rootOf d).direct j).toNat)
            (s.report.rootReferencedBlocks +
              (rest.countP (fun i => (rootOf d).direct i ≠ 0#32) + 1)) := by
        intro s' hs'
        have hstep := ih (countBlock s')
        rw [show (countBlock s').report.rootReferencedBlocks = s.report.rootReferencedBlocks + 1 from
          congrArg (· + 1) hs'] at hstep
        rwa [Nat.add_assoc, Nat.add_comm 1] at hstep
      apply (Decides.bind (checkPointer_decides _ i.val s) (fun s' hs' _ => hrest s' hs')).congr
      simp only [forall_mem_cons, ne_eq, hne, not_false_eq_true, forall_const]

theorem checkRootEntries_decides {b : Bytes} {n k : Nat} {s : CheckState}
    (hkept : FirstRefused d b) (hs : s.scratch = b) (hkn : k + n = entriesPerBlock)
    (hbefore : ∀ j, j < k → indirectEntry b j = 0#32) : Decides (checkRootEntries d (superOf d) n k s)
      (∀ j, k ≤ j → j < entriesPerBlock → indirectEntry b j ≠ 0#32 → BlockPlaced d (indirectEntry b j).toNat)
      (s.report.rootReferencedBlocks + (List.range' k n).countP (fun j => indirectEntry b j ≠ 0#32)) := by
  induction n generalizing k s with
  | zero => exact (Decides.ok rfl).congr ⟨fun _ j h1 h2 => by omega, fun _ => trivial⟩
  | succ n ih =>
    unfold checkRootEntries
    rw [hs, range'_succ]
    dsimp only
    split
    next hzero =>
      rw [countP_cons_of_neg (by simpa using hzero)]
      have hbelow : ∀ j, j < k + 1 → indirectEntry b j = 0#32 := by
        intro j hj
        rcases Nat.lt_succ_iff_lt_or_eq.mp hj with hlt | rfl
        · exact hbefore j hlt
        · exact hzero
      apply (ih hs (by omega) hbelow).congr
      constructor
      · intro h j h1 h2 hne
        apply h j _ h2 hne
        rcases Nat.lt_or_eq_of_le h1 with hlt | rfl
        · exact hlt
        · exact absurd hzero hne
      · intro h j h1 h2
        exact h j (by omega) h2
    next hne =>
      rw [countP_cons_of_pos (by simpa using hne)]
      by_cases hlast : k + 1 < entriesPerBlock
      · -- the check refuses the entry
        have hbad := hkept k hlast hbefore hne
        obtain ⟨r, hr⟩ := (checkPointer_decides (d := d) (indirectEntry b k).toNat k s).refuses hbad
        rw [hr]
        exact .error r (fun h => hbad (h k (Nat.le_refl k) (by omega) hne))
      · -- the last entry: nothing is read after it
        obtain rfl : n = 0 := by omega
        refine (Decides.bind (checkPointer_decides _ k s) (fun s' hs' _ =>
          Decides.ok (s := countBlock s') (congrArg (· + 1) hs'))).congr ?_
        constructor
        · intro h j h1 h2 _
          obtain rfl : j = k := by omega
          exact h.1
        · intro h
          exact ⟨h k (Nat.le_refl k) (by omega) hne, trivial⟩

theorem indirectEntry_zeros (k : Nat) : indirectEntry zeros k = 0#32 := by
  simp [indirectEntry, field32, load, zeros]

theorem checkRootIndirect_decides (s : CheckState)
    (hkept : (rootOf d).indirect ≠ 0#32 → BlockPlaced d (rootOf d).indirect.toNat →
      d.canRead (rootOf d).indirect.toNat = true → FirstRefused d (rootIndirect d)) :
    Decides (checkRootIndirect d (superOf d) (rootOf d) s) (((rootOf d).indirect ≠ 0#32 →
        BlockPlaced d (rootOf d).indirect.toNat ∧ d.canRead (rootOf d).indirect.toNat = true) ∧
      ∀ k, k < entriesPerBlock → indirectEntry (rootIndirect d) k ≠ 0#32 →
        BlockPlaced d (indirectEntry (rootIndirect d) k).toNat)
      (s.report.rootReferencedBlocks + if (rootOf d).indirect = 0#32 then 0 else 1 + (List.range' 0 entriesPerBlock).countP
          (fun k => indirectEntry (rootIndirect d) k ≠ 0#32)) := by
  unfold checkRootIndirect
  by_cases hzero : (rootOf d).indirect = 0#32
  · simp only [hzero, if_true]
    exact (Decides.ok rfl).congr (by simp [rootIndirect, hzero, indirectEntry_zeros])
  · simp only [hzero, if_false]
    have hparts : BlockPlaced d (rootOf d).indirect.toNat ∧ d.canRead (rootOf d).indirect.toNat = true ∧
        (∀ k, 0 ≤ k → k < entriesPerBlock → indirectEntry (rootIndirect d) k ≠ 0#32 →
          BlockPlaced d (indirectEntry (rootIndirect d) k).toNat) ↔
        (True → BlockPlaced d (rootOf d).indirect.toNat ∧ d.canRead (rootOf d).indirect.toNat = true) ∧
          ∀ k, k < entriesPerBlock → indirectEntry (rootIndirect d) k ≠ 0#32 →
            BlockPlaced d (indirectEntry (rootIndirect d) k).toNat := by
      simp only [forall_const, Nat.zero_le, and_assoc]
    simp only [ne_eq, hzero, not_false_eq_true]
    refine Decides.congr ?_ hparts
    refine Decides.bind (checkPointer_decides _ _ s) (fun s' hs' hplaced => ?_)
    cases hread : d.canRead (rootOf d).indirect.toNat with
    | false =>
      simp only [blockDeviceRead_unreadable hread]
      exact .error _ (fun h => Bool.false_ne_true h.1)
    | true =>
      simp only [blockDeviceRead_of_canRead hread]
      have hstep := checkRootEntries_decides (hkept hzero hplaced hread) (n := entriesPerBlock)
        (k := 0) (s := countBlock { s' with scratch := d.blocks (rootOf d).indirect.toNat })
        (if_neg hzero).symm (Nat.zero_add _) (fun j hj => absurd hj (Nat.not_lt_zero j))
      rw [show (countBlock { s' with scratch := d.blocks (rootOf d).indirect.toNat }).report.rootReferencedBlocks
        = s.report.rootReferencedBlocks + 1 from congrArg (· + 1) hs', Nat.add_assoc] at hstep
      exact hstep.congr ⟨fun h => ⟨trivial, h⟩, fun h => h.2⟩

theorem validateRootBlocks_decides (s : CheckState) (hs : s.report.rootReferencedBlocks = 0) (hkept : RecordSound (rootOf d) →
      (∀ i, (rootOf d).direct i ≠ 0#32 → BlockPlaced d ((rootOf d).direct i).toNat) → ((rootOf d).indirect ≠ 0#32 →
        BlockPlaced d (rootOf d).indirect.toNat ∧ d.canRead (rootOf d).indirect.toNat = true) →
      FirstRefused d (rootIndirect d)) : Decides (validateRootBlocks d (superOf d) (rootOf d) s) (RecordSound (rootOf d) ∧
        (∀ i, (rootOf d).direct i ≠ 0#32 → BlockPlaced d ((rootOf d).direct i).toNat) ∧ ((rootOf d).indirect ≠ 0#32 →
          BlockPlaced d (rootOf d).indirect.toNat ∧ d.canRead (rootOf d).indirect.toNat = true) ∧
        ∀ k, k < entriesPerBlock → indirectEntry (rootIndirect d) k ≠ 0#32 →
          BlockPlaced d (indirectEntry (rootIndirect d) k).toNat) (pointerCount d) := by
  unfold validateRootBlocks
  split
  next hbad =>
    refine .error _ (fun h => ?_)
    obtain ⟨⟨hdir, hlinks, hsize, hmax⟩, -⟩ := h
    rcases hbad with hb | hb | hb | hb
    · exact Bool.false_ne_true (hb.symm.trans hdir)
    · exact hlinks hb
    · exact hb hsize
    · omega
  next hgood =>
    simp only [not_or, Bool.not_eq_false, Decidable.not_not, Nat.not_lt] at hgood
    have hrecord : RecordSound (rootOf d) := ⟨hgood.1, hgood.2.1, hgood.2.2.1, hgood.2.2.2⟩
    apply (Decides.bind (checkRootDirect_decides (finRange 12) s) (fun s' hs' hdirect => ?_)).congr
    · simp only [mem_finRange, forall_const, hrecord, true_and]
      rfl
    · rw [hs, Nat.zero_add] at hs'
      have hstep := checkRootIndirect_decides s' (fun hne hplaced hread =>
        hkept hrecord (fun i => hdirect i (mem_finRange i)) (fun _ => ⟨hplaced, hread⟩))
      rwa [hs'] at hstep

theorem checkDirent_decides (i off : Nat) (s : CheckState) :
    Decides (checkDirent d (superOf d) i off s) (RootEntryValid d s.scratch off) s.report.rootReferencedBlocks := by
  unfold checkDirent RootEntryValid
  dsimp only
  split
  next hfree => exact (Decides.ok rfl).congr ⟨fun _ => .inl hfree, fun _ => trivial⟩
  next hused =>
    split
    next hout =>
      refine .error _ (fun h => ?_)
      obtain hfree | ⟨⟨hlt, -⟩, -⟩ := h
      · exact hused hfree
      · omega
    next hin =>
      have hname : ∀ s' : CheckState, s'.report.rootReferencedBlocks = s.report.rootReferencedBlocks →
          Decides (if nameHasTerminator (direntName s.scratch off) capyfsNameMax then
              .ok { s' with report := { s'.report with rootEntries := s'.report.rootEntries + 1 } }
            else .error (s'.report.details (direntIno s.scratch off).toNat i))
            (nameHasTerminator (direntName s.scratch off) capyfsNameMax = true)
            s.report.rootReferencedBlocks := by
        intro s' hs'
        split
        next hterm =>
          refine (Decides.ok ?_).congr ⟨fun _ => hterm, fun _ => trivial⟩
          exact hs'
        next hterm => exact .error _ hterm
      apply (Decides.bind (requireBit_decides _ _ i s) (fun s' hs' _ => hname s' hs')).congr
      constructor
      · intro h
        exact .inr ⟨⟨by omega, h.1⟩, h.2⟩
      · intro h
        obtain hfree | ⟨⟨-, hbit⟩, hterm⟩ := h
        · exact absurd hfree hused
        · exact ⟨hbit, hterm⟩

theorem checkRootDirents_decides (n i : Nat) (s : CheckState) :
    Decides (checkRootDirents d (superOf d) (rootOf d) (rootIndirect d) n i s)
      (∀ j, i ≤ j → j < i + n → DirentSound d j) s.report.rootReferencedBlocks := by
  induction n generalizing i s with
  | zero => exact (Decides.ok rfl).congr ⟨fun _ j h1 h2 => by omega, fun _ => trivial⟩
  | succ n ih =>
    -- entry `i` and the entries after it
    have hsplit : (DirentSound d i ∧ ∀ j, i + 1 ≤ j → j < i + 1 + n → DirentSound d j) ↔
        ∀ j, i ≤ j → j < i + (n + 1) → DirentSound d j := by
      constructor
      · intro h j h1 h2
        rcases Nat.lt_or_eq_of_le h1 with hlt | rfl
        · exact h.2 j hlt (by omega)
        · exact h.1
      · intro h
        exact ⟨h i (Nat.le_refl i) (by omega), fun j h1 h2 => h j (by omega) (by omega)⟩
    refine Decides.congr ?_ hsplit
    unfold checkRootDirents
    cases hblock : rootBlock (rootOf d) (rootIndirect d) (i / direntsPerBlock) with
    | none =>
      refine .error _ (fun h => ?_)
      obtain ⟨⟨block, hb, -⟩, -⟩ := h
      exact absurd (hblock.symm.trans hb) (by simp)
    | some block =>
      dsimp only
      split
      next hzero =>
        refine .error _ (fun h => ?_)
        obtain ⟨⟨block', hb, hne, -⟩, -⟩ := h
        obtain rfl := Option.some.inj (hblock.symm.trans hb)
        exact hne hzero
      next hne =>
        have hparts : BlockPlaced d block.toNat ∧ d.canRead block.toNat = true ∧
            RootEntryValid d (d.blocks block.toNat) (i % direntsPerBlock) ∧
            (∀ j, i + 1 ≤ j → j < i + 1 + n → DirentSound d j) ↔
            DirentSound d i ∧ ∀ j, i + 1 ≤ j → j < i + 1 + n → DirentSound d j := by
          constructor
          · intro h
            exact ⟨⟨block, hblock, hne, h.1, h.2.1, h.2.2.1⟩, h.2.2.2⟩
          · intro h
            obtain ⟨⟨block', hb, -, hplaced, hread, hvalid⟩, hrest⟩ := h
            obtain rfl := Option.some.inj (hblock.symm.trans hb)
            exact ⟨hplaced, hread, hvalid, hrest⟩
        refine Decides.congr ?_ hparts
        refine Decides.bind (checkPointer_decides _ i s) (fun s' hs' _ => ?_)
        cases hread : d.canRead block.toNat with
        | false =>
          simp only [blockDeviceRead_unreadable hread]
          exact .error _ (fun h => Bool.false_ne_true h.1)
        | true =>
          simp only [blockDeviceRead_of_canRead hread]
          apply (Decides.bind (checkDirent_decides i _ _) (fun s'' hs'' _ => ?_)).congr
          · exact ⟨fun h => ⟨trivial, h⟩, fun h => h.2⟩
          · have hstep := ih (i + 1) s''
            rwa [hs'', hs'] at hstep

theorem validateRootDirents_decides (s : CheckState)
    (hread : (rootOf d).indirect ≠ 0#32 → d.canRead (rootOf d).indirect.toNat = true) :
    Decides (validateRootDirents d (superOf d) (rootOf d) s) (∀ i, i < (rootOf d).size.toNat / direntSize → DirentSound d i)
      s.report.rootReferencedBlocks := by
  unfold validateRootDirents
  dsimp only
  split
  next hzero =>
    have hstep := checkRootDirents_decides (d := d) ((rootOf d).size.toNat / direntSize) 0 s
    rw [show rootIndirect d = zeros from if_pos hzero] at hstep
    simpa using hstep
  next hne =>
    simp only [blockDeviceRead_of_canRead (hread hne)]
    have hstep := checkRootDirents_decides (d := d) ((rootOf d).size.toNat / direntSize) 0
      { s with scratch := d.blocks (rootOf d).indirect.toNat }
    rw [show rootIndirect d = d.blocks (rootOf d).indirect.toNat from if_neg hne] at hstep
    simpa using hstep

theorem checkReserved_ok {n b : Nat}
    (h : ∀ j, b ≤ j → j < b + n → Marked d m.bmapStart.toNat j) : checkReserved d m n b r = .ok () := by
  induction n generalizing b with
  | zero => rfl
  | succ n ih =>
    obtain ⟨hread, htest⟩ := h b (Nat.le_refl b) (by omega)
    simp only [checkReserved, blockDeviceRead_of_canRead hread, htest, if_true]
    exact ih (fun j h1 h2 => h j (by omega) (by omega))

theorem checkReserved_refuses {n b : Nat}
    (h : ¬ ∀ j, b ≤ j → j < b + n → Marked d m.bmapStart.toNat j) :
    ∃ r', checkReserved d m n b r = .error r' ∧ r'.result ≠ .ok := by
  induction n generalizing b with
  | zero => exact absurd (fun j h1 h2 => by omega) h
  | succ n ih =>
    unfold checkReserved
    dsimp only
    cases hread : d.canRead (u32 (m.bmapStart.toNat + b / bitsPerBlock)) with
    | false =>
      simp only [blockDeviceRead_unreadable hread]
      exact ⟨_, rfl, CapyfsCheckResult.noConfusion⟩
    | true =>
      simp only [blockDeviceRead_of_canRead hread]
      split
      next htest =>
        apply ih
        intro hrest
        apply h
        intro j h1 h2
        rcases Nat.lt_or_eq_of_le h1 with hlt | rfl
        · exact hrest j hlt (by omega)
        · exact ⟨hread, htest⟩
      next => exact ⟨_, rfl, CapyfsCheckResult.noConfusion⟩

theorem u32_start (x : BitVec 32) : u32 (x.toNat + 0 / bitsPerBlock) = x.toNat := by
  rw [Nat.zero_div, Nat.add_zero]
  exact Nat.mod_eq_of_lt x.isLt

theorem checkRootBit_ok
    (h : Marked d m.imapStart.toNat 0) : checkRootBit d m r = .ok () := by
  obtain ⟨hread, htest⟩ := h
  rw [u32_start] at hread htest
  rw [Nat.zero_mod] at htest
  simp only [checkRootBit, blockDeviceRead_of_canRead hread, htest, if_true]

theorem checkRootBit_refuses (h : ¬ Marked d m.imapStart.toNat 0) :
    ∃ r', checkRootBit d m r = .error r' ∧ r'.result ≠ .ok := by
  unfold checkRootBit
  cases hread : d.canRead m.imapStart.toNat with
  | false =>
    simp only [blockDeviceRead_unreadable hread]
    exact ⟨_, rfl, CapyfsCheckResult.noConfusion⟩
  | true =>
    simp only [blockDeviceRead_of_canRead hread]
    split
    next htest =>
      refine absurd ?_ h
      unfold Marked
      rw [u32_start, Nat.zero_mod]
      exact ⟨hread, htest⟩
    next => exact ⟨_, rfl, CapyfsCheckResult.noConfusion⟩

/-- The verdict on an image is `ok` exactly under `P`, and then `c` blocks are
counted. -/
structure Verdict (x : Check CapyfsCheckReport) (P : Prop) (c : Nat) : Prop where
  accepts : P → ∃ r, x = .ok r ∧ r.result = .ok ∧ r.rootReferencedBlocks = c
  refuses : ¬ P → ∃ r, x = .error r ∧ r.result ≠ .ok

theorem Verdict.refuse (hr : r.result ≠ .ok) (hP : ¬ P) : Verdict (.error r) P c :=
  ⟨fun h => absurd h hP, fun _ => ⟨r, rfl, hr⟩⟩

theorem dataStart_pos (h : validateLayout m = true) : 0 < m.dataStart.toNat := by
  unfold validateLayout at h
  obtain ⟨-, -, -, -, -, hb, hi, hn, hd, -⟩ := of_decide_eq_true h
  have h1 : bitmapBlocks m.blockCount.toNat < 2 ^ 17 + 1 := by
    unfold bitmapBlocks u32 bitsPerBlock capyfsBlockSize
    omega
  have h2 : bitmapBlocks m.inodeCount.toNat < 2 ^ 17 + 1 := by
    unfold bitmapBlocks u32 bitsPerBlock capyfsBlockSize
    omega
  have h3 : checkTableBlocks m.inodeCount.toNat < 2 ^ 20 + 1 := by
    unfold checkTableBlocks u32 capyfsBlockSize
    omega
  rw [hd, hn, hi, hb]
  unfold u32
  omega

theorem checkFromRoot_verdict (hk : EntriesKept d) (block0 : Bytes)
    (hcount : r.rootReferencedBlocks = 0) (hdevice : d.blockSize = capyfsBlockSize ∧ d.blockCount ≠ 0)
    (hsuper : d.canRead 0 = true) (hlayout : (superOf d).blockCount.toNat ≤ d.blockCount ∧ validateLayout (superOf d) = true) :
    Verdict (checkFromRoot d (superOf d) block0 r) (HealthyRoot d) (pointerCount d) := by
  unfold checkFromRoot
  cases hroot : d.canRead (superOf d).inodeStart.toNat with
  | false =>
    simp only [blockDeviceRead_unreadable hroot]
    exact .refuse CapyfsCheckResult.noConfusion
      (fun h => Bool.false_ne_true (hroot.symm.trans h.readable.2))
  | true =>
  simp only [blockDeviceRead_of_canRead hroot]
  by_cases hres : ∀ b, b < (superOf d).dataStart.toNat → Marked d (superOf d).bmapStart.toNat b
  swap
  · obtain ⟨r', hr', hne⟩ := checkReserved_refuses (d := d) (m := superOf d)
      (n := (superOf d).dataStart.toNat) (b := 0) (r := r)
      (fun h => hres (fun b hb => h b (Nat.zero_le b) (by omega)))
    rw [hr']
    exact .refuse hne (fun h => hres h.reserved)
  rw [checkReserved_ok (fun j _ hj => hres j (by omega))]
  by_cases hbit : Marked d (superOf d).imapStart.toNat 0
  swap
  · obtain ⟨r', hr', hne⟩ := checkRootBit_refuses (r := r) hbit
    rw [hr']
    exact .refuse hne (fun h => hbit h.rootBit)
  rw [checkRootBit_ok hbit]
  have hmap : d.canRead (superOf d).bmapStart.toNat = true := by
    have h0 := (hres 0 (dataStart_pos hlayout.2)).1
    rwa [u32_start] at h0
  simp only [blockDeviceRead_of_canRead hmap]
  have hblocks := validateRootBlocks_decides ⟨d.blocks (superOf d).inodeStart.toNat, r⟩ hcount
    (fun hrecord hdirect hindirect =>
      hk ⟨hdevice, ⟨hsuper, hroot⟩, hlayout, hres, hbit, hrecord, hdirect, hindirect⟩)
  by_cases hrecord : RecordSound (rootOf d) ∧
      (∀ i, (rootOf d).direct i ≠ 0#32 → BlockPlaced d ((rootOf d).direct i).toNat) ∧
      ((rootOf d).indirect ≠ 0#32 →
        BlockPlaced d (rootOf d).indirect.toNat ∧ d.canRead (rootOf d).indirect.toNat = true) ∧
      ∀ k, k < entriesPerBlock → indirectEntry (rootIndirect d) k ≠ 0#32 →
        BlockPlaced d (indirectEntry (rootIndirect d) k).toNat
  swap
  · obtain ⟨r', hr'⟩ := hblocks.refuses hrecord
    change Verdict (((validateRootBlocks d (superOf d) (rootOf d) _).mapError _).bind _) _ _
    rw [hr']
    exact .refuse CapyfsCheckResult.noConfusion
      (fun h => hrecord ⟨h.record, h.direct, h.indirect, h.entries⟩)
  obtain ⟨s, hs, hscount⟩ := hblocks.accepts hrecord
  change Verdict (((validateRootBlocks d (superOf d) (rootOf d) _).mapError _).bind _) _ _
  rw [hs]
  have hdirents := validateRootDirents_decides ⟨block0, s.report⟩ (fun hne => (hrecord.2.2.1 hne).2)
  change Verdict (((validateRootDirents d (superOf d) (rootOf d) ⟨block0, s.report⟩).mapError _).bind _) _ _
  by_cases hentries : ∀ i, i < (rootOf d).size.toNat / direntSize → DirentSound d i
  · obtain ⟨s', hs', hs'count⟩ := hdirents.accepts hentries
    rw [hs']
    have hhealthy : HealthyRoot d :=
      { toRootHead := ⟨hdevice, ⟨hsuper, hroot⟩, hlayout, hres, hbit, hrecord.1, hrecord.2.1, hrecord.2.2.1⟩
        entries := hrecord.2.2.2
        dirents := hentries }
    exact ⟨fun _ => ⟨_, rfl, rfl, hs'count.trans hscount⟩, fun hn => absurd hhealthy hn⟩
  · obtain ⟨r', hr'⟩ := hdirents.refuses hentries
    rw [hr']
    exact .refuse CapyfsCheckResult.noConfusion (fun h => hentries h.dirents)

theorem checkImage_verdict (hk : EntriesKept d) (hdevice : d.blockSize = capyfsBlockSize ∧ d.blockCount ≠ 0) :
    Verdict (checkImage d .start) (HealthyRoot d) (pointerCount d) := by
  unfold checkImage
  cases hsuper : d.canRead 0 with
  | false =>
    simp only [blockDeviceRead_unreadable hsuper]
    exact .refuse CapyfsCheckResult.noConfusion
      (fun h => Bool.false_ne_true (hsuper.symm.trans h.readable.1))
  | true =>
  simp only [blockDeviceRead_of_canRead hsuper]
  split
  next hbad =>
    refine .refuse CapyfsCheckResult.noConfusion (fun h => ?_)
    have hv := h.layout.2
    unfold validateLayout at hv
    obtain ⟨hmagic, hversion, hsize, -⟩ := of_decide_eq_true hv
    exact hbad.elim (absurd hmagic) (fun hb => hb.elim (absurd hsize) (absurd hversion))
  next =>
    split
    next hbad =>
      refine .refuse CapyfsCheckResult.noConfusion (fun h => ?_)
      obtain hlt | hv := hbad
      · exact absurd h.layout.1 (Nat.not_le_of_lt hlt)
      · exact Bool.false_ne_true (hv.symm.trans h.layout.2)
    next hgood =>
      simp only [not_or, Nat.not_lt, Bool.not_eq_false] at hgood
      exact checkFromRoot_verdict hk _ rfl hdevice hsuper hgood

/-- When the walk over the entries stays in the indirect block, the check accepts
exactly the healthy images and counts the pointers. -/
theorem check_exact (hk : EntriesKept d) :
    ((capyfsCheck d).2.result = .ok ↔ HealthyRoot d) ∧
      (HealthyRoot d → (capyfsCheck d).2.rootReferencedBlocks = pointerCount d) := by
  unfold capyfsCheck
  split
  next hbad =>
    have hno : ¬ HealthyRoot d := by
      intro h
      exact hbad.elim (absurd h.device.1) (fun hb => h.device.2 hb)
    exact ⟨⟨fun h => CapyfsCheckResult.noConfusion h, fun h => absurd h hno⟩, fun h => absurd h hno⟩
  next hgood =>
    simp only [not_or, Decidable.not_not] at hgood
    have hv := checkImage_verdict hk hgood
    by_cases hhealthy : HealthyRoot d
    · obtain ⟨r, hr, hok, hcount⟩ := hv.accepts hhealthy
      rw [hr]
      exact ⟨⟨fun _ => hhealthy, fun _ => hok⟩, fun _ => hcount⟩
    · obtain ⟨r, hr, hne⟩ := hv.refuses hhealthy
      rw [hr]
      exact ⟨⟨fun h => absurd h hne, fun h => absurd h hhealthy⟩, fun h => absurd h hhealthy⟩

end

def rootImage (indirect : BitVec 32) : Nat → Bytes
  | 0 => CapySuper.bytes
    { magic := capyfsMagic, version := capyfsVersion, blockSize := 4096, blockCount := 8,
      inodeCount := 1, bmapStart := 1, imapStart := 2, inodeStart := 3, dataStart := 4 }
  | 1 => store zeros 0 1 0x3F
  | 2 => store zeros 0 1 1
  | 3 => CapyInodeDisk.bytes { emptyInode with mode := vfsModeDir, links := 1, indirect := indirect }
  | 4 => pack [(4, 5), (4, 999)]
  | _ => zeros

def rootDevice (indirect : BitVec 32) : BlockDevice where
  blockSize := capyfsBlockSize
  blockCount := 8
  blocks := rootImage indirect
  readFails := fun _ => false
  writeFails := fun _ => false
  blockSize_lt := by decide
  blockCount_lt := by decide

/-- After the first pointer the walk reads the bitmap's words, which are zero, and
never meets the second. -/
theorem check_accepts_damaged :
    (capyfsCheck (rootDevice 4#32)).2.result = .ok ∧ ¬ HealthyRoot (rootDevice 4#32) := by
  refine ⟨by decide +kernel, fun h => ?_⟩
  have hplaced := h.entries 1 (by decide) (by decide +kernel)
  exact absurd hplaced.2.1 (by decide +kernel)

/-- A root with the file `a`: one direct block, and an indirect block whose last entry is a block. -/
def filledImage : Nat → Bytes
  | 0 => CapySuper.bytes
    { magic := capyfsMagic, version := capyfsVersion, blockSize := 4096, blockCount := 8,
      inodeCount := 2, bmapStart := 1, imapStart := 2, inodeStart := 3, dataStart := 4 }
  | 1 => store zeros 0 1 0x7F
  | 2 => store zeros 0 1 3
  | 3 => CapyInodeDisk.bytes
    { emptyInode with
      mode := vfsModeDir, links := 1, size := 36, direct := fun i => if i = 0 then 5 else 0, indirect := 4 }
  | 4 => store zeros (4 * 1023) 4 (6#32).toNat
  | 5 => pack [(4, 1), (1, 97)]
  | _ => zeros

def filledDevice : BlockDevice := { rootDevice 4#32 with blocks := filledImage }

theorem check_exact_filled :
    HealthyRoot filledDevice ∧ (capyfsCheck filledDevice).2.rootReferencedBlocks = 3 ∧
      indirectEntry (rootIndirect filledDevice) 1023 = 6#32 := by
  have hblock : rootIndirect filledDevice = store zeros (4 * 1023) 4 (6#32).toNat := by
    have hind : (rootOf filledDevice).indirect = 4#32 := by decide +kernel
    rw [rootIndirect, hind]
    rfl
  have hkept : EntriesKept filledDevice := by
    intro _ k hk _ hne
    have hk : k < 1023 := Nat.lt_of_succ_lt_succ hk
    refine absurd ?_ hne
    rw [hblock, ← indirectEntry_zeros k, indirectEntry, indirectEntry, field32, field32,
      load_congr (fun i _ hi => store_outside (.inl (by omega)))]
  have hcheck : (capyfsCheck filledDevice).2.result = .ok := by decide +kernel
  have hhealthy := (check_exact hkept).1.mp hcheck
  have hcount : (capyfsCheck filledDevice).2.rootReferencedBlocks = 3 := by decide +kernel
  exact ⟨hhealthy, hcount, by rw [hblock, indirectEntry, field32_store_same]⟩

end CapyOS.Proofs
