import CapyOS.Boot.GptIdentity
import CapyOS.Lib.Records

namespace CapyOS.Proofs
open Lib Function
variable {reader : GptReader} {entry : Bytes}

theorem identityEqual_iff {a b : Bytes} {n : Nat} : identityEqual a b n = true ↔ ∀ i < n, a i = b i := by
  simp [identityEqual]

/-- An entry of the table is in use. -/
def EntryUsed (entry : Bytes) : Prop := identityPresent entry 16 = true

/-- An entry carries the type of a partition. -/
def EntryType (k : PartKind) (entry : Bytes) : Prop :=
  ∀ i < 16, entry i = k.typeBytes.getD i 0

theorem EntryType.used {k : PartKind} (h : EntryType k entry) : EntryUsed entry := by
  have h0 := h 0 (by omega)
  simp only [EntryUsed, identityPresent, List.any_eq_true]
  refine ⟨0, by simp, ?_⟩
  rw [h0]
  cases k <;> decide

theorem EntryType.unique {k l : PartKind} (hk : EntryType k entry) (hl : EntryType l entry) : k = l := by
  have he : k.typeBytes.getD 0 0 = l.typeBytes.getD 0 0 :=
    (hk 0 (by omega)).symm.trans (hl 0 (by omega))
  revert he
  cases k <;> cases l <;> decide

theorem identityKind_some {k : PartKind} (h : identityKind entry = some k) : EntryType k entry := by
  unfold identityKind at h
  split_ifs at h with h1 h2 h3
  all_goals
    obtain rfl := Option.some.inj h
    exact identityEqual_iff.mp ‹_›

/-- A partition is what its entry says, no number of it cut off, and lies in the
usable range. -/
structure Describes (p : GptPartition) (entry : Bytes) (firstUsable lastUsable : Nat) : Prop where
  first : load entry 32 8 = p.lba
  last : load entry 40 8 + 1 = p.lba + p.sectors
  nonempty : 0 < p.sectors
  lower : firstUsable ≤ p.lba
  upper : p.lba + p.sectors ≤ lastUsable + 1
  guid : ∀ i < 16, p.guid i = entry (16 + i)

theorem identitySet_some {state : Option GptPartition} {fu lu : Nat} {p : GptPartition}
    (h : identitySet state entry (load entry 32 8) (load entry 40 8) fu lu = some p) :
    state = none ∧ Describes p entry fu lu := by
  unfold identitySet at h
  simp only at h
  split_ifs at h with hbad hcount
  obtain rfl := Option.some.inj h
  have hlast := load_lt entry 40 8
  simp only [not_or, Option.not_isSome_iff_eq_none] at hbad
  obtain ⟨hnone, hfirst, hlu, hle, hmax, _, _⟩ := hbad
  simp only [not_or] at hcount
  obtain ⟨hpos, hsize⟩ := hcount
  -- the length does not wrap in 64 bits: it would be zero
  have hexact : (load entry 40 8 - load entry 32 8 + 1) % 2 ^ 64 =
      load entry 40 8 - load entry 32 8 + 1 := by omega
  have hlba : u32 (load entry 32 8) = load entry 32 8 := u32_of_lt (by omega)
  have hlen : u32 ((load entry 40 8 - load entry 32 8 + 1) % 2 ^ 64) =
      load entry 40 8 - load entry 32 8 + 1 := by
    rw [hexact] at hsize ⊢
    exact u32_of_lt (by omega)
  exact ⟨hnone, hlba.symm, by simp only [hlba, hlen]; omega, by simp only [hlen]; omega,
    by simp only [hlba]; omega, by simp only [hlba, hlen]; omega, fun _ _ => rfl⟩

/-- What is known after the entries before the `n`-th: each partition found is
described by the one entry of its type, and every entry in use has a type. -/
structure StreamedEntries (entry : Nat → Bytes) (fu lu n : Nat) (st : IdentityState) : Prop where
  typed : ∀ e < n, EntryUsed (entry e) → ∃ k, EntryType k (entry e)
  absent : ∀ k, st k = none → ∀ e < n, ¬EntryType k (entry e)
  found : ∀ k p, st k = some p → ∃ e < n, EntryType k (entry e) ∧
    Describes p (entry e) fu lu ∧ ∀ e' < n, EntryType k (entry e') → e' = e

section
variable {entry : Nat → Bytes} {fu lu n : Nat} {st st' : IdentityState}

theorem StreamedEntries.step (h : StreamedEntries entry fu lu n st) (hs : identityEntry (entry n) fu lu st = some st') :
    StreamedEntries entry fu lu (n + 1) st' := by
  unfold identityEntry at hs
  split at hs
  · -- an unused entry has no type
    rename_i hunused
    obtain rfl := Option.some.inj hs
    have hno : ¬EntryUsed (entry n) := by simp [EntryUsed, hunused]
    refine ⟨?_, ?_, ?_⟩
    · intro e he hu
      rcases Nat.lt_succ_iff_lt_or_eq.mp he with hlt | rfl
      · exact h.typed e hlt hu
      · exact absurd hu hno
    · intro k hk e he ht
      rcases Nat.lt_succ_iff_lt_or_eq.mp he with hlt | rfl
      · exact h.absent k hk e hlt ht
      · exact hno ht.used
    · intro k p hp
      obtain ⟨e, he, ht, hd, huniq⟩ := h.found k p hp
      refine ⟨e, by omega, ht, hd, fun e' he' ht' => ?_⟩
      rcases Nat.lt_succ_iff_lt_or_eq.mp he' with hlt | rfl
      · exact huniq e' hlt ht'
      · exact absurd ht'.used hno
  split at hs
  · cases hs
  rename_i k hkind
  have htype := identityKind_some hkind
  split at hs
  · cases hs
  split at hs
  · cases hs
  rename_i p hset
  obtain rfl := Option.some.inj hs
  obtain ⟨hnone, hdesc⟩ := identitySet_some hset
  refine ⟨?_, ?_, ?_⟩
  · intro e he hu
    rcases Nat.lt_succ_iff_lt_or_eq.mp he with hlt | rfl
    · exact h.typed e hlt hu
    · exact ⟨k, htype⟩
  · intro l hl e he ht
    by_cases hlk : l = k
    · subst hlk
      simp at hl
    · rw [update_of_ne hlk] at hl
      rcases Nat.lt_succ_iff_lt_or_eq.mp he with hlt | rfl
      · exact h.absent l hl e hlt ht
      · exact hlk (ht.unique htype)
  · intro l q hq
    by_cases hlk : l = k
    · subst hlk
      simp only [update_self, Option.some.injEq] at hq
      subst hq
      refine ⟨n, Nat.lt_succ_self n, htype, hdesc, fun e' he' ht' => ?_⟩
      rcases Nat.lt_succ_iff_lt_or_eq.mp he' with hlt | rfl
      · exact absurd ht' (h.absent l hnone e' hlt)
      · rfl
    · rw [update_of_ne hlk] at hq
      obtain ⟨e, he, ht, hd, huniq⟩ := h.found l q hq
      refine ⟨e, by omega, ht, hd, fun e' he' ht' => ?_⟩
      rcases Nat.lt_succ_iff_lt_or_eq.mp he' with hlt | rfl
      · exact huniq e' hlt ht'
      · exact absurd (ht'.unique htype) hlk

theorem StreamedEntries.sector {sector : Bytes} {m : Nat} (i count : Nat) (hentry : ∀ j, i ≤ j → j < i + count →
      entry (m + j) = behind sector (j * gptIdentityEntrySize)) (h : StreamedEntries entry fu lu (m + i) st)
    (hs : identitySectorLoop sector fu lu i st count = some st') : StreamedEntries entry fu lu (m + i + count) st' := by
  induction count generalizing i st with
  | zero =>
    obtain rfl := Option.some.inj hs
    exact h
  | succ count ih =>
    unfold identitySectorLoop at hs
    split at hs
    · cases hs
    rename_i st₁ hone
    rw [← hentry i (Nat.le_refl i) (by omega)] at hone
    have hnext := ih (i + 1) (fun j hl hu => hentry j (by omega) (by omega)) (h.step hone) hs
    rwa [show m + i + (count + 1) = m + (i + 1) + count by omega]

end

/-- A sector, zeros where it cannot be read. -/
def sectorAt (reader : GptReader) (lba : Nat) : Bytes := (reader lba).getD zeros

/-- The entries of the primary table, four in a sector. -/
def primaryEntry (reader : GptReader) (e : Nat) : Bytes :=
  behind (sectorAt reader (2 + e / 4)) (e % 4 * gptIdentityEntrySize)

/-- Sectors one behind the other from an LBA on. -/
def arrayAt (reader : GptReader) (lba : Nat) : Bytes :=
  fun i => sectorAt reader (lba + i / 512) (i % 512)

theorem sectorAt_of_some {lba : Nat} {b : Bytes}
    (h : reader lba = some b) : sectorAt reader lba = b := by simp [sectorAt, h]

theorem listBytes_append (b : Bytes) (m n : Nat) : listBytes b (m + n) = listBytes b m ++ listBytes (behind b m) n := by
  simp [listBytes, behind, List.range_add, comp_def]

theorem identityCrcUpdate_array (reader : GptReader) (lba s : Nat) (crc : BitVec 32) :
    identityCrcUpdate (identityCrcUpdate crc (arrayAt reader lba) (s * 512)) (sectorAt reader (lba + s)) 512 =
      identityCrcUpdate crc (arrayAt reader lba) ((s + 1) * 512) := by
  have hsector : listBytes (behind (arrayAt reader lba) (s * 512)) 512 =
      listBytes (sectorAt reader (lba + s)) 512 := by
    apply listBytes_congr
    intro i hi
    have hdiv : (s * 512 + i) / 512 = s := by omega
    have hmod : (s * 512 + i) % 512 = i := by omega
    simp [behind, arrayAt, hdiv, hmod]
  unfold identityCrcUpdate
  rw [Nat.succ_mul, listBytes_append, List.foldl_append, hsector]

section
variable {reader : GptReader} {fu lu : Nat}

theorem entriesLoop_streamed (n s : Nat) {crc crc' : BitVec 32} {st st' : IdentityState}
    (h : StreamedEntries (primaryEntry reader) fu lu (s * 4) st)
    (hcrc : crc = identityCrcUpdate 0xFFFFFFFF#32 (arrayAt reader 2) (s * 512))
    (hl : identityEntriesLoop reader fu lu s crc st n = some (crc', st')) :
    StreamedEntries (primaryEntry reader) fu lu ((s + n) * 4) st' ∧
      crc' = identityCrcUpdate 0xFFFFFFFF#32 (arrayAt reader 2) ((s + n) * 512) ∧
      ∀ j, s ≤ j → j < s + n → reader (2 + j) = some (sectorAt reader (2 + j)) := by
  induction n generalizing s crc st with
  | zero =>
    obtain ⟨rfl, rfl⟩ := Prod.mk.inj (Option.some.inj hl)
    exact ⟨h, hcrc, fun j hj hj' => absurd hj' (by omega)⟩
  | succ n ih =>
    unfold identityEntriesLoop at hl
    split at hl
    · cases hl
    rename_i sector hread
    split at hl
    · cases hl
    rename_i st₁ hsector
    have hat := sectorAt_of_some hread
    have hstep : StreamedEntries (primaryEntry reader) fu lu (s * 4 + 0 + 4) st₁ := by
      refine StreamedEntries.sector 0 4 (fun j _ hj => ?_) h hsector
      have hdiv : (s * 4 + j) / 4 = s := by omega
      have hmod : (s * 4 + j) % 4 = j := by omega
      simp only [primaryEntry, hdiv, hmod, hat]
    obtain ⟨hstreamed, hfinal, hrest⟩ := ih (s + 1)
      (by rwa [show (s + 1) * 4 = s * 4 + 0 + 4 by omega])
      (by rw [hcrc, ← hat, identityCrcUpdate_array]) hl
    rw [show s + (n + 1) = s + 1 + n by omega]
    refine ⟨hstreamed, hfinal, fun j hj hj' => ?_⟩
    by_cases hjs : j = s
    · rw [hjs, hat, hread]
    · exact hrest j (by omega) (by omega)

theorem backupLoop_same {lba : Nat} (n s : Nat) {crc crc' : BitVec 32} (hlba : lba + s + n ≤ 2 ^ 32)
    (hcrc : crc = identityCrcUpdate 0xFFFFFFFF#32 (arrayAt reader lba) (s * 512))
    (hl : identityBackupLoop reader lba s crc n = some crc') :
    crc' = identityCrcUpdate 0xFFFFFFFF#32 (arrayAt reader lba) ((s + n) * 512) ∧
      ∀ j, s ≤ j → j < s + n → reader (lba + j) = some (sectorAt reader (lba + j)) ∧
        ∀ i < 512, sectorAt reader (lba + j) i = sectorAt reader (2 + j) i := by
  induction n generalizing s crc with
  | zero =>
    obtain rfl := Option.some.inj hl
    exact ⟨hcrc, fun j hj hj' => absurd hj' (by omega)⟩
  | succ n ih =>
    unfold identityBackupLoop at hl
    rw [u32_of_lt (by omega)] at hl
    split at hl
    · rename_i sector primary hread hprimary
      split at hl
      · rename_i heq
        have hat := sectorAt_of_some hread
        have hat' := sectorAt_of_some hprimary
        obtain ⟨hfinal, hrest⟩ := ih (s + 1) (by omega)
          (by rw [hcrc, ← hat, identityCrcUpdate_array]) hl
        rw [show s + (n + 1) = s + 1 + n by omega]
        refine ⟨hfinal, fun j hj hj' => ?_⟩
        by_cases hjs : j = s
        · subst hjs
          rw [hat, hat', hread]
          exact ⟨rfl, identityEqual_iff.mp heq⟩
        · exact hrest j (by omega) (by omega)
      · cases hl
    · cases hl

end

/-- A header with its checks and its CRC. -/
structure HeaderSound (header : Bytes) (self other entriesLba : Nat) : Prop where
  fields : identityHeaderOk header self entriesLba = true
  other : load header 32 8 = other
  crc : (identityHeaderCrc header).toNat = load header 16 4

/-- The identity a disk was read with, against the bytes on the disk. -/
structure IdentitySound (reader : GptReader) (blockCount : Nat) (out : GptIdentity) : Prop where
  primary : reader 1 = some (sectorAt reader 1) ∧
    HeaderSound (sectorAt reader 1) 1 (blockCount - 1) 2
  backup : reader (blockCount - 1) = some (sectorAt reader (blockCount - 1)) ∧
    HeaderSound (sectorAt reader (blockCount - 1)) (blockCount - 1) 1 (blockCount - 33)
  readable : ∀ s < 32, reader (2 + s) = some (sectorAt reader (2 + s))
  mirrored : ∀ s < 32, reader (blockCount - 33 + s) = some (sectorAt reader (blockCount - 33 + s)) ∧
    ∀ i < 512, sectorAt reader (blockCount - 33 + s) i = sectorAt reader (2 + s) i
  entriesCrc : (identityCrc (arrayAt reader 2) 16384).toNat = load (sectorAt reader 1) 88 4
  backupCrc : (identityCrc (arrayAt reader (blockCount - 33)) 16384).toNat =
      load (sectorAt reader (blockCount - 1)) 88 4
  typed : ∀ e < 128, EntryUsed (primaryEntry reader e) →
    ∃ k, EntryType k (primaryEntry reader e)
  parts : ∀ k, ∃ e < 128, EntryType k (primaryEntry reader e) ∧
    Describes (out.parts k) (primaryEntry reader e)
      (load (sectorAt reader 1) 40 8) (load (sectorAt reader 1) 48 8) ∧
    ∀ e' < 128, EntryType k (primaryEntry reader e') → e' = e
  usable : load (sectorAt reader 1) 40 8 = 34 ∧ load (sectorAt reader 1) 48 8 + 34 = blockCount ∧
    load (sectorAt reader (blockCount - 1)) 40 8 = 34 ∧
    load (sectorAt reader (blockCount - 1)) 48 8 + 34 = blockCount
  apart : ∀ k l, k ≠ l → (out.parts k).lba + (out.parts k).sectors ≤ (out.parts l).lba ∨
    (out.parts l).lba + (out.parts l).sectors ≤ (out.parts k).lba
  disk : out.diskSectors = blockCount

theorem identityOverlap_false {a b : GptPartition} (h : identityOverlap a b = false) :
    a.lba + a.sectors ≤ b.lba ∨ b.lba + b.sectors ≤ a.lba := by
  unfold identityOverlap at h
  split at h
  · cases h
  · rename_i hpos
    simp at h
    omega

theorem identityBackup_sound {blockCount fu lu entriesCrc : Nat}
    {diskGuid : Bytes} (hcount : 68 ≤ blockCount) (hlt : blockCount < 2 ^ 32)
    (h : identityBackup reader blockCount (blockCount - 1) fu lu entriesCrc diskGuid = true) :
    reader (blockCount - 1) = some (sectorAt reader (blockCount - 1)) ∧
    HeaderSound (sectorAt reader (blockCount - 1)) (blockCount - 1) 1 (blockCount - 33) ∧
    load (sectorAt reader (blockCount - 1)) 40 8 = fu ∧ load (sectorAt reader (blockCount - 1)) 48 8 = lu ∧
    load (sectorAt reader (blockCount - 1)) 88 4 = entriesCrc ∧
    (identityCrc (arrayAt reader (blockCount - 33)) 16384).toNat = entriesCrc ∧
    ∀ s < 32, reader (blockCount - 33 + s) = some (sectorAt reader (blockCount - 33 + s)) ∧
      ∀ i < 512, sectorAt reader (blockCount - 33 + s) i = sectorAt reader (2 + s) i := by
  have hself : u32 (blockCount - 1) = blockCount - 1 := u32_of_lt (by omega)
  have hentries : u32 (u32 (blockCount - 1) + 2 ^ 32 - 32) = blockCount - 33 := by
    rw [hself]
    unfold u32
    omega
  unfold identityBackup at h
  simp only [hentries] at h
  split at h
  · cases h
  rw [hself] at h
  split at h
  · cases h
  rename_i header hread
  have hat := sectorAt_of_some hread
  simp only [Bool.and_eq_true, beq_iff_eq] at h
  obtain ⟨⟨⟨⟨⟨⟨⟨hfields, hother⟩, hfu⟩, hlu⟩, _⟩, hstored⟩, hcrc⟩, hloop⟩ := h
  split at hloop
  · cases hloop
  rename_i crc hrun
  obtain ⟨hfinal, hsame⟩ := backupLoop_same 32 0 (by omega)
    (by simp [identityCrcUpdate, listBytes]) hrun
  rw [hfinal] at hloop
  rw [hat]
  exact ⟨hread, ⟨hfields, hother, hcrc⟩, hfu, hlu, hstored, beq_iff_eq.mp hloop, fun s hs => hsame s (Nat.zero_le s) (by omega)⟩

/-! ### A small disk -/

theorem crcUpdate_blank (n : Nat) : identityCrcUpdate 0#32 zeros n = 0#32 := by
  have hbyte : crcByte 0#32 0 = 0#32 := by decide
  have hfold : ∀ l : List Byte, (∀ b ∈ l, b = 0) → l.foldl crcByte 0#32 = 0#32 := by
    intro l hl
    induction l with
    | nil => rfl
    | cons b l ih =>
      rw [List.forall_mem_cons] at hl
      rw [List.foldl_cons, hl.1, hbyte]
      exact ih hl.2
  apply hfold
  intro b hb
  obtain ⟨i, -, rfl⟩ := List.mem_map.mp hb
  rfl

theorem sectorLoop_blank (fu lu : Nat) (st : IdentityState) : identitySectorLoop zeros fu lu 0 st 4 = some st := by
  have hentry (i : Nat) : identityEntry (behind zeros i) fu lu st = some st := by
    have hblank : identityPresent (behind zeros i) 16 = false := by
      simp [identityPresent, behind, zeros]
    rw [identityEntry, if_pos hblank]
  simp only [identitySectorLoop, hentry]

theorem entriesLoop_blank {fu lu : Nat} {st : IdentityState} (n s : Nat)
    (h : ∀ k, s ≤ k → k < s + n → reader (2 + k) = some zeros) :
    identityEntriesLoop reader fu lu s 0#32 st n = some (0#32, st) := by
  induction n generalizing s with
  | zero => rfl
  | succ n ih =>
    simp only [identityEntriesLoop, h s (Nat.le_refl s) (by omega), sectorLoop_blank, crcUpdate_blank]
    exact ih (s + 1) fun k hl hu => h k (by omega) (by omega)

theorem backupLoop_blank {be : Nat} (n s : Nat) (h : ∀ k, s ≤ k → k < s + n →
      reader (u32 (be + k)) = some zeros ∧ reader (2 + k) = some zeros) :
    identityBackupLoop reader be s 0#32 n = some 0#32 := by
  induction n generalizing s with
  | zero => rfl
  | succ n ih =>
    have hsame : identityEqual zeros zeros 512 = true := by simp [identityEqual]
    obtain ⟨hb, hp⟩ := h s (Nat.le_refl s) (by omega)
    simp only [identityBackupLoop, hb, hp, hsame, if_true, crcUpdate_blank]
    exact ih (s + 1) fun k hl hu => h k (by omega) (by omega)

def smallEntry (k : PartKind) (id lba : Nat) : List (Nat × Nat) :=
  byteFields k.typeBytes ++ [(16, id), (8, lba), (8, lba), (8, 0)] ++
    k.name.map (fun c => (2, c.toNat)) ++ [(72 - 2 * k.name.length, 0)]

/-- The first sector of entries. The bytes behind its three entries bring the CRC to
zero, where the empty sectors that follow leave it. -/
def smallEntries : Bytes :=
  pack (smallEntry .esp 1 34 ++ smallEntry .boot 2 35 ++ smallEntry .data 3 36 ++
    [(124, 0), (4, 0x6917277d)])

def smallHeader (self backup entries crc : Nat) : Bytes :=
  pack [(8, gptIdentitySignature), (4, gptIdentityRevision), (4, gptIdentityHeaderSize), (4, crc),
    (4, 0), (8, self), (8, backup), (8, 34), (8, 36), (16, 7), (8, entries),
    (4, gptIdentityEntryCount), (4, gptIdentityEntrySize), (4, 0xFFFFFFFF)]

/-- A disk of 70 sectors with its three partitions side by side. -/
def smallGpt : GptReader := fun lba =>
  if lba = 1 then some (smallHeader 1 69 2 0x792a1084)
  else if lba = 69 then some (smallHeader 69 1 37 0x1f668f91)
  else if lba = 2 ∨ lba = 37 then some smallEntries
  else some zeros

def partsFound (diskGuid : Bytes) (st : IdentityState) : Bool :=
  let p := IdentityState.value st
  (st .esp).isSome && (st .boot).isSome && (st .data).isSome &&
    !identityGuidCollision diskGuid p && !identityOverlap (p .esp) (p .boot) &&
    !identityOverlap (p .esp) (p .data) && !identityOverlap (p .boot) (p .data)

theorem crc_append (crc : BitVec 32) (b : Bytes) (m n : Nat) : identityCrcUpdate crc b (m + n) =
    identityCrcUpdate (identityCrcUpdate crc b m) (behind b m) n := by
  simp only [identityCrcUpdate, listBytes_append, List.foldl_append]

theorem smallEntries_crc : identityCrcUpdate 0xFFFFFFFF#32 smallEntries 512 = 0#32 := by
  have hesp : identityCrcUpdate 0xFFFFFFFF#32 smallEntries 128 = 2602517798#32 := by decide +kernel
  have hboot : identityCrcUpdate 2602517798#32 (behind smallEntries 128) 128 = 809167119#32 := by decide +kernel
  have hdata : identityCrcUpdate 809167119#32 (behind smallEntries 256) 128 = 264767767#32 := by decide +kernel
  have hlast : identityCrcUpdate 264767767#32 (behind smallEntries 384) 128 = 0#32 := by decide +kernel
  rw [crc_append _ _ 384 128, crc_append _ _ 256 128, crc_append _ _ 128 128, hesp, hboot, hdata, hlast]

theorem smallGpt_entries : ∃ st, identityEntriesLoop smallGpt 34 36 0 0xFFFFFFFF#32 (fun _ => none) 32 =
      some (0#32, st) ∧ partsFound (behind (smallHeader 1 69 2 0x792a1084) 56) st = true := by
  have hsector : ((identitySectorLoop smallEntries 34 36 0 (fun _ => none) 4).map
      (partsFound (behind (smallHeader 1 69 2 0x792a1084) 56))) = some true := by decide +kernel
  obtain ⟨st, hst, hfound⟩ := Option.map_eq_some_iff.mp hsector
  refine ⟨st, ?_, hfound⟩
  have hread : smallGpt (2 + 0) = some smallEntries := rfl
  rw [identityEntriesLoop, hread]
  simp only
  rw [hst, smallEntries_crc]
  exact entriesLoop_blank 31 1 fun k hl hu => by
    simp only [smallGpt]
    rw [if_neg (by omega), if_neg (by omega), if_neg (by omega)]

theorem smallGpt_backup : identityBackup smallGpt 70 69 34 36 0xFFFFFFFF (behind (smallHeader 1 69 2 0x792a1084) 56) =
      true := by
  have hread : smallGpt (u32 (37 + 0)) = some smallEntries := rfl
  have hread' : smallGpt (2 + 0) = some smallEntries := rfl
  have hsame : identityEqual smallEntries smallEntries 512 = true := by simp [identityEqual]
  have hloop : identityBackupLoop smallGpt 37 0 0xFFFFFFFF#32 32 = some 0#32 := by
    rw [identityBackupLoop, hread, hread']
    simp only
    rw [hsame, if_pos rfl, smallEntries_crc]
    exact backupLoop_blank 31 1 fun k hl hu => by
      have hk : u32 (37 + k) = 37 + k := Nat.mod_eq_of_lt (by omega)
      rw [hk]
      constructor
      all_goals
        simp only [smallGpt]
        rw [if_neg (by omega), if_neg (by omega), if_neg (by omega)]
  have hheader : smallGpt (u32 69) = some (smallHeader 69 1 37 0x1f668f91) := rfl
  have hentries : u32 (u32 69 + 2 ^ 32 - 32) = 37 := by decide
  have hfields : (identityHeaderOk (smallHeader 69 1 37 0x1f668f91) 69 37 &&
      load (smallHeader 69 1 37 0x1f668f91) 32 8 == 1 &&
      load (smallHeader 69 1 37 0x1f668f91) 40 8 == 34 &&
      load (smallHeader 69 1 37 0x1f668f91) 48 8 == 36 &&
      identityEqual (behind (smallHeader 69 1 37 0x1f668f91) 56)
        (behind (smallHeader 1 69 2 0x792a1084) 56) 16 &&
      load (smallHeader 69 1 37 0x1f668f91) 88 4 == 0xFFFFFFFF &&
      (identityHeaderCrc (smallHeader 69 1 37 0x1f668f91)).toNat ==
        load (smallHeader 69 1 37 0x1f668f91) 16 4) = true := by decide +kernel
  rw [identityBackup, hentries, if_neg (by decide), hheader]
  simp only
  rw [hfields, hloop]
  decide

/-- Every identity that is read is the one on the disk: one entry a partition in
both tables and no other, disjoint partitions inside the usable range, and CRCs
that match the bytes. -/
theorem gpt_identity_sound (reader : GptReader) (blockSize blockCount : UInt32)
    (out : GptIdentity) (h : capyosGptIdentityRead reader blockSize blockCount = some out) :
    IdentitySound reader blockCount.toNat out := by
  have hlt := blockCount.toNat_lt
  unfold capyosGptIdentityRead identityReadMode at h
  split at h
  · cases h
  rename_i hsize
  split at h
  · cases h
  rename_i header hread
  have hat := sectorAt_of_some hread
  simp only at h
  split at h
  · cases h
  rename_i hfields
  split at h
  · cases h
  rename_i hbounds
  simp only [not_or, not_not] at hbounds
  obtain ⟨hbackup, hfirst, hlast, hcrc⟩ := hbounds
  split at h
  · cases h
  rename_i crc st hloop
  split at h
  · rename_i hall
    obtain rfl := Option.some.inj h
    obtain ⟨hentries, hesp, hboot, hdata, _, heb, hed, hbd, hback⟩ := hall
    have hempty : StreamedEntries (primaryEntry reader)
        (load header 40 8) (load header 48 8) (0 * 4)
        (fun _ => none) :=
      ⟨fun e he => absurd he (by omega), fun k _ e he => absurd he (by omega),
        fun k p hp => by cases hp⟩
    obtain ⟨hstreamed, hfinal, hreadable⟩ := entriesLoop_streamed 32 0 hempty
      (by simp [identityCrcUpdate, listBytes]) hloop
    rw [hfinal] at hentries
    rw [hbackup] at hback hlast
    obtain ⟨hbread, hbheader, hbfu, hblu, hbstored, hbcrc, hmirror⟩ :=
      identityBackup_sound (by omega) hlt hback
    have hlu : load header 48 8 + 34 = blockCount.toNat := by omega
    have hfound (k : PartKind) : (st k).isSome = true := by
      cases k
      · exact hesp
      · exact hboot
      · exact hdata
    have hpart (k : PartKind) : st k = some (IdentityState.value st k) := by
      obtain ⟨p, hp⟩ := Option.isSome_iff_exists.mp (hfound k)
      simp [IdentityState.value, hp]
    have hok : identityHeaderOk header 1 2 = true := by
      simp only [Bool.not_eq_true', Bool.not_eq_false, Bool.and_eq_true] at hfields
      exact hfields.1
    refine ⟨⟨hat ▸ hread, ?_⟩, ⟨hbread, hbheader⟩, ?_, hmirror, ?_, ?_, ?_, ?_, ?_, ?_, rfl⟩
    · rw [hat]
      exact ⟨hok, hbackup, hcrc⟩
    · exact fun s hs => hreadable s (Nat.zero_le s) (by omega)
    · rw [hat]
      exact hentries
    · rw [hbcrc, hbstored]
    · exact fun e he => hstreamed.typed e (by omega)
    · intro k
      rw [hat]
      obtain ⟨e, he, ht, hd, huniq⟩ := hstreamed.found k _ (hpart k)
      exact ⟨e, by omega, ht, hd, fun e' he' => huniq e' (by omega)⟩
    · rw [hat]
      exact ⟨hfirst, hlu, by rw [hbfu, hfirst], by rw [hblu, hlu]⟩
    · have h1 := identityOverlap_false heb
      have h2 := identityOverlap_false hed
      have h3 := identityOverlap_false hbd
      intro k l hkl
      cases k <;> cases l <;> first | exact absurd rfl hkl | skip
      · exact h1
      · exact h2
      · exact h1.symm
      · exact h3
      · exact h2.symm
      · exact h3.symm
  · cases h

theorem smallGpt_sound : ∃ out, capyosGptIdentityRead smallGpt 512 70 = some out ∧
    IdentitySound smallGpt 70 out := by
  obtain ⟨st, hloop, hfound⟩ := smallGpt_entries
  obtain ⟨out, hread⟩ : ∃ out, capyosGptIdentityRead smallGpt 512 70 = some out := by
    have hheader : smallGpt 1 = some (smallHeader 1 69 2 0x792a1084) := rfl
    have hok : (identityHeaderOk (smallHeader 1 69 2 0x792a1084) 1 2 &&
        identityPresent (behind (smallHeader 1 69 2 0x792a1084) 56) 16) = true := by decide +kernel
    have hbackup : load (smallHeader 1 69 2 0x792a1084) 32 8 = 69 := by decide +kernel
    have hfirst : load (smallHeader 1 69 2 0x792a1084) 40 8 = 34 := by decide +kernel
    have hlast : load (smallHeader 1 69 2 0x792a1084) 48 8 = 36 := by decide +kernel
    have hcrc : (identityHeaderCrc (smallHeader 1 69 2 0x792a1084)).toNat =
        load (smallHeader 1 69 2 0x792a1084) 16 4 := by decide +kernel
    have hentries : load (smallHeader 1 69 2 0x792a1084) 88 4 = 0xFFFFFFFF := by decide +kernel
    simp only [partsFound, Bool.and_eq_true, Bool.not_eq_true'] at hfound
    obtain ⟨⟨⟨⟨⟨⟨hesp, hboot⟩, hdata⟩, hguid⟩, heb⟩, hed⟩, hbd⟩ := hfound
    refine ⟨⟨70, behind (smallHeader 1 69 2 0x792a1084) 56, IdentityState.value st⟩, ?_⟩
    rw [capyosGptIdentityRead, identityReadMode, if_neg (by decide), hheader]
    simp only
    rw [hok, hbackup, hfirst, hlast, hcrc, hentries, Bool.not_true, if_neg Bool.false_ne_true,
      if_neg (by decide), hloop]
    simp only
    exact if_pos ⟨by decide, hesp, hboot, hdata, hguid, heb, hed, hbd, smallGpt_backup⟩
  exact ⟨out, hread, gpt_identity_sound smallGpt 512 70 out hread⟩

end CapyOS.Proofs
