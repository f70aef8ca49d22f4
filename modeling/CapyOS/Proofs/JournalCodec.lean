import CapyOS.Fs.Journal

namespace CapyOS.Proofs
open Lib List

/-- What `journal_init` copies out of a superblock block is what was put in. -/
theorem readSuperblock_bytes (sb : JournalSuperblock) : readSuperblock sb.bytes = sb := by
  obtain ⟨magic, version, blockSize, blockCount, head, tail, sequence, checksum, reserved⟩ := sb
  have hr : ∀ i : Fin 7, field32
      (pack ((List.ofFn reserved).map (fun r => (4, r.toNat)))) (4 * i.val) = reserved i := by
    intro i
    have h := field32_array (List.ofFn reserved) [] i.val (by simp)
    rw [append_nil, List.getElem_ofFn] at h
    exact h
  simp only [readSuperblock, JournalSuperblock.bytes, JournalSuperblock.fields,
    cons_append, nil_append, JournalSuperblock.mk.injEq]
  refine ⟨?_, ?_, ?_, ?_, ?_, ?_, ?_, ?_, ?_⟩
  · simp only [field32_head]
  · simp [field32_tail, field32_head]
  · simp [field32_tail, field32_head]
  · simp [field32_tail, field32_head]
  · simp [field32_tail, field32_head]
  · simp [field32_tail, field32_head]
  · simp [field64_tail, field64_head]
  · simp [field32_tail, field32_head]
  · funext i
    rw [← hr i]
    simp (disch := omega) only [field32_tail]
    congr 1
    omega

theorem readHeader_pack (h : JournalEntryHeader) (rest : List (Nat × Nat)) : readHeader (pack (h.fields ++ rest)) = h := by
  obtain ⟨magic, type, sequence, blockCount, dataSize, checksum, flags⟩ := h
  simp only [readHeader, JournalEntryHeader.fields, cons_append, nil_append, JournalEntryHeader.mk.injEq]
  refine ⟨?_, ?_, ?_, ?_, ?_, ?_, ?_⟩
  · simp only [field32_head]
  · simp [field32_tail, field32_head]
  · simp [field64_tail, field64_head]
  · simp [field32_tail, field32_head]
  · simp [field32_tail, field32_head]
  · simp [field32_tail, field32_head]
  · simp [field32_tail, field32_head]

theorem packWidth_header (h : JournalEntryHeader) : packWidth h.fields = 32 := rfl

/-- A field behind the header is read at its offset from the header's end. -/
theorem load_behind_header (h : JournalEntryHeader) (rest : List (Nat × Nat)) (o n : Nat) :
    load (pack (h.fields ++ rest)) (32 + o) n = load (pack rest) o n := by
  rw [← packWidth_header h]
  exact load_pack_append o n

theorem pack_ref_shift (r : JournalBlockRef) (rest : List (Nat × Nat)) (o n : Nat) :
    load (pack (r.fields ++ rest)) (16 + o) n = load (pack rest) o n :=
  @load_pack_append r.fields rest o n

theorem readRef_shift (h : JournalEntryHeader) (r : JournalBlockRef) (rest : List (Nat × Nat))
    (i : Nat) : readRef (pack (h.fields ++ (r.fields ++ rest))) (i + 1) = readRef (pack (h.fields ++ rest)) i := by
  simp only [readRef, field64, field32, Nat.add_assoc, load_behind_header]
  rw [show 16 * (i + 1) = 16 + 16 * i by omega]
  simp only [Nat.add_assoc, pack_ref_shift]

theorem readRef_first (h : JournalEntryHeader) (r : JournalBlockRef) (rest : List (Nat × Nat)) :
    readRef (pack (h.fields ++ (r.fields ++ rest))) 0 = r := by
  obtain ⟨target, offset, length⟩ := r
  have h64 : ∀ o, field64 (pack (h.fields ++ (JournalBlockRef.fields ⟨target, offset, length⟩ ++
      rest))) (32 + o) = field64 (pack (JournalBlockRef.fields ⟨target, offset, length⟩ ++ rest)) o := by
    intro o
    simp only [field64, load_behind_header]
  have h32 : ∀ o, field32 (pack (h.fields ++ (JournalBlockRef.fields ⟨target, offset, length⟩ ++
      rest))) (32 + o) = field32 (pack (JournalBlockRef.fields ⟨target, offset, length⟩ ++ rest)) o := by
    intro o
    simp only [field32, load_behind_header]
  simp only [readRef, Nat.mul_zero, Nat.add_assoc, h64, h32, Nat.zero_add, JournalBlockRef.mk.injEq]
  refine ⟨?_, ?_, ?_⟩
  · simp [JournalBlockRef.fields, field64_head]
  · simp [JournalBlockRef.fields, field32_tail, field32_head]
  · simp [JournalBlockRef.fields, field32_tail, field32_head]

theorem readRef_pack (h : JournalEntryHeader) (refs : List JournalBlockRef) (i : Nat) (hi : i < refs.length) :
    readRef (pack (h.fields ++ refs.flatMap JournalBlockRef.fields)) i = refs[i] := by
  induction refs generalizing i with
  | nil => simp at hi
  | cons r refs ih =>
    rw [flatMap_cons]
    cases i with
    | zero => exact readRef_first h r _
    | succ i =>
      rw [readRef_shift]
      exact ih i (by simpa using hi)

theorem readRefs_pack (h : JournalEntryHeader) (refs : List JournalBlockRef) :
    readRefs (pack (h.fields ++ refs.flatMap JournalBlockRef.fields)) refs.length = refs := by
  apply ext_getElem
  · simp [readRefs]
  · intro i h1 h2
    simpa [readRefs] using readRef_pack h refs i h2

theorem pack_bytes (bs : List Byte) (i : Nat) (hi : i < bs.length) : pack (bs.map (fun b => (1, b.toNat))) i = bs[i] := by
  induction bs generalizing i with
  | nil => simp at hi
  | cons b bs ih =>
    cases i with
    | zero => simp [pack, leBytes]
    | succ i => simpa [pack] using ih i (by simpa using hi)

theorem extractCommitTag_pack (h : JournalEntryHeader) (tag : List Byte) (ht : tag.length = journalHmacTagSize) :
    journalExtractCommitTag (pack (h.fields ++ tag.map (fun b => (1, b.toNat)))) = tag := by
  apply ext_getElem
  · simp [journalExtractCommitTag, ht]
  · intro i h1 h2
    have hb : pack (h.fields ++ tag.map (fun b => (1, b.toNat))) (32 + i) =
        pack (tag.map (fun b => (1, b.toNat))) i := by
      have := load_behind_header h (tag.map (fun b => (1, b.toNat))) i 1
      simp only [load, Nat.mul_zero, Nat.add_zero] at this
      exact BitVec.eq_of_toNat_eq this
    simp only [journalExtractCommitTag, listBytes, getElem_map, getElem_range, hb]
    exact pack_bytes tag i h2

theorem foldl_or_eq_zero (xs : List Byte) (acc : Byte) : xs.foldl (· ||| ·) acc = 0#8 ↔ acc = 0#8 ∧ ∀ x ∈ xs, x = 0#8 := by
  induction xs generalizing acc with
  | nil => simp
  | cons x xs ih =>
    have hor : acc ||| x = 0#8 ↔ acc = 0#8 ∧ x = 0#8 := by
      constructor
      · intro h
        have hbit : ∀ i, (acc ||| x).getLsbD i = false := by simp [h]
        simp only [BitVec.getLsbD_or, Bool.or_eq_false_iff] at hbit
        exact ⟨BitVec.eq_of_getLsbD_eq (fun i _ => by simpa using (hbit i).1),
          BitVec.eq_of_getLsbD_eq (fun i _ => by simpa using (hbit i).2)⟩
      · rintro ⟨rfl, rfl⟩
        rfl
    rw [foldl_cons, ih, hor]
    simp [and_assoc]

theorem constantTimeEq_iff {a b : List Byte} (h : a.length = b.length) : journalConstantTimeEq a b = true ↔ a = b := by
  rw [journalConstantTimeEq, beq_iff_eq, foldl_or_eq_zero]
  induction a generalizing b with
  | nil => cases b <;> simp_all
  | cons x a ih =>
    cases b with
    | nil => simp at h
    | cons y b =>
      have ih' := ih (b := b) (by simpa using h)
      simp only [zipWith_cons_cons, mem_cons, forall_eq_or_imp, BitVec.xor_eq_zero_iff,
        true_and, List.cons.injEq] at ih' ⊢
      rw [ih']

end CapyOS.Proofs
