import CapyOS.Boot.SlotStore

namespace CapyOS.Proofs
open Lib List

section
variable {n : Nat}

theorem strLen_lt {text : Chars n} {i : Nat} (hi : i < n) (h : i < strLen text) : text[i] ≠ 0#8 := by
  have hne := not_of_lt_findIdx h
  simpa using hne

theorem strLen_end {text : Chars n} (h : strLen text < n) : text[strLen text] = 0#8 := by
  have hz := @findIdx_getElem _ (· == 0#8) text.toList (by simpa [strLen] using h)
  simpa [strLen] using hz

theorem strLen_zero {text : Chars n} (hn : 0 < n) (h : text[0] = 0#8) : strLen text = 0 := by
  by_contra hne
  exact strLen_lt hn (Nat.pos_of_ne_zero hne) h

theorem strLen_eq {text : Chars n} {k : Nat} (hk : k < n) (hfront : ∀ i (h : i < k), text[i] ≠ 0#8)
    (hend : text[k] = 0#8) : strLen text = k := by
  rcases Nat.lt_trichotomy (strLen text) k with h | h | h
  · exact absurd (strLen_end (Nat.lt_trans h hk)) (hfront _ h)
  · exact h
  · exact absurd hend (strLen_lt hk h)

theorem bsStrcpy_get (src : Chars n) {i : Nat} (hi : i < n) :
    (bsStrcpy src)[i] = if i < n - 1 ∧ i < strLen src then src[i] else 0#8 := by
  simp [bsStrcpy]

theorem strLen_strcpy {src : Chars n} (h : strLen src < n) : strLen (bsStrcpy src) = strLen src := by
  apply strLen_eq h
  · intro i hi
    rw [bsStrcpy_get, if_pos ⟨by omega, hi⟩]
    exact strLen_lt (by omega) hi
  · rw [bsStrcpy_get, if_neg (by omega)]

theorem bsStrcpy_take {src : Chars n} (h : strLen src < n) :
    (bsStrcpy src).toList.take (strLen src) = src.toList.take (strLen src) := by
  apply ext_getElem
  · simp
  · intro i h1 h2
    have hi : i < strLen src := by
      simp at h1
      omega
    simp only [getElem_take, Vector.getElem_toList]
    rw [bsStrcpy_get, if_pos ⟨by omega, hi⟩]

theorem bsStringFits_strcpy {src : Chars n} (h : bsStringFits src = true) : bsStringFits (bsStrcpy src) = true := by
  simp only [bsStringFits, Bool.and_eq_true, decide_eq_true_eq] at h ⊢
  rw [strLen_strcpy h.2.2, bsStrcpy_take h.2.2]
  exact h

theorem bsStrcpy_idem {src : Chars n} (h : strLen src < n) : bsStrcpy (bsStrcpy src) = bsStrcpy src := by
  apply Vector.ext
  intro i hi
  rw [bsStrcpy_get, strLen_strcpy h]
  split
  · rfl
  · rename_i hout
    rw [bsStrcpy_get, if_neg hout]

/-- An array with nothing but zeros behind its terminator is its own copy. -/
theorem bsStrcpy_eq_self {text : Chars n} (h : strLen text < n) :
    bsStrcpy text = text ↔ (text.toList.drop (strLen text)).all (· == 0#8) = true := by
  simp only [all_eq_true, beq_iff_eq]
  constructor
  · intro hc b hb
    obtain ⟨i, hi, rfl⟩ := List.mem_iff_getElem.mp hb
    simp only [length_drop, Vector.length_toList] at hi
    simp only [getElem_drop, Vector.getElem_toList]
    have hget := bsStrcpy_get text (show strLen text + i < n by omega)
    rw [if_neg (by omega)] at hget
    rw [← hget]
    simp only [hc]
  · intro hz
    apply Vector.ext
    intro i hi
    rw [bsStrcpy_get]
    split
    · rfl
    · rename_i hout
      have hle : strLen text ≤ i := by omega
      have hmem : text[i] ∈ text.toList.drop (strLen text) := by
        rw [mem_iff_getElem]
        refine ⟨i - strLen text, by simp; omega, ?_⟩
        simp [Nat.add_sub_cancel' hle]
      exact (hz _ hmem).symm

theorem strLen_lt_of_strcpy {text : Chars n} (hn : 0 < n) (h : bsStrcpy text = text) : strLen text < n := by
  by_contra hge
  have hlast : text[n - 1] = 0#8 := by
    have hget := bsStrcpy_get text (show n - 1 < n by omega)
    rw [if_neg (by omega)] at hget
    simpa only [h] using hget
  exact strLen_lt (by omega) (by omega) hlast

theorem not_present_all (digest : Chars n) : bsDigestPresent digest = false ↔ digest.toList.all (· == 0#8) = true := by
  rw [bsDigestPresent, any_eq_false, all_eq_true]
  simp only [bne_iff_ne, ne_eq, not_not, beq_iff_eq]

end

section
variable {record b : Bytes} {off w : Nat}

theorem field32_window (h : ∀ i, i < w → record (off + i) = b i) {k : Nat} (hk : k + 4 ≤ w) :
    field32 record (off + k) = field32 b k := by
  simp only [field32]
  rw [load_shift]
  congr 1
  apply load_congr
  intro i _ hi
  exact h i (by omega)

theorem charsAt_window (h : ∀ i, i < w → record (off + i) = b i) {k n : Nat} (hk : k + n ≤ w) :
    charsAt record (off + k) n = charsAt b k n := by
  apply Vector.ext
  intro i hi
  simp only [charsAt, Vector.getElem_ofFn]
  rw [Nat.add_assoc]
  exact h _ (by omega)

theorem bsBytesZero_iff {start stop : Nat} : bsBytesZero b start stop = true ↔ ∀ i, start ≤ i → i < stop → b i = 0#8 := by
  simp only [bsBytesZero, all_eq_true, mem_range, beq_iff_eq]
  constructor
  · intro h i hl hu
    have hi := h (i - start) (by omega)
    rwa [Nat.add_sub_cancel' hl] at hi
  · intro h i hi
    exact h _ (by omega) (by omega)

theorem charsAt_byteFields {n : Nat} (v : Chars n) (gs : List (Nat × Nat)) :
    charsAt (pack (byteFields v.toList ++ gs)) 0 n = v := by
  apply Vector.ext
  intro i hi
  simp only [charsAt, Vector.getElem_ofFn, Nat.zero_add]
  rw [pack_byteFields _ _ (by simpa using hi)]
  simp

end

theorem BootSlotState.ofCode_code (s : BootSlotState) : BootSlotState.ofCode s.code = some s := by
  cases s <;> rfl

theorem flag_le (x : BitVec 32) : ¬ flag x > 1#32 := by
  unfold flag
  split <;> decide

theorem flag_id {x : BitVec 32} (h : x = 0#32 ∨ x = 1#32) : (if flag x ≠ 0#32 then 1#32 else 0#32) = x := by
  rcases h with rfl | rfl <;> decide

/-- A slot as `bs_slot_apply_image` and `bs_decode_slot` leave it: under its own
name, and with a version that is padded with zeros. -/
structure CanonicalSlot (i : Fin 2) (s : BootSlot) : Prop where
  name : s.name = slotName i
  version : bsStrcpy s.version = s.version

def Canonical (m : BootSlotManager) : Prop := ∀ i, CanonicalSlot i (m.slots i)

section
variable {slot : BootSlot}

theorem decodedSlotValid (hv : bsSlotIdentityValid slot) : bsDecodedSlotValid slot := by
  obtain ⟨-, -, -, hstate⟩ := hv
  unfold bsDecodedSlotValid
  split
  · rename_i he
    rw [if_pos he] at hstate
    obtain ⟨hver, hsize, hboot, hsucc, hfail, hsum, hhealth, hdig⟩ := hstate
    exact ⟨hver, hboot, hsucc, hfail, hsize, hsum, hhealth, (not_present_all _).mp hdig⟩
  · rename_i he
    rw [if_neg he] at hstate
    obtain ⟨hfits, hsize, -, -⟩ := hstate
    simp only [bsStringFits, Bool.and_eq_true, decide_eq_true_eq] at hfits
    refine ⟨strLen_lt (by decide) hfits.2.1, ?_⟩
    rintro h0
    rw [h0] at hsize
    exact absurd hsize (by decide)

theorem decodeVersion_encode {src : Bytes} {o : Nat} (hv : bsSlotIdentityValid slot) (hc : bsStrcpy slot.version = slot.version)
    (hb : charsAt src o bootSlotVersionMax = slot.version) : bsDecodeVersion src o = some slot.version := by
  have hlen := strLen_lt_of_strcpy (by decide) hc
  have hprint : (slot.version.toList.take (strLen slot.version)).all printable = true := by
    obtain ⟨-, -, -, hstate⟩ := hv
    split at hstate
    · rw [strLen_zero (by decide) hstate.1]
      rfl
    · have hfits := hstate.1
      simp only [bsStringFits, Bool.and_eq_true] at hfits
      exact hfits.1
  simp only [bsDecodeVersion, hb]
  rw [if_pos ⟨hprint, hlen, (bsStrcpy_eq_self hlen).mp hc⟩]

theorem packWidth_chars {n : Nat} (v : Chars n) : packWidth (byteFields v.toList) = n := by
  rw [packWidth_byteFields, Vector.length_toList]

theorem packWidth_encodeSlot (slot : BootSlot) : packWidth (bsEncodeSlot slot) = bsRecordSlotSize := by
  simp only [bsEncodeSlot, packWidth_append, packWidth_chars, packWidth_cons, packWidth_nil]
  rfl

theorem decodeSlot_encode {record : Bytes} {off : Nat} {i : Fin 2} {rest : List (Nat × Nat)}
    (hb : ∀ k, k < bsRecordSlotSize → record (off + k) = pack (bsEncodeSlot slot ++ rest) k)
    (hv : bsSlotIdentityValid slot) (hc : CanonicalSlot i slot) : bsDecodeSlot record off (slotName i) = some slot := by
  have h0 : field32 record off = field32 record (off + 0) := rfl
  have hword : ∀ k, k + 4 ≤ bsRecordSlotSize →
      field32 record (off + k) = field32 (pack (bsEncodeSlot slot ++ rest)) k :=
    fun k hk => field32_window hb hk
  have hver : charsAt record (off + 40) bootSlotVersionMax = slot.version := by
    rw [charsAt_window hb (by decide)]
    have hbytes := charsAt_byteFields (bsStrcpy slot.version)
      (byteFields slot.payloadSha256.toList ++ ([(16, 0)] ++ rest))
    rw [hc.version] at hbytes
    refine Eq.trans ?_ hbytes
    apply Vector.ext
    intro k hk
    simp only [charsAt, Vector.getElem_ofFn, bsEncodeSlot, hc.version, append_assoc, Nat.zero_add]
    exact pack_right _ (by rfl) k
  have hsha : charsAt record (off + 80) bootSlotSha256Size = slot.payloadSha256 := by
    rw [charsAt_window hb (by decide)]
    refine Eq.trans ?_ (charsAt_byteFields slot.payloadSha256 ([(16, 0)] ++ rest))
    apply Vector.ext
    intro k hk
    simp only [charsAt, Vector.getElem_ofFn, bsEncodeSlot, append_assoc, Nat.zero_add]
    rw [← append_assoc]
    refine pack_right _ ?_ k
    simp only [packWidth_append, packWidth_chars, packWidth_cons, packWidth_nil]
    rfl
  have hzero : bsBytesZero record (off + 112) (off + bsRecordSlotSize) = true := by
    rw [bsBytesZero_iff]
    intro k hl hu
    obtain ⟨j, rfl⟩ := Nat.exists_eq_add_of_le hl
    have hj : j < 16 := by
      simp only [bsRecordSlotSize] at hu
      omega
    rw [Nat.add_assoc, hb _ (by simp only [bsRecordSlotSize]; omega)]
    simp only [bsEncodeSlot]
    rw [append_assoc _ [(16, 0)] rest, pack_right]
    · simp [pack, hj, leBytes]
    · simp only [packWidth_append, packWidth_chars, packWidth_cons, packWidth_nil]
      rfl
  obtain ⟨name, version, state, bootCount, successCount, failCount, headerLba, payloadLba, capacity,
    payloadSize, checksum, sha, health⟩ := slot
  obtain rfl := hc.name
  have hdec := decodeVersion_encode hv hc.version hver
  have hval := decodedSlotValid hv
  have hhealth : (if flag health ≠ 0#32 then 1#32 else 0#32) = health := flag_id hv.1
  have hle := flag_le health
  unfold bsDecodeSlot
  rw [h0]
  simp (disch := decide) only [hword, hdec, hsha, hzero]
  simp only [bsEncodeSlot, cons_append, nil_append]
  simp (disch := decide) only [field32_head, field32_tail, Nat.reduceSub]
  simp only [BootSlotState.ofCode_code, Bool.true_eq_false, or_false, if_neg hle, hhealth]
  exact if_pos hval

end

theorem fin2_eta {α : Type} (f : Fin 2 → α) : (fun i => if i = 0 then f 0 else f 1) = f := by
  funext i
  match i with
  | 0 => rfl
  | 1 => rfl

section
variable {m : BootSlotManager} {g : BitVec 64}

theorem packWidth_recordHead (m : BootSlotManager) (g : BitVec 64) : packWidth (bsRecordHead m g) = bsRecordSlot0Offset := rfl

theorem encode_front (m : BootSlotManager) (g : BitVec 64) {i : Nat} (hi : i < bsRecordCrcOffset) :
    bsRecordEncode m g i = bsRecordBody m g i :=
  store_outside (.inl hi)

theorem encode_field32 (m : BootSlotManager) (g : BitVec 64) {o : Nat} (ho : o + 4 ≤ bsRecordCrcOffset) :
    field32 (bsRecordEncode m g) o = field32 (bsRecordBody m g) o :=
  field32_congr fun _ _ hu => encode_front m g (by omega)

theorem encode_field64 (m : BootSlotManager) (g : BitVec 64) {o : Nat} (ho : o + 8 ≤ bsRecordCrcOffset) :
    field64 (bsRecordEncode m g) o = field64 (bsRecordBody m g) o :=
  field64_congr fun _ _ hu => encode_front m g (by omega)

theorem record_framed (m : BootSlotManager) (hg : g ≠ 0#64) : bsRecordFramed (bsRecordEncode m g) := by
  refine ⟨?_, ?_, ?_, ?_, ?_, ?_, ?_⟩
  · rw [encode_field64 m g (by decide)]
    exact field64_head _ _
  · rw [encode_field32 m g (by decide)]
    simp (disch := decide) only [bsRecordBody, bsRecordHead, cons_append, field32_tail, Nat.reduceSub, field32_head]
  · rw [encode_field32 m g (by decide)]
    simp (disch := decide) only [bsRecordBody, bsRecordHead, cons_append, field32_tail, Nat.reduceSub]
    exact field32_head _ (BitVec.ofNat 32 bootSlotPersistRecordSize)
  · rw [encode_field64 m g (by decide)]
    simp (disch := decide) only [bsRecordBody, bsRecordHead, cons_append, field64_tail, Nat.reduceSub, field64_head]
    exact hg
  · rw [listBytes_congr fun i hi => encode_front m g hi]
    exact (field32_store_same _).symm
  · rw [bsBytesZero_iff]
    intro i hl hu
    rw [encode_front m g (by simp only [bsRecordSlot0Offset, bsRecordCrcOffset] at hu ⊢; omega)]
    -- the reserved word is the last of the head
    rw [bsRecordBody, pack_append_left _ (by rw [packWidth_recordHead]; exact hu)]
    have hlast : bsRecordHead m g = (bsRecordHead m g).dropLast ++ [(4, 0)] := rfl
    obtain ⟨k, rfl⟩ := Nat.exists_eq_add_of_le hl
    have hk : k < 4 := by
      simp only [bsRecordSlot0Offset] at hu
      omega
    rw [hlast, pack_right _ (by rfl)]
    simp [pack, hk, leBytes]
  · rw [bsBytesZero_iff]
    intro i hl hu
    rw [encode_front m g hu, bsRecordBody]
    apply pack_beyond
    simp only [packWidth_append, packWidth_recordHead, packWidth_encodeSlot]
    exact hl

/-- A valid manager's record decodes to the manager and its generation. -/
theorem decode_encode (hv : bootSlotManagerValidate m) (hc : Canonical m) (hg : g ≠ 0#64) :
    bsRecordDecode (bsRecordEncode m g) = some (m, g) := by
  have hslot0 : bsDecodeSlot (bsRecordEncode m g) bsRecordSlot0Offset (slotName 0) = some (m.slots 0) := by
    refine @decodeSlot_encode _ _ _ 0 (bsEncodeSlot (m.slots 1)) (fun k hk => ?_)
      (hv.2.2.2.2.2.2.1 0).1 (hc 0)
    rw [encode_front m g (by simp only [bsRecordSlot0Offset, bsRecordSlotSize, bsRecordCrcOffset] at hk ⊢; omega)]
    exact pack_right _ (packWidth_recordHead m g) k
  have hslot1 : bsDecodeSlot (bsRecordEncode m g) (bsRecordSlot0Offset + bsRecordSlotSize) (slotName 1) =
      some (m.slots 1) := by
    refine @decodeSlot_encode _ _ _ 1 [] (fun k hk => ?_) (hv.2.2.2.2.2.2.1 1).1 (hc 1)
    rw [encode_front m g (by simp only [bsRecordSlot0Offset, bsRecordSlotSize, bsRecordCrcOffset] at hk ⊢; omega),
      bsRecordBody, Nat.add_assoc, pack_right _ (packWidth_recordHead m g),
      pack_right _ (packWidth_encodeSlot _), append_nil]
  have hword : ∀ o, o + 4 ≤ bsRecordSlot0Offset →
      field32 (bsRecordEncode m g) o = field32 (bsRecordBody m g) o :=
    fun o ho => encode_field32 m g (by simp only [bsRecordSlot0Offset, bsRecordCrcOffset] at ho ⊢; omega)
  have hgen : field64 (bsRecordEncode m g) 16 = g := by
    rw [encode_field64 m g (by decide)]
    simp (disch := decide) only [bsRecordBody, bsRecordHead, cons_append, field64_tail, Nat.reduceSub, field64_head]
  have hrollback : (if flag m.rollbackPending ≠ 0#32 then 1#32 else 0#32) = m.rollbackPending :=
    flag_id hv.2.2.2.2.2.1
  have hrange : m.activeSlot < 2#32 ∧ m.nextSlot < 2#32 ∧ flag m.rollbackPending ≤ 1#32 :=
    ⟨hv.1, hv.2.1, by have := flag_le m.rollbackPending; bv_omega⟩
  unfold bsRecordDecode
  rw [if_neg (not_not.mpr (record_framed m hg)), hslot0, hslot1, hgen]
  simp (disch := decide) only [hword]
  simp (disch := decide) only [bsRecordBody, bsRecordHead, cons_append, field32_tail, Nat.reduceSub, field32_head]
  rw [if_neg (not_not.mpr hrange), hrollback]
  simp only [fin2_eta]
  exact if_pos hv

end

theorem encode_not_erased (m : BootSlotManager) (g : BitVec 64) : bsRecordErased (bsRecordEncode m g) = false := by
  have h0 : bsRecordEncode m g 0 = 0x43#8 := by
    rw [encode_front m g (by decide)]
    rfl
  have hmem : (0x43#8 : Byte) ∈ listBytes (bsRecordEncode m g) bootSlotPersistRecordSize :=
    List.mem_map.mpr ⟨0, List.mem_range.mpr (by decide), h0⟩
  simp only [bsRecordErased, Bool.or_eq_false_iff, all_eq_false]
  exact ⟨⟨_, hmem, by decide⟩, ⟨_, hmem, by decide⟩⟩

variable {layout : BootSlotLayout} {slot : BitVec 32} {image : BootSlotImage}

theorem header_front {i : Nat} (hi : i < storeHeaderCrcOffset) :
    storeEncodeHeader layout slot image i = pack (storeHeaderFields layout slot image) i :=
  store_outside (.inl hi)

theorem header_field32 {o : Nat} (ho : o + 4 ≤ storeHeaderCrcOffset) :
    field32 (storeEncodeHeader layout slot image) o = field32 (pack (storeHeaderFields layout slot image)) o :=
  field32_congr fun _ _ hu => header_front (by omega)

theorem header_framed (hslot : slot < 2#32) : storeHeaderFramed layout slot (storeEncodeHeader layout slot image) := by
  refine ⟨hslot, ?magic, ?_, ?size, ?_, ?_, ?_, ?_, ?_, ?crc, ?zeros⟩
  case magic =>
    rw [field64_congr fun i _ hu => header_front (by simp only [storeHeaderCrcOffset]; omega)]
    exact field64_head _ _
  case size =>
    rw [header_field32 (by decide)]
    simp (disch := decide) only [storeHeaderFields, cons_append, field32_tail, Nat.reduceSub]
    exact field32_head _ (BitVec.ofNat 32 bootSlotStoreSectorSize)
  case crc =>
    rw [listBytes_congr fun i hi => header_front hi]
    exact (field32_store_same _).symm
  case zeros =>
    rw [bsBytesZero_iff]
    intro i hl hu
    rw [header_front hu]
    apply pack_beyond
    simp only [storeHeaderFields, packWidth_append, packWidth_chars, packWidth_cons, packWidth_nil]
    exact hl
  all_goals
    rw [header_field32 (by decide)]
    simp (disch := decide) only [storeHeaderFields, cons_append, field32_tail, Nat.reduceSub, field32_head]

/-- A slot header reads back as the image it was made of. -/
theorem decodeHeader_encode (hslot : slot < 2#32)
    (hv : storeImageValid image (layout.slots (slotIndex slot)).payloadCapacitySectors = true) :
    storeDecodeHeader layout slot (storeEncodeHeader layout slot image) = .ok image := by
  have hversion : storeVersionValid image.version = true := by
    simp only [storeImageValid, Bool.and_eq_true] at hv
    exact hv.1.1.1
  simp only [storeVersionValid, bsStringFits, Bool.and_eq_true, decide_eq_true_eq] at hversion
  obtain ⟨⟨hprint, hpos, hlen⟩, hzero⟩ := hversion
  have hcopy := (bsStrcpy_eq_self hlen).mpr hzero
  have hver : charsAt (storeEncodeHeader layout slot image) 40 bootSlotVersionMax = image.version := by
    refine Eq.trans ?_ (charsAt_byteFields image.version (byteFields image.payloadSha256.toList))
    apply Vector.ext
    intro k hk
    simp only [charsAt, Vector.getElem_ofFn, Nat.zero_add]
    rw [header_front (by simp only [bootSlotVersionMax, storeHeaderCrcOffset] at hk ⊢; omega)]
    simp only [storeHeaderFields, hcopy, append_assoc]
    exact pack_right _ (by rfl) k
  have hsha : charsAt (storeEncodeHeader layout slot image) 80 bootSlotSha256Size =
      image.payloadSha256 := by
    refine Eq.trans ?_ (charsAt_byteFields image.payloadSha256 [])
    apply Vector.ext
    intro k hk
    simp only [charsAt, Vector.getElem_ofFn, Nat.zero_add, append_nil]
    rw [header_front (by simp only [bootSlotSha256Size, storeHeaderCrcOffset] at hk ⊢; omega)]
    refine pack_right _ ?_ k
    simp only [packWidth_append, packWidth_chars, packWidth_cons, packWidth_nil]
    rfl
  have hsize : field32 (storeEncodeHeader layout slot image) 36 = image.payloadSize := by
    rw [header_field32 (by decide)]
    simp (disch := decide) only [storeHeaderFields, cons_append, field32_tail, Nat.reduceSub, field32_head]
  have hdec : bsDecodeVersion (storeEncodeHeader layout slot image) 40 = some image.version := by
    simp only [bsDecodeVersion, hver]
    rw [if_pos ⟨hprint, hlen, hzero⟩]
  unfold storeDecodeHeader
  rw [if_neg (not_not.mpr (header_framed hslot)), hdec, hsize, hsha]
  have hne : ¬ (strLen image.version = 0 ∨
      (!storeImageValid image (layout.slots (slotIndex slot)).payloadCapacitySectors) = true) := by
    rw [hv]
    simp
    omega
  exact if_neg hne

end CapyOS.Proofs
