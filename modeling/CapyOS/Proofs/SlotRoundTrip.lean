import CapyOS.Proofs.SlotCodec

namespace CapyOS.Proofs
open Lib

def SameText {n : Nat} (a b : Chars n) : Prop :=
  strLen a = strLen b ∧ a.toList.take (strLen a) = b.toList.take (strLen b)

theorem sameText_strcpy {n : Nat} {src : Chars n} (h : strLen src < n) : SameText (bsStrcpy src) src := by
  refine ⟨strLen_strcpy h, ?_⟩
  rw [strLen_strcpy h, bsStrcpy_take h]

/-- A manager with other bytes in its versions. -/
def withVersions (m : BootSlotManager) (v : Fin 2 → Chars bootSlotVersionMax) : BootSlotManager :=
  { m with slots := fun i => { m.slots i with version := v i } }

/-- The same manager but for what stands behind the terminators of its versions. -/
structure SameManager (m m' : BootSlotManager) : Prop where
  versions : ∀ i, SameText (m'.slots i).version (m.slots i).version
  rest : m' = withVersions m fun i => (m'.slots i).version

theorem identityValid_terminated {slot : BootSlot} (hv : bsSlotIdentityValid slot) :
    strLen slot.version < bootSlotVersionMax := by
  obtain ⟨-, -, -, hstate⟩ := hv
  split at hstate
  · rw [strLen_zero (by decide) hstate.1]
    decide
  · have hfits := hstate.1
    simp only [bsStringFits, Bool.and_eq_true, decide_eq_true_eq] at hfits
    exact hfits.2.2

section
variable {m : BootSlotManager} {v : Fin 2 → Chars bootSlotVersionMax}

theorem identityValid_version {slot : BootSlot} {text : Chars bootSlotVersionMax}
    (hv : bsSlotIdentityValid slot) (hempty : slot.version[0] = 0#8 → text[0] = 0#8)
    (hfits : bsStringFits slot.version = true → bsStringFits text = true) :
    bsSlotIdentityValid { slot with version := text } := by
  obtain ⟨hhealth, hcap, hlba, hstate⟩ := hv
  refine ⟨hhealth, hcap, hlba, ?_⟩
  simp only
  split at hstate
  · rename_i he
    rw [if_pos he]
    exact ⟨hempty hstate.1, hstate.2⟩
  · rename_i he
    rw [if_neg he]
    exact ⟨hfits hstate.1, hstate.2⟩

theorem statesValid_withVersions (h : bsStatesValid m) : bsStatesValid (withVersions m v) := by
  simp only [bsStatesValid, BootSlotManager.slot, withVersions] at h ⊢
  exact h

theorem validate_withVersions (hv : bootSlotManagerValidate m) (hempty : ∀ i, (m.slots i).version[0] = 0#8 → (v i)[0] = 0#8)
    (hfits : ∀ i, bsStringFits (m.slots i).version = true → bsStringFits (v i) = true) :
    bootSlotManagerValidate (withVersions m v) := by
  obtain ⟨h1, h2, h3, h4, h5, h6, hslots, hlayout, hstates⟩ := hv
  have hplan : bootSlotLayoutPlan (withVersions m v).bootSectors =
      some (withVersions m v).layout := hlayout
  exact ⟨h1, h2, h3, h4, h5, h6, fun i => ⟨identityValid_version (hslots i).1 (hempty i) (hfits i), (hslots i).2⟩,
    hplan, statesValid_withVersions hstates⟩

theorem encode_withVersions (h : ∀ i, bsStrcpy (v i) = bsStrcpy (m.slots i).version)
    (g : BitVec 64) : bsRecordEncode (withVersions m v) g = bsRecordEncode m g := by
  have hslot (i : Fin 2) :
      bsEncodeSlot ((withVersions m v).slots i) = bsEncodeSlot (m.slots i) := by
    simp only [bsEncodeSlot, withVersions, h i]
  have hhead : bsRecordHead (withVersions m v) g = bsRecordHead m g := rfl
  have hbody : bsRecordBody (withVersions m v) g = bsRecordBody m g := by
    simp only [bsRecordBody, hslot, hhead]
  simp only [bsRecordEncode, hbody]

theorem record_decodes (hv : bootSlotManagerValidate m) (hn : ∀ i, (m.slots i).name = slotName i)
    {g : BitVec 64} (hg : g ≠ 0#64) : ∃ m', bsRecordDecode (bsRecordEncode m g) = some (m', g) ∧ SameManager m m' := by
  have hlen (i : Fin 2) := identityValid_terminated (hv.2.2.2.2.2.2.1 i).1
  -- the decoder finds the versions as `bs_strcpy` left them
  obtain ⟨v, hvs⟩ : ∃ v : Fin 2 → Chars bootSlotVersionMax, ∀ i, v i = bsStrcpy (m.slots i).version := ⟨_, fun _ => rfl⟩
  have hidem (i : Fin 2) : bsStrcpy (v i) = v i := by rw [hvs, bsStrcpy_idem (hlen i)]
  have hempty (i : Fin 2) (h0 : (m.slots i).version[0] = 0#8) : (v i)[0] = 0#8 := by
    have hzero : strLen (m.slots i).version = 0 := strLen_zero (by decide) h0
    rw [hvs, bsStrcpy_get, if_neg (by omega)]
  have hfits (i : Fin 2) (h : bsStringFits (m.slots i).version = true) :
      bsStringFits (v i) = true := by
    rw [hvs]
    exact bsStringFits_strcpy h
  refine ⟨withVersions m v, ?_, fun i => ?_, rfl⟩
  · rw [← encode_withVersions (fun i => by rw [hidem, hvs]) g]
    exact decode_encode (validate_withVersions hv hempty hfits) (fun i => ⟨hn i, hidem i⟩) hg
  · have hsame := sameText_strcpy (hlen i)
    rw [← hvs] at hsame
    exact hsame

end

/-! ### From bytes to bytes -/

theorem code_ofCode {c : BitVec 32} {s : BootSlotState} (h : BootSlotState.ofCode c = some s) : s.code = c := by
  unfold BootSlotState.ofCode at h
  split_ifs at h with h0 h1 h2 h3 h4
  all_goals
    obtain rfl := Option.some.inj h
    exact Eq.symm ‹_›

theorem flag_read {x : BitVec 32} (h : ¬x > 1#32) : flag (if x ≠ 0#32 then 1#32 else 0#32) = x := by
  have hx : x = 0#32 ∨ x = 1#32 := by bv_omega
  rcases hx with rfl | rfl <;> decide

section
variable {record : Bytes} {off : Nat}

theorem stands_chars {n o o' : Nat} {v : Chars n} (hv : v = charsAt record o n) (ho : o' = o) :
    Stands record o' (byteFields v.toList) := by
  subst hv ho
  rw [stands_byteFields]
  intro i hi
  simp [charsAt]

theorem decodeVersion_some {v : Chars bootSlotVersionMax} (h : bsDecodeVersion record off = some v) :
    v = charsAt record off bootSlotVersionMax ∧ bsStrcpy v = v := by
  unfold bsDecodeVersion at h
  simp only at h
  split at h
  · rename_i hok
    obtain rfl := Option.some.inj h
    exact ⟨rfl, (bsStrcpy_eq_self hok.2.1).mpr hok.2.2⟩
  · cases h

/-- The fields of a decoded slot are those of the record. -/
theorem decodeSlot_stands {name : Chars bootSlotNameMax} {slot : BootSlot}
    (h : bsDecodeSlot record off name = some slot) : Stands record off (bsEncodeSlot slot) := by
  unfold bsDecodeSlot at h
  split at h
  · cases h
  rename_i state hstate
  simp only at h
  split at h
  · cases h
  rename_i hbad
  split at h
  · cases h
  rename_i version hversion
  simp only [not_or, Bool.not_eq_false] at hbad
  have hhealth := flag_read hbad.1
  generalize (if field32 record (off + 36) ≠ 0#32 then 1#32 else 0#32) = health at h hhealth
  obtain ⟨_, hslot⟩ := Option.ite_none_right_eq_some.mp h
  obtain rfl := Option.some.inj hslot
  obtain ⟨hchars, hcopy⟩ := decodeVersion_some hversion
  have hzero : load record (off + 112) 16 = 0 :=
    load_eq_zero fun i hl hu => bsBytesZero_iff.mp hbad.2 i hl
      (by simp only [bsRecordSlotSize]; omega)
  generalize hdigest : charsAt record (off + 80) bootSlotSha256Size = digest
  rw [bsEncodeSlot]
  simp only [hcopy]
  refine Stands.append (Stands.append (Stands.append ?_ (stands_chars hchars ?_))
    (stands_chars hdigest.symm ?_)) ?_
  · simp only [Stands, code_ofCode hstate, hhealth, field32_toNat, Nat.add_assoc, Nat.reduceAdd, and_self]
  · simp only [packWidth_cons, packWidth_nil, Nat.reduceAdd]
  · simp only [packWidth_append, packWidth_chars, packWidth_cons, packWidth_nil]
    rfl
  · simp only [packWidth_append, packWidth_chars, packWidth_cons, packWidth_nil]
    exact ⟨hzero.symm, trivial⟩

theorem checksum_restored {body : Bytes} {o : Nat} (hsame : ∀ i < o, body i = record i)
    (hcrc : crc32 (listBytes record o) = field32 record o) {i : Nat} (hi : i < o + 4) :
    store body o 4 (crc32 (listBytes body o)).toNat i = record i :=
  store_restored hsame (by rw [listBytes_congr hsame, hcrc, field32_toNat]) hi

end

theorem record_reencoded {record : Bytes} {m : BootSlotManager} {g : BitVec 64} (h : bsRecordDecode record = some (m, g)) :
    ∀ i < bootSlotPersistRecordSize, bsRecordEncode m g i = record i := by
  unfold bsRecordDecode at h
  split at h
  · cases h
  rename_i hframed
  rw [not_not] at hframed
  obtain ⟨hmagic, hversion, hsize, hgen, hcrc, hpad, htail⟩ := hframed
  simp only at h
  split at h
  · cases h
  rename_i hrange
  rw [not_not] at hrange
  split at h
  · rename_i slot0 slot1 h0 h1
    have hflag := @flag_read (field32 record 32) (by have := hrange.2.2; bv_omega)
    generalize (if field32 record 32 ≠ 0#32 then 1#32 else 0#32) = rollback at h hflag
    obtain ⟨_, hm⟩ := Option.ite_none_right_eq_some.mp h
    obtain ⟨rfl, rfl⟩ := Prod.mk.inj (Option.some.inj hm)
    have hreserved : load record 60 4 = 0 :=
      load_eq_zero fun i hl hu => bsBytesZero_iff.mp hpad i hl
        (by simp only [bsRecordSlot0Offset]; omega)
    have hm : bsRecordMagic.toNat = load record 0 8 := by rw [← hmagic, field64_toNat]
    have hv : bsRecordFormatVersion.toNat = load record 8 4 := by rw [← hversion, field32_toNat]
    have hs : bootSlotPersistRecordSize = load record 12 4 := by
      rw [← field32_toNat, hsize]
      rfl
    intro i hi
    refine checksum_restored (fun k hk => ?_) hcrc hi
    by_cases hfields : k < bsRecordReservedOffset
    · rw [bsRecordBody, @Stands.pack record 0]
      · rw [Nat.zero_add]
      · refine Stands.append ?_ (Stands.append ?_ ?_)
        · simp only [bsRecordHead, Stands, hm, hv, hs, hflag, hreserved, field32_toNat,
            field64_toNat, Nat.reduceAdd, and_self, if_true, if_neg (show (1 : Fin 2) ≠ 0 by decide)]
        · rw [packWidth_recordHead, Nat.zero_add]
          exact decodeSlot_stands h0
        · rw [packWidth_recordHead, packWidth_encodeSlot, Nat.zero_add]
          exact decodeSlot_stands h1
      · simp only [packWidth_append, packWidth_recordHead, packWidth_encodeSlot]
        exact hfields
    · rw [bsBytesZero_iff.mp htail k (by omega) hk, bsRecordBody]
      apply pack_beyond
      simp only [packWidth_append, packWidth_recordHead, packWidth_encodeSlot]
      exact Nat.le_of_not_lt hfields
  · cases h

section
variable {layout : BootSlotLayout} {slot : BitVec 32}

theorem header_decodes {image : BootSlotImage} (hslot : slot < 2#32)
    (hv : bsImageValid image (layout.slots (slotIndex slot)).payloadCapacitySectors = true) :
    storeDecodeHeader layout slot (storeEncodeHeader layout slot image) =
      .ok { image with version := bsStrcpy image.version } := by
  simp only [bsImageValid, Bool.and_eq_true] at hv
  obtain ⟨⟨⟨hfits, hpos⟩, hcap⟩, hdig⟩ := hv
  have hlen : strLen image.version < bootSlotVersionMax := by
    simp only [bsStringFits, Bool.and_eq_true, decide_eq_true_eq] at hfits
    exact hfits.2.2
  have hfields : storeHeaderFields layout slot { image with version := bsStrcpy image.version } =
      storeHeaderFields layout slot image := by
    simp only [storeHeaderFields, bsStrcpy_idem hlen]
  have hencode : storeEncodeHeader layout slot { image with version := bsStrcpy image.version } =
      storeEncodeHeader layout slot image := by
    simp only [storeEncodeHeader, hfields]
  rw [← hencode]
  apply decodeHeader_encode hslot
  have hzeros := (bsStrcpy_eq_self (by rw [strLen_strcpy hlen]; exact hlen)).mp (bsStrcpy_idem hlen)
  simp only [storeImageValid, storeVersionValid, Bool.and_eq_true]
  exact ⟨⟨⟨⟨bsStringFits_strcpy hfits, hzeros⟩, hpos⟩, hcap⟩, hdig⟩

theorem header_reencoded {header : Bytes} {image : BootSlotImage} (h : storeDecodeHeader layout slot header = .ok image) :
    ∀ i < bootSlotStoreSectorSize, storeEncodeHeader layout slot image i = header i := by
  unfold storeDecodeHeader at h
  split at h
  · cases h
  rename_i hframed
  rw [not_not] at hframed
  obtain ⟨hslot, hmagic, hversion, hsize, hself, hboot, hhead, hpay, hcap, hcrc, htail⟩ := hframed
  split at h
  · cases h
  rename_i version hver
  simp only at h
  split at h
  · cases h
  obtain rfl := Except.ok.inj h
  obtain ⟨hchars, hcopy⟩ := decodeVersion_some hver
  generalize hdigest : charsAt header 80 bootSlotSha256Size = digest
  have hm : storeMagic.toNat = load header 0 8 := by rw [← hmagic, field64_toNat]
  have hv : storeHeaderVersion.toNat = load header 8 4 := by rw [← hversion, field32_toNat]
  have hs : bootSlotStoreSectorSize = load header 12 4 := by
    rw [← field32_toNat, hsize]
    rfl
  have hword {x : BitVec 32} {o : Nat} (hx : field32 header o = x) : x.toNat = load header o 4 := by
    rw [← hx, field32_toNat]
  have hwidth : packWidth (storeHeaderFields layout slot
      ⟨version, field32 header 36, digest⟩) = 112 := by
    simp only [storeHeaderFields, packWidth_append, packWidth_chars, packWidth_cons, packWidth_nil]
    rfl
  intro i hi
  refine checksum_restored (fun k hk => ?_) hcrc hi
  by_cases hfields : k < 112
  · rw [Stands.pack (b := header) (o := 0) ?_ (by rw [hwidth]; exact hfields), Nat.zero_add]
    rw [storeHeaderFields]
    simp only [hcopy]
    refine Stands.append (Stands.append ?_ (stands_chars hchars ?_)) (stands_chars hdigest.symm ?_)
    · simp only [Stands, hm, hv, hs, hword hself, hword hboot, hword hhead, hword hpay, hword hcap,
        field32_toNat, Nat.reduceAdd, and_self]
    · simp only [packWidth_cons, packWidth_nil, Nat.reduceAdd]
    · simp only [packWidth_append, packWidth_chars, packWidth_cons, packWidth_nil]
      rfl
  · rw [bsBytesZero_iff.mp htail k (by omega) hk]
    exact pack_beyond (by rw [hwidth]; omega)

end

/-- Records and slot headers: what is encoded decodes to what was encoded, and
what decodes is encoded as it was. -/
theorem slot_codecs_inverse :
    (∀ m g, bootSlotManagerValidate m → (∀ i, (m.slots i).name = slotName i) → g ≠ 0#64 →
      ∃ m', bsRecordDecode (bsRecordEncode m g) = some (m', g) ∧ SameManager m m') ∧
    (∀ record m g, bsRecordDecode record = some (m, g) →
      ∀ i < bootSlotPersistRecordSize, bsRecordEncode m g i = record i) ∧
    (∀ layout slot image, slot < 2#32 →
      (bsImageValid image (layout.slots (slotIndex slot)).payloadCapacitySectors = true →
        storeDecodeHeader layout slot (storeEncodeHeader layout slot image) =
          .ok { image with version := bsStrcpy image.version } ∧
        SameText (bsStrcpy image.version) image.version) ∧
      (storeImageValid image (layout.slots (slotIndex slot)).payloadCapacitySectors = true →
        storeDecodeHeader layout slot (storeEncodeHeader layout slot image) = .ok image)) ∧
    ∀ layout slot header image, storeDecodeHeader layout slot header = .ok image →
      ∀ i < bootSlotStoreSectorSize, storeEncodeHeader layout slot image i = header i := by
  refine ⟨fun m g hv hn hg => record_decodes hv hn hg, fun record m g h => record_reencoded h,
    fun layout slot image hslot => ⟨fun hv => ⟨header_decodes hslot hv, ?_⟩,
      fun hv => decodeHeader_encode hslot hv⟩, fun layout slot header image h => header_reencoded h⟩
  simp only [bsImageValid, bsStringFits, Bool.and_eq_true, decide_eq_true_eq] at hv
  exact sameText_strcpy hv.1.1.1.2.2

end CapyOS.Proofs
