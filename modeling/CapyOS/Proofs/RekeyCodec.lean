import CapyOS.Security.Rekey

namespace CapyOS.Proofs
open Lib List

theorem volumeHeaderCrc32_congr {a b : Bytes} {n : Nat} (h : ∀ i, i < n → a i = b i) :
    volumeHeaderCrc32 a n = volumeHeaderCrc32 b n := by
  simp only [volumeHeaderCrc32, listBytes_congr h]

theorem volumeHeaderCrc32_lt (b : Bytes) (n : Nat) : volumeHeaderCrc32 b n < 2 ^ 32 :=
  (crc32 (listBytes b n)).isLt

theorem bytesZero_iff {b : Bytes} {o n : Nat} : bytesZero b o n = true ↔ ∀ i, i < n → b (o + i) = 0#8 := by
  simp [bytesZero]

theorem bytesZero_zeros : bytesZero zeros 0 4096 = true :=
  bytesZero_iff.mpr fun _ _ => rfl

theorem bytesZero_false {b : Bytes} (h : load b 0 4 ≠ 0) : bytesZero b 0 4096 = false := by
  cases hz : bytesZero b 0 4096 with
  | false => rfl
  | true =>
    have hzeros : load b 0 4 = load zeros 0 4 := by
      apply load_congr
      intro i _ hi
      have := bytesZero_iff.mp hz i (by omega)
      simpa using this
    exact absurd (hzeros.trans (load_zeros 0 4)) h

section
variable {buf : Bytes} {words : List Nat}

theorem crcRecord_front {i : Nat} (h : i < 124) : crcRecord words i = pack (words.map fun w => (4, w)) i :=
  store_outside (.inl h)

theorem packWidth_words (words : List Nat) : packWidth (words.map fun w => (4, w)) = 4 * words.length := by
  induction words with
  | nil => rfl
  | cons w ws ih =>
    rw [map_cons, packWidth_cons, ih, length_cons]
    omega

/-- A buffer that holds a record of words is accepted as one. -/
theorem crcRecordValid_record (hb : ∀ i, i < 128 → buf i = crcRecord words i) {n : Nat}
    (hn : words.length = n) (hw : 4 * n ≤ 124) : crcRecordValid buf n = true := by
  have hcrc : load buf 124 4 = volumeHeaderCrc32 buf 124 := by
    rw [load_congr (fun i _ hi => hb i (by omega)), crcRecord, load_store_same,
      volumeHeaderCrc32_congr (fun i hi => (hb i (by omega)).trans (crcRecord_front hi))]
    exact Nat.mod_eq_of_lt (volumeHeaderCrc32_lt _ _)
  have hzero : bytesZero buf (4 * n) (124 - 4 * n) = true := by
    apply bytesZero_iff.mpr
    intro i hi
    rw [hb _ (by omega), crcRecord_front (by omega), pack_beyond]
    · rfl
    · rw [packWidth_words, hn]
      omega
  simp [crcRecordValid, hcrc, hzero]

theorem crcRecord_word (hb : ∀ i, i < 128 → buf i = crcRecord words i)
    (hs : ∀ w ∈ words, w < 2 ^ 32) {i : Nat} (hi : i < words.length) (hw : 4 * i + 4 ≤ 124) :
    load buf (4 * i) 4 = words[i] := by
  have hfront : load buf (4 * i) 4 = load (pack (words.map fun w => (4, w))) (4 * i) 4 :=
    load_congr fun k _ hk => (hb k (by omega)).trans (crcRecord_front (by omega))
  have harr := @load_pack_array 4 words [] i hi
  rw [append_nil] at harr
  rw [hfront, harr]
  exact Nat.mod_eq_of_lt (hs _ (getElem_mem hi))

end

theorem RekeyCheckpoint.ofWords_congr {f g : Nat → Nat} (h : ∀ i, i < 22 → f i = g i) :
    RekeyCheckpoint.ofWords f = RekeyCheckpoint.ofWords g := by
  simp only [RekeyCheckpoint.ofWords, h _ (by decide : 0 < 22), h _ (by decide : 1 < 22),
    h _ (by decide : 2 < 22), h _ (by decide : 3 < 22), h _ (by decide : 4 < 22),
    h _ (by decide : 5 < 22), h _ (by decide : 6 < 22), h _ (by decide : 7 < 22),
    h _ (by decide : 8 < 22), h _ (by decide : 9 < 22), h _ (by decide : 10 < 22),
    h _ (by decide : 11 < 22), h _ (by decide : 12 < 22), h _ (by decide : 13 < 22),
    h _ (by decide : 14 < 22), h _ (by decide : 15 < 22), h _ (by decide : 16 < 22),
    h _ (by decide : 17 < 22), h _ (by decide : 18 < 22), h _ (by decide : 19 < 22),
    h _ (by decide : 20 < 22), h _ (by decide : 21 < 22)]

theorem RekeyStageManifest.ofWords_congr {f g : Nat → Nat} (h : ∀ i, i < 20 → f i = g i) :
    RekeyStageManifest.ofWords f = RekeyStageManifest.ofWords g := by
  simp only [RekeyStageManifest.ofWords, h _ (by decide : 0 < 20), h _ (by decide : 1 < 20),
    h _ (by decide : 2 < 20), h _ (by decide : 3 < 20), h _ (by decide : 4 < 20),
    h _ (by decide : 5 < 20), h _ (by decide : 6 < 20), h _ (by decide : 7 < 20),
    h _ (by decide : 8 < 20), h _ (by decide : 9 < 20), h _ (by decide : 10 < 20),
    h _ (by decide : 11 < 20), h _ (by decide : 12 < 20), h _ (by decide : 13 < 20),
    h _ (by decide : 14 < 20), h _ (by decide : 15 < 20), h _ (by decide : 16 < 20),
    h _ (by decide : 17 < 20), h _ (by decide : 18 < 20), h _ (by decide : 19 < 20)]

theorem rekeyCheckpoint_roundTrip {c : RekeyCheckpoint} {buf : Bytes}
    (hv : checkpointSemanticValid c = true) (hs : ∀ w ∈ c.words, w < 2 ^ 32)
    (hb : ∀ i, i < 128 → buf i = crcRecord c.words i) : rekeyCheckpointParse buf = some c := by
  have hwords : RekeyCheckpoint.ofWords (fun i => load buf (4 * i) 4) = c := by
    have hget : RekeyCheckpoint.ofWords (fun i => c.words.getD i 0) = c := rfl
    rw [← hget]
    apply RekeyCheckpoint.ofWords_congr
    intro i hi
    have hlen : i < c.words.length := hi
    rw [crcRecord_word hb hs hlen (by omega), getD_eq_getElem?_getD, List.getElem?_eq_getElem hlen, Option.getD_some]
  have hrecord : crcRecordValid buf 22 = true := crcRecordValid_record hb rfl (by decide)
  simp only [rekeyCheckpointParse, hwords, hrecord, hv, if_true]

theorem stageManifest_roundTrip {m : RekeyStageManifest} {buf : Bytes}
    (hv : stageManifestValid m = true) (hs : ∀ w ∈ m.words, w < 2 ^ 32)
    (hb : ∀ i, i < 128 → buf i = crcRecord m.words i) : stageManifestParse buf = some m := by
  have hwords : RekeyStageManifest.ofWords (fun i => load buf (4 * i) 4) = m := by
    have hget : RekeyStageManifest.ofWords (fun i => m.words.getD i 0) = m := rfl
    rw [← hget]
    apply RekeyStageManifest.ofWords_congr
    intro i hi
    have hlen : i < m.words.length := hi
    rw [crcRecord_word hb hs hlen (by omega), getD_eq_getElem?_getD, List.getElem?_eq_getElem hlen, Option.getD_some]
  have hrecord : crcRecordValid buf 20 = true := crcRecordValid_record hb rfl (by decide)
  simp only [stageManifestParse, hwords, hrecord, hv, if_true]

theorem stageManifestParse_some {m : RekeyStageManifest} {buf : Bytes} (h : stageManifestParse buf = some m) :
    stageManifestValid m = true ∧ ∀ w ∈ m.words, w < 2 ^ 32 := by
  simp only [stageManifestParse] at h
  split at h
  · split at h
    · rename_i hv
      obtain rfl := Option.some.inj h
      refine ⟨hv, ?_⟩
      intro w hw
      have hlt : ∀ i, load buf (4 * i) 4 < 2 ^ 32 := fun i => load_lt buf (4 * i) 4
      simp only [RekeyStageManifest.words, RekeyStageManifest.ofWords, mem_cons, not_mem_nil, or_false] at hw
      rcases hw with rfl | rfl | rfl | rfl | rfl | rfl | rfl | rfl | rfl | rfl | rfl | rfl | rfl |
        rfl | rfl | rfl | rfl | rfl | rfl | rfl
      all_goals exact hlt _
    · cases h
  · cases h

theorem rekeyCheckpointParse_some {c : RekeyCheckpoint} {buf : Bytes} (h : rekeyCheckpointParse buf = some c) :
    checkpointSemanticValid c = true ∧ c.magic0 = load buf 0 4 := by
  simp only [rekeyCheckpointParse] at h
  split at h
  · split at h
    · rename_i hv
      obtain rfl := Option.some.inj h
      exact ⟨hv, rfl⟩
    · cases h
  · cases h

structure SameHeader (a b : Bytes) : Prop where
  front : ∀ i, i < 508 → a i = b i
  crc : load a 508 4 = load b 508 4

theorem SameHeader.of_bytes {a b : Bytes} (h : ∀ i, i < 512 → a i = b i) : SameHeader a b :=
  ⟨fun i hi => h i (by omega), load_congr fun i _ hi => h i (by omega)⟩

namespace SameHeader
variable {a b : Bytes} (h : SameHeader a b)
include h

theorem word {o : Nat} (ho : o + 4 ≤ 508) : load a o 4 = load b o 4 :=
  load_congr fun i _ hi => h.front i (by omega)

theorem looksValid : volumeHeaderLooksValid a = volumeHeaderLooksValid b := by
  have hcrc : volumeHeaderCrc32 a volumeHeaderCrcOffset = volumeHeaderCrc32 b volumeHeaderCrcOffset :=
    volumeHeaderCrc32_congr h.front
  simp only [volumeHeaderLooksValid, VolumeHeader.magic0, VolumeHeader.magic1, VolumeHeader.version,
    VolumeHeader.headerCrc32, h.word (by decide : 0 + 4 ≤ 508), h.word (by decide : 4 + 4 ≤ 508),
    h.word (by decide : 8 + 4 ≤ 508), h.crc, hcrc]

theorem algo : VolumeHeader.kdfAlgoId a = VolumeHeader.kdfAlgoId b := h.word (by decide)

theorem offset : VolumeHeader.dataOffsetLba a = VolumeHeader.dataOffsetLba b := h.word (by decide)

theorem params : vhValidateParams (VolumeHeader.kdfAlgoId a) (VolumeHeader.kdfTCost a) (VolumeHeader.kdfMCost a)
        (VolumeHeader.kdfSaltLen a) (VolumeHeader.dataOffsetLba a) (VolumeHeader.reservedLbaCount a) =
      vhValidateParams (VolumeHeader.kdfAlgoId b) (VolumeHeader.kdfTCost b) (VolumeHeader.kdfMCost b)
        (VolumeHeader.kdfSaltLen b) (VolumeHeader.dataOffsetLba b) (VolumeHeader.reservedLbaCount b) := by
  simp only [VolumeHeader.kdfAlgoId, VolumeHeader.kdfTCost, VolumeHeader.kdfMCost,
    VolumeHeader.kdfSaltLen, VolumeHeader.dataOffsetLba, VolumeHeader.reservedLbaCount,
    h.word (by decide : 16 + 4 ≤ 508), h.word (by decide : 20 + 4 ≤ 508),
    h.word (by decide : 24 + 4 ≤ 508), h.word (by decide : 28 + 4 ≤ 508),
    h.word (by decide : 96 + 4 ≤ 508), h.word (by decide : 100 + 4 ≤ 508)]

theorem parse (hp : volumeHeaderParse b = some b) : volumeHeaderParse a = some a := by
  have hflags : VolumeHeader.flags a = VolumeHeader.flags b := h.word (by decide)
  have hres : bytesZero a 176 332 = bytesZero b 176 332 := by
    apply Bool.eq_iff_iff.mpr
    simp only [bytesZero_iff]
    constructor
    · intro hz i hi
      rw [← h.front _ (by omega)]
      exact hz i hi
    · intro hz i hi
      rw [h.front _ (by omega)]
      exact hz i hi
  simp only [volumeHeaderParse, h.looksValid, hflags, h.params, hres] at hp ⊢
  split at hp
  · rename_i hc
    rw [if_pos hc]
  · cases hp

variable {K : Type} (cr : VolumeCrypto K)

theorem computeTag (key : K) : vhComputeTag cr a key = vhComputeTag cr b key := by
  have hl : listBytes a volumeHeaderCheckTagOffset = listBytes b volumeHeaderCheckTagOffset :=
    listBytes_congr fun i hi => h.front i (Nat.lt_trans hi (by decide))
  simp only [vhComputeTag, hl]

theorem verifyCheckTag (key : K) : volumeHeaderVerifyCheckTag cr a key = volumeHeaderVerifyCheckTag cr b key := by
  simp only [volumeHeaderVerifyCheckTag, h.computeTag cr key, decide_eq_decide]
  apply forall_congr'
  intro i
  apply imp_congr_right
  intro hi
  have hi : i < 32 := hi
  rw [show VolumeHeader.kdfCheckTag a i = VolumeHeader.kdfCheckTag b i from h.front _ (by omega)]

theorem salt (hl : VolumeHeader.kdfSaltLen b ≤ volumeKdfSaltMax) :
    listBytes (VolumeHeader.kdfSalt a) (VolumeHeader.kdfSaltLen a) =
      listBytes (VolumeHeader.kdfSalt b) (VolumeHeader.kdfSaltLen b) := by
  have hlen : VolumeHeader.kdfSaltLen a = VolumeHeader.kdfSaltLen b := h.word (by decide)
  rw [hlen]
  apply listBytes_congr
  intro i hi
  have hmax : VolumeHeader.kdfSaltLen b ≤ 64 := hl
  exact h.front _ (by omega)

end SameHeader

theorem vhValidateParams_saltLen {algo t m n o r : Nat} (h : vhValidateParams algo t m n o r = true) :
    n ≤ volumeKdfSaltMax := by
  simp only [vhValidateParams, Bool.and_eq_true, decide_eq_true_eq] at h
  exact h.1.1.2.2

theorem SameHeader.deriveKeys {a b : Bytes} (h : SameHeader a b) {K : Type} (cr : VolumeCrypto K) :
    volumeHeaderDeriveKeys cr a = volumeHeaderDeriveKeys cr b := by
  have ht : VolumeHeader.kdfTCost a = VolumeHeader.kdfTCost b := h.word (by decide)
  have hm : VolumeHeader.kdfMCost a = VolumeHeader.kdfMCost b := h.word (by decide)
  simp only [volumeHeaderDeriveKeys, h.params]
  split
  · rename_i hv
    simp only [h.salt (vhValidateParams_saltLen hv), h.algo, ht, hm, h.verifyCheckTag cr]
  · rfl

theorem serialize_front {h : VolumeHeader} {i : Nat} (hi : i < 508) : volumeHeaderSerialize h i = h i := by
  have hblit : blit zeros 0 volumeHeaderCrcOffset h i = h i := by
    simp [blit, volumeHeaderCrcOffset, hi]
  exact (store_outside (.inl hi)).trans hblit

theorem serialize_crc (h : VolumeHeader) : volumeHeaderCrc32 (volumeHeaderSerialize h) volumeHeaderCrcOffset =
      VolumeHeader.headerCrc32 (volumeHeaderSerialize h) := by
  have hload := load_store_same (blit zeros 0 volumeHeaderCrcOffset h) 508 4
    (volumeHeaderCrc32 (blit zeros 0 volumeHeaderCrcOffset h) volumeHeaderCrcOffset)
  have hlt : volumeHeaderCrc32 (blit zeros 0 volumeHeaderCrcOffset h) volumeHeaderCrcOffset < 256 ^ 4 :=
    volumeHeaderCrc32_lt _ _
  rw [Nat.mod_eq_of_lt hlt] at hload
  have hsame : volumeHeaderCrc32 (volumeHeaderSerialize h) volumeHeaderCrcOffset =
      volumeHeaderCrc32 (blit zeros 0 volumeHeaderCrcOffset h) volumeHeaderCrcOffset :=
    volumeHeaderCrc32_congr fun i hi => store_outside (.inl hi)
  exact hsame.trans hload.symm

theorem serialize_same {h : VolumeHeader} (hv : volumeHeaderLooksValid h = true) : SameHeader (volumeHeaderSerialize h) h := by
  refine ⟨fun i hi => serialize_front hi, ?_⟩
  have hcrc : volumeHeaderCrc32 h volumeHeaderCrcOffset = load h 508 4 := by
    simp only [volumeHeaderLooksValid, Bool.and_eq_true, beq_iff_eq] at hv
    exact hv.2
  have hfront : volumeHeaderCrc32 (volumeHeaderSerialize h) volumeHeaderCrcOffset =
      volumeHeaderCrc32 h volumeHeaderCrcOffset :=
    volumeHeaderCrc32_congr fun i hi => serialize_front hi
  exact (serialize_crc h).symm.trans (hfront.trans hcrc)

def freshWords (salt : List Byte) : List Nat :=
  [volumeHeaderMagic0, volumeHeaderMagic1, volumeHeaderVersion, 0, volumeKdfAlgoArgon2id,
    cryptVolumeArgon2idTCost, cryptVolumeArgon2idMCost, salt.length]

def freshRest : List (Nat × Nat) :=
  [(48, 0), (4, headerDefaultDataOffsetLba), (4, headerDefaultReservedLbaCount),
    (volumeHeaderCheckTagSize, 0), (8, 0)] ++ byteFields (stageCreatorVersion.take 32)

def freshHeader (salt : List Byte) : VolumeHeader :=
  pack ((freshWords salt).map (fun w => (4, w)) ++ (byteFields salt ++ freshRest))

section
variable {salt : List Byte}

theorem freshHeader_init (hs : salt.length = 16) :
    volumeHeaderInit volumeKdfAlgoArgon2id cryptVolumeArgon2idTCost cryptVolumeArgon2idMCost salt
      headerDefaultDataOffsetLba headerDefaultReservedLbaCount 0 stageCreatorVersion = some (freshHeader salt) := by
  have hv : vhValidateParams volumeKdfAlgoArgon2id cryptVolumeArgon2idTCost cryptVolumeArgon2idMCost
      16 headerDefaultDataOffsetLba headerDefaultReservedLbaCount = true := by decide
  simp only [volumeHeaderInit, hs, hv, if_true]
  simp [freshHeader, freshWords, freshRest, hs, volumeKdfSaltMax]

theorem freshHeader_word {i : Nat} (hi : i < (freshWords salt).length) :
    load (freshHeader salt) (4 * i) 4 = (freshWords salt)[i] % 256 ^ 4 :=
  load_pack_array (freshWords salt) _ i hi

theorem freshHeader_rest (hs : salt.length = 16) (o k : Nat) :
    load (freshHeader salt) (48 + o) k = load (pack freshRest) o k := by
  rw [freshHeader, ← append_assoc]
  apply load_right
  simp [freshWords, hs]

theorem freshHeader_zero (hs : salt.length = 16) {i : Nat} (hi : 166 ≤ i) : freshHeader salt i = 0 := by
  apply pack_beyond
  have hrest : packWidth freshRest = 118 := by decide
  simp only [packWidth_append, packWidth_words, packWidth_byteFields, hs, hrest]
  simp only [freshWords, length_cons, length_nil]
  omega

end

section
variable {K : Type} {env : VolumeEnv K} {salt : List Byte}

def saltKey (env : VolumeEnv K) (salt : List Byte) : K :=
  env.crypto.deriveXtsKeysArgon2id
    (listBytes (VolumeHeader.kdfSalt (freshHeader salt)) (VolumeHeader.kdfSaltLen (freshHeader salt)))
    (VolumeHeader.kdfTCost (freshHeader salt)) (VolumeHeader.kdfMCost (freshHeader salt))

theorem stagedHeader_eq (hs : salt.length = 16) : stagedHeader env salt =
      some (volumeHeaderComputeCheckTag env.crypto (freshHeader salt) (saltKey env salt)) := by
  simp only [stagedHeader, freshHeader_init hs]
  rfl

theorem tagged_outside {h : VolumeHeader} {key : K} {i : Nat} (hi : i < 104 ∨ 136 ≤ i) :
    volumeHeaderComputeCheckTag env.crypto h key i = h i :=
  blit_outside hi

theorem staged_accepted (hs : salt.length = 16) :
    let image := volumeHeaderSerialize
      (volumeHeaderComputeCheckTag env.crypto (freshHeader salt) (saltKey env salt))
    volumeHeaderParse image = some image ∧ VolumeHeader.kdfAlgoId image = volumeKdfAlgoArgon2id ∧
      VolumeHeader.dataOffsetLba image = 1 ∧
      volumeHeaderDeriveKeys env.crypto image = some (saltKey env salt) := by
  intro image
  have hbyte : ∀ i, i < 508 → i < 104 ∨ 136 ≤ i → image i = freshHeader salt i :=
    fun i hi ho => (serialize_front hi).trans (tagged_outside ho)
  have hword : ∀ o, o + 4 ≤ 104 → load image o 4 = load (freshHeader salt) o 4 :=
    fun o ho => load_congr fun i _ hi => hbyte i (by omega) (.inl (by omega))
  have hfirst : ∀ i (hi : i < (freshWords salt).length),
      load image (4 * i) 4 = (freshWords salt)[i] % 256 ^ 4 := by
    intro i hi
    have hi8 : i < 8 := hi
    rw [hword _ (by omega)]
    exact freshHeader_word hi
  have hmagic0 : VolumeHeader.magic0 image = volumeHeaderMagic0 := hfirst 0 (by decide : 0 < 8)
  have hmagic1 : VolumeHeader.magic1 image = volumeHeaderMagic1 := hfirst 1 (by decide : 1 < 8)
  have hversion : VolumeHeader.version image = volumeHeaderVersion := hfirst 2 (by decide : 2 < 8)
  have hflags : VolumeHeader.flags image = 0 := hfirst 3 (by decide : 3 < 8)
  have halgo : VolumeHeader.kdfAlgoId image = volumeKdfAlgoArgon2id := hfirst 4 (by decide : 4 < 8)
  have ht : VolumeHeader.kdfTCost image = cryptVolumeArgon2idTCost := hfirst 5 (by decide : 5 < 8)
  have hm : VolumeHeader.kdfMCost image = cryptVolumeArgon2idMCost := hfirst 6 (by decide : 6 < 8)
  have hlen : VolumeHeader.kdfSaltLen image = 16 := by
    have h7 := hfirst 7 (by decide : 7 < 8)
    simpa [freshWords, hs, VolumeHeader.kdfSaltLen] using h7
  have hoff : VolumeHeader.dataOffsetLba image = 1 :=
    (hword 96 (by decide)).trans ((freshHeader_rest hs 48 4).trans (by decide))
  have hres : VolumeHeader.reservedLbaCount image = 1 :=
    (hword 100 (by decide)).trans ((freshHeader_rest hs 52 4).trans (by decide))
  have hzero : bytesZero image 176 332 = true := by
    apply bytesZero_iff.mpr
    intro i hi
    rw [hbyte _ (by omega) (.inr (by omega)), freshHeader_zero hs (by omega)]
    rfl
  have hlooks : volumeHeaderLooksValid image = true := by
    simp only [volumeHeaderLooksValid, hmagic0, hmagic1, hversion, Bool.and_eq_true, beq_iff_eq,
      true_and]
    exact serialize_crc _
  have hparams : vhValidateParams (VolumeHeader.kdfAlgoId image) (VolumeHeader.kdfTCost image)
      (VolumeHeader.kdfMCost image) (VolumeHeader.kdfSaltLen image) (VolumeHeader.dataOffsetLba image)
      (VolumeHeader.reservedLbaCount image) = true := by
    rw [halgo, ht, hm, hlen, hoff, hres]
    decide
  have hkey : env.crypto.deriveXtsKeysArgon2id
      (listBytes (VolumeHeader.kdfSalt image) (VolumeHeader.kdfSaltLen image))
      (VolumeHeader.kdfTCost image) (VolumeHeader.kdfMCost image) = saltKey env salt := by
    have hfresh : ∀ o, o + 4 ≤ 104 → load (freshHeader salt) o 4 = load image o 4 :=
      fun o ho => (hword o ho).symm
    have hl : VolumeHeader.kdfSaltLen (freshHeader salt) = VolumeHeader.kdfSaltLen image :=
      hfresh 28 (by decide)
    have htc : VolumeHeader.kdfTCost (freshHeader salt) = VolumeHeader.kdfTCost image :=
      hfresh 20 (by decide)
    have hmc : VolumeHeader.kdfMCost (freshHeader salt) = VolumeHeader.kdfMCost image :=
      hfresh 24 (by decide)
    have hsalt : listBytes (VolumeHeader.kdfSalt image) 16 =
        listBytes (VolumeHeader.kdfSalt (freshHeader salt)) 16 :=
      listBytes_congr fun i hi => hbyte _ (by omega) (.inl (by omega))
    rw [saltKey, hl, htc, hmc, hlen, hsalt]
  have htag : volumeHeaderVerifyCheckTag env.crypto image (saltKey env salt) = true := by
    simp only [volumeHeaderVerifyCheckTag, decide_eq_true_eq]
    intro i hi
    have hi : i < 32 := hi
    have hcompute : vhComputeTag env.crypto image (saltKey env salt) =
        vhComputeTag env.crypto (freshHeader salt) (saltKey env salt) := by
      have hl : listBytes image volumeHeaderCheckTagOffset =
          listBytes (freshHeader salt) volumeHeaderCheckTagOffset :=
        listBytes_congr fun j hj => hbyte j (Nat.lt_trans hj (by decide)) (.inl hj)
      simp only [vhComputeTag, hl]
    have hstored : VolumeHeader.kdfCheckTag image i =
        vhComputeTag env.crypto (freshHeader salt) (saltKey env salt) i :=
      (serialize_front (by omega)).trans (blit_inside hi)
    rw [hcompute, hstored]
  refine ⟨?_, halgo, hoff, ?_⟩
  · simp only [volumeHeaderParse, hlooks, hflags, hparams, hzero, Bool.and_true, beq_self_eq_true,
      if_true]
  · have hne : (VolumeHeader.kdfAlgoId image == volumeKdfAlgoPbkdf2Sha256) = false := by
      rw [halgo]
      decide
    simp only [volumeHeaderDeriveKeys, hparams, hne, hkey, htag, if_true, Bool.false_eq_true, if_false]

end

structure ReadyCount (env : VolumeEnv K) (count : Nat) : Prop where
  pos : 0 < count
  room : count + 1 < env.blockCount

def progressCheckpoint (env : VolumeEnv K) (count c : Nat) : RekeyCheckpoint :=
  { magic0 := checkpointMagic0, magic1 := checkpointMagic1, version := checkpointVersion,
    flags := flagInProgress, phaseFlags := if c = 0 then 35 else 39, planStatus := 1,
    sourceLayout := layoutLegacyFullDevice, targetLayout := layoutHeaderManaged, blockerFlags := 0,
    rawBlockCount := env.blockCount, capyfsBlockCount := count, sourceFirstLba := 0,
    sourceLastLba := count - 1, targetFirstLba := 1, targetLastLba := count,
    scratchFirstLba := count + 1, blocksTotal := count, blocksCompleted := c,
    nextSourceLba := count - 1 - c, nextTargetLba := if c = count then 1 else count - c,
    estimatedReadOps := count,
    estimatedWriteOps := if count > 0x7FFFFFFF then 0xFFFFFFFF else count * 2 + 1 }

def completedCheckpoint (env : VolumeEnv K) (count : Nat) : RekeyCheckpoint :=
  { progressCheckpoint env count count with flags := flagCompleted, phaseFlags := 63 }

variable {K : Type} {env : VolumeEnv K} {count c : Nat}

theorem sub32_of_le {a b : Nat} (ha : a < 2 ^ 32) (h : b ≤ a) : sub32 a b = a - b := by
  simp only [sub32, u32]
  omega

theorem legacyPlan_ready (h : ReadyCount env count) : legacyPlan env count =
      { status := .ready, sourceLayout := layoutLegacyFullDevice,
        targetLayout := layoutHeaderManaged, blockerFlags := 0, rawBlockCount := env.blockCount,
        capyfsBlockCount := count, sourceFirstLba := 0, sourceLastLba := count - 1,
        targetFirstLba := 1, targetLastLba := count, scratchFirstLba := count + 1,
        blocksToReencrypt := count, copyDirection := copyDirectionReverse, estimatedReadOps := count,
        estimatedWriteOps := if count > 0x7FFFFFFF then 0xFFFFFFFF else count * 2 + 1 } := by
  have hroom := h.room
  have hpos := h.pos
  have hlt := env.blockCount_lt
  have hshrink : ¬ count > env.blockCount - 1 := by omega
  have hscratch : ¬ count ≥ env.blockCount - 1 := by omega
  simp only [legacyPlan, hshrink, hscratch, if_false, sub32_of_le (by omega : count < 2 ^ 32) hpos,
    u32_of_lt (by omega : count + 1 < 2 ^ 32)]
  congr 1
  split
  · rfl
  · exact u32_of_lt (by omega)

theorem geometry_valid (h : ReadyCount env count) :
    rekeyGeometryValid env.blockCount count 0 (count - 1) 1 count (count + 1) count = true := by
  have hroom := h.room
  have hpos := h.pos
  have hlt := env.blockCount_lt
  have hsource : u32 (sub32 (count - 1) 0 + 1) = count := by
    rw [sub32_of_le (by omega) (by omega), u32_of_lt (by omega)]
    omega
  have htarget : u32 (sub32 count 1 + 1) = count := by
    rw [sub32_of_le (by omega) hpos, u32_of_lt (by omega)]
    omega
  have hfirst : (1 : Nat) ≤ count := hpos
  simp only [rekeyGeometryValid, hsource, htarget, Bool.and_eq_true, decide_eq_true_eq, beq_iff_eq]
  exact ⟨⟨⟨⟨⟨⟨Nat.zero_le _, hfirst⟩, Nat.lt_succ_self count⟩, hroom⟩, trivial⟩, trivial⟩, trivial⟩

theorem progress_phasesValid (hpos : 0 < count) :  checkpointPhasesValid (progressCheckpoint env count c) = true := by
  by_cases hz : c = 0
  · subst hz
    have hne : 0 ≠ count := by omega
    have hphase : (progressCheckpoint env count 0).phaseFlags = 35 := rfl
    simp only [checkpointPhasesValid, hphase, Bool.and_eq_true, decide_eq_true_eq]
    refine ⟨⟨⟨⟨by decide, fun _ => by decide⟩, ?_⟩, ?_⟩, ?_⟩
    · exact fun h => absurd h (Nat.lt_irrefl 0)
    · exact fun h => absurd h hne
    · exact fun h => absurd h hne
  · have hphase : (progressCheckpoint env count c).phaseFlags = 39 := if_neg hz
    simp only [checkpointPhasesValid, hphase, Bool.and_eq_true, decide_eq_true_eq]
    refine ⟨⟨⟨⟨by decide, fun h => absurd h hz⟩, fun _ _ => by decide⟩, ?_⟩, fun _ _ => by decide⟩
    exact fun _ h => absurd h (by decide : flagInProgress ≠ flagCompleted)

theorem progress_semanticValid (h : ReadyCount env count) (hc : c ≤ count) :
    checkpointSemanticValid (progressCheckpoint env count c) = true := by
  have hgeo := geometry_valid h
  have hroom := h.room
  have hpos := h.pos
  have hlt := env.blockCount_lt
  have hnext : (if c = count then (count - 1 - c == 0) && ((if c = count then 1 else count - c) == 1)
      else (count - 1 - c == sub32 (count - 1) c) &&
        ((if c = count then 1 else count - c) == sub32 count c)) = true := by
    by_cases he : c = count
    · simp [he]
    · rw [if_neg he, if_neg he, sub32_of_le (by omega) (by omega), sub32_of_le (by omega) (by omega)]
      simp
  have hstart : (count != 0) = true := by simpa using Nat.ne_of_gt hpos
  simp only [checkpointSemanticValid, progress_phasesValid hpos, Bool.and_true]
  simp only [progressCheckpoint, hgeo, beq_self_eq_true, Bool.and_true, Bool.true_and, Bool.true_or,
    RekeyPlanStatus.code, implies_true, decide_true, hstart]
  exact Bool.and_eq_true_iff.mpr ⟨decide_eq_true hc, hnext⟩

theorem completed_semanticValid (h : ReadyCount env count) :
    checkpointSemanticValid (completedCheckpoint env count) = true := by
  have hgeo := geometry_valid h
  have hpos := h.pos
  have hphases : checkpointPhasesValid (completedCheckpoint env count) = true := by
    have hphase : (completedCheckpoint env count).phaseFlags = 63 := rfl
    simp only [checkpointPhasesValid, hphase, Bool.and_eq_true, decide_eq_true_eq]
    refine ⟨⟨⟨⟨by decide, ?_⟩, ?_⟩, fun _ _ => by decide⟩, ?_⟩
    · exact fun he => absurd (he : count = 0) (Nat.ne_of_gt hpos)
    · exact fun _ he => absurd (he : count < count) (Nat.lt_irrefl count)
    · exact fun _ he => absurd he (by decide : flagCompleted ≠ flagInProgress)
  have hnext : ((count - 1 - count == 0) && ((if count = count then 1 else count - count) == 1)) = true := by
    simp
  simp only [checkpointSemanticValid, hphases, Bool.and_true]
  simp only [completedCheckpoint, progressCheckpoint, hgeo, hnext, beq_self_eq_true, Bool.and_true,
    Bool.true_and, Bool.or_true, RekeyPlanStatus.code, Nat.le_refl, decide_true, if_true, Nat.lt_irrefl, false_implies]
  simpa using Nat.ne_of_gt hpos

theorem progress_words (h : ReadyCount env count) (hc : c ≤ count) :
    ∀ w ∈ (progressCheckpoint env count c).words, w < 2 ^ 32 := by
  have hroom := h.room
  have hlt := env.blockCount_lt
  intro w hw
  simp only [RekeyCheckpoint.words, progressCheckpoint, mem_cons, not_mem_nil, or_false,
    checkpointMagic0, checkpointMagic1, checkpointVersion, flagInProgress, layoutLegacyFullDevice, layoutHeaderManaged] at hw
  rcases hw with rfl | rfl | rfl | rfl | rfl | rfl | rfl | rfl | rfl | rfl | rfl | rfl | rfl | rfl |
    rfl | rfl | rfl | rfl | rfl | rfl | rfl | rfl
  all_goals first | omega | (split <;> omega)

theorem completed_words (h : ReadyCount env count) : ∀ w ∈ (completedCheckpoint env count).words, w < 2 ^ 32 := by
  intro w hw
  have hset : (completedCheckpoint env count).words =
      ((progressCheckpoint env count count).words.set 3 flagCompleted).set 4 63 := rfl
  rw [hset] at hw
  rcases mem_or_eq_of_mem_set hw with hw | rfl
  · rcases mem_or_eq_of_mem_set hw with hw | rfl
    · exact progress_words h (Nat.le_refl count) w hw
    · decide
  · decide

end CapyOS.Proofs
