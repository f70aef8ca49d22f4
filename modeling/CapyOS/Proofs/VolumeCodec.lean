import CapyOS.Security.VolumeCodec
import CapyOS.Proofs.RekeyCodec

namespace CapyOS.Proofs
open Lib

/-! ### Records of words -/

section
variable {buf : Bytes} {n : Nat}

theorem stands_words (b : Bytes) (o : Nat) (n : Nat) :
    Stands b o (((List.range n).map fun i => load b (o + 4 * i) 4).map fun w => (4, w)) := by
  induction n generalizing o with
  | zero => trivial
  | succ n ih =>
    rw [List.range_succ_eq_map, List.map_cons, List.map_cons, List.map_map (l := List.range n)]
    refine ⟨by simp, ?_⟩
    have hshift :
        (fun i => load b (o + 4 * i) 4) ∘ Nat.succ = fun i => load b (o + 4 + 4 * i) 4 := by
      funext i
      rw [Function.comp, Nat.mul_succ, Nat.add_comm (4 * i), Nat.add_assoc]
    rw [hshift]
    exact ih (o + 4)

/-- A record that is accepted is the record of its own words. -/
theorem crcRecord_restored (h : crcRecordValid buf n = true) (hn : 4 * n ≤ 124) {i : Nat}
    (hi : i < 128) : crcRecord ((List.range n).map fun i => load buf (4 * i) 4) i = buf i := by
  simp only [crcRecordValid, Bool.and_eq_true, beq_iff_eq] at h
  have hstands :
      Stands buf 0 (((List.range n).map fun i => load buf (4 * i) 4).map fun w => (4, w)) := by
    simpa using stands_words buf 0 n
  have hwidth : packWidth (((List.range n).map fun i => load buf (4 * i) 4).map fun w => (4, w)) =
      4 * n := by
    rw [packWidth_words, List.length_map, List.length_range]
  have hbody : ∀ k < 124, pack (((List.range n).map fun i => load buf (4 * i) 4).map fun w => (4, w)) k = buf k := by
    intro k hk
    by_cases hkn : k < 4 * n
    · rw [hstands.pack (by rw [hwidth]; exact hkn), Nat.zero_add]
    · have hzero := bytesZero_iff.mp h.2 (k - 4 * n) (by omega)
      rw [Nat.add_sub_cancel' (Nat.le_of_not_lt hkn)] at hzero
      rw [hzero, pack_beyond (by rw [hwidth]; omega)]
      rfl
  exact store_restored hbody (by rw [volumeHeaderCrc32_congr hbody, h.1]) hi

/-- The CRC stored in a record is the one the parser reads. -/
theorem crcRecord_crc (words : List Nat) : load (crcRecord words) 124 4 = volumeHeaderCrc32 (crcRecord words) 124 := by
  rw [crcRecord, load_store_same]
  have hsame : ∀ i, i < 124 → store (pack (words.map fun w => (4, w))) 124 4
      (volumeHeaderCrc32 (pack (words.map fun w => (4, w))) 124) i =
      pack (words.map fun w => (4, w)) i := fun i hi => store_outside (.inl hi)
  rw [volumeHeaderCrc32_congr hsame]
  exact Nat.mod_eq_of_lt (volumeHeaderCrc32_lt _ _)

end

theorem checkpoint_parsed (c : WithChecksum RekeyCheckpoint)
    (hv : checkpointSemanticValid c.value = true) (hs : ∀ w ∈ c.value.words, w < 2 ^ 32) :
    ∃ buf, checkpointSerialize c = some buf ∧ checkpointParse buf = some ⟨c.value, volumeHeaderCrc32 buf 124⟩ := by
  refine ⟨crcRecord c.value.words, by simp [checkpointSerialize, rekeyCheckpointSerialize, hv], ?_⟩
  rw [checkpointParse, rekeyCheckpoint_roundTrip hv hs fun _ _ => rfl, Option.map_some,
    crcRecord_crc]

theorem manifest_parsed (m : WithChecksum RekeyStageManifest)
    (hv : stageManifestValid m.value = true) (hs : ∀ w ∈ m.value.words, w < 2 ^ 32) : ∃ buf, manifestSerialize m = some buf ∧
      manifestParse buf = some ⟨m.value, volumeHeaderCrc32 buf 124⟩ := by
  refine ⟨crcRecord m.value.words, by simp [manifestSerialize, stageManifestSerialize, hv], ?_⟩
  rw [manifestParse, stageManifest_roundTrip hv hs fun _ _ => rfl, Option.map_some, crcRecord_crc]

theorem checkpoint_serialized {buf : Bytes} {c : WithChecksum RekeyCheckpoint} (h : checkpointParse buf = some c) :
    ∃ out, checkpointSerialize c = some out ∧ ∀ i < 128, out i = buf i := by
  obtain ⟨value, hparse, rfl⟩ := Option.map_eq_some_iff.mp h
  unfold rekeyCheckpointParse at hparse
  split at hparse
  · rename_i hrecord
    simp only at hparse
    split at hparse
    · rename_i hv
      obtain rfl := Option.some.inj hparse
      refine ⟨_, if_pos hv, ?_⟩
      exact fun i hi => crcRecord_restored hrecord (by decide) hi
    · cases hparse
  · cases hparse

theorem manifest_serialized {buf : Bytes} {m : WithChecksum RekeyStageManifest} (h : manifestParse buf = some m) :
    ∃ out, manifestSerialize m = some out ∧ ∀ i < 128, out i = buf i := by
  obtain ⟨value, hparse, rfl⟩ := Option.map_eq_some_iff.mp h
  unfold stageManifestParse at hparse
  split at hparse
  · rename_i hrecord
    simp only at hparse
    split at hparse
    · rename_i hv
      obtain rfl := Option.some.inj hparse
      refine ⟨_, if_pos hv, ?_⟩
      exact fun i hi => crcRecord_restored hrecord (by decide) hi
    · cases hparse
  · cases hparse

/-! ### Headers -/

section
variable {b : Bytes} {o : Nat}

theorem toNat_load32 {x : BitVec 32} : x.toNat = load b o 4 ↔ x = field32 b o := by
  rw [← field32_toNat, BitVec.toNat_inj]

theorem toNat_load64 {x : BitVec 64} : x.toNat = load b o 8 ↔ x = field64 b o := by
  rw [← field64_toNat, BitVec.toNat_inj]

theorem packWidth_vector {n : Nat} (v : Vector Byte n) : packWidth (byteFields v.toList) = n := by
  rw [packWidth_byteFields, Vector.length_toList]

theorem stands_bytesAt {n : Nat} {v : Vector Byte n} : Stands b o (byteFields v.toList) ↔ v = bytesAt b o n := by
  rw [stands_byteFields, Vector.ext_iff]
  simp [bytesAt]

end

section
open VolumeHeaderFields
variable {h : VolumeHeaderFields} {buf : Bytes}

theorem packWidth_wire (h : VolumeHeaderFields) : packWidth h.wire = 508 := by
  simp only [wire, packWidth_append, packWidth_vector, packWidth_cons, packWidth_nil]

theorem stands_wire : Stands buf 0 h.wire ↔ (h.magic0 = field32 buf 0 ∧ h.magic1 = field32 buf 4 ∧ h.version = field32 buf 8 ∧
      h.flags = field32 buf 12 ∧ h.kdfAlgoId = field32 buf 16 ∧ h.kdfTCost = field32 buf 20 ∧
      h.kdfMCost = field32 buf 24 ∧ h.kdfSaltLen = field32 buf 28) ∧ h.kdfSalt = bytesAt buf 32 64 ∧
    (h.dataOffsetLba = field32 buf 96 ∧ h.reservedLbaCount = field32 buf 100) ∧
    h.kdfCheckTag = bytesAt buf 104 32 ∧ h.creationTimestampNs = field64 buf 136 ∧
    h.creatorVersion = bytesAt buf 144 32 ∧ h.reserved = bytesAt buf 176 332 := by
  simp only [wire, stands_append, Stands, packWidth_vector, packWidth_cons, packWidth_nil,
    toNat_load32, toNat_load64, stands_bytesAt, Nat.reduceAdd, and_true]

theorem wire_fits (h : VolumeHeaderFields) : ∀ f ∈ h.wire, f.2 < 256 ^ f.1 := by
  have hword (x : BitVec 32) : x.toNat < 256 ^ 4 := x.isLt
  have hlong (x : BitVec 64) : x.toNat < 256 ^ 8 := x.isLt
  have hbytes (bs : List Byte) : ∀ f ∈ byteFields bs, f.2 < 256 ^ f.1 := by
    intro f hf
    obtain ⟨c, -, rfl⟩ := List.mem_map.mp hf
    exact c.isLt
  simp only [wire, List.forall_mem_append, List.forall_mem_cons, hword, hlong, List.not_mem_nil,
    false_imp_iff, implies_true, and_self, true_and]
  exact ⟨hbytes _, hbytes _, hbytes _, hbytes _⟩

theorem wire_front {i : Nat} (hi : i < 508) : h.serialize i = pack h.wire i :=
  store_outside (.inl hi)

theorem wire_stands (h : VolumeHeaderFields) : Stands h.serialize 0 h.wire := by
  have hpack : Stands (pack h.wire) 0 h.wire := stands_pack [] (wire_fits h)
  refine hpack.congr fun i hi => (wire_front ?_).symm
  rwa [packWidth_wire, Nat.zero_add] at hi

theorem wire_crc (h : VolumeHeaderFields) : load h.serialize 508 4 = volumeHeaderCrc32 h.serialize 508 := by
  have hfront : volumeHeaderCrc32 h.serialize 508 = volumeHeaderCrc32 (pack h.wire) 508 :=
    volumeHeaderCrc32_congr fun i hi => wire_front hi
  rw [hfront, serialize, volumeHeaderCrcOffset, load_store_same]
  exact Nat.mod_eq_of_lt (volumeHeaderCrc32_lt _ _)

theorem header_parsed (hv : h.Valid) : parse h.serialize =
      some { h with headerCrc32 := BitVec.ofNat 32 (volumeHeaderCrc32 h.serialize 508) } := by
  obtain ⟨hm0, hm1, hver, hflags, hparams, hzero⟩ := hv
  have hcrc := wire_crc h
  have hwire := wire_stands h
  generalize h.serialize = buf at hcrc hwire ⊢
  obtain ⟨⟨h0, h4, h8, h12, h16, h20, h24, h28⟩, hsalt, ⟨h96, h100⟩, htag, htime, hcreator, hres⟩ :=
    stands_wire.mp hwire
  have hlooks : volumeHeaderLooksValid buf = true := by
    simp only [volumeHeaderLooksValid, VolumeHeader.magic0, VolumeHeader.magic1,
      VolumeHeader.version, VolumeHeader.headerCrc32, volumeHeaderCrcOffset, Bool.and_eq_true, beq_iff_eq]
    exact ⟨⟨⟨(toNat_load32.mpr h0).symm.trans hm0, (toNat_load32.mpr h4).symm.trans hm1⟩,
      (toNat_load32.mpr h8).symm.trans hver⟩, hcrc.symm⟩
  have hflag : VolumeHeader.flags buf = 0 := by
    rw [VolumeHeader.flags, ← toNat_load32.mpr h12, hflags]
    rfl
  have hparam : vhValidateParams (VolumeHeader.kdfAlgoId buf) (VolumeHeader.kdfTCost buf)
      (VolumeHeader.kdfMCost buf) (VolumeHeader.kdfSaltLen buf) (VolumeHeader.dataOffsetLba buf)
      (VolumeHeader.reservedLbaCount buf) = true := by
    rw [toNat_load32.mpr h16, toNat_load32.mpr h20, toNat_load32.mpr h24, toNat_load32.mpr h28,
      toNat_load32.mpr h96, toNat_load32.mpr h100] at hparams
    exact hparams
  have hpad : bytesZero buf 176 332 = true := by
    rw [hzero] at hres
    apply bytesZero_iff.mpr
    intro i hi
    have hget := congrArg (fun v : Vector Byte 332 => v[i]) hres
    simpa [bytesAt] using hget.symm
  have hfields : ofBytes buf =
      { h with headerCrc32 := BitVec.ofNat 32 (volumeHeaderCrc32 buf 508) } := by
    cases h
    simp only at h0 h4 h8 h12 h16 h20 h24 h28 hsalt h96 h100 htag htime hcreator hzero
    rw [h0, h4, h8, h12, h16, h20, h24, h28, hsalt, h96, h100, htag, htime, hcreator, hzero, ← hcrc]
    rfl
  simp only [parse, hlooks, hflag, hparam, hpad, hfields, beq_self_eq_true, Bool.and_self, if_true]

/-- What the parser takes is valid, and is serialized to the bytes it was parsed from. -/
theorem header_serialized (hp : parse buf = some h) : h.Valid ∧ ∀ i < 512, h.serialize i = buf i := by
  unfold VolumeHeaderFields.parse at hp
  split at hp
  · rename_i hok
    simp only [Bool.and_eq_true, beq_iff_eq] at hok
    obtain ⟨⟨⟨hlooks, hflags⟩, hparams⟩, hzero⟩ := hok
    simp only [volumeHeaderLooksValid, volumeHeaderCrcOffset, Bool.and_eq_true, beq_iff_eq]
      at hlooks
    obtain ⟨⟨⟨hm0, hm1⟩, hver⟩, hcrc⟩ := hlooks
    have hpad : Vector.replicate 332 0 = bytesAt buf 176 332 := by
      apply Vector.ext
      intro i hi
      rw [Vector.getElem_replicate]
      simp only [bytesAt, Vector.getElem_ofFn, bytesZero_iff.mp hzero i hi]
      rfl
    have hwire : Stands buf 0 (ofBytes buf).wire :=
      stands_wire.mpr ⟨⟨rfl, rfl, rfl, rfl, rfl, rfl, rfl, rfl⟩, rfl, ⟨rfl, rfl⟩, rfl, rfl, rfl, hpad⟩
    have hvalid : (ofBytes buf).Valid := by
      refine ⟨?_, ?_, ?_, ?_, ?_, rfl⟩
      all_goals simp only [ofBytes, field32_toNat]
      · exact hm0
      · exact hm1
      · exact hver
      · exact BitVec.eq_of_toNat_eq ((field32_toNat buf 12).trans hflags)
      · exact hparams
    obtain rfl := Option.some.inj hp
    refine ⟨hvalid, ?_⟩
    generalize ofBytes buf = h at hwire
    have hbody : ∀ k < 508, pack h.wire k = buf k := fun k hk => by
      rw [hwire.pack (by rw [packWidth_wire]; exact hk), Nat.zero_add]
    exact fun i hi => store_restored hbody
      (by rw [volumeHeaderCrcOffset, volumeHeaderCrc32_congr hbody]; exact hcrc) hi
  · cases hp

end

/-- Headers, checkpoints and manifests: what is serialized parses to what was
serialized, its checksum field brought up to date; what parses is serialized to the bytes
it was parsed from, so that no two blocks parse alike. -/
theorem volume_codecs_inverse :
    ((∀ h : VolumeHeaderFields, h.Valid → VolumeHeaderFields.parse h.serialize =
        some { h with headerCrc32 := BitVec.ofNat 32 (volumeHeaderCrc32 h.serialize 508) }) ∧
      (∀ c : WithChecksum RekeyCheckpoint, checkpointSemanticValid c.value = true →
        (∀ w ∈ c.value.words, w < 2 ^ 32) → ∃ buf, checkpointSerialize c = some buf ∧
          checkpointParse buf = some { c with crc32 := volumeHeaderCrc32 buf 124 }) ∧
      ∀ m : WithChecksum RekeyStageManifest, stageManifestValid m.value = true →
        (∀ w ∈ m.value.words, w < 2 ^ 32) → ∃ buf, manifestSerialize m = some buf ∧
          manifestParse buf = some { m with crc32 := volumeHeaderCrc32 buf 124 }) ∧
    ((∀ buf h, VolumeHeaderFields.parse buf = some h →
        h.Valid ∧ ∀ i < 512, h.serialize i = buf i) ∧
      (∀ buf c, checkpointParse buf = some c →
        ∃ out, checkpointSerialize c = some out ∧ ∀ i < 128, out i = buf i) ∧
      ∀ buf m, manifestParse buf = some m →
        ∃ out, manifestSerialize m = some out ∧ ∀ i < 128, out i = buf i) ∧
    (∀ a b h, VolumeHeaderFields.parse a = some h → VolumeHeaderFields.parse b = some h →
        ∀ i < 512, a i = b i) ∧
      (∀ a b c, checkpointParse a = some c → checkpointParse b = some c → ∀ i < 128, a i = b i) ∧
      ∀ a b m, manifestParse a = some m → manifestParse b = some m → ∀ i < 128, a i = b i := by
  refine ⟨⟨fun h hv => header_parsed hv, checkpoint_parsed, manifest_parsed⟩,
    ⟨fun buf h hp => header_serialized hp, fun buf c hp => checkpoint_serialized hp,
      fun buf m hp => manifest_serialized hp⟩, ?_, ?_, ?_⟩
  · intro a b h ha hb i hi
    rw [← (header_serialized ha).2 i hi, (header_serialized hb).2 i hi]
  · intro a b c ha hb i hi
    obtain ⟨out, hout, hsame⟩ := checkpoint_serialized ha
    obtain ⟨out', hout', hsame'⟩ := checkpoint_serialized hb
    obtain rfl := Option.some.inj (hout.symm.trans hout')
    rw [← hsame i hi, hsame' i hi]
  · intro a b m ha hb i hi
    obtain ⟨out, hout, hsame⟩ := manifest_serialized ha
    obtain ⟨out', hout', hsame'⟩ := manifest_serialized hb
    obtain rfl := Option.some.inj (hout.symm.trans hout')
    rw [← hsame i hi, hsame' i hi]

def firstCheckpoint : WithChecksum RekeyCheckpoint where
  value :=
    { magic0 := checkpointMagic0, magic1 := checkpointMagic1, version := checkpointVersion,
      flags := flagInProgress, phaseFlags := phaseValidatePlan ||| phaseCheckpointScratch,
      planStatus := RekeyPlanStatus.ready.code, sourceLayout := layoutLegacyFullDevice,
      targetLayout := layoutHeaderManaged, blockerFlags := 0, rawBlockCount := 16,
      capyfsBlockCount := 1, sourceFirstLba := 0, sourceLastLba := 0, targetFirstLba := 1,
      targetLastLba := 1, scratchFirstLba := 2, blocksTotal := 1, blocksCompleted := 0,
      nextSourceLba := 0, nextTargetLba := 1, estimatedReadOps := 1, estimatedWriteOps := 3 }
  crc32 := 0

theorem checkpoint_checksum_recomputed :
    ¬∀ c : WithChecksum RekeyCheckpoint, checkpointSemanticValid c.value = true →
      (∀ w ∈ c.value.words, w < 2 ^ 32) → ∃ buf, checkpointSerialize c = some buf ∧
        checkpointParse buf = some c := by
  intro hall
  have hvalid : checkpointSemanticValid firstCheckpoint.value = true := by decide
  have hwords : ∀ w ∈ firstCheckpoint.value.words, w < 2 ^ 32 := by decide
  obtain ⟨buf, hser, hparse⟩ := hall firstCheckpoint hvalid hwords
  obtain ⟨buf', hser', hparse'⟩ := checkpoint_parsed firstCheckpoint hvalid hwords
  obtain rfl := Option.some.inj (hser.symm.trans hser')
  have hcrc : volumeHeaderCrc32 buf 124 = 0 :=
    congrArg WithChecksum.crc32 (Option.some.inj (hparse'.symm.trans hparse))
  have hbuf : crcRecord firstCheckpoint.value.words = buf := Option.some.inj hser
  rw [← hbuf] at hcrc
  exact absurd hcrc (by decide +kernel)

end CapyOS.Proofs
