import CapyOS.Net.Ipv4Send

namespace CapyOS.Proofs
open Lib List

/-! ## Sums with end-around carry -/

theorem fold_mod {s : Nat} (h : s < 2 ^ 32) : foldCarry (foldCarry s) % 65535 = s % 65535 ∧
    foldCarry (foldCarry s) ≤ 65535 ∧ (foldCarry (foldCarry s) = 0 ↔ s = 0) := by
  unfold foldCarry
  omega

/-- The complement is zero for the sums that are a multiple of 65535 and not zero. -/
theorem complement_zero_iff {s : Nat} (h : s < 2 ^ 32) : 65535 - foldCarry (foldCarry s) = 0 ↔ s % 65535 = 0 ∧ s ≠ 0 := by
  obtain ⟨hmod, hle, hzero⟩ := fold_mod h
  omega

/-- The complement of a sum, added to it, makes a sum whose complement is zero. -/
theorem complement_closes {s : Nat} (h : s + 65535 < 2 ^ 32) (hpos : 0 < s) :
    65535 - foldCarry (foldCarry (s + (65535 - foldCarry (foldCarry s)))) = 0 := by
  obtain ⟨hmod, hle, -⟩ := fold_mod (s := s) (by omega)
  exact (complement_zero_iff (by omega)).mpr (by omega)

theorem checksumWords_append (l m : List Byte) (h : l.length % 2 = 0) :
    checksumWords (l ++ m) = checksumWords l + checksumWords m := by
  fun_induction checksumWords l with
  | case1 => simp
  | case2 a => simp at h
  | case3 a b rest ih =>
    have hrest := ih (by simp only [length_cons] at h; omega)
    rw [cons_append, cons_append, checksumWords, hrest]
    omega

theorem checksumWords_le (l : List Byte) : checksumWords l ≤ 65535 * ((l.length + 1) / 2) := by
  fun_induction checksumWords l with
  | case1 => simp
  | case2 a =>
    have := a.isLt
    simp only [length_singleton]
    omega
  | case3 a b rest ih =>
    have ha := a.isLt
    have hb := b.isLt
    simp only [length_cons]
    omega

/-! ## Bytes of a field -/

theorem hi_toNat (v : BitVec 16) : (v.extractLsb' 8 8).toNat = v.toNat / 256 := by
  have := v.isLt
  rw [BitVec.extractLsb'_toNat, Nat.shiftRight_eq_div_pow]
  omega

theorem lo_toNat (v : BitVec 16) : (v.extractLsb' 0 8).toNat = v.toNat % 256 := by
  rw [BitVec.extractLsb'_toNat]
  rfl

theorem stored16_length (v : BitVec 16) : (stored16 v).length = 2 := rfl

/-- A field in network order: the most significant byte comes first. -/
theorem stored_htons (v : BitVec 16) : stored16 (netStackHtons16 v) = [v.extractLsb' 8 8, v.extractLsb' 0 8] := by
  unfold stored16 netStackHtons16
  congr 1
  · ext i hi
    interval_cases i <;> simp
  · congr 1
    ext i hi
    interval_cases i <;> simp

theorem stored_htonl (v : BitVec 32) : stored32 (netStackHtonl32 v) =
    [v.extractLsb' 24 8, v.extractLsb' 16 8, v.extractLsb' 8 8, v.extractLsb' 0 8] := by
  unfold stored32 netStackHtonl32
  congr 1
  · ext i hi
    interval_cases i <;> simp
  congr 1
  · ext i hi
    interval_cases i <;> simp
  congr 1
  · ext i hi
    interval_cases i <;> simp
  congr 1
  ext i hi
  interval_cases i <;> simp

theorem append_hi_lo (v : BitVec (8 + 8)) : v.extractLsb' 8 8 ++ v.extractLsb' 0 8 = v := by
  apply BitVec.eq_of_getLsbD_eq
  intro i hi
  simp only [BitVec.getLsbD_append, BitVec.getLsbD_extractLsb']
  split
  next h => simp [h]
  next h => simp [show 8 + (i - 8) = i by omega, show i - 8 < 8 by omega]

theorem append_bytes (v : BitVec (8 + 8 + (8 + 8))) :
    (v.extractLsb' 24 8 ++ v.extractLsb' 16 8) ++ (v.extractLsb' 8 8 ++ v.extractLsb' 0 8) = v := by
  apply BitVec.eq_of_getLsbD_eq
  intro i hi
  simp only [BitVec.getLsbD_append, BitVec.getLsbD_extractLsb']
  split
  · split
    next h => simp [h]
    next h => simp [show 8 + (i - 8) = i by omega, show i - 8 < 8 by omega]
  next h =>
    split
    next h' => simp [show 16 + (i - (8 + 8)) = i by omega, show i - (8 + 8) < 8 by omega]
    next h' => simp [show 24 + (i - (8 + 8) - 8) = i by omega, show i - (8 + 8) - 8 < 8 by omega]

theorem words_stored (v : BitVec 16) : checksumWords (stored16 (netStackHtons16 v)) = v.toNat := by
  rw [stored_htons]
  simp only [checksumWords, hi_toNat, lo_toNat]
  omega

theorem words_zero : checksumWords (stored16 0) = 0 := by decide

/-! ## IPv4 frames -/

namespace Ipv4Frame
variable (r : Ipv4Runtime) (checksum len : BitVec 16) (protocol : Byte) (srcIp dstIp : Ipv4Addr)

theorem header_split : ∃ pre post : List Byte, pre.length = 10 ∧ post.length = 8 ∧ 0 < checksumWords pre ∧
    ∀ checksum, r.headerWith checksum len protocol srcIp dstIp = pre ++ stored16 checksum ++ post := by
  refine ⟨[0x45, 0] ++ stored16 (netStackHtons16 (20 + len)) ++ stored16 (netStackHtons16 r.identSeq) ++
    stored16 (netStackHtons16 0x4000) ++ [if r.ttl = 0 then 64 else r.ttl, protocol],
    stored32 (netStackHtonl32 srcIp) ++ stored32 (netStackHtonl32 dstIp), rfl, rfl, ?_, fun checksum => ?_⟩
  · rw [append_assoc, append_assoc, append_assoc, checksumWords_append _ _ rfl]
    exact Nat.lt_of_lt_of_le (by decide : 0 < checksumWords [0x45, 0]) (Nat.le_add_right _ _)
  · simp only [Ipv4Runtime.headerWith, append_assoc]

theorem header_length : (r.headerWith checksum len protocol srcIp dstIp).length = 20 := rfl

theorem header_checksum : netStackChecksum16 (r.buildIpv4Header len protocol srcIp dstIp) = 0 := by
  obtain ⟨pre, post, hpre, hpost, hpos, hsplit⟩ := header_split r len protocol srcIp dstIp
  have hwords : ∀ c, checksumWords (r.headerWith c len protocol srcIp dstIp) =
      checksumWords pre + checksumWords (stored16 c) + checksumWords post := by
    intro c
    rw [hsplit, checksumWords_append _ _ (by rw [length_append, hpre, stored16_length]),
      checksumWords_append _ _ (by rw [hpre])]
  have h1 := checksumWords_le pre
  have h2 := checksumWords_le post
  rw [hpre] at h1
  rw [hpost] at h2
  unfold Ipv4Runtime.buildIpv4Header
  simp only [netStackChecksum16, hwords, words_zero, words_stored, Nat.add_zero]
  have hclose := complement_closes (s := checksumWords pre + checksumWords post) (by omega) (by omega)
  rw [BitVec.toNat_ofNat, Nat.mod_eq_of_lt (by omega), Nat.add_right_comm]
  exact hclose

theorem read_built {payload : List Byte} (hlen : payload.length ≤ 1566) :
    Ipv4Packet.read (r.buildIpv4Header (BitVec.ofNat 16 payload.length) protocol srcIp dstIp ++ payload) =
      some ⟨srcIp, dstIp, protocol, payload⟩ := by
  have hcheck := header_checksum r (BitVec.ofNat 16 payload.length) protocol srcIp dstIp
  obtain ⟨c, hc⟩ : ∃ c, r.buildIpv4Header (BitVec.ofNat 16 payload.length) protocol srcIp dstIp =
      r.headerWith c (BitVec.ofNat 16 payload.length) protocol srcIp dstIp := ⟨_, rfl⟩
  rw [hc] at hcheck ⊢
  have hsize : (r.headerWith c (BitVec.ofNat 16 payload.length) protocol srcIp dstIp ++ payload).length =
      20 + payload.length := by
    rw [length_append, header_length]
  have htake : (r.headerWith c (BitVec.ofNat 16 payload.length) protocol srcIp dstIp ++ payload).take 20 =
      r.headerWith c (BitVec.ofNat 16 payload.length) protocol srcIp dstIp :=
    take_left' (header_length ..)
  have hfirst : ((r.headerWith c (BitVec.ofNat 16 payload.length) protocol srcIp dstIp ++ payload).getD 0 0).toNat = 0x45 :=
    rfl
  have htotal : be16 (r.headerWith c (BitVec.ofNat 16 payload.length) protocol srcIp dstIp ++ payload) 2 =
      20 + BitVec.ofNat 16 payload.length := by
    rw [Ipv4Runtime.headerWith, stored_htons]
    exact append_hi_lo _
  have hsrc : be32 (r.headerWith c (BitVec.ofNat 16 payload.length) protocol srcIp dstIp ++ payload) 12 = srcIp := by
    rw [Ipv4Runtime.headerWith, stored_htonl]
    exact append_bytes srcIp
  have hdst : be32 (r.headerWith c (BitVec.ofNat 16 payload.length) protocol srcIp dstIp ++ payload) 16 = dstIp := by
    rw [Ipv4Runtime.headerWith, stored_htonl dstIp]
    exact append_bytes dstIp
  have hproto : (r.headerWith c (BitVec.ofNat 16 payload.length) protocol srcIp dstIp ++ payload).getD 9 0 = protocol := rfl
  have hnat : (20 + BitVec.ofNat 16 payload.length : BitVec 16).toNat = 20 + payload.length := by
    rw [BitVec.toNat_add, BitVec.toNat_ofNat]
    change (20 + payload.length % 2 ^ 16) % 2 ^ 16 = _
    omega
  simp only [Ipv4Packet.read, hfirst, htotal, hnat, hsize, hsrc, hdst, hproto, netIpv4HeaderSize, htake, hcheck,
    Nat.reduceMod, Nat.reduceMul, Nat.reduceDiv]
  rw [if_neg (by omega), if_neg (by omega), if_neg (by omega), if_neg (by omega), if_neg (by omega),
    take_of_length_le (by omega), drop_left' (header_length ..)]

end Ipv4Frame

/-! ## TCP segments -/

def pseudoSum (srcIp dstIp : Ipv4Addr) (len : Nat) : Nat :=
  srcIp.toNat / 65536 + srcIp.toNat % 65536 + dstIp.toNat / 65536 + dstIp.toNat % 65536 + 6 + len % 65536

theorem pseudoSum_lt (srcIp dstIp : Ipv4Addr) (len : Nat) : 0 < pseudoSum srcIp dstIp len ∧
    pseudoSum srcIp dstIp len < 2 ^ 19 := by
  have h1 := srcIp.isLt
  have h2 := dstIp.isLt
  unfold pseudoSum
  omega

theorem tcpChecksum_eq {srcIp dstIp : Ipv4Addr} {l : List Byte} (h : l.length < 65536) : tcpChecksum srcIp dstIp l =
    65535 - foldCarry (foldCarry (pseudoSum srcIp dstIp l.length + checksumWords l)) := by
  have h1 := (pseudoSum_lt srcIp dstIp l.length).2
  have h2 := checksumWords_le l
  rw [tcpChecksum]
  change 65535 - foldCarry (foldCarry ((pseudoSum srcIp dstIp l.length + checksumWords l) % 2 ^ 32)) = _
  rw [Nat.mod_eq_of_lt (by omega)]

theorem tcpChecksum_comm (a b : Ipv4Addr) (l : List Byte) : tcpChecksum a b l = tcpChecksum b a l := by
  unfold tcpChecksum
  have h : a.toNat / 65536 + a.toNat % 65536 + b.toNat / 65536 + b.toNat % 65536 =
      b.toNat / 65536 + b.toNat % 65536 + a.toNat / 65536 + a.toNat % 65536 := by omega
  rw [h]

theorem packet_split (c : TcpSender) (flags : Byte) (data : List Byte) : ∃ pre post : List Byte,
    pre.length = 16 ∧ post.length ≤ 6 + data.length ∧
    ∀ checksum, c.packetWith checksum flags data = pre ++ stored16 checksum ++ post := by
  refine ⟨stored16 (netStackHtons16 c.localPort) ++ stored16 (netStackHtons16 c.remotePort) ++
    stored32 (netStackHtonl32 c.sndNxt) ++ stored32 (netStackHtonl32 (if flags.getLsbD 4 then c.rcvNxt else 0)) ++
    [if flags.getLsbD 1 then 0x60 else 0x50, flags] ++ stored16 (netStackHtons16 c.window),
    [0, 0] ++ (if flags.getLsbD 1 then [2, 4, c.mss.extractLsb' 8 8, c.mss.extractLsb' 0 8] else []) ++ data,
    rfl, ?_, fun checksum => ?_⟩
  · split <;> simp <;> omega
  · simp only [TcpSender.packetWith, append_assoc]

theorem segment_checksum {c : TcpSender} {flags : Byte} {data segment : List Byte}
    (h : c.tcpSendSegment flags data = some segment) : segment.length < 65536 ∧ tcpChecksum c.remoteIp c.localIp segment = 0 ∧
      pseudoSum c.remoteIp c.localIp segment.length + checksumWords segment < 2 ^ 32 := by
  unfold TcpSender.tcpSendSegment at h
  split at h
  · cases h
  next hdata =>
    obtain rfl := Option.some.inj h
    have hmss : tcpMssDefault = 1460 := rfl
    obtain ⟨pre, post, hpre, hpost, hsplit⟩ := packet_split c flags data
    have hlen : ∀ v, (c.packetWith v flags data).length = 18 + post.length := by
      intro v
      rw [hsplit, length_append, length_append, hpre]
      rfl
    have hwords : ∀ v, checksumWords (c.packetWith v flags data) =
        checksumWords pre + checksumWords (stored16 v) + checksumWords post := by
      intro v
      rw [hsplit, checksumWords_append _ _ (by rw [length_append, hpre, stored16_length]),
        checksumWords_append _ _ (by rw [hpre])]
    have h1 := checksumWords_le pre
    have h2 := checksumWords_le post
    have h3 := pseudoSum_lt c.localIp c.remoteIp (18 + post.length)
    have h4 := pseudoSum_lt c.remoteIp c.localIp (18 + post.length)
    rw [hpre] at h1
    refine ⟨by rw [hlen]; omega, ?_, ?_⟩
    · rw [tcpChecksum_comm, tcpChecksum_eq (by rw [hlen]; omega), tcpChecksum_eq (by rw [hlen]; omega)]
      simp only [hlen, hwords, words_zero, words_stored, Nat.add_zero]
      have hclose := complement_closes (s := pseudoSum c.localIp c.remoteIp (18 + post.length) +
        (checksumWords pre + checksumWords post)) (by omega) (by omega)
      rw [BitVec.toNat_ofNat, Nat.mod_eq_of_lt (by omega), Nat.add_right_comm, ← Nat.add_assoc]
      exact hclose
    · have h5 := checksumWords_le (stored16 (netStackHtons16 (BitVec.ofNat 16
        (tcpChecksum c.localIp c.remoteIp (c.packetWith 0 flags data)))))
      rw [stored16_length] at h5
      rw [hlen, hwords]
      omega

/-- A word of a segment: two bytes at an even place, or the last byte of an odd length. -/
structure WordAt (segment pre word post : List Byte) : Prop where
  split : segment = pre ++ word ++ post
  even : pre.length % 2 = 0
  size : word.length = 2 ∨ (word.length = 1 ∧ post = [])

theorem word_sum {segment pre word post : List Byte} (h : WordAt segment pre word post) :
    checksumWords segment = checksumWords pre + checksumWords word + checksumWords post := by
  rw [h.split]
  rcases h.size with h2 | ⟨-, rfl⟩
  · rw [checksumWords_append _ _ (by rw [length_append, h2, Nat.add_mod, h.even]), checksumWords_append _ _ h.even]
  · rw [append_nil, checksumWords_append _ _ h.even]
    rfl

/-- What the stack sends its own receiver accepts: the packet in a frame is read back as it was,
a segment has the checksum 0 at the receiver, and no segment with one word changed has, unless
by a multiple of 65535. -/
theorem sent_accepted :
    (∀ (r : Ipv4Runtime) (protocol : Byte) (srcIp dstIp : Ipv4Addr) (dstMac payload : List Byte),
      r.initialized → r.ready → r.mac.length = 6 → dstMac.length = 6 → 1 ≤ payload.length → payload.length ≤ 1566 →
      ∃ frame, r.netStackIpv4SendFrame protocol srcIp dstIp dstMac payload = some frame ∧
        Ipv4Packet.read (frame.drop 14) = some ⟨srcIp, dstIp, protocol, payload⟩ ∧
        ∀ (s : NetStack) (env : NetEnv) (receive : NetStack → List Byte → NetStack),
          s.initialized → s.addr = dstIp → s.handleFrame env receive frame =
            let s := s.netArpUpdate srcIp r.mac
            if protocol = 1 then s.netIcmpHandle env receive srcIp payload
            else if protocol = 6 ∧ 20 ≤ payload.length then s.tcpReceive env receive srcIp dstIp payload
            else s) ∧
    ∀ (c : TcpSender) (flags : Byte) (data : List Byte), data.length ≤ tcpMssDefault →
      ∃ segment, c.tcpSendSegment flags data = some segment ∧ tcpChecksum c.remoteIp c.localIp segment = 0 ∧
        tcpChecksum c.localIp c.remoteIp segment = 0 ∧
        ∀ pre word word' post, WordAt segment pre word post → word'.length = word.length →
          ¬(65535 : Int) ∣ (checksumWords word' : Int) - checksumWords word →
          tcpChecksum c.remoteIp c.localIp (pre ++ word' ++ post) ≠ 0 := by
  refine ⟨fun r protocol srcIp dstIp dstMac payload hinit hready hmac hdst h1 hmax => ?_,
    fun c flags data hdata => ?_⟩
  · have hne : payload ≠ [] := ne_nil_of_length_pos h1
    obtain ⟨header, hheader⟩ : ∃ header, r.buildIpv4Header (BitVec.ofNat 16 payload.length) protocol srcIp dstIp = header :=
      ⟨_, rfl⟩
    have hread := Ipv4Frame.read_built r protocol srcIp dstIp hmax
    rw [hheader] at hread
    have hlink : (dstMac ++ r.mac ++ stored16 (netStackHtons16 0x0800)).length = 14 := by
      rw [length_append, length_append, hmac, hdst]
      rfl
    have hdrop : (dstMac ++ r.mac ++ stored16 (netStackHtons16 0x0800) ++ header ++ payload).drop 14 = header ++ payload := by
      rw [append_assoc _ header, drop_left' hlink]
    refine ⟨dstMac ++ r.mac ++ stored16 (netStackHtons16 0x0800) ++ header ++ payload, ?_, by rw [hdrop]; exact hread,
      fun s env receive hs haddr => ?_⟩
    · have hfit : ¬14 + 20 + payload.length > netFrameMax := by
        change ¬14 + 20 + payload.length > 1600
        omega
      simp only [Ipv4Runtime.netStackIpv4SendFrame, hinit, hready, hne, hfit, hheader, Bool.not_true,
        Bool.false_eq_true, or_self, if_false]
    · have hsrcMac : ((dstMac ++ r.mac ++ stored16 (netStackHtons16 0x0800) ++ header ++ payload).drop 6).take 6 = r.mac := by
        rw [append_assoc, append_assoc, append_assoc, drop_left' hdst, take_left' hmac]
      have htype : be16 (dstMac ++ r.mac ++ stored16 (netStackHtons16 0x0800) ++ header ++ payload) 12 = 0x0800 := by
        have h12 : (dstMac ++ r.mac).length = 12 := by rw [length_append, hdst, hmac]
        have hget : ∀ k, (dstMac ++ r.mac ++ stored16 (netStackHtons16 0x0800) ++ header ++ payload).getD (12 + k) 0 =
            (stored16 (netStackHtons16 0x0800) ++ header ++ payload).getD k 0 := by
          intro k
          rw [append_assoc, append_assoc, ← append_assoc _ header, getD_eq_getElem?_getD,
            List.getElem?_append_right (by omega), h12, Nat.add_sub_cancel_left, ← getD_eq_getElem?_getD]
        rw [be16, hget 0, hget 1, stored_htons]
        exact append_hi_lo 0x0800
      have hlen : ¬(dstMac ++ r.mac ++ stored16 (netStackHtons16 0x0800) ++ header ++ payload).length < 14 := by
        rw [append_assoc _ header, length_append, hlink]
        omega
      have hus : ∀ p : Ipv4Packet, p.dstIp = dstIp → (s.netArpUpdate srcIp r.mac).isForUs p = true := by
        intro p hp
        have : (s.netArpUpdate srcIp r.mac).addr = dstIp := haddr
        simp [NetStack.isForUs, hp, this]
      simp only [NetStack.handleFrame, hs, hlen, htype, hsrcMac, hdrop, NetStack.netStackIpv4Handle, hread,
        Bool.not_true, Bool.false_eq_true, or_self, if_false]
      rw [if_neg (by decide), if_pos trivial, if_neg (by rw [hus _ rfl]; decide)]
  · obtain ⟨segment, hsent⟩ : ∃ segment, c.tcpSendSegment flags data = some segment := by
      unfold TcpSender.tcpSendSegment
      rw [if_neg (by omega)]
      exact ⟨_, rfl⟩
    obtain ⟨hlen, hzero, hsum⟩ := segment_checksum hsent
    refine ⟨segment, hsent, hzero, by rw [tcpChecksum_comm]; exact hzero, fun pre word word' post hw hsize hdiff hbad => ?_⟩
    have hw' : WordAt (pre ++ word' ++ post) pre word' post := ⟨rfl, hw.even, by rw [hsize]; exact hw.size⟩
    have hlen' : (pre ++ word' ++ post).length = segment.length := by
      rw [hw.split]
      simp only [length_append, hsize]
    have h1 := checksumWords_le (pre ++ word' ++ post)
    have h2 := (pseudoSum_lt c.remoteIp c.localIp segment.length).2
    rw [hlen'] at h1
    rw [tcpChecksum_eq hlen, complement_zero_iff hsum, word_sum hw] at hzero
    rw [tcpChecksum_eq (by omega), hlen', complement_zero_iff (by omega), word_sum hw'] at hbad
    apply hdiff
    omega

example : (Ipv4Runtime.netStackIpv4SendFrame ⟨true, true, replicate 6 2, 64, 7⟩ 17 1 2 (replicate 6 1) [1, 2, 3]).bind
    (fun frame => (Ipv4Packet.read (frame.drop 14)).map (·.payload)) = some [1, 2, 3] := by
  decide +kernel

end CapyOS.Proofs
