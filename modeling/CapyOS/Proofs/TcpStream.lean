import CapyOS.Proofs.Tcp

namespace CapyOS.Proofs
open Lib TcpTable Function List

def SegmentMoves (c : TcpConnection) (hdr : TcpHeader) (payload : List Byte) (c' : TcpConnection) : Prop :=
  match c.state with
  | .synSent => if hdr.flags.syn ∧ hdr.flags.ack then c'.state = .established else c' = c
  | .listen => if hdr.flags.syn then c'.state = .synRcvd else c' = c
  | .synRcvd => if hdr.flags.ack then c'.state = .established else c' = c
  | .established => c'.state = .established ∨
      c'.state = .closeWait ∧ hdr.flags.fin = true ∧ hdr.seq = c.rcvNxt ∧
        c'.rcvNxt = hdr.seq + BitVec.ofNat 32 payload.length + 1
  | .finWait1 => if hdr.flags.ack then c'.state = .finWait2 ∨ c'.state = .timeWait else c' = c
  | .finWait2 => c' = c ∨ c'.state = .timeWait
  | .lastAck => if hdr.flags.ack then c'.state = .closed ∧ c'.active = false else c' = c
  | .timeWait => c'.state = .closed ∧ c'.active = false
  | .closeWait | .closing | .closed => c' = c

section
variable {s : TcpTable} {env : TcpEnv} {i : ConnSlot}

theorem established_moves (hdr : TcpHeader) (payload : List Byte) (hstate : (s.conns i).state = .established) :
    SegmentMoves (s.conns i) hdr payload ((s.receiveEstablished env i hdr payload).conns i) := by
  have hacked : (acked (s.conns i) hdr).state = .established := by
    unfold acked
    split <;> exact hstate
  simp only [SegmentMoves, hstate]
  obtain ⟨-, -, he⟩ | ⟨hseq, t, ht, he⟩ := receiveEstablished_cases s env i hdr payload
  · left
    rw [he, sendAck_conns, setConn_self]
    exact hacked
  have hmid : (t.conns i).state = .established := by
    rcases ht with ⟨-, rfl⟩ | ⟨-, rfl⟩
    · rw [setConn_self]
      exact hacked
    · rw [sendAck_conns, setConn_self]
      unfold TcpConnection.storePayload TcpConnection.compact
      split
      · simp only
        split <;> exact hacked
      · exact hacked
  rw [he]
  split
  · rename_i hfin
    obtain ⟨-, hf⟩ | ⟨hnxt, hf⟩ := receiveFin_cases t env i (hdr.seq + BitVec.ofNat 32 payload.length)
    · left
      rw [hf, sendAck_conns]
      exact hmid
    · right
      -- without a payload the FIN itself has the number that is looked at
      have hfirst : hdr.seq = (s.conns i).rcvNxt := by
        by_cases hpay : payload = []
        · rcases ht with ⟨-, rfl⟩ | ⟨hne, -⟩
          · have hkept : (acked (s.conns i) hdr).rcvNxt = (s.conns i).rcvNxt := by
              unfold acked
              split <;> rfl
            rw [setConn_self, hkept, hpay] at hnxt
            simpa using hnxt
          · exact absurd hpay hne
        · exact hseq hpay
      rw [hf, sendAck_conns, setConn_self]
      exact ⟨rfl, hfin, hfirst, by rw [hnxt]⟩
  · exact .inl hmid

/-- Each state looks at the flags alone, but for the FIN of an open stream. -/
theorem receive_moves (srcIp : Ipv4Addr) (hdr : TcpHeader) (payload : List Byte) (hrst : hdr.flags.rst = false) :
    SegmentMoves (s.conns i) hdr payload ((s.receiveOn env i srcIp hdr payload).conns i) := by
  have hlate : ((s.receiveLateFin env i).conns i).state = .timeWait := by
    unfold receiveLateFin
    rw [sendAck_conns, setConn_self]
  cases hstate : (s.conns i).state with
  | established =>
    have hmoves := @established_moves s env i hdr payload hstate
    simpa [receiveOn, hrst, hstate] using hmoves
  | synSent =>
    simp only [SegmentMoves, hstate, receiveOn, hrst, receiveSynSent]
    split
    · simp [*]
    · simp [*]
  | listen =>
    simp only [SegmentMoves, hstate, receiveOn, hrst, receiveListen]
    split
    · simp
    · simp [*]
  | synRcvd =>
    simp only [SegmentMoves, hstate, receiveOn, hrst, receiveSynRcvd]
    split
    · simp [*]
    · simp [*]
  | finWait1 =>
    simp only [SegmentMoves, hstate, receiveOn, hrst, receiveFinWait1]
    split
    · simp only [Bool.false_eq_true, if_false]
      split
      · right
        unfold receiveLateFin
        rw [sendAck_conns, setConn_self]
      · left
        rw [setConn_self]
    · simp [*]
  | finWait2 =>
    simp only [SegmentMoves, hstate, receiveOn, hrst]
    simp only [Bool.false_eq_true, if_false]
    split
    · exact .inr hlate
    · exact .inl rfl
  | lastAck =>
    simp only [SegmentMoves, hstate, receiveOn, hrst, tearDown]
    split
    · simp [*]
    · simp [*]
  | timeWait => simp [SegmentMoves, hstate, receiveOn, hrst, tearDown]
  | closeWait => simp [SegmentMoves, hstate, receiveOn, hrst]
  | closing => simp [SegmentMoves, hstate, receiveOn, hrst]
  | closed => simp [SegmentMoves, hstate, receiveOn, hrst]

/-- A segment that passes its checks and is addressed to a connection moves that connection
alone: RST closes it in any state, and otherwise the flags decide. -/
theorem segment_moves (s : TcpTable) (env : TcpEnv) (srcIp dstIp : Ipv4Addr) (bytes : List Byte) :
    let hdr := TcpHeader.read bytes
    let t := s.tcpReceiveSegment env srcIp dstIp bytes
    (s.receiver srcIp dstIp bytes = none → t = s) ∧
      ∀ i, s.receiver srcIp dstIp bytes = some i →
        SegmentValid srcIp dstIp bytes ∧ (s.conns i).active = true ∧ (s.conns i).localPort = hdr.dstPort ∧
        ((s.conns i).state = .listen ∨ (s.conns i).remotePort = hdr.srcPort ∧ (s.conns i).remoteIp = srcIp) ∧
        (∀ j, j ≠ i → t.conns j = s.conns j) ∧
        (hdr.flags.rst = true → (t.conns i).state = .closed ∧ (t.conns i).active = false) ∧
        (hdr.flags.rst = false → SegmentMoves (s.conns i) hdr (bytes.drop hdr.dataOff) (t.conns i)) := by
  intro hdr t
  constructor
  · intro hnone
    simp only [t, tcpReceiveSegment, hnone]
  intro i hi
  have ht : t = s.receiveOn env i srcIp hdr (bytes.drop hdr.dataOff) := by simp only [t, tcpReceiveSegment, hi, hdr]
  obtain ⟨hvalid, hfind⟩ := receiver_some hi
  have hmatch := List.find?_some hfind
  simp only [Bool.decide_and, Bool.and_eq_true, decide_eq_true_eq] at hmatch
  refine ⟨hvalid, hmatch.1, hmatch.2.1, ?_, fun j hj => ?_, fun hrst => ?_, fun hrst => ?_⟩
  · by_cases hlisten : (s.conns i).state = .listen
    · exact .inl hlisten
    · exact .inr ⟨hmatch.2.2.1.resolve_right hlisten, hmatch.2.2.2.resolve_right hlisten⟩
  · rw [ht]
    exact receiveOn_other srcIp hdr _ hj
  · rw [ht]
    simp [receiveOn, hrst, tearDown]
  · rw [ht]
    exact receive_moves srcIp hdr _ hrst

theorem tcpRun_foldl (ops : List TcpOp) (h : TcpRun env s) : TcpRun env (ops.foldl (tcpStep env) s) := by
  induction ops generalizing s with
  | nil => exact h
  | cons op ops ih => exact ih (.step op h)

end

/-- A network that takes every segment, and 7 for every initial sequence number. -/
def plainEnv : TcpEnv := ⟨fun _ => true, fun _ => true, fun _ => zeros, fun _ => 7⟩

def bareSegment (flags seq sum : Byte) : List Byte :=
  [0, 80, 3, 232, 0, 0, 0, seq, 0, 0, 0, 100, 0x50, flags, 0, 0, 171, sum, 0, 0]

def synAck : TcpOp := .segment 1 2 (bareSegment 0x12 5 47)

def openOne : TcpOp := .open 2 1000 1 80 0

def Blind (ops : List TcpOp) (flags seq sum : Byte) (st st' : TcpState) : Prop :=
  let s := ops.foldl (tcpStep plainEnv) .tcpInit
  let bytes := bareSegment flags seq sum
  s.receiver 1 2 bytes = some 0 ∧ (s.conns 0).state = st ∧
    ((s.tcpReceiveSegment plainEnv 1 2 bytes).conns 0).state = st' ∧
    (TcpHeader.read bytes).ack ≠ (s.conns 0).sndNxt ∧ (TcpHeader.read bytes).seq ≠ (s.conns 0).rcvNxt

instance (ops : List TcpOp) (flags seq sum : Byte) (st st' : TcpState) : Decidable (Blind ops flags seq sum st st') :=
  inferInstanceAs (Decidable (_ ∧ _ ∧ _ ∧ _ ∧ _))

/-- Segments with none of the numbers right open, move and close connections. -/
theorem blind_segments_move :
    Blind [openOne] 0x12 5 47 .synSent .established ∧
      Blind [.listen 2 1000 0, synAck] 0x12 5 47 .synRcvd .established ∧
      Blind [openOne, synAck, .close 0] 0x12 5 47 .finWait1 .finWait2 ∧
      Blind [openOne, synAck, .segment 1 2 (bareSegment 0x11 6 47), .close 0] 0x12 5 47 .lastAck .closed ∧
      Blind [openOne, synAck] 0x04 0 66 .established .closed := by
  refine ⟨?_, ?_, ?_, ?_, ?_⟩ <;> decide

/-- The unread bytes lie inside the buffer, and with those returned before they are the
bytes of the peer's stream that `rcv_nxt` acknowledges. -/
structure Streamed (peer : List Byte) (irs : SeqNum) (c : TcpConnection) (out : List Byte) : Prop where
  start : c.irs = irs
  phase : c.state = .established ∨ c.state = .closeWait
  room : c.recvHead + c.recvLen ≤ c.recvCap
  bytes : out ++ c.buffered = peer.take (out.length + c.recvLen)
  within : out.length + c.recvLen ≤ peer.length
  next : c.rcvNxt = irs + 1 + BitVec.ofNat 32 (out.length + c.recvLen) + if c.state = .closeWait then 1 else 0

def CarriesSlice (peer : List Byte) (irs : SeqNum) (segment : List Byte) : Prop :=
  let hdr := TcpHeader.read segment
  let payload := segment.drop hdr.dataOff
  hdr.flags.rst = false ∧
    (payload ≠ [] → ∃ off ≤ peer.length, hdr.seq = irs + 1 + BitVec.ofNat 32 off ∧ payload <+: peer.drop off)

section
variable {c : TcpConnection} {payload out peer : List Byte} {irs : SeqNum}

@[simp] theorem buffered_length : c.buffered.length = c.recvLen := by simp [TcpConnection.buffered]

theorem range_getD (l : List Byte) : ((List.range l.length).map fun k => l.getD k 0) = l := by
  apply ext_getElem
  · simp
  · intro k hk _
    simp at hk
    simp [hk]

theorem compact_buffered : c.compact.buffered = c.buffered := by
  apply map_congr_left
  intro k hk
  exact @blit_inside c.recvBytes (fun k => c.recvBytes (c.recvHead + k)) 0 c.recvLen k (List.mem_range.mp hk)

/-- Bytes written behind the unread ones are appended to them. -/
theorem buffered_append (c : TcpConnection) (payload : List Byte) (r : SeqNum) :
    ({ c with
      recvBytes := blit c.recvBytes (c.recvHead + c.recvLen) payload.length (fun k => payload.getD k 0)
      recvLen := c.recvLen + payload.length
      rcvNxt := r } : TcpConnection).buffered = c.buffered ++ payload := by
  unfold TcpConnection.buffered
  simp only [range_add, map_append, map_map]
  congr 1
  · apply map_congr_left
    intro k hk
    have := List.mem_range.mp hk
    exact blit_outside (.inl (by omega))
  · refine Eq.trans (map_congr_left fun k hk => ?_) (range_getD payload)
    simp only [comp_apply, ← Nat.add_assoc]
    exact blit_inside (List.mem_range.mp hk)

/-- The payload is appended as a whole, or nothing changes. -/
theorem storePayload_cases (c : TcpConnection) (payload : List Byte) : c.storePayload payload = c ∨
    (c.recvBuf.isSome = true ∧ c.recvLen + payload.length ≤ c.recvCap ∧ ∃ d : TcpConnection, c.storePayload payload = { c with
        recvBytes := d.recvBytes, recvHead := d.recvHead
        recvLen := c.recvLen + payload.length, rcvNxt := c.rcvNxt + BitVec.ofNat 32 payload.length } ∧
      (c.recvHead + c.recvLen ≤ c.recvCap → d.recvHead + c.recvLen + payload.length ≤ c.recvCap) ∧
      (c.storePayload payload).buffered = c.buffered ++ payload) := by
  by_cases hfit : c.recvBuf.isSome ∧ c.recvLen + payload.length ≤ c.recvCap
  · right
    refine ⟨hfit.1, hfit.2, c.storePayload payload, ?_⟩
    unfold TcpConnection.storePayload
    rw [if_pos hfit]
    split
    · refine ⟨rfl, fun _ => ?_, (buffered_append c.compact payload _).trans (by rw [compact_buffered])⟩
      simpa [TcpConnection.compact] using hfit.2
    · rename_i hroom
      refine ⟨rfl, fun h => ?_, buffered_append c payload _⟩
      show c.recvHead + c.recvLen + payload.length ≤ c.recvCap
      omega
  · exact .inl (if_neg hfit)

/-- Payload that starts at `rcv_nxt` continues the stream. -/
theorem Streamed.store (h : Streamed peer irs c out) (hpeer : peer.length < 2 ^ 32) (hstate : c.state = .established)
    {off : Nat} (hoff : off ≤ peer.length) (hseq : c.rcvNxt = irs + 1 + BitVec.ofNat 32 off)
    (hslice : payload <+: peer.drop off) : Streamed peer irs (c.storePayload payload) out := by
  have hn : off = out.length + c.recvLen := by
    have hnext := h.next
    rw [hseq, hstate] at hnext
    have hw := h.within
    have heq : BitVec.ofNat 32 off = BitVec.ofNat 32 (out.length + c.recvLen) := by simpa using hnext
    have := congrArg BitVec.toNat heq
    simp only [BitVec.toNat_ofNat] at this
    rwa [Nat.mod_eq_of_lt (by omega), Nat.mod_eq_of_lt (by omega)] at this
  obtain he | ⟨-, hfit, d, he, hroom, hbuf⟩ := storePayload_cases c payload
  · rw [he]
    exact h
  · have hlen := hslice.length_le
    rw [length_drop] at hlen
    rw [he] at hbuf ⊢
    refine ⟨h.start, h.phase, ?_, ?_, ?_, ?_⟩
    · simpa [Nat.add_assoc] using hroom h.room
    · rw [hbuf, ← append_assoc, h.bytes, ← hn, ← Nat.add_assoc, ← hn]
      obtain ⟨rest, hrest⟩ := hslice
      rw [take_add, ← hrest, take_left]
    · show out.length + (c.recvLen + payload.length) ≤ peer.length
      omega
    · simp only [hstate]
      rw [hseq, hn, ← Nat.add_assoc, BitVec.ofNat_add (out.length + c.recvLen)]
      simp [BitVec.add_assoc]

/-- Reading takes bytes from the front of the unread ones. -/
theorem Streamed.read (h : Streamed peer irs c out) (avail : Nat) (havail : avail ≤ c.recvLen) (ret : List Byte) :
    Streamed peer irs { c with
      recvHead := if c.recvLen - avail = 0 then 0 else c.recvHead + avail
      recvLen := c.recvLen - avail
      returned := ret } (out ++ c.buffered.take avail) := by
  have hlen : (out ++ c.buffered.take avail).length + (c.recvLen - avail) = out.length + c.recvLen := by
    simp only [length_append, length_take, buffered_length]
    omega
  have hbuf : ({ c with
      recvHead := if c.recvLen - avail = 0 then 0 else c.recvHead + avail
      recvLen := c.recvLen - avail
      returned := ret } : TcpConnection).buffered = c.buffered.drop avail := by
    unfold TcpConnection.buffered
    apply ext_getElem
    · simp
    · intro k hk _
      simp only [length_map, length_range] at hk
      simp only [getElem_map, getElem_range, getElem_drop]
      rw [if_neg (by omega), Nat.add_assoc]
  refine ⟨h.start, h.phase, ?_, ?_, ?_, ?_⟩
  · have := h.room
    show (if c.recvLen - avail = 0 then 0 else c.recvHead + avail) + (c.recvLen - avail) ≤ c.recvCap
    split <;> omega
  · rw [hbuf, append_assoc, take_append_drop, hlen, h.bytes]
  · rw [hlen]
    exact h.within
  · rw [hlen]
    exact h.next

theorem Streamed.finish (h : Streamed peer irs c out) (hstate : c.state = .established) (f : Option SeqNum) :
    Streamed peer irs { c with rcvNxt := c.rcvNxt + 1, state := .closeWait, finSeq := f } out := by
  refine ⟨h.start, .inr rfl, h.room, h.bytes, h.within, ?_⟩
  have hnext := h.next
  rw [hstate] at hnext
  show c.rcvNxt + 1 = _
  rw [hnext]
  simp

theorem Streamed.ack (h : Streamed peer irs c out) (hdr : TcpHeader) : Streamed peer irs (acked c hdr) out := by
  unfold acked
  split
  · exact { h with }
  · exact h

end

/-- A call of the two parties: a segment that arrives, which carries a piece of the stream
when it is for connection `i`, or a read. The bytes are those that `tcp_recv` returns of `i`. -/
inductive StreamStep (env : TcpEnv) (i : ConnSlot) (peer : List Byte) (irs : SeqNum) (s : TcpTable) :
    List Byte → TcpTable → Prop where
  | segment (srcIp dstIp : Ipv4Addr) (bytes : List Byte)
      (h : s.receiver srcIp dstIp bytes = some i → CarriesSlice peer irs bytes) :
      StreamStep env i peer irs s [] (s.tcpReceiveSegment env srcIp dstIp bytes)
  | recv (len : Nat) : StreamStep env i peer irs s (s.tcpRecv env i len).1.2 (s.tcpRecv env i len).2
  | recvOther (j : ConnSlot) (len : Nat) (h : j ≠ i) : StreamStep env i peer irs s [] (s.tcpRecv env j len).2

inductive StreamRun (env : TcpEnv) (i : ConnSlot) (peer : List Byte) (irs : SeqNum) (s₀ : TcpTable) :
    TcpTable → List Byte → Prop where
  | start : StreamRun env i peer irs s₀ s₀ []
  | step {s s' : TcpTable} {out bytes : List Byte} (h : StreamRun env i peer irs s₀ s out)
      (hs : StreamStep env i peer irs s bytes s') : StreamRun env i peer irs s₀ s' (out ++ bytes)

def AcksExactly (i : ConnSlot) (irs : SeqNum) (n : Nat) (c : TcpConnection) (l : List (ConnSlot × TcpSegment)) : Prop :=
  (∀ p ∈ l.dropLast, p.1 = i → p.2.ack = irs + 1 + BitVec.ofNat 32 n) ∧
    ∀ p ∈ l.getLast?, p.1 = i → p.2.ack = irs + 1 + BitVec.ofNat 32 n + if c.state = .closeWait then 1 else 0

def StreamsTo (i : ConnSlot) (peer : List Byte) (irs : SeqNum) (s t : TcpTable) (out : List Byte) : Prop :=
  Streamed peer irs (t.conns i) out ∧
    ∃ l, t.sent = s.sent ++ l ∧ AcksExactly i irs (out.length + (t.conns i).recvLen) (t.conns i) l

variable {env : TcpEnv} {i j : ConnSlot} {peer out bytes payload : List Byte} {irs : SeqNum} {s t : TcpTable}

theorem StreamsTo.quiet (hconn : Streamed peer irs (t.conns i) out) (hsent : t.sent = s.sent) : StreamsTo i peer irs s t out :=
  ⟨hconn, [], by rw [hsent, append_nil], fun _ h => absurd h not_mem_nil, fun _ h => absurd h (by simp)⟩

theorem StreamsTo.other (h : Streamed peer irs (s.conns i) out) (hconn : t.conns i = s.conns i) (hsent : SentOn j s t)
    (hj : j ≠ i) : StreamsTo i peer irs s t out := by
  obtain ⟨l, hl, hon⟩ := hsent
  refine ⟨by rwa [hconn], l, hl, fun p hp hi => ?_, fun p hp hi => ?_⟩
  · exact absurd ((hon p (dropLast_subset _ hp)).symm.trans hi) hj
  · exact absurd ((hon p (mem_of_getLast? hp)).symm.trans hi) hj

/-- One acknowledgement of all that the connection has taken. -/
theorem StreamsTo.ack (hconn : Streamed peer irs (t.conns i) out) (hsent : t.sent = s.sent) :
    StreamsTo i peer irs s (t.sendAck env i) out := by
  refine ⟨by rwa [sendAck_conns], [(i, (t.conns i).segment { ack := true } [])], by rw [sendAck_sent, hsent],
    fun _ h => absurd h not_mem_nil, fun p hp _ => ?_⟩
  cases hp
  rw [sendAck_conns]
  exact hconn.next

/-- The FIN's acknowledgement after that of the bytes before it. -/
theorem StreamsTo.fin (h : Streamed peer irs (t.conns i) out) (hstate : (t.conns i).state = .established)
    (hsent : t.sent = s.sent ∨ t.sent = s.sent ++ [(i, (t.conns i).segment { ack := true } [])]) (f : SeqNum) :
    StreamsTo i peer irs s (t.receiveFin env i f) out := by
  have hbytes : (t.conns i).rcvNxt = irs + 1 + BitVec.ofNat 32 (out.length + (t.conns i).recvLen) := by
    have hnext := h.next
    rw [hstate] at hnext
    simpa using hnext
  have hlast : ∃ c, Streamed peer irs c out ∧ c.recvLen = (t.conns i).recvLen ∧ (t.receiveFin env i f).conns i = c ∧
      (t.receiveFin env i f).sent = t.sent ++ [(i, c.segment { ack := true } [])] := by
    obtain ⟨-, he⟩ | ⟨-, he⟩ := receiveFin_cases t env i f
    · exact ⟨_, h, rfl, by rw [he, sendAck_conns], by rw [he, sendAck_sent]⟩
    · exact ⟨_, h.finish hstate _, rfl, by rw [he, sendAck_conns, setConn_self],
        by rw [he, sendAck_sent, setConn_self, setConn_sent]⟩
  obtain ⟨c, hc, hlen, hconn, hlog⟩ := hlast
  rcases hsent with hsent | hsent
  · refine ⟨by rwa [hconn], _, by rw [hlog, hsent], fun _ h => absurd h not_mem_nil, fun p hp _ => ?_⟩
    cases hp
    rw [hconn]
    exact hc.next
  · refine ⟨by rwa [hconn], _, by rw [hlog, hsent, append_assoc], fun p hp _ => ?_, fun p hp _ => ?_⟩
    · cases List.mem_singleton.mp hp
      rw [hconn, hlen]
      exact hbytes
    · cases hp
      rw [hconn]
      exact hc.next

theorem receive_streams (h : Streamed peer irs (s.conns i) out) (hpeer : peer.length < 2 ^ 32) (srcIp : Ipv4Addr)
    (hdr : TcpHeader) (hrst : hdr.flags.rst = false)
    (hslice : payload ≠ [] → ∃ off ≤ peer.length, hdr.seq = irs + 1 + BitVec.ofNat 32 off ∧ payload <+: peer.drop off) :
    StreamsTo i peer irs s (s.receiveOn env i srcIp hdr payload) out := by
  unfold receiveOn
  rw [if_neg (by simp [hrst])]
  rcases h.phase with hstate | hstate
  · have hacked : Streamed peer irs (acked (s.conns i) hdr) out := h.ack hdr
    have hkeep : (acked (s.conns i) hdr).state = .established ∧ (acked (s.conns i) hdr).rcvNxt = (s.conns i).rcvNxt := by
      unfold acked
      split <;> exact ⟨hstate, rfl⟩
    simp only [hstate]
    obtain ⟨-, -, he⟩ | ⟨hseq, t, ht, he⟩ := receiveEstablished_cases s env i hdr payload
    · rw [he]
      exact .ack (by rwa [setConn_self]) rfl
    have hmid : Streamed peer irs (t.conns i) out ∧ (t.conns i).state = .established ∧
        (t.sent = s.sent ∨ t.sent = s.sent ++ [(i, (t.conns i).segment { ack := true } [])]) := by
      rcases ht with ⟨-, rfl⟩ | ⟨hne, rfl⟩
      · rw [setConn_self]
        exact ⟨hacked, hkeep.1, .inl rfl⟩
      · obtain ⟨off, hoff, hat, hpre⟩ := hslice hne
        rw [sendAck_conns, sendAck_sent, setConn_self]
        refine ⟨hacked.store hpeer hkeep.1 hoff (by rw [hkeep.2, ← hseq hne, hat]) hpre, ?_, .inr rfl⟩
        obtain hst | ⟨-, -, d, hst, -⟩ := storePayload_cases (acked (s.conns i) hdr) payload
        · rw [hst]
          exact hkeep.1
        · rw [hst]
          exact hkeep.1
    rw [he]
    split
    · exact .fin hmid.1 hmid.2.1 hmid.2.2 _
    · rcases hmid.2.2 with hsent | hsent
      · exact .quiet hmid.1 hsent
      · refine ⟨hmid.1, _, hsent, fun _ h => absurd h not_mem_nil, fun p hp _ => ?_⟩
        cases hp
        exact hmid.1.next
  · simp only [hstate]
    exact .quiet h rfl

theorem recv_streams (h : Streamed peer irs (s.conns i) out) (len : Nat) :
    StreamsTo i peer irs s (s.tcpRecv env i len).2 (out ++ (s.tcpRecv env i len).1.2) := by
  obtain ⟨r, he, -⟩ | ⟨-, -, -, avail, ha, c, hc, he⟩ := tcpRecv_cases s env i len
  · rw [he]
    exact .quiet (by rwa [append_nil]) rfl
  · have hread : Streamed peer irs c (out ++ (s.conns i).buffered.take avail) := by
      rw [hc]
      exact h.read avail (by omega) _
    rw [he]
    simp only
    split
    · exact .ack (by rwa [setConn_self]) rfl
    · exact .quiet (by rwa [setConn_self]) rfl

theorem recv_other (len : Nat) (h : j ≠ i) : (s.tcpRecv env j len).2.conns i = s.conns i := by
  obtain ⟨r, he, -⟩ | ⟨-, -, -, avail, -, c, -, he⟩ := tcpRecv_cases s env j len
  · rw [he]
  · rw [he]
    simp only
    split
    · rw [sendAck_conns, setConn_other _ h.symm]
    · exact setConn_other _ h.symm

theorem recv_sentOn (len : Nat) : SentOn i s (s.tcpRecv env i len).2 := by
  obtain ⟨r, he, -⟩ | ⟨-, -, -, avail, -, c, -, he⟩ := tcpRecv_cases s env i len
  · rw [he]
    exact .refl
  · rw [he]
    simp only
    split
    · exact .trans (.of_eq rfl) (sentOn_segment _ _)
    · exact .of_eq rfl

theorem streamStep_streams (h : Streamed peer irs (s.conns i) out) (hpeer : peer.length < 2 ^ 32)
    (hs : StreamStep env i peer irs s bytes t) : StreamsTo i peer irs s t (out ++ bytes) := by
  cases hs with
  | segment srcIp dstIp segment hslice =>
    rw [append_nil]
    unfold tcpReceiveSegment
    cases hr : s.receiver srcIp dstIp segment with
    | none => exact .quiet h rfl
    | some j =>
      by_cases hj : j = i
      · subst hj
        obtain ⟨hrst, hpiece⟩ := hslice hr
        exact receive_streams h hpeer srcIp _ hrst hpiece
      · exact .other h (receiveOn_other srcIp _ _ (Ne.symm hj)) (sentOn_receive srcIp _ _) hj
  | recv len => exact recv_streams h len
  | recvOther j len hj =>
    rw [append_nil]
    exact .other h (recv_other len hj) (recv_sentOn len) hj

def NothingRead (c : TcpConnection) : Prop := c.state = .synSent → c.recvLen = 0 ∧ c.recvHead = 0

theorem NothingRead.resent (h : ∀ j, NothingRead (s.conns j)) (hr : Resent i s t) (j : ConnSlot) : NothingRead (t.conns j) := by
  by_cases hj : j = i
  · subst hj
    obtain ⟨n, hn⟩ := hr.self
    rw [hn]
    exact h j
  · rw [hr.other hj]
    exact h j

theorem nothingRead_update {c : TcpConnection} {conns : ConnSlot → TcpConnection} (h : ∀ j, NothingRead (conns j))
    (hc : NothingRead c) (j : ConnSlot) : NothingRead (update conns i c j) := by
  by_cases hj : j = i
  · subst hj
    rwa [update_self]
  · rw [update_of_ne hj]
    exact h j

theorem nothingRead_receive (h : ∀ j, NothingRead (s.conns j)) (srcIp : Ipv4Addr) (hdr : TcpHeader)
    (payload : List Byte) (j : ConnSlot) : NothingRead ((s.receiveOn env i srcIp hdr payload).conns j) := by
  by_cases hj : j = i
  · subst hj
    intro hsyn
    by_cases hrst : hdr.flags.rst
    · simp [receiveOn, hrst, tearDown] at hsyn
    -- no state goes to SYN_SENT, so the connection was there before
    · have hmoves := @receive_moves s env j srcIp hdr payload (by simpa using hrst)
      have hsame : (s.receiveOn env j srcIp hdr payload).conns j = s.conns j := by
        unfold SegmentMoves at hmoves
        split at hmoves <;> grind
      rw [hsame] at hsyn ⊢
      exact h j hsyn
  · rw [receiveOn_other srcIp hdr payload hj]
    exact h j

theorem step_nothingRead (h : ∀ j, NothingRead (s.conns j)) (op : TcpOp) (j : ConnSlot) :
    NothingRead ((tcpStep env s op).conns j) := by
  cases op with
  | «open» localIp localPort remoteIp remotePort fd =>
    unfold tcpStep
    simp only
    obtain he | ⟨i, c, t, he, -, hconns, -, -, hlen, hhead, -⟩ :=
      tcpOpen_cases s env localIp localPort remoteIp remotePort fd
    · rw [he]
      exact h j
    · rw [he]
      simp only [hconns]
      exact nothingRead_update h (fun _ => ⟨hlen, hhead⟩) j
  | listen localIp localPort fd =>
    unfold tcpStep tcpListen
    simp only
    split
    · exact h j
    · obtain ⟨sendBuf, m, hm, -⟩ := kmalloc_cases s env
      obtain ⟨recvBuf, n, hn, -⟩ := kmalloc_cases ({ s with clock := s.clock + 1, allocated := s.allocated + m }) env
      simp only [hm, hn]
      refine nothingRead_update h ?_ j
      intro hs
      cases hs
  | send i data => exact .resent h (resent_send data) j
  | recv i len =>
    obtain ⟨r, he, -⟩ | ⟨-, hne, -, avail, ha, c, hc, he⟩ := tcpRecv_cases s env i len
    · unfold tcpStep
      simp only [he]
      exact h j
    · unfold tcpStep
      simp only [he]
      have hself : NothingRead c := by
        intro hsyn
        rw [hc] at hsyn
        exact absurd (h i hsyn).1 hne
      split
      · rw [sendAck_conns]
        exact nothingRead_update h hself j
      · exact nothingRead_update h hself j
  | close i =>
    obtain ⟨-, he⟩ | ⟨-, c, t, he, hconns, -, -, -, -, hstate, -⟩ := tcpClose_cases s env i
    · unfold tcpStep
      simp only [he]
      exact h j
    · unfold tcpStep
      simp only [he, hconns]
      refine nothingRead_update h (fun hsyn => ?_) j
      rw [hsyn] at hstate
      split at hstate <;> cases hstate
  | segment srcIp dstIp bytes =>
    unfold tcpStep tcpReceiveSegment
    simp only
    split
    · exact h j
    · exact nothingRead_receive h _ _ _ j
  | timerTick =>
    unfold tcpStep tcpTimerTick
    simp only
    split
    · exact fun hs => nomatch hs
    · exact h j
  | retransmitSyn i => exact .resent h resent_retransmit j

theorem tcpRun_nothingRead (h : TcpRun env s) (j : ConnSlot) : NothingRead (s.conns j) := by
  induction h generalizing j with
  | init => exact fun hs => nomatch hs
  | step op _ ih => exact step_nothingRead ih op j

def BecameEstablished (env : TcpEnv) (i : ConnSlot) (irs : SeqNum) (s₀ : TcpTable) : Prop :=
  ∃ s srcIp dstIp bytes, TcpRun env s ∧ (s.conns i).state = .synSent ∧ s₀ = s.tcpReceiveSegment env srcIp dstIp bytes ∧
    (s₀.conns i).state = .established ∧ (s₀.conns i).irs = irs

theorem connection_established {srcIp : Ipv4Addr} {hdr : TcpHeader} {payload : List Byte} (hsyn : (s.conns i).state = .synSent)
    (hest : ((s.receiveOn env i srcIp hdr payload).conns i).state = .established) :
    (s.receiveOn env i srcIp hdr payload).conns i =
      { s.conns i with irs := hdr.seq, rcvNxt := hdr.seq + 1, sndUna := hdr.ack, state := .established } := by
  unfold receiveOn at hest ⊢
  split at hest
  · simp [tearDown, setConn] at hest
  rename_i hrst
  rw [if_neg hrst]
  simp only [hsyn] at hest ⊢
  unfold receiveSynSent at hest ⊢
  split at hest
  · rename_i hboth
    rw [if_pos hboth]
    simp [setConn]
  · rw [hsyn] at hest
    cases hest

theorem BecameEstablished.streamed {s₀ : TcpTable} (h : BecameEstablished env i irs s₀) :
    Streamed peer irs (s₀.conns i) [] := by
  obtain ⟨s, srcIp, dstIp, bytes, hrun, hsyn, rfl, hest, hirs⟩ := h
  obtain ⟨hlen, hhead⟩ := tcpRun_nothingRead hrun i hsyn
  unfold tcpReceiveSegment at hest hirs ⊢
  simp only at hest hirs ⊢
  split at hest
  · rw [hsyn] at hest
    cases hest
  rename_i j hr
  by_cases hj : i = j
  · subst hj
    have hconn := connection_established hsyn hest
    simp only [hr] at hirs ⊢
    rw [hconn] at hirs ⊢
    refine ⟨hirs, .inl rfl, ?_, ?_, ?_, ?_⟩
    · simp [hhead, hlen]
    · simp [TcpConnection.buffered, hlen]
    · simp [hlen]
    · simp [hlen, ← hirs]
  · rw [receiveOn_other _ _ _ hj, hsyn] at hest
    cases hest

theorem streamRun_streamed {s₀ : TcpTable} (h₀ : Streamed peer irs (s₀.conns i) []) (hpeer : peer.length < 2 ^ 32)
    (h : StreamRun env i peer irs s₀ s out) : Streamed peer irs (s.conns i) out := by
  induction h with
  | start => exact h₀
  | step _ hs ih => exact (streamStep_streams ih hpeer hs).1

theorem offset_back (a x y : SeqNum) : a + 1 + x + y - a - 1 - y = x := by bv_omega

/-- What was read and what is buffered are the bytes of the stream that `rcv_nxt`
acknowledges, and every segment sent acknowledges the bytes taken so far. -/
theorem stream_in_order {s₀ : TcpTable} (h₀ : BecameEstablished env i irs s₀) (hpeer : peer.length < 2 ^ 32)
    (h : StreamRun env i peer irs s₀ s out) :
    let c := s.conns i
    let taken := (c.rcvNxt - c.irs - 1 - if c.state = .closeWait then 1 else 0).toNat
    c.irs = irs ∧ out ++ c.buffered = peer.take taken ∧ taken ≤ peer.length ∧ c.recvHead + c.recvLen ≤ c.recvCap ∧
      ∀ bytes t, StreamStep env i peer irs s bytes t → ∃ l, t.sent = s.sent ++ l ∧
        AcksExactly i irs ((out ++ bytes).length + (t.conns i).recvLen) (t.conns i) l := by
  have hstream := streamRun_streamed h₀.streamed hpeer h
  intro c taken
  have htaken : taken = out.length + c.recvLen := by
    have hw := hstream.within
    simp only [taken]
    rw [show c.irs = irs from hstream.start, show c.rcvNxt = _ from hstream.next, offset_back, BitVec.toNat_ofNat]
    exact Nat.mod_eq_of_lt (Nat.lt_of_le_of_lt hw hpeer)
  rw [htaken]
  exact ⟨hstream.start, hstream.bytes, hstream.within, hstream.room,
    fun bytes t hs => (streamStep_streams hstream hpeer hs).2⟩

theorem stream_in_order_two :
    let peer : List Byte := [65, 66]
    let s₀ := [openOne, synAck].foldl (tcpStep plainEnv) .tcpInit
    let segment : List Byte := [0, 80, 3, 232, 0, 0, 0, 6, 0, 0, 0, 8, 0x50, 0x10, 0, 0, 106, 72, 0, 0, 65, 66]
    let s := ((s₀.tcpReceiveSegment plainEnv 1 2 segment).tcpRecv plainEnv 0 1).2
    [] ++ [] ++ [65] ++ (s.conns 0).buffered = peer.take
      ((s.conns 0).rcvNxt - (s.conns 0).irs - 1 - if (s.conns 0).state = .closeWait then 1 else 0).toNat := by
  intro peer s₀ segment s
  have hopen : BecameEstablished plainEnv 0 5 s₀ :=
    ⟨[openOne].foldl (tcpStep plainEnv) .tcpInit, 1, 2, bareSegment 0x12 5 47, tcpRun_foldl _ .init, by decide, rfl,
      by decide, by decide⟩
  have hslice : CarriesSlice peer 5 segment := by
    refine ⟨by decide, fun _ => ⟨0, Nat.zero_le _, by decide, by decide⟩⟩
  have hread : ((s₀.tcpReceiveSegment plainEnv 1 2 segment).tcpRecv plainEnv 0 1).1.2 = [65] := by decide
  have hrun : StreamRun plainEnv 0 peer 5 s₀ s ([] ++ [] ++ [65]) := by
    rw [← hread]
    exact .step (.step .start (.segment 1 2 segment fun _ => hslice)) (.recv 1)
  exact (stream_in_order hopen (by decide) hrun).2.1

end CapyOS.Proofs
