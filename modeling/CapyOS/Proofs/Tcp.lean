import CapyOS.Net.Tcp

namespace CapyOS.Proofs
open Lib TcpTable Function List

variable {s : TcpTable} {env : TcpEnv} {i j : ConnSlot}

@[simp] theorem setConn_self (c : TcpConnection) : (s.setConn i c).conns i = c := update_self ..

@[simp] theorem setConn_sent (c : TcpConnection) : (s.setConn i c).sent = s.sent := rfl

@[simp] theorem setConn_freed (c : TcpConnection) : (s.setConn i c).freed = s.freed := rfl

@[simp] theorem setConn_allocated (c : TcpConnection) : (s.setConn i c).allocated = s.allocated := rfl

@[simp] theorem setConn_opened (c : TcpConnection) : (s.setConn i c).opened = s.opened := rfl

theorem setConn_other (c : TcpConnection) (h : j ≠ i) : (s.setConn i c).conns j = s.conns j :=
  update_of_ne h ..

/-- A segment changes nothing of a connection but `snd_nxt`. -/
theorem sendSegment_cases (s : TcpTable) (env : TcpEnv) (i : ConnSlot) (flags : TcpFlags) (data : List Byte) :
    (tcpMssDefault < data.length ∧ s.tcpSendSegment env i flags data = (false, s)) ∨
    (data.length ≤ tcpMssDefault ∧ ∃ c, (c = s.conns i ∨ c = (s.conns i).advance flags data.length) ∧
      (s.tcpSendSegment env i flags data).2 = { s with
        conns := update s.conns i c
        clock := s.clock + 1
        sent := s.sent ++ [(i, (s.conns i).segment flags data)] }) := by
  unfold tcpSendSegment
  split
  · rename_i hlen
    exact .inl ⟨hlen, rfl⟩
  · rename_i hlen
    refine .inr ⟨Nat.le_of_not_lt hlen, ?_⟩
    simp only
    split
    · exact ⟨_, .inr rfl, rfl⟩
    · exact ⟨_, .inl rfl, by rw [update_eq_self]⟩

theorem sendSegment_other (flags : TcpFlags) (data : List Byte) (h : j ≠ i) :
    (s.tcpSendSegment env i flags data).2.conns j = s.conns j := by
  obtain ⟨-, he⟩ | ⟨-, c, -, he⟩ := sendSegment_cases s env i flags data
  · rw [he]
  · rw [he]
    exact update_of_ne h ..

theorem sendSegment_conns (s : TcpTable) (env : TcpEnv) (i : ConnSlot) (flags : TcpFlags) (data : List Byte) :
    ∃ n, (s.tcpSendSegment env i flags data).2.conns = update s.conns i { s.conns i with sndNxt := n } := by
  obtain ⟨-, he⟩ | ⟨-, c, hc, he⟩ := sendSegment_cases s env i flags data
  · exact ⟨(s.conns i).sndNxt, by rw [he]; exact (update_eq_self ..).symm⟩
  · rw [he]
    rcases hc with rfl | rfl
    · exact ⟨(s.conns i).sndNxt, rfl⟩
    · exact ⟨((s.conns i).advance flags data.length).sndNxt, rfl⟩

theorem sendSegment_self (flags : TcpFlags) (data : List Byte) :
    ∃ n, (s.tcpSendSegment env i flags data).2.conns i = { s.conns i with sndNxt := n } := by
  obtain ⟨n, hn⟩ := sendSegment_conns s env i flags data
  exact ⟨n, by rw [hn, update_self]⟩

@[simp] theorem sendSegment_state (flags : TcpFlags) (data : List Byte) :
    ((s.tcpSendSegment env i flags data).2.conns i).state = (s.conns i).state := by
  obtain ⟨n, hn⟩ := @sendSegment_self s env i flags data
  rw [hn]

/-- A bare acknowledgement leaves the connections as they are. -/
@[simp] theorem sendAck_conns : (s.sendAck env i).conns = s.conns := by
  unfold sendAck
  obtain ⟨hlen, -⟩ | ⟨-, c, hc, he⟩ := sendSegment_cases s env i { ack := true } []
  · exact absurd hlen (Nat.not_lt_zero _)
  · have hself : c = s.conns i := by
      rcases hc with hc | hc
      · exact hc
      · simpa [TcpConnection.advance] using hc
    rw [he, hself]
    exact update_eq_self ..

@[simp] theorem sendAck_sent : (s.sendAck env i).sent = s.sent ++ [(i, (s.conns i).segment { ack := true } [])] := by
  unfold sendAck
  obtain ⟨hlen, -⟩ | ⟨-, c, -, he⟩ := sendSegment_cases s env i { ack := true } []
  · exact absurd hlen (Nat.not_lt_zero _)
  · rw [he]

/-- What a segment leaves of the lists that only the heap changes. -/
theorem sendSegment_heap (flags : TcpFlags) (data : List Byte) : (s.tcpSendSegment env i flags data).2.freed = s.freed ∧
      (s.tcpSendSegment env i flags data).2.allocated = s.allocated ∧
      (s.tcpSendSegment env i flags data).2.opened = s.opened := by
  obtain ⟨-, he⟩ | ⟨-, c, -, he⟩ := sendSegment_cases s env i flags data
  · rw [he]
    exact ⟨rfl, rfl, rfl⟩
  · rw [he]
    exact ⟨rfl, rfl, rfl⟩

theorem findConn_active {srcIp : Ipv4Addr} {srcPort dstPort : Port} (h : s.findConn srcIp srcPort dstPort = some i) :
    (s.conns i).active = true ∧ (s.conns i).localPort = dstPort := by
  have hp := List.find?_some h
  simp only [Bool.decide_and, Bool.and_eq_true, decide_eq_true_eq] at hp
  exact ⟨hp.1, hp.2.1⟩

theorem receiver_some {srcIp dstIp : Ipv4Addr} {segment : List Byte} (h : s.receiver srcIp dstIp segment = some i) :
    SegmentValid srcIp dstIp segment ∧
      s.findConn srcIp (TcpHeader.read segment).srcPort (TcpHeader.read segment).dstPort = some i := by
  unfold receiver at h
  split at h
  · rename_i hv
    exact ⟨hv, h⟩
  · cases h

theorem setConn_setConn (c d : TcpConnection) : (s.setConn i c).setConn i d = s.setConn i d := by
  simp [setConn]

theorem receiveFin_other (f : SeqNum) (h : j ≠ i) : (s.receiveFin env i f).conns j = s.conns j := by
  unfold receiveFin
  simp only
  split
  · rw [sendAck_conns]
  · rw [sendAck_conns]
    exact setConn_other _ h

/-- A FIN is taken only at `rcv_nxt`, and answered in any case. -/
theorem receiveFin_cases (s : TcpTable) (env : TcpEnv) (i : ConnSlot) (f : SeqNum) :
    (f ≠ (s.conns i).rcvNxt ∧ s.receiveFin env i f = s.sendAck env i) ∨
    (f = (s.conns i).rcvNxt ∧ s.receiveFin env i f = (s.setConn i { s.conns i with
      rcvNxt := (s.conns i).rcvNxt + 1, state := .closeWait, finSeq := some f }).sendAck env i) := by
  unfold receiveFin
  simp only
  by_cases hf : f = (s.conns i).rcvNxt
  · exact .inr ⟨hf, if_neg (not_not.mpr hf)⟩
  · exact .inl ⟨hf, if_pos hf⟩

def acked (c : TcpConnection) (hdr : TcpHeader) : TcpConnection :=
  if hdr.flags.ack then { c with sndUna := hdr.ack } else c

/-- A segment in ESTABLISHED is out of sequence, or its payload is offered to the buffer and
its FIN is looked at. -/
theorem receiveEstablished_cases (s : TcpTable) (env : TcpEnv) (i : ConnSlot) (hdr : TcpHeader) (payload : List Byte) :
    (payload ≠ [] ∧ hdr.seq ≠ (s.conns i).rcvNxt ∧
      s.receiveEstablished env i hdr payload = (s.setConn i (acked (s.conns i) hdr)).sendAck env i) ∨
    ((payload ≠ [] → hdr.seq = (s.conns i).rcvNxt) ∧ ∃ t : TcpTable,
      (payload = [] ∧ t = s.setConn i (acked (s.conns i) hdr) ∨ payload ≠ [] ∧
        t = (s.setConn i ((acked (s.conns i) hdr).storePayload payload)).sendAck env i) ∧
      s.receiveEstablished env i hdr payload =
        if hdr.flags.fin then t.receiveFin env i (hdr.seq + BitVec.ofNat 32 payload.length) else t) := by
  have hacked : (if hdr.flags.ack = true then s.setConn i { s.conns i with sndUna := hdr.ack } else s) =
      s.setConn i (acked (s.conns i) hdr) := by
    unfold acked
    split
    · rfl
    · simp [setConn]
  have hnxt : (acked (s.conns i) hdr).rcvNxt = (s.conns i).rcvNxt := by
    unfold acked
    split <;> rfl
  unfold receiveEstablished
  simp only [hacked, setConn_self, hnxt, setConn_setConn]
  split
  · rename_i hout
    exact .inl ⟨hout.1, hout.2, rfl⟩
  · rename_i hin
    refine .inr ⟨fun hne => by_contra fun hseq => hin ⟨hne, hseq⟩, _, ?_, rfl⟩
    by_cases hne : payload = []
    · exact .inl ⟨hne, if_neg (not_not.mpr hne)⟩
    · exact .inr ⟨hne, if_pos hne⟩

def SentOn (i : ConnSlot) (s t : TcpTable) : Prop := ∃ l, t.sent = s.sent ++ l ∧ ∀ p ∈ l, p.1 = i

theorem SentOn.refl : SentOn i s s := ⟨[], (append_nil _).symm, fun _ h => absurd h not_mem_nil⟩

theorem SentOn.of_eq {t : TcpTable} (h : t.sent = s.sent) : SentOn i s t :=
  ⟨[], by rw [h, append_nil], fun _ h => absurd h not_mem_nil⟩

theorem SentOn.trans {t u : TcpTable} (h : SentOn i s t) (h' : SentOn i t u) : SentOn i s u := by
  obtain ⟨l, hl, hi⟩ := h
  obtain ⟨l', hl', hi'⟩ := h'
  refine ⟨l ++ l', by rw [hl', hl, append_assoc], fun p hp => ?_⟩
  rcases mem_append.mp hp with hp | hp
  · exact hi p hp
  · exact hi' p hp

theorem sentOn_segment (flags : TcpFlags) (data : List Byte) : SentOn i s (s.tcpSendSegment env i flags data).2 := by
  obtain ⟨-, he⟩ | ⟨-, c, -, he⟩ := sendSegment_cases s env i flags data
  · rw [he]
    exact .refl
  · rw [he]
    refine ⟨[_], rfl, fun p hp => ?_⟩
    rw [mem_singleton.mp hp]

theorem sentOn_receive (srcIp : Ipv4Addr) (hdr : TcpHeader) (payload : List Byte) :
    SentOn i s (s.receiveOn env i srcIp hdr payload) := by
  have hack {t : TcpTable} (h : SentOn i s t) : SentOn i s (t.sendAck env i) := h.trans (sentOn_segment _ _)
  have hset (c : TcpConnection) : SentOn i s (s.setConn i c) := .of_eq rfl
  unfold receiveOn
  split
  · exact hset _
  split
  · unfold receiveSynSent
    split
    · exact hack (hset _)
    · exact .refl
  · unfold receiveListen
    split
    · exact .trans (.of_eq rfl) (sentOn_segment _ _)
    · exact .refl
  · unfold receiveSynRcvd
    split
    · exact hset _
    · exact .refl
  · obtain ⟨-, -, he⟩ | ⟨-, t, ht, he⟩ := receiveEstablished_cases s env i hdr payload
    · rw [he]
      exact hack (hset _)
    · have hsent : SentOn i s t := by
        rcases ht with ⟨-, rfl⟩ | ⟨-, rfl⟩
        · exact hset _
        · exact hack (hset _)
      rw [he]
      split
      · obtain ⟨-, hf⟩ | ⟨-, hf⟩ := receiveFin_cases t env i (hdr.seq + BitVec.ofNat 32 payload.length)
        · rw [hf]
          exact hack hsent
        · rw [hf]
          exact hack (hsent.trans (.of_eq rfl))
      · exact hsent
  · unfold receiveFinWait1 receiveLateFin
    split
    · simp only
      split
      · exact hack (.of_eq rfl)
      · exact .of_eq rfl
    · exact .refl
  · unfold receiveLateFin
    split
    · exact hack (hset _)
    · exact .refl
  · split
    · exact hset _
    · exact .refl
  · exact hset _
  · exact .refl

theorem receiveOn_other (srcIp : Ipv4Addr) (hdr : TcpHeader) (payload : List Byte) (h : j ≠ i) :
    (s.receiveOn env i srcIp hdr payload).conns j = s.conns j := by
  have hset (c : TcpConnection) : (s.setConn i c).conns j = s.conns j := setConn_other c h
  unfold receiveOn
  split
  · exact hset _
  split
  · unfold receiveSynSent
    split
    · rw [sendAck_conns]
      exact hset _
    · rfl
  · unfold receiveListen
    split
    · simp only
      rw [sendSegment_other _ _ h]
      exact setConn_other _ h
    · rfl
  · unfold receiveSynRcvd
    split
    · exact hset _
    · rfl
  · obtain ⟨-, -, he⟩ | ⟨-, t, ht, he⟩ := receiveEstablished_cases s env i hdr payload
    · rw [he, sendAck_conns]
      exact hset _
    · have hconns : t.conns j = s.conns j := by
        rcases ht with ⟨-, rfl⟩ | ⟨-, rfl⟩
        · exact hset _
        · rw [sendAck_conns]
          exact hset _
      rw [he]
      split
      · rw [receiveFin_other _ h, hconns]
      · exact hconns
  · unfold receiveFinWait1 receiveLateFin
    split
    · simp only
      split
      · rw [sendAck_conns, setConn_other _ h, hset]
      · rw [setConn_other _ h, hset]
    · rfl
  · unfold receiveLateFin
    split
    · rw [sendAck_conns]
      exact hset _
    · rfl
  · split
    · exact hset _
    · rfl
  · exact hset _
  · rfl

theorem kmalloc_cases (s : TcpTable) (env : TcpEnv) :
    ∃ b n, s.kmalloc env = (b, { s with clock := s.clock + 1, allocated := s.allocated + n }) ∧
      b.toList = List.range' s.allocated n := by
  unfold kmalloc
  split
  · exact ⟨_, 1, rfl, rfl⟩
  · exact ⟨none, 0, rfl, rfl⟩

theorem tcpOpen_cases (s : TcpTable) (env : TcpEnv) (localIp : Ipv4Addr) (localPort : Port) (remoteIp : Ipv4Addr)
    (remotePort : Port) (fd : Nat) : s.tcpOpen env localIp localPort remoteIp remotePort fd = (none, s) ∨
    ∃ i c t, s.tcpOpen env localIp localPort remoteIp remotePort fd = (some i, t) ∧ (s.conns i).active = false ∧
      t.conns = update s.conns i c ∧ c.active = true ∧ c.state = .synSent ∧ c.recvLen = 0 ∧ c.recvHead = 0 ∧
      c.serial = s.opened ∧ c.returned = [] ∧ c.finSeq = none ∧ t.opened = s.opened + 1 ∧ t.freed = s.freed ∧
      (∃ n, t.allocated = s.allocated + n ∧ c.sendBuf.toList ++ c.recvBuf.toList = List.range' s.allocated n) ∧
      SentOn i s t := by
  unfold tcpOpen
  split
  · exact .inl rfl
  · rename_i i hfree
    right
    have hi : (s.conns i).active = false := by simpa using List.find?_some hfree
    obtain ⟨sendBuf, m, hm, hsend⟩ := kmalloc_cases { s with clock := s.clock + 1 } env
    obtain ⟨recvBuf, n, hn, hrecv⟩ := kmalloc_cases ({ s with clock := s.clock + 1 + 1, allocated := s.allocated + m }) env
    simp only [hm, hn]
    generalize hc : ({ TcpConnection.zero with
      active := true
      localIp, localPort, remoteIp, remotePort
      state := .synSent
      sndUna := env.isn s.clock
      sndNxt := env.isn s.clock
      iss := env.isn s.clock
      mss := tcpMssDefault
      sendBuf, recvBuf
      recvBytes := env.memory s.clock
      recvCap := if recvBuf.isSome = true then tcpWindowSize else 0
      socketFd := fd
      serial := s.opened } : TcpConnection) = c
    generalize ht : ({ s with
      clock := s.clock + 1 + 1 + 1, opened := s.opened + 1, allocated := s.allocated + m + n } : TcpTable) = t
    obtain ⟨r, hr⟩ := sendSegment_conns (t.setConn i c) env i { syn := true } []
    obtain ⟨hfreed, halloc, hopened⟩ := @sendSegment_heap (t.setConn i c) env i { syn := true } []
    have hsent : SentOn i s ((t.setConn i c).tcpSendSegment env i { syn := true } []).2 :=
      .trans (.of_eq (by rw [← ht]; rfl)) (sentOn_segment _ _)
    refine ⟨i, { c with sndNxt := r }, _, rfl, hi, ?_, ?_⟩
    · rw [hr, setConn_self]
      unfold setConn
      rw [update_idem, ← ht]
    · rw [hfreed, halloc, hopened]
      subst hc ht
      refine ⟨rfl, rfl, rfl, rfl, rfl, rfl, rfl, rfl, rfl, ⟨m + n, Nat.add_assoc .., ?_⟩, hsent⟩
      simp only [hsend, hrecv]
      exact range'_append_1

/-- A table whose connection `i` differs in `snd_nxt` alone and on which nothing was
allocated, freed or sent but on `i`. -/
structure Resent (i : ConnSlot) (s t : TcpTable) : Prop where
  conns : ∃ n, t.conns = update s.conns i { s.conns i with sndNxt := n }
  freed : t.freed = s.freed
  allocated : t.allocated = s.allocated
  opened : t.opened = s.opened
  sent : SentOn i s t

theorem Resent.refl (i : ConnSlot) (s : TcpTable) : Resent i s s :=
  ⟨⟨(s.conns i).sndNxt, (update_eq_self ..).symm⟩, rfl, rfl, rfl, .refl⟩

theorem Resent.trans {t u : TcpTable} (h : Resent i s t) (h' : Resent i t u) : Resent i s u := by
  obtain ⟨n, hn⟩ := h.conns
  obtain ⟨m, hm⟩ := h'.conns
  refine ⟨⟨m, ?_⟩, h'.freed.trans h.freed, h'.allocated.trans h.allocated, h'.opened.trans h.opened, h.sent.trans h'.sent⟩
  rw [hm, hn, update_self, update_idem]

theorem Resent.other {t : TcpTable} (h : Resent i s t) (hj : j ≠ i) : t.conns j = s.conns j := by
  obtain ⟨n, hn⟩ := h.conns
  rw [hn]
  exact update_of_ne hj ..

theorem Resent.self {t : TcpTable} (h : Resent i s t) : ∃ n, t.conns i = { s.conns i with sndNxt := n } := by
  obtain ⟨n, hn⟩ := h.conns
  exact ⟨n, by rw [hn, update_self]⟩

theorem resent_segment (flags : TcpFlags) (data : List Byte) : Resent i s (s.tcpSendSegment env i flags data).2 :=
  have hheap := sendSegment_heap flags data
  ⟨sendSegment_conns s env i flags data, hheap.1, hheap.2.1, hheap.2.2, sentOn_segment flags data⟩

theorem resent_sendLoop (fuel : Nat) (data : List Byte) (n : Nat) : Resent i s (sendLoop env i fuel s data n).2 := by
  induction fuel generalizing s data n with
  | zero => exact .refl ..
  | succ fuel ih =>
    unfold sendLoop
    split
    · exact .refl ..
    · simp only
      have hone := @resent_segment s env i { ack := true, psh := true } (data.take (s.conns i).mss)
      split
      · rename_i t he
        rw [he] at hone
        exact hone
      · rename_i t he
        rw [he] at hone
        exact hone.trans (ih ..)

theorem resent_send (data : List Byte) : Resent i s (s.tcpSend env i data).2 := by
  unfold tcpSend
  simp only
  split
  · exact .refl ..
  split
  · exact .refl ..
  · exact resent_sendLoop ..

theorem resent_retransmit : Resent i s (s.tcpRetransmitSyn env i) := by
  unfold tcpRetransmitSyn
  simp only
  split
  · exact .refl ..
  · have hset (t : TcpTable) (n : SeqNum) : Resent i t (t.setConn i { t.conns i with sndNxt := n }) :=
      ⟨⟨n, rfl⟩, rfl, rfl, rfl, .of_eq rfl⟩
    exact ((hset s _).trans (resent_segment _ _)).trans (hset _ _)

theorem tcpClose_cases (s : TcpTable) (env : TcpEnv) (i : ConnSlot) :
    ((s.conns i).active = false ∧ s.tcpClose env i = (-1, s)) ∨
    ((s.conns i).active = true ∧ ∃ c t, s.tcpClose env i = (0, t) ∧ t.conns = update s.conns i c ∧
      c.sendBuf = none ∧ c.recvBuf = none ∧ c.serial = (s.conns i).serial ∧
      c.returned = (s.conns i).returned ∧
      c.state = (match (s.conns i).state with | .established => .finWait1 | .closeWait => .lastAck | _ => .closed) ∧
      c.active = (if (s.conns i).state = .established ∨ (s.conns i).state = .closeWait then true else false) ∧
      t.freed = s.freed ++ ((s.conns i).sendBuf.toList ++ (s.conns i).recvBuf.toList) ∧
      t.allocated = s.allocated ∧ t.opened = s.opened ∧ SentOn i s t) := by
  -- a FIN goes out, and the state is set afterwards
  have hfin (st : TcpState) : ∃ n, ∃ t, (((s.tcpSendSegment env i { fin := true, ack := true } []).2.setConn i
      { (s.tcpSendSegment env i { fin := true, ack := true } []).2.conns i with state := st }).freeBuffers i) = t ∧
      t.conns = update s.conns i { s.conns i with
        sndNxt := n, state := st, sendBuf := none, recvBuf := none, recvCap := 0 } ∧
      t.freed = s.freed ++ ((s.conns i).sendBuf.toList ++ (s.conns i).recvBuf.toList) ∧
      t.allocated = s.allocated ∧ t.opened = s.opened ∧ SentOn i s t := by
    have hres := @resent_segment s env i { fin := true, ack := true } []
    generalize (s.tcpSendSegment env i { fin := true, ack := true } []).2 = t at hres
    obtain ⟨n, hn⟩ := hres.self
    obtain ⟨m, hm⟩ := hres.conns
    refine ⟨n, _, rfl, ?_, ?_, hres.allocated, hres.opened, hres.sent.trans (.of_eq rfl)⟩
    · simp only [freeBuffers, TcpTable.kfree, setConn, hm, update_self, update_idem]
      congr 1
      rw [hm, update_self] at hn
      cases hn
      rfl
    · simp only [freeBuffers, TcpTable.kfree, setConn_self, setConn_freed, hn, hres.freed, append_assoc]
  unfold tcpClose
  by_cases hactive : (s.conns i).active
  · right
    simp only [hactive, Bool.not_true, Bool.false_eq_true, if_false]
    refine ⟨trivial, ?_⟩
    by_cases hest : (s.conns i).state = .established
    · obtain ⟨n, t, ht, hconns, hfreed, hrest⟩ := hfin .finWait1
      rw [if_pos hest]
      refine ⟨_, t, by rw [ht], hconns, rfl, rfl, rfl, rfl, by rw [hest], ?_, hfreed, hrest⟩
      rw [if_pos (.inl hest)]
      exact hactive
    · rw [if_neg hest]
      by_cases hwait : (s.conns i).state = .closeWait
      · obtain ⟨n, t, ht, hconns, hfreed, hrest⟩ := hfin .lastAck
        rw [if_pos hwait]
        refine ⟨_, t, by rw [ht], hconns, rfl, rfl, rfl, rfl, by rw [hwait], ?_, hfreed, hrest⟩
        rw [if_pos (.inr hwait)]
        exact hactive
      · rw [if_neg hwait]
        refine ⟨{ s.conns i with
          active := false, state := .closed, sendBuf := none, recvBuf := none, recvCap := 0 }, _, rfl, ?_,
          rfl, rfl, rfl, rfl, ?_, ?_, ?_, rfl, rfl, .of_eq rfl⟩
        · simp [freeBuffers, TcpTable.kfree, setConn]
        · cases hst : (s.conns i).state with
          | established => exact absurd hst hest
          | closeWait => exact absurd hst hwait
          | _ => rfl
        · rw [if_neg (not_or.mpr ⟨hest, hwait⟩)]
        · simp [freeBuffers, TcpTable.kfree, setConn]
  · left
    have hfalse : (s.conns i).active = false := by simpa using hactive
    exact ⟨hfalse, if_pos (by simp [hfalse])⟩

theorem close_other (h : j ≠ i) : (s.tcpClose env i).2.conns j = s.conns j := by
  obtain ⟨-, he⟩ | ⟨-, c, t, he, hconns, -⟩ := tcpClose_cases s env i
  · rw [he]
  · rw [he, hconns]
    exact update_of_ne h ..

theorem sentOn_close : SentOn i s (s.tcpClose env i).2 := by
  obtain ⟨-, he⟩ | ⟨-, c, t, he, -, -, -, -, -, -, -, -, -, -, hsent⟩ := tcpClose_cases s env i
  · rw [he]
    exact .refl
  · rw [he]
    exact hsent

/-- The place of a connection keeps its buffers, its serial number and what was returned of
it, and the heap stays. -/
structure Holds (i : ConnSlot) (s t : TcpTable) : Prop where
  sendBuf : (t.conns i).sendBuf = (s.conns i).sendBuf
  recvBuf : (t.conns i).recvBuf = (s.conns i).recvBuf
  serial : (t.conns i).serial = (s.conns i).serial
  returned : (t.conns i).returned = (s.conns i).returned
  active : (t.conns i).active = true → (s.conns i).active = true
  freed : t.freed = s.freed
  allocated : t.allocated = s.allocated
  opened : t.opened = s.opened

theorem Holds.refl (i : ConnSlot) (s : TcpTable) : Holds i s s :=
  ⟨rfl, rfl, rfl, rfl, id, rfl, rfl, rfl⟩

theorem Holds.trans {t u : TcpTable} (h : Holds i s t) (h' : Holds i t u) : Holds i s u :=
  ⟨h'.sendBuf.trans h.sendBuf, h'.recvBuf.trans h.recvBuf, h'.serial.trans h.serial,
    h'.returned.trans h.returned, h.active ∘ h'.active,
    h'.freed.trans h.freed, h'.allocated.trans h.allocated, h'.opened.trans h.opened⟩

theorem holds_set (c : TcpConnection) (hs : c.sendBuf = (s.conns i).sendBuf) (hr : c.recvBuf = (s.conns i).recvBuf)
    (hn : c.serial = (s.conns i).serial) (ht : c.returned = (s.conns i).returned)
    (ha : c.active = true → (s.conns i).active = true) : Holds i s (s.setConn i c) := by
  refine ⟨?_, ?_, ?_, ?_, ?_, rfl, rfl, rfl⟩
  · rw [setConn_self, hs]
  · rw [setConn_self, hr]
  · rw [setConn_self, hn]
  · rw [setConn_self, ht]
  · rw [setConn_self]
    exact ha

theorem Resent.holds {t : TcpTable} (h : Resent i s t) : Holds i s t := by
  obtain ⟨n, hn⟩ := h.self
  refine ⟨by rw [hn], by rw [hn], by rw [hn], by rw [hn], fun ha => ?_, h.freed, h.allocated, h.opened⟩
  rwa [hn] at ha

theorem storePayload_buffers (c : TcpConnection) (payload : List Byte) :
    (c.storePayload payload).sendBuf = c.sendBuf ∧ (c.storePayload payload).recvBuf = c.recvBuf ∧
      (c.storePayload payload).serial = c.serial ∧ (c.storePayload payload).returned = c.returned ∧
      (c.storePayload payload).active = c.active := by
  unfold TcpConnection.storePayload TcpConnection.compact
  split
  · simp only
    split <;> exact ⟨rfl, rfl, rfl, rfl, rfl⟩
  · exact ⟨rfl, rfl, rfl, rfl, rfl⟩

theorem acked_buffers (c : TcpConnection) (hdr : TcpHeader) :
    (acked c hdr).sendBuf = c.sendBuf ∧ (acked c hdr).recvBuf = c.recvBuf ∧ (acked c hdr).serial = c.serial ∧
      (acked c hdr).returned = c.returned ∧ (acked c hdr).active = c.active := by
  unfold acked
  split <;> exact ⟨rfl, rfl, rfl, rfl, rfl⟩

theorem holds_receive (srcIp : Ipv4Addr) (hdr : TcpHeader) (payload : List Byte) :
    Holds i s (s.receiveOn env i srcIp hdr payload) := by
  have hack {t : TcpTable} (h : Holds i s t) : Holds i s (t.sendAck env i) := h.trans (resent_segment _ _).holds
  unfold receiveOn
  split
  · exact holds_set _ rfl rfl rfl rfl (fun h => nomatch h)
  split
  · unfold receiveSynSent
    split
    · exact hack (holds_set _ rfl rfl rfl rfl id)
    · exact .refl ..
  · unfold receiveListen
    split
    · have hset := @holds_set { s with clock := s.clock + 1 } i { s.conns i with
        remoteIp := srcIp, remotePort := hdr.srcPort, irs := hdr.seq, rcvNxt := hdr.seq + 1
        iss := env.isn s.clock, sndNxt := env.isn s.clock, sndUna := env.isn s.clock, state := .synRcvd } rfl rfl rfl rfl id
      have hclock : Holds i s { s with clock := s.clock + 1 } := ⟨rfl, rfl, rfl, rfl, id, rfl, rfl, rfl⟩
      exact (hclock.trans hset).trans (resent_segment _ _).holds
    · exact .refl ..
  · unfold receiveSynRcvd
    split
    · exact holds_set _ rfl rfl rfl rfl id
    · exact .refl ..
  · obtain ⟨hs, hr, hn, ht, ha⟩ := acked_buffers (s.conns i) hdr
    obtain ⟨-, -, he⟩ | ⟨-, t, hstored, he⟩ := receiveEstablished_cases s env i hdr payload
    · rw [he]
      exact hack (holds_set _ hs hr hn ht (ha ▸ id))
    · have hmid : Holds i s t := by
        rcases hstored with ⟨-, rfl⟩ | ⟨-, rfl⟩
        · exact holds_set _ hs hr hn ht (ha ▸ id)
        · obtain ⟨hs', hr', hn', ht', ha'⟩ := storePayload_buffers (acked (s.conns i) hdr) payload
          exact hack (holds_set _ (hs'.trans hs) (hr'.trans hr) (hn'.trans hn) (ht'.trans ht)
            ((ha'.trans ha) ▸ id))
      rw [he]
      split
      · obtain ⟨-, hf⟩ | ⟨-, hf⟩ := receiveFin_cases t env i (hdr.seq + BitVec.ofNat 32 payload.length)
        · rw [hf]
          exact hack hmid
        · rw [hf]
          exact hack (hmid.trans (holds_set _ rfl rfl rfl rfl id))
      · exact hmid
  · unfold receiveFinWait1 receiveLateFin
    split
    · have hset := @holds_set s i { s.conns i with sndUna := hdr.ack } rfl rfl rfl rfl id
      simp only
      split
      · exact hack (hset.trans (holds_set _ rfl rfl rfl rfl id))
      · exact hset.trans (holds_set _ rfl rfl rfl rfl id)
    · exact .refl ..
  · unfold receiveLateFin
    split
    · exact hack (holds_set _ rfl rfl rfl rfl id)
    · exact .refl ..
  · split
    · exact holds_set _ rfl rfl rfl rfl (fun h => nomatch h)
    · exact .refl ..
  · exact holds_set _ rfl rfl rfl rfl (fun h => nomatch h)
  · exact .refl ..

/-- A read of an active connection with unread bytes takes them from the front; any other
read leaves the table as it is. -/
theorem tcpRecv_cases (s : TcpTable) (env : TcpEnv) (i : ConnSlot) (len : Nat) :
    (∃ r, s.tcpRecv env i len = ((r, []), s) ∧
      ((s.conns i).active = false ∨ (s.conns i).recvLen = 0 ∨ (s.conns i).recvBuf = none)) ∨
    ((s.conns i).active = true ∧ (s.conns i).recvLen ≠ 0 ∧ (s.conns i).recvBuf.isSome = true ∧
      ∃ avail, avail = min (s.conns i).recvLen len ∧
      ∃ c : TcpConnection, c = { s.conns i with
        recvHead := if (s.conns i).recvLen - avail = 0 then 0 else (s.conns i).recvHead + avail
        recvLen := (s.conns i).recvLen - avail
        returned := (s.conns i).returned ++ (s.conns i).buffered.take avail } ∧
      s.tcpRecv env i len = (((avail : Int), (s.conns i).buffered.take avail),
        if (s.conns i).state = .established then (s.setConn i c).sendAck env i else s.setConn i c)) := by
  unfold tcpRecv
  simp only
  by_cases hactive : (s.conns i).active
  · rw [if_neg (by simp [hactive])]
    by_cases hempty : (s.conns i).recvLen = 0 ∨ (s.conns i).recvBuf.isNone
    · rw [if_pos hempty]
      have hnone := hempty.imp_right Option.isNone_iff_eq_none.mp
      left
      split <;> exact ⟨_, rfl, .inr hnone⟩
    · rw [if_neg hempty]
      rw [not_or] at hempty
      refine .inr ⟨hactive, hempty.1, by simpa [Option.isSome_iff_ne_none] using hempty.2, _, rfl, _, rfl, rfl⟩
  · have hfalse : (s.conns i).active = false := by simpa using hactive
    rw [if_pos (by simp [hfalse])]
    exact .inl ⟨_, rfl, .inl hfalse⟩

end CapyOS.Proofs
