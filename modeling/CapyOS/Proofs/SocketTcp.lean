import CapyOS.Proofs.TcpStream

namespace CapyOS.Proofs
open Lib TcpTable Function

/-- The states of a connection that `tcp_close` has not been called on. -/
def OpenState (st : TcpState) : Prop := st = .synSent ∨ st = .established ∨ st = .closeWait

instance (st : TcpState) : Decidable (OpenState st) := inferInstanceAs (Decidable (_ ∨ _ ∨ _))

def ClosingState (st : TcpState) : Prop := st = .finWait1 ∨ st = .finWait2 ∨ st = .lastAck ∨ st = .timeWait

def heldBy (c : TcpConnection) : List Nat := if c.active then c.sendBuf.toList ++ c.recvBuf.toList else []

/-- Every buffer allocated is freed once or held by one active connection, and one that is
being closed holds none. -/
structure HeapInv (s : TcpTable) : Prop where
  counted : ∀ b, s.freed.count b + ∑ i, (heldBy (s.conns i)).count b = if b < s.allocated then 1 else 0
  known : ∀ i, (s.conns i).active = true → OpenState (s.conns i).state ∨ ClosingState (s.conns i).state
  emptied : ∀ i, (s.conns i).active = true → ¬OpenState (s.conns i).state →
    (s.conns i).sendBuf = none ∧ (s.conns i).recvBuf = none

structure Tracked (c : TcpConnection) : Prop where
  fresh : c.state = .synSent → c.recvLen = 0 ∧ c.returned = []
  bare : OpenState c.state → c.recvBuf = none → c.recvLen = 0
  next : c.state = .established → c.rcvNxt = c.irs + 1 + BitVec.ofNat 32 (c.returned.length + c.recvLen)
  ended : c.state = .closeWait → c.finSeq = some (c.irs + 1 + BitVec.ofNat 32 (c.returned.length + c.recvLen))

structure ConnsKept (s t : TcpTable) : Prop where
  opened : t.opened = s.opened
  serial : ∀ j, (t.conns j).serial = (s.conns j).serial
  active : ∀ j, (t.conns j).active = true → (s.conns j).active = true
  open' : ∀ j, (s.conns j).active = true → OpenState (s.conns j).state →
    (t.conns j).active = true ∧ OpenState (t.conns j).state ∧ ((s.conns j).state ≠ .synSent → (t.conns j).state ≠ .synSent)
  stays : ∀ j, (t.conns j).active = true → OpenState (t.conns j).state → OpenState (s.conns j).state
  heap : HeapInv s → HeapInv t
  tracked : (∀ j, (s.conns j).active = true → Tracked (s.conns j)) → ∀ j, (t.conns j).active = true → Tracked (t.conns j)

variable {s t u : TcpTable} {env : TcpEnv} {i j : ConnSlot} {c : TcpConnection}

theorem ConnsKept.refl (s : TcpTable) : ConnsKept s s :=
  ⟨rfl, fun _ => rfl, fun _ h => h, fun _ ha ho => ⟨ha, ho, id⟩, fun _ _ h => h, id, id⟩

theorem ConnsKept.trans (h : ConnsKept s t) (h' : ConnsKept t u) : ConnsKept s u := by
  refine ⟨h'.opened.trans h.opened, fun j => (h'.serial j).trans (h.serial j), fun j ha => h.active j (h'.active j ha),
    fun j ha ho => ?_, fun j ha ho => h.stays j (h'.active j ha) (h'.stays j ha ho), h'.heap ∘ h.heap, h'.tracked ∘ h.tracked⟩
  obtain ⟨ha', ho', hs'⟩ := h.open' j ha ho
  obtain ⟨ha'', ho'', hs''⟩ := h'.open' j ha' ho'
  exact ⟨ha'', ho'', hs'' ∘ hs'⟩

theorem sum_change {f g : ConnSlot → Nat} (h : ∀ j, j ≠ i → g j = f j) : ∑ j, g j + f i = ∑ j, f j + g i := by
  have hg := Finset.add_sum_erase Finset.univ g (Finset.mem_univ i)
  have hf := Finset.add_sum_erase Finset.univ f (Finset.mem_univ i)
  have hrest : ∑ j ∈ Finset.univ.erase i, g j = ∑ j ∈ Finset.univ.erase i, f j :=
    Finset.sum_congr rfl fun j hj => h j (Finset.ne_of_mem_erase hj)
  omega

/-- The heap stays in order when no place changes what it holds. -/
theorem HeapInv.same (h : HeapInv s) (hheld : ∀ j, heldBy (t.conns j) = heldBy (s.conns j)) (hf : t.freed = s.freed)
    (ha : t.allocated = s.allocated) (hstates : ∀ j, (t.conns j).active = true →
      OpenState (t.conns j).state ∨ ClosingState (t.conns j).state ∧ heldBy (t.conns j) = []) : HeapInv t := by
  refine ⟨fun b => ?_, fun j hj => (hstates j hj).imp_right And.left, fun j hj ho => ?_⟩
  · simp only [hheld, hf, ha]
    exact h.counted b
  · have hnone := ((hstates j hj).resolve_left ho).2
    simpa [heldBy, hj] using hnone

structure SameHold (c c' : TcpConnection) : Prop where
  active : c'.active = c.active
  state : c'.state = c.state
  serial : c'.serial = c.serial
  sendBuf : c'.sendBuf = c.sendBuf
  recvBuf : c'.recvBuf = c.recvBuf

theorem connsKept_same (hother : ∀ j, j ≠ i → t.conns j = s.conns j) (hc : SameHold (s.conns i) (t.conns i))
    (ho : t.opened = s.opened) (hf : t.freed = s.freed) (ha : t.allocated = s.allocated)
    (htracked : Tracked (s.conns i) → Tracked (t.conns i)) : ConnsKept s t := by
  have hsame (j : ConnSlot) : SameHold (s.conns j) (t.conns j) := by
    by_cases hj : j = i
    · subst hj
      exact hc
    · rw [hother j hj]
      exact ⟨rfl, rfl, rfl, rfl, rfl⟩
  have hheld (j : ConnSlot) : heldBy (t.conns j) = heldBy (s.conns j) := by
    unfold heldBy
    rw [(hsame j).active, (hsame j).sendBuf, (hsame j).recvBuf]
  refine ⟨ho, fun j => (hsame j).serial, fun j h => (hsame j).active ▸ h, fun j h hst => ?_, fun j _ h => (hsame j).state ▸ h,
    fun h => h.same hheld hf ha fun j hj => ?_, fun h j hj => ?_⟩
  · rw [(hsame j).active, (hsame j).state]
    exact ⟨h, hst, id⟩
  · rw [(hsame j).active] at hj
    rw [(hsame j).state]
    by_cases hst : OpenState (s.conns j).state
    · exact .inl hst
    · refine .inr ⟨(h.known j hj).resolve_left hst, ?_⟩
      rw [hheld j]
      obtain ⟨hs, hr⟩ := h.emptied j hj hst
      simp [heldBy, hs, hr]
  · by_cases hji : j = i
    · subst hji
      exact htracked (h j ((hsame j).active ▸ hj))
    · rw [hother j hji]
      exact h j ((hsame j).active ▸ hj)

theorem Resent.connsKept (h : Resent i s t) : ConnsKept s t := by
  obtain ⟨n, hn⟩ := h.self
  refine connsKept_same (fun j hj => h.other hj) ?_ h.opened h.freed h.allocated ?_
  · rw [hn]
    exact ⟨rfl, rfl, rfl, rfl, rfl⟩
  · intro htr
    rw [hn]
    exact { htr with }

theorem recv_connsKept (len : Nat) : ConnsKept s (s.tcpRecv env i len).2 := by
  obtain ⟨r, he, -⟩ | ⟨-, hne, -, avail, ha, c, hc, he⟩ := tcpRecv_cases s env i len
  · rw [he]
    exact .refl s
  · have hself : ConnsKept s (s.setConn i c) := by
      refine @connsKept_same s (s.setConn i c) i (fun j hj => setConn_other c hj) ?_ rfl rfl rfl ?_
      · rw [setConn_self, hc]
        exact ⟨rfl, rfl, rfl, rfl, rfl⟩
      · intro htr
        have hsum : ((s.conns i).returned ++ (s.conns i).buffered.take avail).length + ((s.conns i).recvLen - avail) =
            (s.conns i).returned.length + (s.conns i).recvLen := by
          simp [TcpConnection.buffered]
          omega
        rw [setConn_self, hc]
        refine ⟨fun hs => absurd (htr.fresh hs).1 hne, fun ho hb => ?_, fun hs => ?_, fun hs => ?_⟩
        · have := htr.bare ho hb
          show (s.conns i).recvLen - avail = 0
          omega
        · simp only [hsum]
          exact htr.next hs
        · simp only [hsum]
          exact htr.ended hs
    rw [he]
    simp only
    split
    · exact hself.trans (resent_segment _ _).connsKept
    · exact hself

theorem acked_tracked (hdr : TcpHeader) (h : Tracked c) : Tracked (acked c hdr) := by
  unfold acked
  split
  · exact { h with }
  · exact h

theorem storePayload_tracked (payload : List Byte) (hstate : c.state = .established) (h : Tracked c) :
    Tracked (c.storePayload payload) ∧ (c.storePayload payload).state = .established ∧
      (c.storePayload payload).active = c.active := by
  obtain he | ⟨hbuf, -, d, he, -⟩ := storePayload_cases c payload
  · rw [he]
    exact ⟨h, hstate, rfl⟩
  · rw [he]
    refine ⟨⟨fun hs => ?_, fun _ hb => ?_, fun _ => ?_, fun hs => ?_⟩, hstate, rfl⟩
    · rw [hstate] at hs
      cases hs
    · rw [show c.recvBuf = none from hb] at hbuf
      cases hbuf
    · simp only
      rw [h.next hstate, ← Nat.add_assoc, BitVec.ofNat_add (c.returned.length + c.recvLen)]
      simp [BitVec.add_assoc]
    · rw [hstate] at hs
      cases hs

theorem receive_open (srcIp : Ipv4Addr) (hdr : TcpHeader) (payload : List Byte) (hrst : hdr.flags.rst = false)
    (ho : OpenState (s.conns i).state) :
    let c' := (s.receiveOn env i srcIp hdr payload).conns i
    c'.active = (s.conns i).active ∧ OpenState c'.state ∧ ((s.conns i).state ≠ .synSent → c'.state ≠ .synSent) ∧
      (Tracked (s.conns i) → Tracked c') := by
  have hnot : ¬hdr.flags.rst = true := by simp [hrst]
  unfold receiveOn
  rw [if_neg hnot]
  rcases ho with hst | hst | hst
  · simp only [hst, receiveSynSent]
    split
    · rw [sendAck_conns, setConn_self]
      refine ⟨rfl, .inr (.inl rfl), fun h => absurd rfl h, fun h => ?_⟩
      obtain ⟨hlen, hret⟩ := h.fresh hst
      refine ⟨(fun h => by cases h), fun _ _ => hlen, fun _ => ?_, fun h => by cases h⟩
      simp [hlen, hret]
    · exact ⟨rfl, .inl hst, fun h => absurd rfl h, id⟩
  · have hacked : (acked (s.conns i) hdr).state = .established := by
      unfold acked
      split <;> exact hst
    have hact := (acked_buffers (s.conns i) hdr).2.2.2.2
    simp only [hst]
    obtain ⟨-, -, he⟩ | ⟨-, t, ht, he⟩ := receiveEstablished_cases s env i hdr payload
    · rw [he, sendAck_conns, setConn_self]
      exact ⟨hact, .inr (.inl hacked), fun _ => by simp [hacked], acked_tracked hdr⟩
    have hmid : (t.conns i).active = (s.conns i).active ∧ (t.conns i).state = .established ∧
        (Tracked (s.conns i) → Tracked (t.conns i)) := by
      rcases ht with ⟨-, rfl⟩ | ⟨-, rfl⟩
      · rw [setConn_self]
        exact ⟨hact, hacked, acked_tracked hdr⟩
      · rw [sendAck_conns, setConn_self]
        refine ⟨(storePayload_buffers _ payload).2.2.2.2.trans hact, ?_, fun h =>
          (storePayload_tracked payload hacked (acked_tracked hdr h)).1⟩
        obtain hs | ⟨-, -, d, hs, -⟩ := storePayload_cases (acked (s.conns i) hdr) payload
        · rw [hs]
          exact hacked
        · rw [hs]
          exact hacked
    have hopen : (t.conns i).active = (s.conns i).active ∧ OpenState (t.conns i).state ∧
        (TcpState.established ≠ .synSent → (t.conns i).state ≠ .synSent) ∧ (Tracked (s.conns i) → Tracked (t.conns i)) :=
      ⟨hmid.1, .inr (.inl hmid.2.1), fun _ => by simp [hmid.2.1], hmid.2.2⟩
    rw [he]
    split
    · obtain ⟨-, hf⟩ | ⟨hnxt, hf⟩ := receiveFin_cases t env i (hdr.seq + BitVec.ofNat 32 payload.length)
      · rw [hf, sendAck_conns]
        exact hopen
      · rw [hf, sendAck_conns, setConn_self]
        refine ⟨hmid.1, .inr (.inr rfl), fun _ => by simp, fun h => ?_⟩
        have htr := hmid.2.2 h
        refine ⟨(fun h => by cases h), fun _ hb => htr.bare hopen.2.1 hb, (fun h => by cases h), fun _ => ?_⟩
        simp only [hnxt]
        rw [htr.next hmid.2.1]
    · exact hopen
  · simp only [hst]
    exact ⟨trivial, .inr (.inr rfl), fun _ => by simp, id⟩

theorem receive_closing (srcIp : Ipv4Addr) (hdr : TcpHeader) (payload : List Byte) (hc : ClosingState (s.conns i).state) :
    ClosingState ((s.receiveOn env i srcIp hdr payload).conns i).state ∨
      ((s.receiveOn env i srcIp hdr payload).conns i).state = .closed ∧
        ((s.receiveOn env i srcIp hdr payload).conns i).active = false := by
  by_cases hrst : hdr.flags.rst
  · right
    simp [receiveOn, hrst, tearDown]
  have hmoves := @receive_moves s env i srcIp hdr payload (by simpa using hrst)
  unfold SegmentMoves at hmoves
  unfold ClosingState at hc ⊢
  rcases hc with hst | hst | hst | hst
  · simp only [hst] at hmoves
    split at hmoves
    · tauto
    · rw [hmoves]
      exact .inl (.inl hst)
  · simp only [hst] at hmoves
    rcases hmoves with h | h
    · rw [h]
      exact .inl (.inr (.inl hst))
    · exact .inl (.inr (.inr (.inr h)))
  · simp only [hst] at hmoves
    split at hmoves
    · exact .inr hmoves
    · rw [hmoves]
      exact .inl (.inr (.inr (.inl hst)))
  · simp only [hst] at hmoves
    exact .inr hmoves

def ResetsOpen (s : TcpTable) (srcIp dstIp : Ipv4Addr) (bytes : List Byte) : Prop :=
  ∃ i, s.receiver srcIp dstIp bytes = some i ∧ (TcpHeader.read bytes).flags.rst = true ∧ OpenState (s.conns i).state

theorem not_open_of_closing {st : TcpState} (h : ClosingState st) : ¬OpenState st := by
  rcases h with rfl | rfl | rfl | rfl <;> decide

theorem segment_connsKept (hinv : HeapInv s) (srcIp dstIp : Ipv4Addr) (bytes : List Byte)
    (hok : ¬ResetsOpen s srcIp dstIp bytes) : ConnsKept s (s.tcpReceiveSegment env srcIp dstIp bytes) := by
  unfold tcpReceiveSegment
  simp only
  split
  · exact .refl s
  rename_i i hi
  have hact : (s.conns i).active = true := (findConn_active (receiver_some hi).2).1
  have hhold := @holds_receive s env i srcIp (TcpHeader.read bytes) (bytes.drop (TcpHeader.read bytes).dataOff)
  have hother {j : ConnSlot} (hj : j ≠ i) :=
    @receiveOn_other s env i j srcIp (TcpHeader.read bytes) (bytes.drop (TcpHeader.read bytes).dataOff) hj
  have hopen (ho : OpenState (s.conns i).state) := @receive_open s env i srcIp (TcpHeader.read bytes)
    (bytes.drop (TcpHeader.read bytes).dataOff) (by
      by_contra h
      exact hok ⟨i, hi, by simpa using h, ho⟩) ho
  have hclosing (hc : ClosingState (s.conns i).state) := @receive_closing s env i srcIp (TcpHeader.read bytes)
    (bytes.drop (TcpHeader.read bytes).dataOff) hc
  generalize s.receiveOn env i srcIp (TcpHeader.read bytes) (bytes.drop (TcpHeader.read bytes).dataOff) = t at *
  -- only an open connection holds buffers, and it stays active
  have hheld (j : ConnSlot) : heldBy (t.conns j) = heldBy (s.conns j) := by
    by_cases hj : j = i
    · subst hj
      unfold heldBy
      rw [hhold.sendBuf, hhold.recvBuf]
      by_cases ho : OpenState (s.conns j).state
      · rw [(hopen ho).1]
      · obtain ⟨hs, hr⟩ := hinv.emptied j hact ho
        simp [hs, hr]
    · rw [hother hj]
  have hstate (j : ConnSlot) (hj : (t.conns j).active = true) (hc : ¬OpenState (s.conns j).state) :
      ClosingState (t.conns j).state := by
    by_cases hji : j = i
    · subst hji
      refine (hclosing ((hinv.known j hact).resolve_left hc)).resolve_right fun h => ?_
      rw [h.2] at hj
      cases hj
    · rw [hother hji] at hj ⊢
      exact (hinv.known j hj).resolve_left hc
  refine ⟨hhold.opened, fun j => ?_, fun j ha => ?_, fun j ha ho => ?_, fun j ha ho => ?_,
    fun h => h.same hheld hhold.freed hhold.allocated fun j ha => ?_, fun h j ha => ?_⟩
  · by_cases hj : j = i
    · subst hj
      exact hhold.serial
    · rw [hother hj]
  · by_cases hj : j = i
    · subst hj
      exact hact
    · rwa [hother hj] at ha
  · by_cases hj : j = i
    · subst hj
      obtain ⟨h1, h2, h3, -⟩ := hopen ho
      exact ⟨h1.trans ha, h2, h3⟩
    · rw [hother hj]
      exact ⟨ha, ho, id⟩
  · by_contra hc
    exact not_open_of_closing (hstate j ha hc) ho
  · by_cases ho : OpenState (s.conns j).state
    · left
      by_cases hj : j = i
      · subst hj
        exact (hopen ho).2.1
      · rwa [hother hj]
    · refine .inr ⟨hstate j ha ho, ?_⟩
      have hs : (s.conns j).active = true := by
        by_cases hj : j = i
        · subst hj
          exact hact
        · rwa [hother hj] at ha
      obtain ⟨hsend, hrecv⟩ := h.emptied j hs ho
      rw [hheld]
      simp [heldBy, hsend, hrecv]
  · by_cases hj : j = i
    · subst hj
      by_cases ho : OpenState (s.conns j).state
      · exact (hopen ho).2.2.2 (h j hact)
      · have hc := hstate j ha ho
        have hno := not_open_of_closing hc
        exact ⟨fun hs => absurd (.inl hs) hno, fun ho' => absurd ho' hno, fun hs => absurd (.inr (.inl hs)) hno,
          fun hs => absurd (.inr (.inr hs)) hno⟩
    · rw [hother hj] at ha ⊢
      exact h j ha

structure TcpSound (s : TcpTable) : Prop where
  heap : HeapInv s
  tracked : ∀ i, (s.conns i).active = true → Tracked (s.conns i)
  numbered : ∀ i, (s.conns i).active = true → (s.conns i).serial < s.opened
  serials : ∀ i j, (s.conns i).active = true → (s.conns j).active = true → (s.conns i).serial = (s.conns j).serial → i = j

theorem TcpSound.kept (h : TcpSound s) (hk : ConnsKept s t) : TcpSound t := by
  refine ⟨hk.heap h.heap, hk.tracked h.tracked, fun i hi => ?_, fun i j hi hj he => ?_⟩
  · rw [hk.serial, hk.opened]
    exact h.numbered i (hk.active i hi)
  · rw [hk.serial, hk.serial] at he
    exact h.serials i j (hk.active i hi) (hk.active j hj) he

theorem tracked_closing (hc : ¬OpenState c.state) : Tracked c :=
  ⟨fun hs => absurd (.inl hs) hc, fun ho => absurd ho hc, fun hs => absurd (.inr (.inl hs)) hc,
    fun hs => absurd (.inr (.inr hs)) hc⟩

theorem close_sound (h : TcpSound s) : TcpSound (s.tcpClose env i).2 := by
  obtain ⟨-, he⟩ | ⟨hact, c, t, he, hconns, hs, hr, hserial, -, hstate, hactive, hfreed, halloc, hopened, -⟩ :=
    tcpClose_cases s env i
  · rw [he]
    exact h
  rw [he]
  show TcpSound t
  have hself : t.conns i = c := by rw [hconns, update_self]
  have hother (j : ConnSlot) (hj : j ≠ i) : t.conns j = s.conns j := by rw [hconns, update_of_ne hj]
  have hclosing : c.active = true → ClosingState c.state := by
    intro ha
    rw [hactive] at ha
    split at ha
    · rename_i ho
      rw [hstate]
      rcases ho with ho | ho
      · rw [ho]
        exact .inl rfl
      · rw [ho]
        exact .inr (.inr (.inl rfl))
    · cases ha
  have hbefore (j : ConnSlot) (hj : (t.conns j).active = true) : (s.conns j).active = true := by
    by_cases hji : j = i
    · rwa [hji]
    · rwa [hother j hji] at hj
  have hsame (j : ConnSlot) : (t.conns j).serial = (s.conns j).serial := by
    by_cases hji : j = i
    · rw [hji, hself, hserial]
    · rw [hother j hji]
  refine ⟨⟨fun b => ?_, fun j hj => ?_, fun j hj ho => ?_⟩, fun j hj => ?_, fun j hj => ?_, fun j k hj hk hjk => ?_⟩
  · have hsum := @sum_change i (fun j => (heldBy (s.conns j)).count b) (fun j => (heldBy (t.conns j)).count b)
      (fun j hj => by rw [hother j hj])
    have hnew : heldBy (t.conns i) = [] := by
      unfold heldBy
      rw [hself, hs, hr]
      simp
    have hold : heldBy (s.conns i) = (s.conns i).sendBuf.toList ++ (s.conns i).recvBuf.toList := by
      unfold heldBy
      rw [if_pos hact]
    have hc := h.heap.counted b
    rw [hfreed, halloc, List.count_append, ← hold, ← hc]
    simp only [hnew, List.count_nil] at hsum
    omega
  · by_cases hji : j = i
    · rw [hji, hself] at hj ⊢
      exact .inr (hclosing hj)
    · rw [hother j hji] at hj ⊢
      exact h.heap.known j hj
  · by_cases hji : j = i
    · rw [hji, hself]
      exact ⟨hs, hr⟩
    · rw [hother j hji] at hj ho ⊢
      exact h.heap.emptied j hj ho
  · by_cases hji : j = i
    · rw [hji, hself] at hj ⊢
      exact tracked_closing (not_open_of_closing (hclosing hj))
    · rw [hother j hji] at hj ⊢
      exact h.tracked j hj
  · rw [hsame, hopened]
    exact h.numbered j (hbefore j hj)
  · rw [hsame, hsame] at hjk
    exact h.serials j k (hbefore j hj) (hbefore k hk) hjk

/-- What `tcp_open` makes: a connection at a free place, with the next serial number. -/
structure OpenedAt (s t : TcpTable) (i : ConnSlot) : Prop where
  free : (s.conns i).active = false
  active : (t.conns i).active = true
  state : (t.conns i).state = .synSent
  serial : (t.conns i).serial = s.opened
  opened : t.opened = s.opened + 1
  other : ∀ j, j ≠ i → t.conns j = s.conns j
  sent : SentOn i s t

theorem open_sound (h : TcpSound s) (localIp : Ipv4Addr) (localPort : Port) (remoteIp : Ipv4Addr) (remotePort : Port)
    (fd : Nat) {r : Option ConnSlot} (he : s.tcpOpen env localIp localPort remoteIp remotePort fd = (r, t)) :
    (r = none ∧ t = s) ∨ ∃ i, r = some i ∧ OpenedAt s t i ∧ TcpSound t := by
  obtain h' | ⟨i, c, t', h', hfree, hconns, hact, hstate, hlen, -, hserial, hret, -, hopened, hfreed, ⟨n, halloc, hbufs⟩, hsent⟩ :=
    tcpOpen_cases s env localIp localPort remoteIp remotePort fd
  · rw [h'] at he
    cases he
    exact .inl ⟨rfl, rfl⟩
  rw [h'] at he
  cases he
  right
  have hself : t.conns i = c := by rw [hconns, update_self]
  have hother (j : ConnSlot) (hj : j ≠ i) : t.conns j = s.conns j := by rw [hconns, update_of_ne hj]
  have hopen : OpenState c.state := .inl hstate
  refine ⟨i, rfl, ⟨hfree, hself ▸ hact, hself ▸ hstate, hself ▸ hserial, hopened, hother, hsent⟩,
    ⟨fun b => ?_, fun j hj => ?_, fun j hj ho => ?_⟩, fun j hj => ?_, fun j hj => ?_, fun j k hj hk hjk => ?_⟩
  · have hsum := @sum_change i (fun j => (heldBy (s.conns j)).count b) (fun j => (heldBy (t.conns j)).count b)
      (fun j hj => by rw [hother j hj])
    have hnew : heldBy (t.conns i) = List.range' s.allocated n := by
      unfold heldBy
      rw [hself, if_pos hact, hbufs]
    have hold : heldBy (s.conns i) = [] := by
      unfold heldBy
      rw [hfree]
      rfl
    have hcount : (List.range' s.allocated n).count b = if s.allocated ≤ b ∧ b < s.allocated + n then 1 else 0 :=
      List.count_range_1'
    have hc := h.heap.counted b
    rw [hfreed, halloc]
    simp only [hnew, hold, List.count_nil, hcount] at hsum
    split at hc <;> split at hsum <;> split <;> omega
  · by_cases hji : j = i
    · rw [hji, hself]
      exact .inl hopen
    · rw [hother j hji] at hj ⊢
      exact h.heap.known j hj
  · by_cases hji : j = i
    · rw [hji, hself] at ho
      exact absurd hopen ho
    · rw [hother j hji] at hj ho ⊢
      exact h.heap.emptied j hj ho
  · by_cases hji : j = i
    · rw [hji, hself]
      refine ⟨fun _ => ⟨hlen, hret⟩, fun _ _ => hlen, fun hs => ?_, fun hs => ?_⟩
      · rw [hstate] at hs
        cases hs
      · rw [hstate] at hs
        cases hs
    · rw [hother j hji] at hj ⊢
      exact h.tracked j hj
  · rw [hopened]
    by_cases hji : j = i
    · rw [hji, hself, hserial]
      exact Nat.lt_succ_self _
    · rw [hother j hji] at hj ⊢
      exact Nat.lt_succ_of_lt (h.numbered j hj)
  · by_cases hji : j = i
    · by_cases hki : k = i
      · rw [hji, hki]
      · rw [hji, hself, hserial, hother k hki] at hjk
        rw [hother k hki] at hk
        exact absurd hjk (Nat.ne_of_gt (h.numbered k hk))
    · by_cases hki : k = i
      · rw [hki, hself, hserial, hother j hji] at hjk
        rw [hother j hji] at hj
        exact absurd hjk (Nat.ne_of_lt (h.numbered j hj))
      · rw [hother j hji, hother k hki] at hjk
        rw [hother j hji] at hj
        rw [hother k hki] at hk
        exact h.serials j k hj hk hjk

theorem timerTick_connsKept : ConnsKept s s.tcpTimerTick := by
  have hcases (j : ConnSlot) : s.tcpTimerTick.conns j = s.conns j ∨ (s.conns j).state = .timeWait ∧ (s.conns j).active = true ∧
      s.tcpTimerTick.conns j = { s.conns j with active := false, state := .closed } := by
    unfold tcpTimerTick
    simp only
    split
    · rename_i h
      exact .inr ⟨h.2, h.1, rfl⟩
    · exact .inl rfl
  have htw : ¬OpenState .timeWait := by decide
  refine ⟨rfl, fun j => ?_, fun j ha => ?_, fun j ha ho => ?_, fun j ha ho => ?_,
    fun h => h.same (fun j => ?_) rfl rfl fun j ha => ?_, fun h j ha => ?_⟩ <;>
    obtain he | ⟨hst, hact, he⟩ := hcases j
  · rw [he]
  · rw [he]
  · rwa [he] at ha
  · exact hact
  · rw [he]
    exact ⟨ha, ho, id⟩
  · rw [hst] at ho
    exact absurd ho htw
  · rwa [he] at ho
  · rw [he] at ha
    cases ha
  · rw [he]
  · obtain ⟨hs, hr⟩ := h.emptied j hact (by rw [hst]; exact htw)
    rw [he]
    simp [heldBy, hs, hr]
  · rw [he] at ha ⊢
    by_cases ho : OpenState (s.conns j).state
    · exact .inl ho
    · obtain ⟨hs, hr⟩ := h.emptied j ha ho
      exact .inr ⟨(h.known j ha).resolve_left ho, by simp [heldBy, hs, hr]⟩
  · rw [he] at ha
    cases ha
  · rw [he] at ha ⊢
    exact h j ha
  · rw [he] at ha
    cases ha

end CapyOS.Proofs
