import CapyOS.Proofs.Sockets

namespace CapyOS.Proofs
open Lib TcpTable SocketTable Function

/-- The bytes handed out of each connection, by its serial number, after an operation: a call
that ends with it adds its own. -/
def handed (env : SocketEnv) (s : SocketTable) (given : Nat → List Byte) : SocketOp → Nat → List Byte
  | .turn fd =>
    match (s.socketTurn env fd).1 with
    | none => given
    | some (_, bytes) =>
      let n := (s.tcp.conns (s.sockets fd).protocolData).serial
      update given n (given n ++ bytes)
  | _ => given

/-- Runs of the socket table with a record of what its calls have handed out. -/
inductive SocketRecord (env : SocketEnv) (P : SocketTable → SocketOp → Prop) :
    SocketTable → (Nat → List Byte) → Prop where
  | init : SocketRecord env P .socketSystemInit fun _ => []
  | step {s : SocketTable} {given : Nat → List Byte} (op : SocketOp) (hp : P s op)
      (h : SocketRecord env P s given) : SocketRecord env P (socketStep env s op) (handed env s given op)

/-- What calls handed out of a connection is what `tcp_recv` took out of its buffer. -/
structure Recorded (given : Nat → List Byte) (t : TcpTable) : Prop where
  held : ∀ j, (t.conns j).active = true → given (t.conns j).serial = (t.conns j).returned
  fresh : ∀ n, t.opened ≤ n → given n = []

/-- Nothing is taken out of a buffer between two tables; connections may be opened. -/
structure Unread (s t : TcpTable) : Prop where
  opened : s.opened ≤ t.opened
  conns : ∀ j, (t.conns j).active = true →
    ((s.conns j).active = true ∧ (t.conns j).serial = (s.conns j).serial ∧
      (t.conns j).returned = (s.conns j).returned) ∨
    ((t.conns j).serial = s.opened ∧ (t.conns j).returned = [])

section
variable {s t u : TcpTable} {env : TcpEnv} {i : ConnSlot} {given : Nat → List Byte}

theorem Unread.refl (s : TcpTable) : Unread s s := ⟨Nat.le_refl _, fun _ ha => .inl ⟨ha, rfl, rfl⟩⟩

/-- A step that changes one connection and keeps its number and what was returned of it. -/
theorem unread_one (hopened : t.opened = s.opened) (hother : ∀ j, j ≠ i → t.conns j = s.conns j)
    (hactive : (t.conns i).active = true → (s.conns i).active = true)
    (hserial : (t.conns i).serial = (s.conns i).serial)
    (hreturned : (t.conns i).returned = (s.conns i).returned) : Unread s t := by
  refine ⟨Nat.le_of_eq hopened.symm, fun j ha => .inl ?_⟩
  by_cases hj : j = i
  · rw [hj] at ha ⊢
    exact ⟨hactive ha, hserial, hreturned⟩
  · rw [hother j hj] at ha ⊢
    exact ⟨ha, rfl, rfl⟩

theorem Resent.unread (h : Resent i s t) : Unread s t :=
  unread_one h.opened (fun _ hj => h.other hj) h.holds.active h.holds.serial h.holds.returned

theorem close_unread : Unread s (s.tcpClose env i).2 := by
  obtain ⟨-, he⟩ | ⟨hact, c, t, he, hconns, -, -, hserial, hreturned, -, -, -, -, hopened, -⟩ :=
    tcpClose_cases s env i
  · rw [he]
    exact .refl s
  · rw [he]
    have hself : t.conns i = c := by rw [hconns, update_self]
    refine unread_one hopened (fun j hj => ?_) (fun _ => hact) ?_ ?_
    · rw [hconns, update_of_ne hj]
    · rw [hself, hserial]
    · rw [hself, hreturned]

theorem open_unread {localIp remoteIp : Ipv4Addr} {localPort remotePort : Port} {fd : Nat} {conn : Option ConnSlot}
    (he : s.tcpOpen env localIp localPort remoteIp remotePort fd = (conn, t)) : Unread s t := by
  obtain h | ⟨i, c, u, h, -, hconns, -, -, -, -, hserial, hreturned, -, hopened, -⟩ :=
    tcpOpen_cases s env localIp localPort remoteIp remotePort fd
  · cases he.symm.trans h
    exact .refl s
  · cases he.symm.trans h
    refine ⟨by rw [hopened]; exact Nat.le_succ _, fun j ha => ?_⟩
    by_cases hj : j = i
    · rw [hj, hconns, update_self]
      exact .inr ⟨hserial, hreturned⟩
    · rw [hconns, update_of_ne hj] at ha ⊢
      exact .inl ⟨ha, rfl, rfl⟩

theorem segment_unread (srcIp dstIp : Ipv4Addr) (bytes : List Byte) :
    Unread s (s.tcpReceiveSegment env srcIp dstIp bytes) := by
  unfold tcpReceiveSegment
  simp only
  split
  · exact .refl s
  · rename_i i hi
    have hhold := @holds_receive s env i srcIp (TcpHeader.read bytes) (bytes.drop (TcpHeader.read bytes).dataOff)
    exact unread_one hhold.opened (fun j hj => receiveOn_other _ _ _ hj) hhold.active hhold.serial hhold.returned

theorem timerTick_unread : Unread s s.tcpTimerTick := by
  refine ⟨Nat.le_refl _, fun j ha => .inl ?_⟩
  unfold tcpTimerTick at ha ⊢
  simp only at ha ⊢
  split at ha
  · cases ha
  · rename_i hj
    rw [if_neg hj]
    exact ⟨ha, rfl, rfl⟩

theorem Recorded.unread (h : Recorded given s) (hu : Unread s t) : Recorded given t := by
  refine ⟨fun j ha => ?_, fun n hn => h.fresh n (Nat.le_trans hu.opened hn)⟩
  obtain ⟨hact, hserial, hreturned⟩ | ⟨hserial, hreturned⟩ := hu.conns j ha
  · rw [hserial, hreturned]
    exact h.held j hact
  · rw [hserial, hreturned]
    exact h.fresh _ (Nat.le_refl _)

/-- A read adds to the record what it takes out of the buffer. -/
theorem Recorded.recv (h : Recorded given s) (hsound : TcpSound s) (len : Nat) :
    Recorded (update given (s.conns i).serial (given (s.conns i).serial ++ (s.tcpRecv env i len).1.2))
      (s.tcpRecv env i len).2 := by
  obtain ⟨r, he, -⟩ | ⟨hact, -, -, avail, -, c, hc, he⟩ := tcpRecv_cases s env i len
  · rw [he, List.append_nil, update_eq_self]
    exact h
  · rw [he]
    have hread : Recorded (update given (s.conns i).serial
        (given (s.conns i).serial ++ (s.conns i).buffered.take avail)) (s.setConn i c) := by
      refine ⟨fun j ha => ?_, fun n hn => ?_⟩
      · by_cases hj : j = i
        · rw [hj, setConn_self, hc]
          dsimp only
          rw [update_self, h.held i hact]
        · rw [setConn_other c hj] at ha ⊢
          have hne : (s.conns j).serial ≠ (s.conns i).serial := fun heq => hj (hsound.serials j i ha hact heq)
          rw [update_of_ne hne]
          exact h.held j ha
      · have hlt := hsound.numbered i hact
        have hn : s.opened ≤ n := hn
        rw [update_of_ne (by omega)]
        exact h.fresh n hn
    dsimp only
    split
    · exact hread.unread (resent_segment _ _).unread
    · exact hread

end

section
variable {s t : SocketTable} {env : SocketEnv} {fd : SocketFd} {tcp : TcpTable} {given : Nat → List Byte}

/-- A turn of the loop of `socket_recv` that ends without a read answers with no bytes; one that
reads answers with the bytes it read and their number. -/
theorem recvTurn_answers (conn : ConnSlot) (timeoutMs elapsed : BitVec 32) (len : Nat) :
    ((recvTurn env tcp conn timeoutMs elapsed len).2 = tcp ∧
      ∀ r bytes, (recvTurn env tcp conn timeoutMs elapsed len).1 = .inl (r, bytes) →
        bytes = [] ∧ (r = -1 ∨ r = 0)) ∨
    (recvTurn env tcp conn timeoutMs elapsed len = (.inl (tcp.tcpRecv env.tcp conn len).1,
        (tcp.tcpRecv env.tcp conn len).2) ∧
      (tcp.tcpRecv env.tcp conn len).1.1 = (tcp.tcpRecv env.tcp conn len).1.2.length) := by
  unfold recvTurn
  split
  · exact .inl ⟨rfl, fun r bytes h => by cases h; exact ⟨rfl, .inl rfl⟩⟩
  split
  · split
    · exact .inl ⟨rfl, fun r bytes h => by cases h; exact ⟨rfl, .inr rfl⟩⟩
    · exact .inl ⟨rfl, fun r bytes h => by cases h⟩
  rename_i havail
  right
  obtain ⟨r, -, hr⟩ | ⟨-, -, -, avail, ha, c, -, he⟩ := tcpRecv_cases tcp env.tcp conn len
  · refine absurd ?_ havail
    unfold tcpAvailable
    simp only
    rcases hr with hr | hr | hr
    · simp [hr]
    · simp [hr]
    · simp [hr]
  · simp only [he]
    rw [if_pos (Int.natCast_nonneg _)]
    refine ⟨rfl, ?_⟩
    rw [List.length_take, buffered_length]
    omega

theorem handed_none (h : (s.socketTurn env fd).1 = none) : handed env s given (.turn fd) = given := by
  simp only [handed, h]

theorem handed_some {r : Int} {bytes : List Byte} (h : (s.socketTurn env fd).1 = some (r, bytes)) :
    handed env s given (.turn fd) = update given (s.tcp.conns (s.sockets fd).protocolData).serial
      (given (s.tcp.conns (s.sockets fd).protocolData).serial ++ bytes) := by
  simp only [handed, h]

/-- An answer without bytes leaves the record as it is. -/
theorem handed_same (h : ∀ r bytes, (s.socketTurn env fd).1 = some (r, bytes) → bytes = []) :
    handed env s given (.turn fd) = given := by
  cases ht : (s.socketTurn env fd).1 with
  | none => exact handed_none ht
  | some a => rw [handed_some ht, h a.1 a.2 ht, List.append_nil, update_eq_self]

/-- The turn of a call that waits in `socket_recv`. -/
theorem recv_turn (env : SocketEnv) {elapsed : BitVec 32} {len : Nat} (hcall : s.calls fd = some (.recv elapsed len)) :
    (s.socketTurn env fd).1 =
        (recvTurn env s.tcp (s.sockets fd).protocolData (s.sockets fd).timeoutMs elapsed len).1.getLeft? ∧
      (s.socketTurn env fd).2.tcp =
        (recvTurn env s.tcp (s.sockets fd).protocolData (s.sockets fd).timeoutMs elapsed len).2 := by
  unfold socketTurn
  simp only [hcall]
  split
  · rename_i he
    rw [he]
    exact ⟨rfl, rfl⟩
  · rename_i he
    rw [he]
    dsimp only
    split <;> exact ⟨rfl, rfl⟩

/-- A turn of any other call answers with no bytes and reads nothing. -/
theorem other_turn (h : ∀ elapsed len, s.calls fd ≠ some (.recv elapsed len)) :
    (∀ r bytes, (s.socketTurn env fd).1 = some (r, bytes) → bytes = []) ∧
      Unread s.tcp (s.socketTurn env fd).2.tcp := by
  unfold socketTurn
  simp only
  split
  · exact ⟨fun r bytes h => (by cases h), .refl _⟩
  · rename_i w hcall
    obtain ⟨r, he, -⟩ | ⟨w', tcp', he, hres⟩ := @waitTurn_cases env s.tcp (s.sockets fd).protocolData .established
      (s.sockets fd).timeoutMs w
    · simp only [he]
      split
      · exact ⟨fun r bytes h => (by cases h; rfl), close_unread⟩
      · exact ⟨fun r bytes h => (by cases h; rfl), .refl _⟩
    · simp only [he]
      exact ⟨fun r bytes h => (by cases h), hres.unread⟩
  · rename_i w data hcall
    obtain ⟨r, he, -⟩ | ⟨w', tcp', he, hres⟩ := @waitTurn_cases env s.tcp (s.sockets fd).protocolData .established
      (s.sockets fd).timeoutMs w
    · simp only [he]
      split
      · exact ⟨fun r bytes h => (by cases h; rfl), .refl _⟩
      · exact ⟨fun r bytes h => (by cases h; rfl), (resent_send _).unread⟩
    · simp only [he]
      exact ⟨fun r bytes h => (by cases h), hres.unread⟩
  · rename_i elapsed len hcall
    exact absurd hcall (h elapsed len)

theorem turn_recorded (h : Recorded given s.tcp) (hsound : TcpSound s.tcp) :
    Recorded (handed env s given (.turn fd)) (s.socketTurn env fd).2.tcp := by
  by_cases hrecv : ∃ elapsed len, s.calls fd = some (.recv elapsed len)
  · obtain ⟨elapsed, len, hcall⟩ := hrecv
    obtain ⟨hanswer, htcp⟩ := recv_turn env hcall
    obtain ⟨hsame, hempty⟩ | ⟨hread, -⟩ := @recvTurn_answers env s.tcp (s.sockets fd).protocolData
      (s.sockets fd).timeoutMs elapsed len
    · have hbytes : ∀ r bytes, (s.socketTurn env fd).1 = some (r, bytes) → bytes = [] := by
        intro r bytes hr
        rw [hanswer, Sum.getLeft?_eq_some_iff] at hr
        exact (hempty r bytes hr).1
      rw [handed_same hbytes, htcp, hsame]
      exact h
    · rw [hread] at hanswer htcp
      rw [handed_some (r := _) hanswer, htcp]
      exact h.recv hsound len
  · obtain ⟨hbytes, hunread⟩ := @other_turn s env fd fun elapsed len hc => hrecv ⟨elapsed, len, hc⟩
    rw [handed_same hbytes]
    exact h.unread hunread

theorem connect_unread (addr : Ipv4Addr) (port : Port) :
    Unread s.tcp (s.socketConnect env fd addr port).2.tcp := by
  unfold socketConnect
  simp only
  split
  · exact .refl _
  split
  · exact .refl _
  split
  · obtain ⟨p, n, hp⟩ := local_port s env fd
    simp only [hp]
    split
    · exact .refl _
    · split
      · exact .refl _
      · rename_i conn tcp he
        exact open_unread he
  · exact .refl _

/-- An operation that ends no call of `socket_recv` reads nothing. -/
theorem step_recorded (h : Recorded given s.tcp) (hsound : TcpSound s.tcp) (op : SocketOp) :
    Recorded (handed env s given op) (socketStep env s op).tcp := by
  cases op with
  | turn fd => exact turn_recorded h hsound
  | create type =>
    refine h.unread ?_
    unfold socketStep socketCreate
    simp only
    split <;> exact .refl _
  | connect fd addr port =>
    refine h.unread ?_
    unfold socketStep
    simp only
    split
    · exact .refl _
    · exact connect_unread addr port
  | send fd data =>
    refine h.unread ?_
    unfold socketStep socketSend
    simp only
    split
    · exact .refl _
    split
    · exact .refl _
    split
    · exact .refl _
    split
    · exact ⟨Nat.le_refl _, fun _ ha => .inl ⟨ha, rfl, rfl⟩⟩
    · exact .refl _
  | recv fd len =>
    refine h.unread ?_
    unfold socketStep socketRecv
    simp only
    split
    · exact .refl _
    split
    · exact .refl _
    split
    · exact .refl _
    split <;> exact .refl _
  | close fd =>
    refine h.unread ?_
    unfold socketStep socketClose
    simp only
    split
    · exact .refl _
    split
    · exact .refl _
    · dsimp only
      rw [setSocket_tcp]
      split
      · exact close_unread
      · exact .refl _
  | segment srcIp dstIp bytes => exact h.unread (segment_unread srcIp dstIp bytes)
  | timerTick => exact h.unread timerTick_unread
  | setTimeout fd ms =>
    refine h.unread ?_
    unfold socketStep SocketTable.setTimeout
    simp only
    split <;> exact .refl _

theorem record_run {P : SocketTable → SocketOp → Prop} (h : SocketRecord env P s given) : SocketRun env P s := by
  induction h with
  | init => exact .init
  | step op hp _ ih => exact .step op hp ih

theorem record_recorded (h : SocketRecord env Unreset s given) : Recorded given s.tcp := by
  induction h with
  | init => exact ⟨fun j ha => (by cases ha), fun _ _ => rfl⟩
  | step op hp h ih => exact step_recorded ih (socketRun_inv (record_run h)).sound op

/-- While no RST ends a connection in use, `socket_recv` returns 0 for a request of some
bytes only after the peer's FIN came in sequence and all bytes before it were returned, and
what was acknowledged on a connected socket is still there to be returned. What was returned
is what the calls before handed to their callers. -/
theorem end_of_stream (h : SocketRecord env Unreset s given) (fd : SocketFd)
    (htype : (s.sockets fd).type = sockStream) (hstate : (s.sockets fd).state = .connected) :
    let c := s.tcp.conns (s.sockets fd).protocolData
    let count := (given c.serial).length
    c.active = true ∧ (c.state = .established ∨ c.state = .closeWait) ∧
      (c.state = .established → c.rcvNxt = c.irs + 1 + BitVec.ofNat 32 (count + c.recvLen)) ∧
      (c.state = .closeWait → c.finSeq = some (c.irs + 1 + BitVec.ofNat 32 (count + c.recvLen))) ∧
      ∀ elapsed len r bytes, s.calls fd = some (.recv elapsed len) →
        (s.socketTurn env fd).1 = some (r, bytes) →
        (r = -1 ∧ bytes = [] ∨ r = bytes.length) ∧
        (r = 0 → len ≠ 0 → c.state = .closeWait ∧
          c.finSeq = some (c.irs + 1 + BitVec.ofNat 32 count) ∧ c.recvLen = 0) := by
  have hinv := socketRun_inv (record_run h)
  intro c count
  have ha : Attached s.tcp (s.sockets fd) := hinv.attached fd ⟨htype, by rw [hstate]; exact (nomatch ·), .inr (.inl hstate)⟩
  have htr : Tracked c := hinv.sound.tracked _ ha.active
  have hst : c.state = .established ∨ c.state = .closeWait := ha.open'.resolve_left (ha.done hstate)
  have hcount : count = c.returned.length := congrArg List.length ((record_recorded h).held _ ha.active)
  rw [hcount]
  refine ⟨ha.active, hst, htr.next, htr.ended, fun elapsed len r bytes hcall hturn => ?_⟩
  rw [(recv_turn env hcall).1, Sum.getLeft?_eq_some_iff] at hturn
  constructor
  · obtain ⟨-, hempty⟩ | ⟨hread, hlen⟩ := @recvTurn_answers env s.tcp (s.sockets fd).protocolData
      (s.sockets fd).timeoutMs elapsed len
    · obtain ⟨rfl, rfl | rfl⟩ := hempty r bytes hturn
      · exact .inl ⟨rfl, rfl⟩
      · exact .inr rfl
    · rw [hread] at hturn
      rw [Sum.inl.inj hturn] at hlen
      exact .inr hlen
  · rintro rfl hlen
    obtain ⟨-, hzero⟩ := @recvTurn_cases env s.tcp (s.sockets fd).protocolData (s.sockets fd).timeoutMs elapsed len
    obtain ⟨-, hend, hempty⟩ := hzero bytes hturn hlen
    have hwait : c.state = .closeWait := by
      rcases hst with hst | hst
      · rw [show (s.tcp.conns (s.sockets fd).protocolData).state = .established from hst] at hend
        exact absurd hend (by decide)
      · exact hst
    -- nothing is left to read: either the count is 0 or there is no buffer
    have hnone : c.recvLen = 0 := by
      unfold tcpAvailable at hempty
      simp only [ha.active, Bool.not_true, Bool.false_eq_true, false_or] at hempty
      split at hempty
      · rename_i hb
        exact htr.bare (.inr (.inr hwait)) (by simpa using hb)
      · exact hempty
    have hfin := htr.ended hwait
    rw [hnone, Nat.add_zero] at hfin
    exact ⟨hwait, hfin, hnone⟩

/-- The record of a run of listed operations. -/
def recordAfter (env : SocketEnv) (ops : List SocketOp) : SocketTable × (Nat → List Byte) :=
  ops.foldl (fun r op => (socketStep env r.1 op, handed env r.1 r.2 op)) (.socketSystemInit, fun _ => [])

theorem record_foldl {P : SocketTable → SocketOp → Prop} {ops : List SocketOp} (hP : ∀ op ∈ ops, ∀ s, P s op)
    {r : SocketTable × (Nat → List Byte)} (h : SocketRecord env P r.1 r.2) :
    let r' := ops.foldl (fun r op => (socketStep env r.1 op, handed env r.1 r.2 op)) r
    SocketRecord env P r'.1 r'.2 := by
  induction ops generalizing r with
  | nil => exact h
  | cons op ops ih =>
    exact ih (fun op' hop => hP op' (List.mem_cons_of_mem _ hop)) (.step op (hP op List.mem_cons_self r.1) h)

end

/-- Two bytes are read, and then the end of the stream. -/
def readTwo : List SocketOp :=
  connectOne ++ [peerSegment 0x10 6 8 174 47 [65, 66], .recv 0 4, .turn 0,
    peerSegment 0x11 8 8 239 112 [], .recv 0 4]

theorem end_of_stream_fin :
    let r := recordAfter plainSocketEnv readTwo
    let c := r.1.tcp.conns (r.1.sockets 0).protocolData
    r.2 c.serial = [65, 66] ∧ (r.1.socketTurn plainSocketEnv 0).1 = some (0, []) ∧
      c.state = .closeWait ∧ c.finSeq = some (c.irs + 1 + 2) ∧ c.recvLen = 0 := by
  intro r c
  have hops : ∀ op ∈ readTwo, NoRst op := by decide +kernel
  have hrecord : SocketRecord plainSocketEnv Unreset r.1 r.2 :=
    record_foldl (fun op hop s => unreset_noRst (hops op hop) s) .init
  have hturn : (r.1.socketTurn plainSocketEnv 0).1 = some (0, []) := by decide +kernel
  have hcall : r.1.calls 0 = some (.recv 0 4) := by decide +kernel
  have hgiven : r.2 c.serial = [65, 66] := by decide +kernel
  have hend := end_of_stream hrecord 0 (by decide +kernel) (by decide +kernel)
  obtain ⟨-, hzero⟩ := hend.2.2.2.2 0 4 0 [] hcall hturn
  obtain ⟨hwait, hfin, hnone⟩ := hzero rfl (by decide)
  rw [show (r.2 (r.1.tcp.conns (r.1.sockets 0).protocolData).serial).length = 2 from congrArg List.length hgiven] at hfin
  exact ⟨hgiven, hturn, hwait, hfin, hnone⟩

/-- A RST behind two acknowledged bytes: `socket_recv` returns 0 though no FIN came and the
bytes were not returned. -/
theorem reset_ends_stream :
    let ops := connectOne ++ [peerSegment 0x10 6 8 174 47 [65, 66], .recv 0 4, peerSegment 0x04 8 0 239 133 []]
    let s := socketsAfter ops
    let c := s.tcp.conns (s.sockets 0).protocolData
    SocketRun plainSocketEnv (fun _ _ => True) s ∧ (s.socketTurn plainSocketEnv 0).1 = some (0, []) ∧
      c.finSeq = none ∧ c.returned = [] ∧ c.rcvNxt = c.irs + 3 ∧ (s.tcp.sent.map fun p => p.2.ack) = [0, 6, 8] := by
  intro ops s c
  refine ⟨socketRun_foldl (fun _ _ _ => trivial) .init, ?_, ?_, ?_, ?_, ?_⟩ <;> decide

end CapyOS.Proofs
