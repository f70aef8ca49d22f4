import CapyOS.Net.Tcp

namespace CapyOS
open Lib

/-- A place among the `SOCKET_MAX` of the socket table. -/
abbrev SocketFd := Fin 16

inductive SocketState where
  | unused | created | bound | listening | connecting | connected | closing | closed | error
  deriving DecidableEq, Repr

def sockStream : BitVec 16 := 1
def sockDgram : BitVec 16 := 2

/-- `SOCKET_EPHEMERAL_PORT_MIN`. -/
def ephemeralPortMin : Port := 49152

/-- `SOCKET_EPHEMERAL_PORT_COUNT`. -/
def ephemeralPortCount : Nat := 16384

def tcpRtoInitMs : BitVec 32 := 1000

def tcpMaxRetries : Nat := 5

/-- A `struct socket`. `protocolData` is the index that is kept in the pointer of that name,
so that 0 is also `NULL`. `opened` is not in the source: the serial numbers of the
connections that `tcp_open` returned to this socket. -/
structure Socket where
  state : SocketState
  type : BitVec 16
  localAddr : Ipv4Addr
  localPort : Port
  remoteAddr : Ipv4Addr
  remotePort : Port
  timeoutMs : BitVec 32
  error : Int
  protocolData : ConnSlot
  opened : List Nat
  deriving DecidableEq, Repr

/-- The counters of the loop of `socket_wait_for_tcp_state`. -/
structure TcpWait where
  elapsed : BitVec 32
  nextRetransmitAt : BitVec 32
  retransmitCount : Nat
  deriving DecidableEq, Repr

def TcpWait.start : TcpWait := ⟨0, tcpRtoInitMs, 0⟩

/-- A call that waits in its loop for the next turn. -/
inductive SocketCall where
  | connect (wait : TcpWait)
  | send (wait : TcpWait) (data : List Byte)
  | recv (elapsed : BitVec 32) (len : Nat)
  deriving DecidableEq, Repr

/-- The socket table over the connection table. `calls` holds what each socket's call is
waiting for: a call gives way to others only where its loop polls the network. -/
structure SocketTable where
  tcp : TcpTable
  sockets : SocketFd → Socket
  calls : SocketFd → Option SocketCall
  nextEphemeralPort : Port

/-- The address that `net_stack_status` reports and the random bytes for the first port. -/
structure SocketEnv where
  tcp : TcpEnv
  addr : Ipv4Addr
  seed : Nat → Port

def bswap16 (v : BitVec 16) : BitVec 16 := v.extractLsb' 0 8 ++ v.extractLsb' 8 8

def bswap32 (v : BitVec 32) : BitVec 32 := bswap16 (v.extractLsb' 0 16) ++ bswap16 (v.extractLsb' 16 16)

namespace SocketTable
variable (s : SocketTable) (env : SocketEnv)

def socketSystemInit : SocketTable where
  tcp := .tcpInit
  sockets := fun _ => ⟨.unused, 0, 0, 0, 0, 0, 0, 0, 0, []⟩
  calls := fun _ => none
  nextEphemeralPort := 0

def setSocket (fd : SocketFd) (k : Socket) : SocketTable := { s with sockets := Function.update s.sockets fd k }

def setCall (fd : SocketFd) (call : Option SocketCall) : SocketTable := { s with calls := Function.update s.calls fd call }

/-- The socket's own buffers are left out: a stream socket does not use them, and nothing
fills those of a datagram socket. -/
def socketCreate (type : BitVec 16) : Option SocketFd × SocketTable :=
  match (List.finRange 16).find? fun fd => (s.sockets fd).state = .unused with
  | none => (none, s)
  | some fd => (some fd, s.setSocket fd ⟨.created, type, 0, 0, 0, 0, 5000, 0, 0, []⟩)

def socketLocalPortInUse (port : Port) : Bool :=
  (List.finRange 16).any fun fd => (s.sockets fd).state ≠ .unused ∧ (s.sockets fd).localPort = port

/-- The loop of `socket_allocate_ephemeral_port`. -/
def ephemeralLoop : Nat → Port → Port × Port
  | 0, next => (0, next)
  | fuel + 1, next =>
    let candidate := next
    let next := if next + 1 < ephemeralPortMin then ephemeralPortMin else next + 1
    if s.socketLocalPortInUse candidate then ephemeralLoop fuel next else (candidate, next)

def socketAllocateEphemeralPort : Port × SocketTable :=
  let next :=
    if s.nextEphemeralPort < ephemeralPortMin then
      ephemeralPortMin + BitVec.ofNat 16 ((env.seed s.tcp.clock).toNat % ephemeralPortCount)
    else s.nextEphemeralPort
  let (port, next) := s.ephemeralLoop ephemeralPortCount next
  (port, { s with nextEphemeralPort := next })

/-- `socket_connect` up to its loop. A result of `none` says that it waits there. -/
def socketConnect (fd : SocketFd) (addr : Ipv4Addr) (port : Port) : Option Int × SocketTable :=
  let k := s.sockets fd
  if k.state = .unused then (some (-1), s)
  else
    let k := { k with remoteAddr := addr, remotePort := port, state := .connecting }
    if k.type = sockDgram then (some 0, s.setSocket fd { k with state := .connected })
    else if k.type = sockStream then
      let (newPort, s) := (if k.localPort = (0 : Port) then s.socketAllocateEphemeralPort env else (k.localPort, s) : Port × SocketTable)
      let k := if k.localPort = (0 : Port) ∧ newPort ≠ (0 : Port) then { k with localPort := newPort, localAddr := env.addr } else k
      if newPort = 0 then (some (-1), s.setSocket fd { k with state := .error, error := -1 })
      else
        match s.tcp.tcpOpen env.tcp k.localAddr k.localPort (bswap32 addr) (bswap16 port) fd.val with
        | (none, _) => (some (-1), s.setSocket fd { k with state := .error, error := -1 })
        | (some conn, tcp) =>
          (none, ({ s with tcp := tcp }.setSocket fd { k with
            protocolData := conn, opened := k.opened ++ [(tcp.conns conn).serial] }).setCall fd (some (.connect .start)))
    else (some (-1), s.setSocket fd k)

/-- `socket_send` up to its loop. A datagram goes out at once, or not at all. -/
def socketSend (fd : SocketFd) (data : List Byte) : Option Int × SocketTable :=
  let k := s.sockets fd
  if k.state ≠ .connected then (some (-1), s)
  else if k.type = sockStream then (none, s.setCall fd (some (.send .start data)))
  else if k.type = sockDgram then
    (some (if env.tcp.sendOk s.tcp.clock then (min data.length 512 : Nat) else -1),
      { s with tcp := { s.tcp with clock := s.tcp.clock + 1 } })
  else (some (-1), s)

/-- `socket_recv` up to its loop. -/
def socketRecv (fd : SocketFd) (len : Nat) : Option Int × SocketTable :=
  let k := s.sockets fd
  if k.state ≠ .connected then (some (-1), s)
  else if k.type = sockStream then (none, s.setCall fd (some (.recv 0 len)))
  else if k.type = sockDgram then (some 0, s)
  else (some (-1), s)

/-- `socket_setsockopt` with `SO_RCVTIMEO` or `SO_SNDTIMEO`. -/
def setTimeout (fd : SocketFd) (ms : BitVec 32) : SocketTable :=
  if (s.sockets fd).state = .unused then s else s.setSocket fd { s.sockets fd with timeoutMs := ms }

def socketClose (fd : SocketFd) : Int × SocketTable :=
  let k := s.sockets fd
  if k.state = .unused then (-1, s)
  else
    let tcp := if k.type = sockStream ∧ k.protocolData ≠ 0 then (s.tcp.tcpClose env.tcp k.protocolData).2 else s.tcp
    (0, { s with tcp := tcp }.setSocket fd { k with state := .unused })

/-- What the loops take for the end of a connection. -/
def waitFailed (st : TcpState) : Prop :=
  st = .closed ∨ st = .closeWait ∨ st = .closing ∨ st = .lastAck ∨ st = .timeWait

instance (st : TcpState) : Decidable (waitFailed st) := inferInstanceAs (Decidable (_ ∨ _ ∨ _ ∨ _ ∨ _))

/-- One turn of the loop of `socket_wait_for_tcp_state`, up to its `net_stack_poll`: the
result, or the counters to go on with. -/
def waitTurn (tcp : TcpTable) (conn : ConnSlot) (target : TcpState) (timeoutMs : BitVec 32) (w : TcpWait) :
    (Int ⊕ TcpWait) × TcpTable :=
  let state := tcp.tcpConnectionState conn
  if timeoutMs < w.elapsed then (.inl (-1), tcp)
  else if state = target then (.inl 0, tcp)
  else if waitFailed state then (.inl (-1), tcp)
  else if state = .synSent ∧ w.nextRetransmitAt ≤ w.elapsed ∧ w.retransmitCount < tcpMaxRetries then
    let count := w.retransmitCount + 1
    (.inr ⟨w.elapsed + 1, w.elapsed + tcpRtoInitMs <<< count, count⟩, tcp.tcpRetransmitSyn env.tcp conn)
  else (.inr { w with elapsed := w.elapsed + 1 }, tcp)

/-- What `socket_recv` takes for the end of the stream. -/
def streamEnded (st : TcpState) : Prop := st = .closed ∨ st = .closeWait ∨ st = .timeWait

instance (st : TcpState) : Decidable (streamEnded st) := inferInstanceAs (Decidable (_ ∨ _ ∨ _))

/-- One turn of the loop of `socket_recv`, up to its `net_stack_poll`: the result with the
bytes, or the time to go on with. -/
def recvTurn (tcp : TcpTable) (conn : ConnSlot) (timeoutMs elapsed : BitVec 32) (len : Nat) :
    ((Int × List Byte) ⊕ BitVec 32) × TcpTable :=
  if timeoutMs < elapsed then (.inl (-1, []), tcp)
  else if tcp.tcpAvailable conn = 0 then
    if streamEnded (tcp.tcpConnectionState conn) then (.inl (0, []), tcp) else (.inr (elapsed + 1), tcp)
  else
    let ((r, bytes), tcp) := tcp.tcpRecv env.tcp conn len
    if 0 ≤ r then (.inl (r, bytes), tcp)
    else if streamEnded (tcp.tcpConnectionState conn) then (.inl (0, []), tcp)
    else (.inr (elapsed + 1), tcp)

/-- The next turn of the call that waits on a socket, and what the call returns when it ends. -/
def socketTurn (fd : SocketFd) : Option (Int × List Byte) × SocketTable :=
  let k := s.sockets fd
  match s.calls fd with
  | none => (none, s)
  | some (.connect w) =>
    match waitTurn env s.tcp k.protocolData .established k.timeoutMs w with
    | (.inr w, tcp) => (none, { s with tcp := tcp }.setCall fd (some (.connect w)))
    | (.inl r, tcp) =>
      let s := { s with tcp := tcp }.setCall fd none
      if r ≠ 0 then
        (some (-1, []), { s with tcp := (tcp.tcpClose env.tcp k.protocolData).2 }.setSocket fd
          { k with protocolData := 0, state := .error, error := -1 })
      else (some (0, []), s.setSocket fd { k with state := .connected })
  | some (.send w data) =>
    match waitTurn env s.tcp k.protocolData .established k.timeoutMs w with
    | (.inr w, tcp) => (none, { s with tcp := tcp }.setCall fd (some (.send w data)))
    | (.inl r, tcp) =>
      let s := { s with tcp := tcp }.setCall fd none
      if r ≠ 0 then (some (-1, []), s.setSocket fd { k with error := -1 })
      else
        let (r, tcp) := tcp.tcpSend env.tcp k.protocolData data
        (some (r, []), { s with tcp := tcp })
  | some (.recv elapsed len) =>
    match recvTurn env s.tcp k.protocolData k.timeoutMs elapsed len with
    | (.inr elapsed, tcp) => (none, { s with tcp := tcp }.setCall fd (some (.recv elapsed len)))
    | (.inl r, tcp) =>
      let s := { s with tcp := tcp }.setCall fd none
      -- only the end of the loop leaves an error behind
      (some r, if k.timeoutMs < elapsed then s.setSocket fd { k with error := -1 } else s)

end SocketTable

inductive SocketOp where
  | create (type : BitVec 16)
  | connect (fd : SocketFd) (addr : Ipv4Addr) (port : Port)
  | send (fd : SocketFd) (data : List Byte)
  | recv (fd : SocketFd) (len : Nat)
  | close (fd : SocketFd)
  | turn (fd : SocketFd)
  | segment (srcIp dstIp : Ipv4Addr) (bytes : List Byte)
  | timerTick
  | setTimeout (fd : SocketFd) (ms : BitVec 32)

/-- The socket an operation is on. -/
def SocketOp.socket : SocketOp → Option SocketFd
  | .connect fd _ _ | .send fd _ | .recv fd _ | .close fd | .turn fd => some fd
  | .create _ | .segment _ _ _ | .timerTick | .setTimeout _ _ => none

/-- A socket whose call waits is used by that call alone. -/
def socketStep (env : SocketEnv) (s : SocketTable) : SocketOp → SocketTable
  | .create type => (s.socketCreate type).2
  | .connect fd addr port => if (s.calls fd).isSome then s else (s.socketConnect env fd addr port).2
  | .send fd data => if (s.calls fd).isSome then s else (s.socketSend env fd data).2
  | .recv fd len => if (s.calls fd).isSome then s else (s.socketRecv fd len).2
  | .close fd => if (s.calls fd).isSome then s else (s.socketClose env fd).2
  | .turn fd => (s.socketTurn env fd).2
  | .segment srcIp dstIp bytes => { s with tcp := s.tcp.tcpReceiveSegment env.tcp srcIp dstIp bytes }
  | .timerTick => { s with tcp := s.tcp.tcpTimerTick }
  | .setTimeout fd ms => s.setTimeout fd ms

/-- The states that operations reach from an empty table, each allowed by `P` when it is made. -/
inductive SocketRun (env : SocketEnv) (P : SocketTable → SocketOp → Prop) : SocketTable → Prop where
  | init : SocketRun env P .socketSystemInit
  | step {s : SocketTable} (op : SocketOp) (hp : P s op) (h : SocketRun env P s) : SocketRun env P (socketStep env s op)

end CapyOS
