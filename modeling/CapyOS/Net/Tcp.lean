import CapyOS.Lib.Bytes

namespace CapyOS
open Lib

/-- A place among the `TCP_MAX_CONNECTIONS` of the connection table. -/
abbrev ConnSlot := Fin 8

abbrev SeqNum := BitVec 32
abbrev Ipv4Addr := BitVec 32
abbrev Port := BitVec 16

def tcpMssDefault : Nat := 1460

def tcpWindowSize : Nat := 65535

inductive TcpState where
  | closed | listen | synSent | synRcvd | established | finWait1 | finWait2 | closeWait | closing | lastAck | timeWait
  deriving DecidableEq, Repr

/-- The `TCP_FLAG_` bits that are looked at. -/
structure TcpFlags where
  fin : Bool := false
  syn : Bool := false
  rst : Bool := false
  psh : Bool := false
  ack : Bool := false
  deriving DecidableEq, Repr

def TcpFlags.ofByte (b : Byte) : TcpFlags where
  fin := b.getLsbD 0
  syn := b.getLsbD 1
  rst := b.getLsbD 2
  psh := b.getLsbD 3
  ack := b.getLsbD 4

/-- A segment as `tcp_send_segment` hands it to the IPv4 layer. -/
structure TcpSegment where
  dstIp : Ipv4Addr
  srcPort : Port
  dstPort : Port
  seq : SeqNum
  ack : SeqNum
  flags : TcpFlags
  window : Nat
  mssOption : Option Nat
  payload : List Byte
  deriving DecidableEq, Repr

/-- What `tcp_receive_segment` reads from a `struct tcp_header`. -/
structure TcpHeader where
  srcPort : Port
  dstPort : Port
  seq : SeqNum
  ack : SeqNum
  dataOff : Nat
  flags : TcpFlags
  deriving DecidableEq, Repr

def be16 (l : List Byte) (o : Nat) : BitVec 16 := l.getD o 0 ++ l.getD (o + 1) 0

def be32 (l : List Byte) (o : Nat) : BitVec 32 := be16 l o ++ be16 l (o + 2)

def TcpHeader.read (segment : List Byte) : TcpHeader where
  srcPort := be16 segment 0
  dstPort := be16 segment 2
  seq := be32 segment 4
  ack := be32 segment 8
  dataOff := (segment.getD 12 0).toNat / 16 * 4
  flags := .ofByte (segment.getD 13 0)

/-- The words of a segment added up, the last byte of an odd length as a high byte. -/
def checksumWords : List Byte → Nat
  | [] => 0
  | [a] => a.toNat * 256
  | a :: b :: rest => a.toNat * 256 + b.toNat + checksumWords rest

/-- One pass of `while (sum >> 16)`. -/
def foldCarry (sum : Nat) : Nat := sum % 65536 + sum / 65536

def tcpChecksum (srcIp dstIp : Ipv4Addr) (segment : List Byte) : Nat :=
  let sum := srcIp.toNat / 65536 + srcIp.toNat % 65536 + dstIp.toNat / 65536 + dstIp.toNat % 65536 + 6 +
    segment.length % 65536 + checksumWords segment
  65535 - foldCarry (foldCarry (sum % 2 ^ 32))

/-- A `struct tcp_connection`. The buffers are named by their place among those that
`kmalloc` returned. The last three fields are not in the source: the place of the connection
among those opened, the bytes that `tcp_recv` returned and where the stream ended. -/
structure TcpConnection where
  active : Bool
  localIp : Ipv4Addr
  localPort : Port
  remoteIp : Ipv4Addr
  remotePort : Port
  state : TcpState
  sndUna : SeqNum
  sndNxt : SeqNum
  rcvNxt : SeqNum
  iss : SeqNum
  irs : SeqNum
  mss : Nat
  sendBuf : Option Nat
  recvBuf : Option Nat
  recvBytes : Bytes
  recvLen : Nat
  recvCap : Nat
  recvHead : Nat
  socketFd : Nat
  serial : Nat
  returned : List Byte
  finSeq : Option SeqNum

/-- What `tcp_memset` leaves of a connection. -/
def TcpConnection.zero : TcpConnection :=
  ⟨false, 0, 0, 0, 0, .closed, 0, 0, 0, 0, 0, 0, none, none, zeros, 0, 0, 0, 0, 0, [], none⟩

/-- What the code outside answers, one question after the other: if `net_stack_send_ipv4`
and `kmalloc` succeed, what new memory holds, and what `csprng_fill` returns. -/
structure TcpEnv where
  sendOk : Nat → Bool
  allocOk : Nat → Bool
  memory : Nat → Bytes
  isn : Nat → SeqNum

/-- The connection table. `clock` counts the questions asked; the other fields are not in
the source: the segments handed to the IPv4 layer, the number of connections opened and of
buffers allocated, and the buffers freed. -/
structure TcpTable where
  conns : ConnSlot → TcpConnection
  clock : Nat
  sent : List (ConnSlot × TcpSegment)
  opened : Nat
  allocated : Nat
  freed : List Nat

namespace TcpConnection
variable (c : TcpConnection)

def advertisedWindow : Nat :=
  if c.recvBuf.isNone ∨ c.recvCap ≤ c.recvLen then 0 else min (c.recvCap - c.recvLen) 65535

def segment (flags : TcpFlags) (data : List Byte) : TcpSegment where
  dstIp := c.remoteIp
  srcPort := c.localPort
  dstPort := c.remotePort
  seq := c.sndNxt
  ack := if flags.ack then c.rcvNxt else 0
  flags := flags
  window := c.advertisedWindow
  mssOption := if flags.syn then some c.mss else none
  payload := data

/-- `snd_nxt` after a segment went out. -/
def advance (flags : TcpFlags) (len : Nat) : TcpConnection :=
  { c with sndNxt := if flags.syn then c.sndNxt + 1 else if flags.fin then c.sndNxt + 1 else c.sndNxt + BitVec.ofNat 32 len }

/-- The unread bytes moved to the front of the buffer. -/
def compact : TcpConnection :=
  { c with recvBytes := blit c.recvBytes 0 c.recvLen (fun k => c.recvBytes (c.recvHead + k)), recvHead := 0 }

/-- Payload at `rcv_nxt` is appended when all of it fits, and otherwise dropped. -/
def storePayload (payload : List Byte) : TcpConnection :=
  if c.recvBuf.isSome ∧ c.recvLen + payload.length ≤ c.recvCap then
    let c := if 0 < c.recvHead ∧ c.recvCap < c.recvHead + c.recvLen + payload.length then c.compact else c
    { c with
      recvBytes := blit c.recvBytes (c.recvHead + c.recvLen) payload.length (fun k => payload.getD k 0)
      recvLen := c.recvLen + payload.length
      rcvNxt := c.rcvNxt + BitVec.ofNat 32 payload.length }
  else c

/-- The bytes between `recv_head` and `recv_head + recv_len`. -/
def buffered : List Byte := (List.range c.recvLen).map fun k => c.recvBytes (c.recvHead + k)

end TcpConnection

namespace TcpTable
variable (s : TcpTable) (env : TcpEnv)

def tcpInit : TcpTable := ⟨fun _ => .zero, 0, [], 0, 0, []⟩

def setConn (i : ConnSlot) (c : TcpConnection) : TcpTable := { s with conns := Function.update s.conns i c }

def kmalloc : Option Nat × TcpTable :=
  if env.allocOk s.clock then
    (some s.allocated, { s with clock := s.clock + 1, allocated := s.allocated + 1 })
  else (none, { s with clock := s.clock + 1 })

/-- `kfree`, when the pointer is not `NULL`. -/
def kfree (b : Option Nat) : TcpTable := { s with freed := s.freed ++ b.toList }

def tcpSendSegment (i : ConnSlot) (flags : TcpFlags) (data : List Byte) : Bool × TcpTable :=
  if data.length > tcpMssDefault then (false, s)
  else
    let c := s.conns i
    let t := { s with clock := s.clock + 1, sent := s.sent ++ [(i, c.segment flags data)] }
    if env.sendOk s.clock then (true, t.setConn i (c.advance flags data.length)) else (false, t)

def sendAck (i : ConnSlot) : TcpTable := (s.tcpSendSegment env i { ack := true } []).2

def freeSlot : Option ConnSlot := (List.finRange 8).find? fun i => !(s.conns i).active

def tcpOpen (localIp : Ipv4Addr) (localPort : Port) (remoteIp : Ipv4Addr) (remotePort : Port)
    (socketFd : Nat) : Option ConnSlot × TcpTable :=
  match s.freeSlot with
  | none => (none, s)
  | some i =>
    let iss := env.isn s.clock
    let memory := env.memory s.clock
    let (sendBuf, s) := { s with clock := s.clock + 1 }.kmalloc env
    let (recvBuf, s) := s.kmalloc env
    let c : TcpConnection := { TcpConnection.zero with
      active := true
      localIp, localPort, remoteIp, remotePort, socketFd
      state := .synSent
      iss := iss
      sndUna := iss
      sndNxt := iss
      mss := tcpMssDefault
      sendBuf := sendBuf
      recvBuf := recvBuf
      recvBytes := memory
      recvCap := if recvBuf.isSome then tcpWindowSize else 0
      serial := s.opened }
    let s := { s with opened := s.opened + 1 }.setConn i c
    (some i, (s.tcpSendSegment env i { syn := true } []).2)

def tcpListen (localIp : Ipv4Addr) (localPort : Port) (socketFd : Nat) : Option ConnSlot × TcpTable :=
  match s.freeSlot with
  | none => (none, s)
  | some i =>
    let memory := env.memory s.clock
    let (sendBuf, s) := s.kmalloc env
    let (recvBuf, s) := s.kmalloc env
    let c : TcpConnection := { TcpConnection.zero with
      active := true
      localIp, localPort, socketFd
      state := .listen
      mss := tcpMssDefault
      sendBuf := sendBuf
      recvBuf := recvBuf
      recvBytes := memory
      recvCap := if recvBuf.isSome then tcpWindowSize else 0
      serial := s.opened }
    (some i, { s with opened := s.opened + 1 }.setConn i c)

/-- The loop of `tcp_send`. `sent` counts the bytes that went out before. -/
def sendLoop (i : ConnSlot) : Nat → TcpTable → List Byte → Nat → Int × TcpTable
  | 0, s, _, sent => (sent, s)
  | fuel + 1, s, data, sent =>
    if data = [] then (sent, s)
    else
      let chunk := data.take (s.conns i).mss
      match s.tcpSendSegment env i { ack := true, psh := true } chunk with
      | (false, s) => (if 0 < sent then (sent : Int) else -1, s)
      | (true, s) => sendLoop i fuel s (data.drop chunk.length) (sent + chunk.length)

def tcpSend (i : ConnSlot) (data : List Byte) : Int × TcpTable :=
  let c := s.conns i
  if !c.active ∨ c.state ≠ .established then (-1, s)
  else if c.sendBuf.isNone then (-1, s)
  else sendLoop env i data.length s data 0

/-- The result of `tcp_recv`, and the bytes it copies out. -/
def tcpRecv (i : ConnSlot) (len : Nat) : (Int × List Byte) × TcpTable :=
  let c := s.conns i
  if !c.active then ((-1, []), s)
  else if c.recvLen = 0 ∨ c.recvBuf.isNone then
    if c.state = .closeWait ∨ c.state = .closed then ((0, []), s) else ((-1, []), s)
  else
    let avail := min c.recvLen len
    let bytes := c.buffered.take avail
    let s := s.setConn i { c with
      recvHead := if c.recvLen - avail = 0 then 0 else c.recvHead + avail
      recvLen := c.recvLen - avail
      returned := c.returned ++ bytes }
    ((avail, bytes), if c.state = .established then s.sendAck env i else s)

/-- Both buffers of a connection are freed. -/
def freeBuffers (i : ConnSlot) : TcpTable :=
  let c := s.conns i
  ((s.kfree c.sendBuf).kfree c.recvBuf).setConn i { c with sendBuf := none, recvBuf := none, recvCap := 0 }

def tcpClose (i : ConnSlot) : Int × TcpTable :=
  let c := s.conns i
  if !c.active then (-1, s)
  else
    let s :=
      if c.state = .established then
        let s := (s.tcpSendSegment env i { fin := true, ack := true } []).2
        s.setConn i { s.conns i with state := .finWait1 }
      else if c.state = .closeWait then
        let s := (s.tcpSendSegment env i { fin := true, ack := true } []).2
        s.setConn i { s.conns i with state := .lastAck }
      else s.setConn i { c with active := false, state := .closed }
    (0, s.freeBuffers i)

def tcpTimerTick : TcpTable :=
  { s with conns := fun i =>
      let c := s.conns i
      if c.active ∧ c.state = .timeWait then { c with active := false, state := .closed } else c }

def tcpConnectionState (i : ConnSlot) : TcpState := (s.conns i).state

def tcpAvailable (i : ConnSlot) : Nat :=
  let c := s.conns i
  if !c.active ∨ c.recvBuf.isNone then 0 else c.recvLen

/-- The sequence number is set back for the resend and restored after it. -/
def tcpRetransmitSyn (i : ConnSlot) : TcpTable :=
  let c := s.conns i
  if !c.active ∨ c.state ≠ .synSent then s
  else
    let s := ((s.setConn i { c with sndNxt := c.iss }).tcpSendSegment env i { syn := true } []).2
    s.setConn i { s.conns i with sndNxt := c.sndNxt }

/-- The connection a segment is for. -/
def findConn (srcIp : Ipv4Addr) (srcPort dstPort : Port) : Option ConnSlot :=
  (List.finRange 8).find? fun i =>
    let c := s.conns i
    c.active ∧ c.localPort = dstPort ∧ (c.remotePort = srcPort ∨ c.state = .listen) ∧
      (c.remoteIp = srcIp ∨ c.state = .listen)

def receiveSynSent (i : ConnSlot) (hdr : TcpHeader) : TcpTable :=
  if hdr.flags.syn ∧ hdr.flags.ack then
    (s.setConn i { s.conns i with
      irs := hdr.seq, rcvNxt := hdr.seq + 1, sndUna := hdr.ack, state := .established }).sendAck env i
  else s

def receiveListen (i : ConnSlot) (srcIp : Ipv4Addr) (hdr : TcpHeader) : TcpTable :=
  if hdr.flags.syn then
    let iss := env.isn s.clock
    let s := { s with clock := s.clock + 1 }.setConn i { s.conns i with
      remoteIp := srcIp, remotePort := hdr.srcPort, irs := hdr.seq, rcvNxt := hdr.seq + 1
      iss := iss, sndNxt := iss, sndUna := iss, state := .synRcvd }
    (s.tcpSendSegment env i { syn := true, ack := true } []).2
  else s

def receiveSynRcvd (i : ConnSlot) (hdr : TcpHeader) : TcpTable :=
  if hdr.flags.ack then s.setConn i { s.conns i with sndUna := hdr.ack, state := .established } else s

/-- A FIN that ends the stream at `finSeq` is taken only at `rcv_nxt`. -/
def receiveFin (i : ConnSlot) (finSeq : SeqNum) : TcpTable :=
  let c := s.conns i
  if finSeq ≠ c.rcvNxt then s.sendAck env i
  else (s.setConn i { c with rcvNxt := c.rcvNxt + 1, state := .closeWait, finSeq := some finSeq }).sendAck env i

def receiveEstablished (i : ConnSlot) (hdr : TcpHeader) (payload : List Byte) : TcpTable :=
  let s := if hdr.flags.ack then s.setConn i { s.conns i with sndUna := hdr.ack } else s
  let c := s.conns i
  if payload ≠ [] ∧ hdr.seq ≠ c.rcvNxt then s.sendAck env i
  else
    let s := if payload ≠ [] then (s.setConn i (c.storePayload payload)).sendAck env i else s
    if hdr.flags.fin then s.receiveFin env i (hdr.seq + BitVec.ofNat 32 payload.length) else s

/-- The peer's FIN once the connection was closed here, taken wherever it is. -/
def receiveLateFin (i : ConnSlot) : TcpTable :=
  let c := s.conns i
  (s.setConn i { c with rcvNxt := c.rcvNxt + 1, state := .timeWait }).sendAck env i

def receiveFinWait1 (i : ConnSlot) (hdr : TcpHeader) : TcpTable :=
  if hdr.flags.ack then
    let s := s.setConn i { s.conns i with sndUna := hdr.ack }
    if hdr.flags.fin then s.receiveLateFin env i else s.setConn i { s.conns i with state := .finWait2 }
  else s

def tearDown (i : ConnSlot) : TcpTable := s.setConn i { s.conns i with state := .closed, active := false }

/-- `tcp_receive_segment` once the connection is known. -/
def receiveOn (i : ConnSlot) (srcIp : Ipv4Addr) (hdr : TcpHeader) (payload : List Byte) : TcpTable :=
  if hdr.flags.rst then s.tearDown i
  else
    match (s.conns i).state with
    | .synSent => s.receiveSynSent env i hdr
    | .listen => s.receiveListen env i srcIp hdr
    | .synRcvd => s.receiveSynRcvd i hdr
    | .established => s.receiveEstablished env i hdr payload
    | .finWait1 => s.receiveFinWait1 env i hdr
    | .finWait2 => if hdr.flags.fin then s.receiveLateFin env i else s
    | .lastAck => if hdr.flags.ack then s.tearDown i else s
    | .timeWait => s.tearDown i
    | _ => s

/-- A segment long enough for its header and with a correct checksum. -/
def SegmentValid (srcIp dstIp : Ipv4Addr) (segment : List Byte) : Prop :=
  20 ≤ segment.length ∧ 20 ≤ (TcpHeader.read segment).dataOff ∧ (TcpHeader.read segment).dataOff ≤ segment.length ∧
    tcpChecksum srcIp dstIp segment = 0

instance (srcIp dstIp : Ipv4Addr) (segment : List Byte) : Decidable (SegmentValid srcIp dstIp segment) :=
  inferInstanceAs (Decidable (_ ∧ _ ∧ _ ∧ _))

/-- The connection that `tcp_receive_segment` changes. -/
def receiver (srcIp dstIp : Ipv4Addr) (segment : List Byte) : Option ConnSlot :=
  let hdr := TcpHeader.read segment
  if SegmentValid srcIp dstIp segment then s.findConn srcIp hdr.srcPort hdr.dstPort else none

def tcpReceiveSegment (srcIp dstIp : Ipv4Addr) (segment : List Byte) : TcpTable :=
  let hdr := TcpHeader.read segment
  match s.receiver srcIp dstIp segment with
  | none => s
  | some i => s.receiveOn env i srcIp hdr (segment.drop hdr.dataOff)

end TcpTable

inductive TcpOp where
  | open (localIp : Ipv4Addr) (localPort : Port) (remoteIp : Ipv4Addr) (remotePort : Port) (socketFd : Nat)
  | listen (localIp : Ipv4Addr) (localPort : Port) (socketFd : Nat)
  | send (i : ConnSlot) (data : List Byte)
  | recv (i : ConnSlot) (len : Nat)
  | close (i : ConnSlot)
  | segment (srcIp dstIp : Ipv4Addr) (bytes : List Byte)
  | timerTick
  | retransmitSyn (i : ConnSlot)

def tcpStep (env : TcpEnv) (s : TcpTable) : TcpOp → TcpTable
  | .open localIp localPort remoteIp remotePort fd => (s.tcpOpen env localIp localPort remoteIp remotePort fd).2
  | .listen localIp localPort fd => (s.tcpListen env localIp localPort fd).2
  | .send i data => (s.tcpSend env i data).2
  | .recv i len => (s.tcpRecv env i len).2
  | .close i => (s.tcpClose env i).2
  | .segment srcIp dstIp bytes => s.tcpReceiveSegment env srcIp dstIp bytes
  | .timerTick => s.tcpTimerTick
  | .retransmitSyn i => s.tcpRetransmitSyn env i

/-- The states that calls, segments and timer ticks reach from `tcp_init`. -/
inductive TcpRun (env : TcpEnv) : TcpTable → Prop where
  | init : TcpRun env .tcpInit
  | step {s : TcpTable} (op : TcpOp) (h : TcpRun env s) : TcpRun env (tcpStep env s op)

end CapyOS
