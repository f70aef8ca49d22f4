import CapyOS.Net.Tcp

namespace CapyOS
open Lib

/-- A place in the ARP table (`NET_ARP_CAPACITY`). -/
abbrev ArpSlot := Fin 16

structure ArpEntry where
  valid : Bool
  ip : Ipv4Addr
  mac : List Byte
  age : BitVec 32

/-- `struct net_icmp_state`. -/
structure IcmpState where
  waiting : Bool
  waitIdent : BitVec 16
  waitSeq : BitVec 16
  replyReady : Bool
  replyIp : Ipv4Addr

/-- `g_net`, the frames that wait in the driver, the TCP connections and their lock. `clock`
counts the frames given to the driver, `polls` how often it was asked for one; `stuck` says
that somebody waits for the lock for ever. -/
structure NetStack where
  initialized : Bool
  ready : Bool
  addr : Ipv4Addr
  mask : Ipv4Addr
  gateway : Ipv4Addr
  mtu : Nat
  arp : ArpSlot → ArpEntry
  ageTicks : BitVec 32
  dhcpWaiting : Bool
  icmp : IcmpState
  queue : List (List Byte)
  clock : Nat
  polls : Nat
  tcp : TcpTable
  tcpLock : Bool
  stuck : Bool

/-- If the driver takes a frame, the frames that come to it before each time it is asked for
one, and what the code around the connection table answers. -/
structure NetEnv where
  sendFrame : Nat → Bool
  arrive : Nat → List (List Byte)
  tcp : TcpEnv

/-- What `net_stack_ipv4_handle` reads from a packet. -/
structure Ipv4Packet where
  srcIp : Ipv4Addr
  dstIp : Ipv4Addr
  protocol : Byte
  payload : List Byte

def netPollBudget : Nat := 16

def netFrameMax : Nat := 1600

def netIpv4HeaderSize : Nat := 20

def ipv4Broadcast : Ipv4Addr := 0xFFFFFFFF

def netStackChecksum16 (l : List Byte) : Nat := 65535 - foldCarry (foldCarry (checksumWords l))

/-- The checks of `net_stack_ipv4_handle` up to `total_len`. -/
def Ipv4Packet.read (payload : List Byte) : Option Ipv4Packet :=
  let ihl := (payload.getD 0 0).toNat % 16 * 4
  let total := (be16 payload 2).toNat
  if payload.length < netIpv4HeaderSize then none
  else if (payload.getD 0 0).toNat / 16 ≠ 4 then none
  else if ihl < netIpv4HeaderSize ∨ payload.length < ihl then none
  else if netStackChecksum16 (payload.take ihl) ≠ 0 then none
  else if total < ihl ∨ payload.length < total then none
  else some ⟨be32 payload 12, be32 payload 16, payload.getD 9 0, (payload.take total).drop ihl⟩

def netArpFind (arp : ArpSlot → ArpEntry) (ip : Ipv4Addr) : Option ArpSlot :=
  (List.finRange 16).find? fun i => (arp i).valid && (arp i).ip == ip

/-- The bytes of a segment with its header. -/
def TcpSegment.size (p : TcpSegment) : Nat := 20 + (if p.mssOption.isSome then 4 else 0) + p.payload.length

namespace NetStack
variable (s : NetStack) (env : NetEnv)

/-- The entry of the address, else the first free one, else the one that `age_ticks` points at. -/
def netArpUpdate (ip : Ipv4Addr) (mac : List Byte) : NetStack :=
  let free := (List.finRange 16).find? fun i => !(s.arp i).valid
  let idx := ((netArpFind s.arp ip).or free).getD (Fin.ofNat 16 s.ageTicks.toNat)
  { s with arp := Function.update s.arp idx ⟨true, ip, mac, s.ageTicks⟩, ageTicks := s.ageTicks + 1 }

/-- `net_arp_route_next_hop`. -/
def nextHop (dst : Ipv4Addr) : Ipv4Addr :=
  if dst = s.addr ∨ dst = ipv4Broadcast then dst
  else if dst &&& s.mask = s.addr &&& s.mask then dst
  else if s.gateway = 0 then dst
  else s.gateway

/-- `net_stack_driver_send_frame`. -/
def driverSend : Bool × NetStack := (env.sendFrame s.clock, { s with clock := s.clock + 1 })

/-- `net_stack_driver_poll_frame`: the oldest frame that has come. -/
def driverPoll : Option (List Byte) × NetStack :=
  let waiting := s.queue ++ env.arrive s.polls
  (waiting.head?, { s with queue := waiting.tail, polls := s.polls + 1 })

-- `net_stack_receive_frame`, for the frames that a poll finds
variable (receive : NetStack → List Byte → NetStack)

/-- The loop of `net_stack_poll`. -/
def pollLoop : Nat → NetStack → Nat → Nat × NetStack
  | 0, s, processed => (processed, s)
  | budget + 1, s, processed =>
    if s.stuck then (processed, s)
    else
      match s.driverPoll env with
      | (none, s) => (processed, s)
      | (some frame, s) => pollLoop budget (receive s frame) (processed + 1)

def netStackPoll : Nat × NetStack :=
  if !s.initialized ∨ !s.ready then (0, s) else pollLoop env receive netPollBudget s 0

/-- `net_arp_wait`. -/
def arpWait (ip : Ipv4Addr) : Nat → NetStack → Bool × NetStack
  | 0, s => (false, s)
  | left + 1, s =>
    if s.stuck then (false, s)
    else if (netArpFind s.arp ip).isSome then (true, s)
    else arpWait ip left (s.netStackPoll env receive).2

/-- The tries of `net_arp_resolve`: a request and a wait for its answer. -/
def resolveTries (ip : Ipv4Addr) : Nat → NetStack → Bool × NetStack
  | 0, s => (false, s)
  | left + 1, s =>
    if s.stuck then (false, s)
    else
      match s.driverSend env with
      | (false, s) => resolveTries ip left s
      | (true, s) =>
        match arpWait env receive ip 200 s with
        | (true, s) => (true, s)
        | (false, s) => resolveTries ip left s

def netArpResolve (ip : Ipv4Addr) : Bool × NetStack :=
  if (netArpFind s.arp ip).isSome then (true, s) else resolveTries env receive ip 3 s

/-- `net_stack_send_ipv4` of a payload of `len` bytes. -/
def netStackSendIpv4 (dst : Ipv4Addr) (len : Nat) : Bool × NetStack :=
  if !s.initialized ∨ !s.ready ∨ len = 0 then (false, s)
  else if s.mtu - netIpv4HeaderSize < len then (false, s)
  else if dst = ipv4Broadcast then
    if netFrameMax < 14 + netIpv4HeaderSize + len then (false, s) else s.driverSend env
  else
    match s.netArpResolve env receive (s.nextHop dst) with
    | (false, s) => (false, s)
    | (true, s) =>
      if s.stuck ∨ (netArpFind s.arp (s.nextHop dst)).isNone ∨ netFrameMax < 14 + netIpv4HeaderSize + len then (false, s)
      else s.driverSend env

def netIcmpHandle (srcIp : Ipv4Addr) (payload : List Byte) : NetStack :=
  if payload.length < 8 then s
  else if payload.getD 0 0 = 8 ∧ payload.getD 1 0 = 0 then
    if 256 < payload.length then s else (s.netStackSendIpv4 env receive srcIp payload.length).2
  else if payload.getD 0 0 = 0 ∧ payload.getD 1 0 = 0 ∧ s.icmp.waiting ∧ be16 payload 4 = s.icmp.waitIdent ∧
      be16 payload 6 = s.icmp.waitSeq then
    { s with icmp := { s.icmp with replyReady := true, replyIp := srcIp } }
  else s

/-- The segments given to `net_stack_send_ipv4` one after the other, and its answers. -/
def sendSegments : List TcpSegment → NetStack → List Bool × NetStack
  | [], s => ([], s)
  | p :: rest, s =>
    if s.stuck then ([], s)
    else
      let (ok, s) := s.netStackSendIpv4 env receive p.dstIp p.size
      let (answers, s) := sendSegments rest s
      (ok :: answers, s)

/-- `tcp_receive_segment` with its lock. What it sends does not depend on the answers it gets;
they are the last ones it asks for. -/
def tcpReceive (srcIp dstIp : Ipv4Addr) (segment : List Byte) : NetStack :=
  if ¬TcpTable.SegmentValid srcIp dstIp segment then s
  else if s.tcpLock then { s with stuck := true }
  else
    let t := s.tcp.tcpReceiveSegment env.tcp srcIp dstIp segment
    let segments := (t.sent.drop s.tcp.sent.length).map Prod.snd
    let (answers, s) := sendSegments env receive segments { s with tcpLock := true }
    if s.stuck then s
    else
      let answered := { env.tcp with sendOk := fun k => answers.getD (k - (t.clock - segments.length)) false }
      { s with tcp := s.tcp.tcpReceiveSegment answered srcIp dstIp segment, tcpLock := false }

/-- A packet for this host. -/
def isForUs (p : Ipv4Packet) : Bool :=
  p.dstIp = s.addr ∨ p.dstIp = ipv4Broadcast ∨ (p.protocol = 17 ∧ s.dhcpWaiting)

/-- `net_stack_ipv4_handle`. The UDP handlers write what nothing here reads, and send nothing. -/
def netStackIpv4Handle (payload srcMac : List Byte) : NetStack :=
  match Ipv4Packet.read payload with
  | none => s
  | some p =>
    let s := s.netArpUpdate p.srcIp srcMac
    if !s.isForUs p then s
    else if p.protocol = 1 then s.netIcmpHandle env receive p.srcIp p.payload
    else if p.protocol = 6 ∧ 20 ≤ p.payload.length then s.tcpReceive env receive p.srcIp p.dstIp p.payload
    else s

/-- `net_arp_handle`. A reply goes to the address that asked, with nothing to resolve. -/
def netArpHandle (payload : List Byte) : NetStack :=
  if payload.length < 28 then s
  else if be16 payload 0 ≠ 1 ∨ be16 payload 2 ≠ 0x0800 ∨ payload.getD 4 0 ≠ 6 ∨ payload.getD 5 0 ≠ 4 then s
  else
    let s := s.netArpUpdate (be32 payload 14) ((payload.drop 8).take 6)
    if be16 payload 6 = 1 ∧ be32 payload 24 = s.addr ∧ s.ready then (s.driverSend env).2 else s

/-- `net_stack_receive_frame`, but for the calls of it from within. -/
def handleFrame (frame : List Byte) : NetStack :=
  if !s.initialized ∨ frame.length < 14 then s
  else if be16 frame 12 = 0x0806 then s.netArpHandle env (frame.drop 14)
  else if be16 frame 12 = 0x0800 then s.netStackIpv4Handle env receive (frame.drop 14) ((frame.drop 6).take 6)
  else s

end NetStack

end CapyOS
