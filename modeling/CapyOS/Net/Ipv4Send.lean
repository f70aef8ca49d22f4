import CapyOS.Net.Stack

namespace CapyOS
open Lib

/-! What the stack puts on the wire. Fields are stored least significant byte first. -/

def netStackHtons16 (v : BitVec 16) : BitVec 16 := v <<< 8 ||| v >>> 8

def netStackHtonl32 (v : BitVec 32) : BitVec 32 :=
  ((v &&& 0x000000FF) <<< 24) ||| ((v &&& 0x0000FF00) <<< 8) ||| ((v &&& 0x00FF0000) >>> 8) |||
    ((v &&& 0xFF000000) >>> 24)

def stored16 (v : BitVec 16) : List Byte := [v.extractLsb' 0 8, v.extractLsb' 8 8]

def stored32 (v : BitVec 32) : List Byte :=
  [v.extractLsb' 0 8, v.extractLsb' 8 8, v.extractLsb' 16 8, v.extractLsb' 24 8]

/-- What `net_stack_ipv4_send_frame` reads of the stack. -/
structure Ipv4Runtime where
  initialized : Bool
  ready : Bool
  mac : List Byte
  ttl : Byte
  identSeq : BitVec 16

namespace Ipv4Runtime
variable (r : Ipv4Runtime)

/-- The header with a given checksum field. -/
def headerWith (checksum payloadLen : BitVec 16) (protocol : Byte) (srcIp dstIp : Ipv4Addr) : List Byte :=
  [0x45, 0] ++ stored16 (netStackHtons16 (20 + payloadLen)) ++ stored16 (netStackHtons16 r.identSeq) ++
    stored16 (netStackHtons16 0x4000) ++ [if r.ttl = 0 then 64 else r.ttl, protocol] ++ stored16 checksum ++
    stored32 (netStackHtonl32 srcIp) ++ stored32 (netStackHtonl32 dstIp)

def buildIpv4Header (payloadLen : BitVec 16) (protocol : Byte) (srcIp dstIp : Ipv4Addr) : List Byte :=
  let sum := netStackChecksum16 (r.headerWith 0 payloadLen protocol srcIp dstIp)
  r.headerWith (netStackHtons16 (BitVec.ofNat 16 sum)) payloadLen protocol srcIp dstIp

/-- `net_stack_ipv4_send_frame`: the frame given to the driver. -/
def netStackIpv4SendFrame (protocol : Byte) (srcIp dstIp : Ipv4Addr) (dstMac payload : List Byte) :
    Option (List Byte) :=
  if !r.initialized ∨ !r.ready ∨ payload = [] then none
  else if 14 + 20 + payload.length > netFrameMax then none
  else some (dstMac ++ r.mac ++ stored16 (netStackHtons16 0x0800) ++
    r.buildIpv4Header (BitVec.ofNat 16 payload.length) protocol srcIp dstIp ++ payload)

end Ipv4Runtime

/-- What `tcp_send_segment` reads of a connection; `window` is what `tcp_advertised_window` says. -/
structure TcpSender where
  localIp : Ipv4Addr
  remoteIp : Ipv4Addr
  localPort : Port
  remotePort : Port
  sndNxt : SeqNum
  rcvNxt : SeqNum
  window : BitVec 16
  mss : BitVec 16

namespace TcpSender
variable (c : TcpSender)

/-- The packet with a given checksum field. -/
def packetWith (checksum : BitVec 16) (flags : Byte) (data : List Byte) : List Byte :=
  let syn := flags.getLsbD 1
  stored16 (netStackHtons16 c.localPort) ++ stored16 (netStackHtons16 c.remotePort) ++
    stored32 (netStackHtonl32 c.sndNxt) ++ stored32 (netStackHtonl32 (if flags.getLsbD 4 then c.rcvNxt else 0)) ++
    [if syn then 0x60 else 0x50, flags] ++ stored16 (netStackHtons16 c.window) ++ stored16 checksum ++ [0, 0] ++
    (if syn then [2, 4, c.mss.extractLsb' 8 8, c.mss.extractLsb' 0 8] else []) ++ data

/-- `tcp_send_segment`: the packet given to the IPv4 layer. -/
def tcpSendSegment (flags : Byte) (data : List Byte) : Option (List Byte) :=
  if data.length > tcpMssDefault then none
  else
    let sum := tcpChecksum c.localIp c.remoteIp (c.packetWith 0 flags data)
    some (c.packetWith (netStackHtons16 (BitVec.ofNat 16 sum)) flags data)

end TcpSender

end CapyOS
