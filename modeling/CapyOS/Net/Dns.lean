import CapyOS.Net.Tcp

namespace CapyOS
open Lib

/-! DNS messages. The outer `none` of a read is an access outside the message, or a loop that
has not ended after as many turns as the message has bytes; the inner one is the code's -1. -/

def dnsBe16 (msg : List Byte) (i : Nat) : Option (BitVec 16) := do
  let a ← msg[i]?
  let b ← msg[i + 1]?
  some (a ++ b)

def dnsBe32 (msg : List Byte) (i : Nat) : Option (BitVec 32) := do
  let a ← dnsBe16 msg i
  let b ← dnsBe16 msg (i + 2)
  some (a ++ b)

/-- The loop of `skip_name`. Its `depth` is 0 at the only place that looks at it. -/
def skipNameFrom (msg : List Byte) (len : Nat) : Nat → Nat → Option (Option Nat)
  | 0, pos => if pos < len then none else some none
  | n + 1, pos =>
    if pos < len then do
      let count ← msg[pos]?
      if count = 0 then some (some (pos + 1))
      else if count &&& 0xC0 = 0xC0 then if pos + 1 ≥ len then some none else some (some (pos + 2))
      else if count.toNat > 63 ∨ pos + 1 + count.toNat > len then some none
      else skipNameFrom msg len n (pos + (count.toNat + 1))
    else some none

def skipName (msg : List Byte) (len offset : Nat) : Option (Option Nat) :=
  if offset ≥ len then some none else skipNameFrom msg len len offset

structure DnsRecord where
  type : BitVec 16
  classCode : BitVec 16
  ttl : BitVec 32
  rdlen : Nat
  /-- Where its data starts. -/
  data : Nat

/-- A record behind its name, as the loops over answers and authorities read it. -/
def readRecord (msg : List Byte) (offset : Nat) : Option (Option DnsRecord) := do
  match ← skipName msg msg.length offset with
  | none => some none
  | some offset =>
    if offset + 10 > msg.length then some none
    else
      let type ← dnsBe16 msg offset
      let classCode ← dnsBe16 msg (offset + 2)
      let ttl ← dnsBe32 msg (offset + 4)
      let rdlen ← dnsBe16 msg (offset + 8)
      if offset + 10 + rdlen.toNat > msg.length then some none
      else some (some ⟨type, classCode, ttl, rdlen.toNat, offset + 10⟩)

def skipQuestions (msg : List Byte) : Nat → Nat → Option (Option Nat)
  | 0, offset => some (some offset)
  | n + 1, offset => do
    match ← skipName msg msg.length offset with
    | none => some none
    | some offset => if offset + 4 > msg.length then some none else skipQuestions msg n (offset + 4)

/-- The answers of `net_dns_parse_first_a`. -/
def firstAFrom (msg : List Byte) : Nat → Nat → Option (Option (BitVec 32 × BitVec 32))
  | 0, _ => some none
  | n + 1, offset => do
    match ← readRecord msg offset with
    | none => some none
    | some r =>
      if r.type = 1 ∧ r.classCode = 1 ∧ r.rdlen = 4 then
        let ip ← dnsBe32 msg r.data
        some (some (ip, r.ttl))
      else firstAFrom msg n (r.data + r.rdlen)

structure DnsHeader where
  id : BitVec 16
  flags : BitVec 16
  qdcount : Nat
  ancount : Nat
  nscount : Nat

def DnsHeader.read (msg : List Byte) : Option DnsHeader := do
  let id ← dnsBe16 msg 0
  let flags ← dnsBe16 msg 2
  let qdcount ← dnsBe16 msg 4
  let ancount ← dnsBe16 msg 6
  let nscount ← dnsBe16 msg 8
  some ⟨id, flags, qdcount.toNat, ancount.toNat, nscount.toNat⟩

def DnsHeader.isResponse (h : DnsHeader) : Bool := h.flags.getLsbD 15

def DnsHeader.rcode (h : DnsHeader) : Nat := h.flags.toNat % 16

/-- `net_dns_parse_first_a`: the address and the TTL. -/
def netDnsParseFirstA (msg : List Byte) (expectedId : BitVec 16) : Option (Option (BitVec 32 × BitVec 32)) :=
  if msg.length < 12 then some none
  else do
    let h ← DnsHeader.read msg
    if h.id ≠ expectedId ∨ !h.isResponse ∨ h.rcode ≠ 0 then some none
    else
      match ← skipQuestions msg h.qdcount 12 with
      | none => some none
      | some offset => firstAFrom msg h.ancount offset

def skipRecords (msg : List Byte) : Nat → Nat → Option (Option Nat)
  | 0, offset => some (some offset)
  | n + 1, offset => do
    match ← readRecord msg offset with
    | none => some none
    | some r => skipRecords msg n (r.data + r.rdlen)

/-- The MINIMUM field of a SOA record. -/
def soaMinimum (msg : List Byte) (r : DnsRecord) : Option (Option (BitVec 32)) := do
  match ← skipName msg (r.data + r.rdlen) r.data with
  | none => some none
  | some offset =>
    match ← skipName msg (r.data + r.rdlen) offset with
    | none => some none
    | some offset =>
      if offset + 20 > r.data + r.rdlen then some none
      else
        let minimum ← dnsBe32 msg (offset + 16)
        some (some minimum)

/-- The authorities of `net_dns_parse_negative_ttl`. -/
def firstSoaFrom (msg : List Byte) : Nat → Nat → Option (Option (BitVec 32))
  | 0, _ => some none
  | n + 1, offset => do
    match ← readRecord msg offset with
    | none => some none
    | some r =>
      if r.type ≠ 6 ∨ r.classCode ≠ 1 then firstSoaFrom msg n (r.data + r.rdlen)
      else
        match ← soaMinimum msg r with
        | none => some none
        | some minimum => some (some (if minimum < r.ttl then minimum else r.ttl))

def netDnsParseNegativeTtl (msg : List Byte) (expectedId : BitVec 16) : Option (Option (BitVec 32)) :=
  if msg.length < 12 then some none
  else do
    let h ← DnsHeader.read msg
    if h.id ≠ expectedId ∨ !h.isResponse then some none
    else if ¬(h.rcode = 3 ∨ (h.rcode = 0 ∧ h.ancount = 0)) ∨ h.nscount = 0 then some none
    else
      match ← skipQuestions msg h.qdcount 12 with
      | none => some none
      | some offset =>
        match ← skipRecords msg h.ancount offset with
        | none => some none
        | some offset => firstSoaFrom msg h.nscount offset

/-- A label behind what is written of a name. -/
def putLabel (cap : Nat) (label out : List Byte) : Option (List Byte) :=
  if label = [] ∨ label.length > 63 ∨ out.length + 1 + label.length ≥ cap then none
  else some (out ++ BitVec.ofNat 8 label.length :: label)

/-- The loop of `net_dns_encode_name`, with the label read so far. -/
def encodeNameFrom (cap : Nat) (label out : List Byte) : List Byte → Option (List Byte)
  | [] => do
    let out ← putLabel cap label out
    if out.length ≥ cap then none else some (out ++ [0])
  | c :: host =>
    if c = 0x2E then do
      let out ← putLabel cap label out
      encodeNameFrom cap [] out host
    else encodeNameFrom cap (label ++ [c]) out host

def netDnsEncodeName (host : List Byte) (cap : Nat) : Option (List Byte) :=
  if host = [] then none else encodeNameFrom cap [] [] host

/-- The name, type and class that `net_dns_send_query` asks for. -/
def netDnsQuestion (host : List Byte) : Option (List Byte) :=
  (netDnsEncodeName host 284).map (· ++ [0, 1, 0, 1])

/-- `struct net_dns_state`. -/
structure NetDnsState where
  queryId : BitVec 16
  waitingReply : Bool
  responseReady : Bool
  responseFailed : Bool
  responseIsNegative : Bool
  answerIp : BitVec 32
  answerTtl : BitVec 32
  answerNegativeTtl : BitVec 32
  deriving DecidableEq

def NetDnsState.netDnsHandle (s : NetDnsState) (msg : List Byte) : Option NetDnsState :=
  if !s.waitingReply ∨ msg.length < 12 then some s
  else do
    let id ← dnsBe16 msg 0
    if id ≠ s.queryId then some s
    else
      match ← netDnsParseFirstA msg s.queryId with
      | some (ip, ttl) => some { s with answerIp := ip, answerTtl := ttl, responseReady := true }
      | none =>
        match ← netDnsParseNegativeTtl msg s.queryId with
        | some ttl => some { s with answerNegativeTtl := ttl, responseIsNegative := true, responseReady := true }
        | none => some { s with responseFailed := true }

end CapyOS
