import CapyOS.Lib.Slots
import CapyOS.Lib.Writes

namespace CapyOS
open Lib

/-- The characters of a C string before its terminator. -/
abbrev DnsName := List Char

def dnsCacheMaxEntries : Nat := 64
def dnsCacheNameMax : Nat := 128
def dnsCacheTtlDefault : Nat := 300

structure DnsCacheEntry where
  name : DnsName
  ip : Nat
  ttl : Nat
  createdTick : Nat
  valid : Bool
  isNegative : Bool

structure DnsCacheStats where
  entries : Nat
  hits : Nat
  misses : Nat
  evictions : Nat
  expired : Nat
  negativeHits : Nat

structure DnsCache where
  cache : Fin dnsCacheMaxEntries → DnsCacheEntry
  stats : DnsCacheStats

def dnsStreq : DnsName → DnsName → Bool
  | [], [] => true
  | a :: as, b :: bs => if a ≠ b then false else dnsStreq as bs
  | _, _ => false

/-- The string `dns_strcpy` leaves in a field of `max` bytes. -/
def dnsStrcpy (src : DnsName) (max : Nat) : DnsName := src.take (max - 1)

def dnsCacheInit : DnsCache where
  cache := fun _ => ⟨[], 0, 0, 0, false, false⟩
  stats := ⟨0, 0, 0, 0, 0, 0⟩

/-- The lifetime an insert stores. -/
def dnsStoredTtl (ttl : Nat) : Nat := if ttl > 0 then ttl else dnsCacheTtlDefault

def dnsCacheTtlTicks (ttlSeconds : Nat) : Nat := dnsStoredTtl ttlSeconds * 100

def dnsCacheEntryExpired (entry : DnsCacheEntry) (now : Nat) : Bool :=
  if !entry.valid || entry.createdTick == 0 || now ≤ entry.createdTick then false
  else decide (now - entry.createdTick > dnsCacheTtlTicks entry.ttl)

namespace DnsCache
variable (c : DnsCache)

def setEntry (i : Fin dnsCacheMaxEntries) (e : DnsCacheEntry) : DnsCache :=
  { c with cache := Function.update c.cache i e }

def dnsCacheExpireEntry (i : Fin dnsCacheMaxEntries) : DnsCache :=
  if !(c.cache i).valid then c
  else
    { c.setEntry i { c.cache i with valid := false } with
      stats := { c.stats with entries := c.stats.entries - 1, expired := c.stats.expired + 1 } }

def missed : DnsCache := { c with stats := { c.stats with misses := c.stats.misses + 1 } }

/-- `dns_cache_lookup`: the address, if it returns 0. -/
def dnsCacheLookup (now : Nat) (name : DnsName) : Option Nat × DnsCache :=
  match findSlot c.cache (fun e => e.valid && dnsStreq e.name name) with
  | none => (none, c.missed)
  | some i =>
    if dnsCacheEntryExpired (c.cache i) now then (none, (c.dnsCacheExpireEntry i).missed)
    else if (c.cache i).isNegative then (none, c.missed)
    else (some (c.cache i).ip, { c with stats := { c.stats with hits := c.stats.hits + 1 } })

/-- `dns_cache_lookup_negative`: whether it returns 0. -/
def dnsCacheLookupNegative (now : Nat) (name : DnsName) : Bool × DnsCache :=
  match findSlot c.cache (fun e => e.valid && e.isNegative && dnsStreq e.name name) with
  | none => (false, c)
  | some i =>
    if dnsCacheEntryExpired (c.cache i) now then (false, c.dnsCacheExpireEntry i)
    else (true, { c with stats := { c.stats with negativeHits := c.stats.negativeHits + 1 } })

/-- The slot the eviction loop of an insert ends on. -/
def oldestIdx : Fin dnsCacheMaxEntries :=
  ((List.finRange dnsCacheMaxEntries).foldl
    (fun (oldest : Nat × Fin dnsCacheMaxEntries) i =>
      if (c.cache i).createdTick ≥ oldest.1 then ((c.cache i).createdTick, i) else oldest)
    (0, ⟨0, by decide⟩)).2

/-- The search of both inserts: the slot of the name, else a free one, else the
evicted one. -/
def dnsCacheStore (now : Nat) (name : DnsName) (ip ttl : Nat) (negative : Bool) : DnsCache :=
  match findSlot c.cache (fun e => e.valid && dnsStreq e.name name) with
  | some i =>
    c.setEntry i { c.cache i with
      ip := ip, ttl := dnsStoredTtl ttl, createdTick := now, isNegative := negative }
  | none =>
    match findSlot c.cache (fun e => !e.valid) with
    | some i =>
      { c.setEntry i ⟨dnsStrcpy name dnsCacheNameMax, ip, dnsStoredTtl ttl, now, true, negative⟩ with
        stats := { c.stats with entries := c.stats.entries + 1 } }
    | none =>
      { c.setEntry c.oldestIdx
          ⟨dnsStrcpy name dnsCacheNameMax, ip, dnsStoredTtl ttl, now, true, negative⟩ with
        stats := { c.stats with evictions := c.stats.evictions + 1 } }

def dnsCacheInsert (now : Nat) (name : DnsName) (ip ttl : Nat) : DnsCache :=
  c.dnsCacheStore now name ip ttl false

def dnsCacheInsertNegative (now : Nat) (name : DnsName) (ttl : Nat) : DnsCache :=
  c.dnsCacheStore now name 0 ttl true

def dnsCacheInvalidate (name : DnsName) : DnsCache :=
  match findSlot c.cache (fun e => e.valid && dnsStreq e.name name) with
  | none => c
  | some i =>
    { c.setEntry i { c.cache i with valid := false } with
      stats := { c.stats with entries := c.stats.entries - 1 } }

def dnsCacheFlush : DnsCache where
  cache := fun i => { c.cache i with valid := false, isNegative := false }
  stats := { c.stats with entries := 0 }

/-- One pass of the loop of `dns_cache_tick`. -/
def tickEntry (now : Nat) (i : Fin dnsCacheMaxEntries) : DnsCache :=
  if !(c.cache i).valid then c
  else
    let stamped :=
      if (c.cache i).createdTick = 0 then c.setEntry i { c.cache i with createdTick := now } else c
    if dnsCacheEntryExpired (stamped.cache i) now then stamped.dnsCacheExpireEntry i else stamped

def dnsCacheTick (now : Nat) : DnsCache :=
  (List.finRange dnsCacheMaxEntries).foldl (fun d i => d.tickEntry now i) c

end DnsCache

/-- A call into the cache. -/
inductive DnsOp
  | lookup (name : DnsName)
  | lookupNegative (name : DnsName)
  | insert (name : DnsName) (ip ttl : Nat)
  | insertNegative (name : DnsName) (ttl : Nat)
  | invalidate (name : DnsName)
  | flush
  | tick

/-- The cache after a call at the tick `now`. -/
def DnsCache.step (c : DnsCache) (now : Nat) : DnsOp → DnsCache
  | .lookup name => (c.dnsCacheLookup now name).2
  | .lookupNegative name => (c.dnsCacheLookupNegative now name).2
  | .insert name ip ttl => c.dnsCacheInsert now name ip ttl
  | .insertNegative name ttl => c.dnsCacheInsertNegative now name ttl
  | .invalidate name => c.dnsCacheInvalidate name
  | .flush => c.dnsCacheFlush
  | .tick => c.dnsCacheTick now

/-- The cache after calls, each with the tick it is made at. -/
def DnsCache.run (c : DnsCache) (calls : List (Nat × DnsOp)) : DnsCache :=
  calls.foldl (fun d call => d.step call.1 call.2) c

end CapyOS
