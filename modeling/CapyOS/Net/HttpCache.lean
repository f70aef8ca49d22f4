import CapyOS.Lib.Slots
import CapyOS.Lib.Bytes

namespace CapyOS
open Lib

/-- The characters of a C string before its terminator. -/
abbrev HttpText := List Char

def httpMaxHost : Nat := 192
def httpMaxPath : Nat := 2048
def httpMaxUrl : Nat := 2048
def httpMaxHeaders : Nat := 16
def httpMaxHeaderName : Nat := 64
def httpMaxHeaderValue : Nat := 256
def httpCacheMaxEntries : Nat := 8
def httpCacheBodyMax : Nat := 65536
def httpCacheKeyMax : Nat := httpMaxHost + httpMaxPath + 16
def httpCacheValidatorMax : Nat := 128

inductive HttpMethod
  | get | post | put | delete | head
  deriving DecidableEq

structure HttpHeader where
  name : HttpText
  value : HttpText
  deriving DecidableEq

/-- The response fields the cache reads and writes. `headers` holds the first
`header_count` fields. -/
structure HttpResponse where
  statusCode : Nat
  headers : List HttpHeader
  location : HttpText
  body : List Byte
  contentLength : Nat
  chunked : Bool
  truncated : Bool
  headers_le : headers.length ≤ httpMaxHeaders

structure HttpRequest where
  method : HttpMethod
  host : HttpText
  path : HttpText
  port : Nat
  useTls : Bool
  headers : List HttpHeader

/-- `lc`: an ASCII letter in lower case. -/
def lc (c : Char) : Char :=
  if 'A' ≤ c ∧ c ≤ 'Z' then Char.ofNat (c.toNat - 'A'.toNat + 'a'.toNat) else c

def isDigit (c : Char) : Bool := decide ('0' ≤ c ∧ c ≤ '9')

def ciEq : HttpText → HttpText → Bool
  | [], [] => true
  | a :: as, b :: bs => if lc a ≠ lc b then false else ciEq as bs
  | _, _ => false

/-- The string `s_copy` leaves in a buffer of `cap` bytes. -/
def sCopy (src : HttpText) (cap : Nat) : HttpText := src.take (cap - 1)

/-- `resp_header` and `req_header`: the value of the first field of the name. -/
def headerValue (headers : List HttpHeader) (name : HttpText) : Option HttpText :=
  ((headers.take httpMaxHeaders).find? fun h => ciEq h.name name).map (·.value)

def respHeader (resp : HttpResponse) (name : HttpText) : Option HttpText :=
  headerValue resp.headers name

def reqHeader (req : HttpRequest) (name : HttpText) : Option HttpText := headerValue req.headers name

/-- The digits of `parse_uint`, clamped at each step. -/
def digitsValue (v : Nat) : HttpText → Nat
  | [] => v
  | c :: cs =>
    if isDigit c then digitsValue (min (v * 10 + (c.toNat - '0'.toNat)) 0x7FFFFFFF) cs else v

/-- `parse_uint`: `none` is its -1. -/
def parseUint (s : HttpText) : Option Nat :=
  let s := s.dropWhile (· == ' ')
  if isDigit (s.headD ' ') then some (digitsValue 0 s) else none

def daysFromCivil (y m d : Int) : Int :=
  let y := if m ≤ 2 then y - 1 else y
  let era := (if y ≥ 0 then y else y - 399).tdiv 400
  let yoe := y - era * 400
  let doy := (153 * (m + (if m > 2 then -3 else 9)) + 2).tdiv 5 + d - 1
  let doe := yoe * 365 + yoe.tdiv 4 - yoe.tdiv 100 + doy
  era * 146097 + doe - 719468

def monthNames : List HttpText :=
  ["Jan", "Feb", "Mar", "Apr", "May", "Jun", "Jul", "Aug", "Sep", "Oct", "Nov", "Dec"].map
    String.toList

/-- `month_index`: 0 when the text does not start with a month's name. -/
def monthIndex (p : HttpText) : Nat :=
  match monthNames.findIdx? fun m => ciEq (p.take 3) m with
  | some i => i + 1
  | none => 0

def twoDigits (p : HttpText) : Option (Nat × HttpText) :=
  match p with
  | a :: b :: rest =>
    if isDigit a && isDigit b then
      some ((a.toNat - '0'.toNat) * 10 + (b.toNat - '0'.toNat), rest)
    else none
  | _ => none

/-- The run of digits a text starts with: how many, their value, and the rest. -/
def leadingNumber (p : HttpText) : Nat × Nat × HttpText :=
  let digits := p.takeWhile isDigit
  (digits.length, digits.foldl (fun v c => v * 10 + (c.toNat - '0'.toNat)) 0, p.dropWhile isDigit)

def skipSpaces (p : HttpText) : HttpText := p.dropWhile (· == ' ')

def afterColon : HttpText → Option HttpText
  | ':' :: rest => some rest
  | _ => none

/-- `http_cache_parse_date`: `none` is its -1. -/
def httpCacheParseDate (s : HttpText) : Option Int := do
  if s = [] then none
  let p :=
    match (s.take 12).findIdx? (· == ',') with
    | some comma => s.drop (comma + 1)
    | none => s
  let (n, day, p) := leadingNumber (skipSpaces p)
  if n < 1 ∨ n > 2 ∨ day < 1 ∨ day > 31 then none
  let p := skipSpaces p
  let month := monthIndex p
  if month = 0 then none
  let (n, year, p) := leadingNumber (skipSpaces (p.drop 3))
  if n ≠ 4 then none
  let (hh, p) ← twoDigits (skipSpaces p)
  let p ← afterColon p
  let (mm, p) ← twoDigits p
  let p ← afterColon p
  let (ss, _) ← twoDigits p
  if hh > 23 ∨ mm > 59 ∨ ss > 60 then none
  some (daysFromCivil year month day * 86400 + hh * 3600 + mm * 60 + ss)

structure CcFlags where
  noStore : Bool
  noCache : Bool
  maxAge : Option Nat

/-- `cc_token_is`: what follows the directive `name` at the start of the text. -/
def ccTokenIs : HttpText → HttpText → Option HttpText
  | t, [] => some t
  | [], _ :: _ => none
  | c :: t, n :: name => if lc c ≠ lc n then none else ccTokenIs t name

/-- Whether the directive is followed by the end, a comma or a blank. -/
def ccEnds (rest : Option HttpText) : Bool :=
  match rest with
  | none => false
  | some [] => true
  | some (c :: _) => c == ',' || c == ' '

/-- The flags after one directive. -/
def ccDirective (f : CcFlags) (p : HttpText) : CcFlags :=
  if ccEnds (ccTokenIs p "no-store".toList) then { f with noStore := true }
  else if ccEnds (ccTokenIs p "no-cache".toList) then { f with noCache := true }
  else
    match ccTokenIs p "max-age".toList with
    | some ('=' :: rest) =>
      match parseUint rest with
      | some v => { f with maxAge := some v }
      | none => f
    | _ => f

/-- The loop of `cc_scan`: past a directive it skips to the next comma. -/
def ccScanFrom (f : CcFlags) (skip : Bool) : HttpText → CcFlags
  | [] => f
  | c :: t =>
    if skip then ccScanFrom f (c != ',') t
    else if c == ' ' || c == ',' then ccScanFrom f false t
    else ccScanFrom (ccDirective f (c :: t)) true t

def ccScan (cc : Option HttpText) : CcFlags :=
  match cc with
  | none => ⟨false, false, none⟩
  | some p => ccScanFrom ⟨false, false, none⟩ false p

/-- The text of `s` appended to a key within the buffer. -/
def keyAppend (buf : HttpText) (cap : Nat) (s : HttpText) : HttpText :=
  buf ++ s.take (cap - 1 - buf.length)

def defaultPort (req : HttpRequest) : Nat := if req.useTls then 443 else 80

def methodText (req : HttpRequest) : HttpText :=
  match req.method with
  | .get => "GET ".toList
  | .head => "HEAD ".toList
  | _ => "OTHER ".toList

def schemeText (req : HttpRequest) : HttpText :=
  if req.useTls then "https://".toList else "http://".toList

/-- The port as it stands in the key: nothing for the default port. -/
def portText (req : HttpRequest) : HttpText :=
  if req.port ≠ 0 ∧ req.port ≠ defaultPort req then ':' :: Nat.toDigits 10 req.port else []

def buildKey (req : HttpRequest) : HttpText :=
  let key := keyAppend [] httpCacheKeyMax (methodText req)
  let key := keyAppend key httpCacheKeyMax (schemeText req)
  let key := keyAppend key httpCacheKeyMax req.host
  let key := keyAppend key httpCacheKeyMax (portText req)
  keyAppend key httpCacheKeyMax req.path

def statusIsCacheable (code : Nat) : Bool :=
  code == 200 || code == 203 || code == 301 || code == 308 || code == 404

def httpCacheIsCacheable (req : HttpRequest) (resp : HttpResponse) : Bool :=
  let rcc := ccScan (respHeader resp "Cache-Control".toList)
  if req.method ≠ .get then false
  else if !statusIsCacheable resp.statusCode then false
  else if resp.truncated then false
  else if rcc.noStore then false
  else if (ccScan (reqHeader req "Cache-Control".toList)).noStore then false
  else if ((respHeader resp "Vary".toList).getD []).isEmpty = false then false
  else
    rcc.maxAge.isSome || (respHeader resp "Expires".toList).isSome ||
      (respHeader resp "ETag".toList).isSome || (respHeader resp "Last-Modified".toList).isSome

def httpCacheFreshnessLifetime (resp : HttpResponse) : Int :=
  match (ccScan (respHeader resp "Cache-Control".toList)).maxAge with
  | some v => v
  | none =>
    match respHeader resp "Expires".toList, respHeader resp "Date".toList with
    | some expires, some date =>
      match httpCacheParseDate expires, httpCacheParseDate date with
      | some e, some d => if e ≥ 0 ∧ d ≥ 0 ∧ e ≥ d then e - d else 0
      | _, _ => 0
    | _, _ => 0

/-- The freshness metadata of an entry. -/
structure HttpCacheMeta where
  responseTime : Int
  dateValue : Int
  ageValue : Int
  freshnessLifetime : Int
  noCache : Bool

structure HttpCacheEntry where
  valid : Bool
  key : HttpText
  statusCode : Nat
  freshness : HttpCacheMeta
  etag : HttpText
  lastModified : HttpText
  headers : List HttpHeader
  location : HttpText
  body : List Byte
  lru : Nat
  headers_le : headers.length ≤ httpMaxHeaders

structure HttpCache where
  entries : Fin httpCacheMaxEntries → HttpCacheEntry
  clock : Nat
  hits : Nat
  misses : Nat
  stores : Nat
  evictions : Nat
  revalidations : Nat

def httpCacheInit : HttpCache where
  entries := fun _ =>
    { valid := false, key := [], statusCode := 0, freshness := ⟨0, 0, 0, 0, false⟩, etag := [],
      lastModified := [], headers := [], location := [], body := [], lru := 0,
      headers_le := Nat.zero_le _ }
  clock := 0
  hits := 0
  misses := 0
  stores := 0
  evictions := 0
  revalidations := 0

def httpCacheEntryAge (e : HttpCacheMeta) (now : Int) : Int :=
  let apparent := max (e.responseTime - e.dateValue) 0
  let resident := max (now - e.responseTime) 0
  e.ageValue + apparent + resident

/-- The metadata `fill_meta` takes from a response. -/
def metaOf (resp : HttpResponse) (now : Int) : HttpCacheMeta where
  responseTime := now
  dateValue :=
    match (respHeader resp "Date".toList).bind httpCacheParseDate with
    | some d => if d ≥ 0 then d else now
    | none => now
  ageValue := ((respHeader resp "Age".toList).bind parseUint).getD 0
  freshnessLifetime := httpCacheFreshnessLifetime resp
  noCache := (ccScan (respHeader resp "Cache-Control".toList)).noCache

def fillMeta (e : HttpCacheEntry) (resp : HttpResponse) (now : Int) : HttpCacheEntry :=
  { e with
    freshness := metaOf resp now
    etag :=
      match respHeader resp "ETag".toList with
      | some etag => sCopy etag httpCacheValidatorMax
      | none => []
    lastModified :=
      match respHeader resp "Last-Modified".toList with
      | some lm => sCopy lm httpCacheValidatorMax
      | none => [] }

inductive HttpCacheStatus
  | miss | fresh | stale
  deriving DecidableEq

inductive HttpCacheResult
  | error | missFetched | freshServed | revalidated | refetched
  deriving DecidableEq

namespace HttpCache
variable (c : HttpCache)

def setEntry (i : Fin httpCacheMaxEntries) (e : HttpCacheEntry) : HttpCache :=
  { c with entries := Function.update c.entries i e }

def findKey (key : HttpText) : Option (Fin httpCacheMaxEntries) :=
  findSlot c.entries fun e => e.valid && ciEq e.key key

/-- The slot used the longest ago, the last of several. -/
def lruSlot : Fin httpCacheMaxEntries :=
  ((List.finRange httpCacheMaxEntries).foldl
    (fun (lru : Nat × Fin httpCacheMaxEntries) i =>
      if (c.entries i).lru ≤ lru.1 then ((c.entries i).lru, i) else lru)
    (2 ^ 64 - 1, ⟨0, by decide⟩)).2

/-- `find_slot`: the slot for a key, and the count of evictions. -/
def slotFor (key : HttpText) : Fin httpCacheMaxEntries × HttpCache :=
  match c.findKey key with
  | some i => (i, c)
  | none =>
    match findSlot c.entries (fun e => !e.valid) with
    | some i => (i, c)
    | none => (c.lruSlot, { c with evictions := c.evictions + 1 })

/-- `http_cache_store`: whether it stores, and the cache. -/
def httpCacheStore (req : HttpRequest) (resp : HttpResponse) (now : Int) : Bool × HttpCache :=
  if !httpCacheIsCacheable req resp then (false, c)
  else if resp.body.length > httpCacheBodyMax then (false, c)
  else
    let key := buildKey req
    let (i, c) := c.slotFor key
    let e := fillMeta { c.entries i with
      key := sCopy key httpCacheKeyMax, statusCode := resp.statusCode } resp now
    (true,
      { c.setEntry i { e with
          body := resp.body, headers := resp.headers, headers_le := resp.headers_le
          location := sCopy resp.location httpMaxUrl, valid := true, lru := c.clock + 1 } with
        clock := c.clock + 1, stores := c.stores + 1 })

def httpCacheInvalidate (req : HttpRequest) : Bool × HttpCache :=
  match c.findKey (buildKey req) with
  | none => (false, c)
  | some i =>
    (true, c.setEntry i { c.entries i with
      valid := false, body := [], headers := [], key := [], location := [], lru := 0
      headers_le := Nat.zero_le _ })

/-- `http_cache_lookup`: the status, the entry found, and the cache. -/
def httpCacheLookup (req : HttpRequest) (now : Int) :
    HttpCacheStatus × Option (Fin httpCacheMaxEntries) × HttpCache :=
  match c.findKey (buildKey req) with
  | none => (.miss, none, { c with misses := c.misses + 1 })
  | some i =>
    let used : HttpCache :=
      { c.setEntry i { c.entries i with lru := c.clock + 1 } with clock := c.clock + 1 }
    if !(c.entries i).freshness.noCache ∧
        httpCacheEntryAge (c.entries i).freshness now < (c.entries i).freshness.freshnessLifetime then
      (.fresh, some i, { used with hits := used.hits + 1 })
    else (.stale, some i, { used with revalidations := used.revalidations + 1 })

def httpCacheRefreshOn304 (i : Fin httpCacheMaxEntries) (resp : HttpResponse) (now : Int) :
    HttpCache :=
  let e := fillMeta (c.entries i) resp now
  let e := { e with
    etag :=
      match respHeader resp "ETag".toList with
      | some etag => sCopy etag httpCacheValidatorMax
      | none => e.etag
    lastModified :=
      match respHeader resp "Last-Modified".toList with
      | some lm => sCopy lm httpCacheValidatorMax
      | none => e.lastModified }
  { c.setEntry i { e with lru := c.clock + 1 } with clock := c.clock + 1 }

end HttpCache

def addHeader (req : HttpRequest) (name value : HttpText) : HttpRequest :=
  if req.headers.length ≥ httpMaxHeaders then req
  else { req with headers := req.headers ++
    [⟨sCopy name httpMaxHeaderName, sCopy value httpMaxHeaderValue⟩] }

def httpCacheAddConditionalHeaders (e : HttpCacheEntry) (req : HttpRequest) : HttpRequest :=
  let req := if e.etag ≠ [] then addHeader req "If-None-Match".toList e.etag else req
  if e.lastModified ≠ [] then addHeader req "If-Modified-Since".toList e.lastModified else req

def serveEntry (e : HttpCacheEntry) (resp : HttpResponse) : HttpResponse :=
  { resp with
    statusCode := e.statusCode, headers := e.headers, headers_le := e.headers_le
    location := sCopy e.location httpMaxUrl, body := e.body, contentLength := e.body.length
    chunked := false, truncated := false }

/-- `http_cache_fetch`: the result, the response, and the cache. `fetched` is what the
transport would leave in `resp` for the request it is given; `none` is its error. -/
def HttpCache.httpCacheFetch (c : HttpCache) (req : HttpRequest) (resp : HttpResponse) (now : Int)
    (fetched : HttpRequest → Option HttpResponse) : HttpCacheResult × HttpResponse × HttpCache :=
  match c.httpCacheLookup req now with
  | (.fresh, some i, c) => (.freshServed, serveEntry (c.entries i) resp, c)
  | (.stale, some i, c) =>
    let req := httpCacheAddConditionalHeaders (c.entries i) req
    match fetched req with
    | none => (.error, resp, c)
    | some answer =>
      if answer.statusCode = 304 then
        let c := c.httpCacheRefreshOn304 i answer now
        (.revalidated, serveEntry (c.entries i) answer, c)
      else (.refetched, answer, (c.httpCacheStore req answer now).2)
  | (_, _, c) =>
    match fetched req with
    | none => (.error, resp, c)
    | some answer => (.missFetched, answer, (c.httpCacheStore req answer now).2)

/-- A call into the cache. -/
inductive HttpCacheOp
  | fetch (req : HttpRequest) (resp : HttpResponse) (now : Int)
      (fetched : HttpRequest → Option HttpResponse)
  | store (req : HttpRequest) (resp : HttpResponse) (now : Int)
  | invalidate (req : HttpRequest)

def HttpCacheOp.request : HttpCacheOp → HttpRequest
  | .fetch req _ _ _ => req
  | .store req _ _ => req
  | .invalidate req => req

def HttpCache.step (c : HttpCache) : HttpCacheOp → HttpCache
  | .fetch req resp now fetched => (c.httpCacheFetch req resp now fetched).2.2
  | .store req resp now => (c.httpCacheStore req resp now).2
  | .invalidate req => (c.httpCacheInvalidate req).2

end CapyOS
