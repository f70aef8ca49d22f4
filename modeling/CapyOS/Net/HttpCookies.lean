import CapyOS.Net.HttpCache

namespace CapyOS
open Lib

def httpCookieMax : Nat := 16
def httpCookieNameMax : Nat := 64
def httpCookieValueMax : Nat := 256
def httpCookieDomainMax : Nat := httpMaxHost
def httpCookiePathMax : Nat := 256

structure HttpCookie where
  valid : Bool
  name : HttpText
  value : HttpText
  domain : HttpText
  path : HttpText
  expires : Int
  hostOnly : Bool
  secure : Bool
  httpOnly : Bool
  lru : Nat

structure HttpCookieJar where
  cookies : Fin httpCookieMax → HttpCookie
  clock : Nat
  setCount : Nat
  deleted : Nat
  rejected : Nat
  evictions : Nat

def HttpCookie.zero : HttpCookie := ⟨false, [], [], [], [], 0, false, false, false, 0⟩

/-- The string `copy_range` leaves in a field of `cap` bytes. -/
def copyRange (cap : Nat) (src : HttpText) : HttpText := src.take (cap - 1)

def lower (s : HttpText) : HttpText := s.map lc

def isSpace (c : Char) : Bool := c == ' ' || c == '\t'

def trim (s : HttpText) : HttpText :=
  ((s.dropWhile isSpace).reverse.dropWhile isSpace).reverse

/-- `parse_long_signed`; a text without digits counts as 0x7FFFFFFF. -/
def parseLongSigned (s : HttpText) : Int :=
  let (neg, digits) :=
    match s with
    | '-' :: t => (true, t)
    | '+' :: t => (false, t)
    | t => (false, t)
  if !isDigit (digits.headD ' ') then 0x7FFFFFFF
  else if neg then -(digitsValue 0 digits : Int) else digitsValue 0 digits

def hostIsIpLiteral (host : HttpText) : Bool :=
  if host.head? = some '[' then true
  else host.any isDigit && host.all fun c => isDigit c || c == '.'

def httpCookieDomainMatch (host domain : HttpText) : Bool :=
  if host = [] ∨ domain = [] then false
  else if ciEq host domain then true
  else if hostIsIpLiteral host then false
  else if host.length ≤ domain.length then false
  else
    let off := host.length - domain.length
    if host[off - 1]? ≠ some '.' then false else ciEq (host.drop off) domain

/-- The comparison loop of `http_cookie_path_match`. -/
def samePrefix : HttpText → HttpText → Bool
  | a :: as, b :: bs => if a ≠ b then false else samePrefix as bs
  | _, _ => true

def httpCookiePathMatch (reqPath cookiePath : HttpText) : Bool :=
  let reqPath := if reqPath = [] then ['/'] else reqPath
  let cookiePath := if cookiePath = [] then ['/'] else cookiePath
  if !samePrefix reqPath cookiePath then false
  else if reqPath.length < cookiePath.length then false
  else if reqPath.length = cookiePath.length then true
  else if cookiePath.getLast? = some '/' then true
  else decide (reqPath[cookiePath.length]? = some '/')

/-- The directory of a request path: what stands before its last slash. -/
def pathDirectory (reqPath : HttpText) : HttpText :=
  if reqPath.head? ≠ some '/' then ['/']
  else
    let directory := ((reqPath.reverse.dropWhile (· != '/')).drop 1).reverse
    if directory = [] then ['/'] else directory

def defaultPath (reqPath : HttpText) (cap : Nat) : HttpText := copyRange cap (pathDirectory reqPath)

/-- A segment of a Set-Cookie text at its first `=`, both sides trimmed. -/
def splitAttribute (segment : HttpText) : HttpText × HttpText :=
  (trim (segment.takeWhile (· != '=')), trim ((segment.dropWhile (· != '=')).drop 1))

/-- The name and value in the first segment, unless it is malformed. -/
def cookiePair (setCookie : HttpText) : Option (HttpText × HttpText) :=
  let segment := setCookie.takeWhile (· != ';')
  if '=' ∉ segment then none
  else if (splitAttribute segment).1 = [] then none
  else some (splitAttribute segment)

/-- The attributes after the first segment; an empty segment is one of no effect. -/
def cookieAttributes (setCookie : HttpText) : List (HttpText × HttpText) :=
  (((setCookie.dropWhile (· != ';')).drop 1).splitOn ';').map splitAttribute

/-- The expiry of a Max-Age. -/
def maxAgeExpiry (now v : Int) : Int := if v ≤ 0 then now - 1 else now + v

/-- The date an Expires value is read as, through a buffer of 64 bytes. -/
def expiresDate (value : HttpText) : Option Int := httpCacheParseDate (copyRange 64 value)

/-- A Domain value without its leading dot. -/
def withoutDot (value : HttpText) : HttpText :=
  match value with
  | '.' :: rest => rest
  | value => value

/-- One pass of the attribute loop, over the cookie and `have_maxage`. -/
def applyAttribute (now : Int) (s : HttpCookie × Bool) (attr : HttpText × HttpText) :
    HttpCookie × Bool :=
  let (out, haveMaxage) := s
  let (name, value) := attr
  if ciEq "Max-Age".toList name then
    if value ≠ [] then ({ out with expires := maxAgeExpiry now (parseLongSigned value) }, true)
    else (out, haveMaxage)
  else if ciEq "Expires".toList name && !haveMaxage then
    match expiresDate value with
    | some d => if d ≥ 0 then ({ out with expires := d }, haveMaxage) else (out, haveMaxage)
    | none => (out, haveMaxage)
  else if ciEq "Domain".toList name then
    if withoutDot value ≠ [] then
      ({ out with
          domain := lower (copyRange httpCookieDomainMax (withoutDot value)), hostOnly := false },
        haveMaxage)
    else (out, haveMaxage)
  else if ciEq "Path".toList name then
    if value.head? = some '/' then
      ({ out with path := copyRange httpCookiePathMax value }, haveMaxage)
    else (out, haveMaxage)
  else if ciEq "Secure".toList name then ({ out with secure := true }, haveMaxage)
  else if ciEq "HttpOnly".toList name then ({ out with httpOnly := true }, haveMaxage)
  else (out, haveMaxage)

def httpCookieParseSetCookie (setCookie reqHost reqPath : HttpText) (now : Int) :
    Option HttpCookie :=
  match cookiePair setCookie with
  | none => none
  | some (name, value) =>
    let out : HttpCookie := { HttpCookie.zero with
      name := copyRange httpCookieNameMax name
      value := copyRange httpCookieValueMax value
      domain := lower (sCopy reqHost httpCookieDomainMax)
      hostOnly := true
      path := defaultPath reqPath httpCookiePathMax }
    let (out, _) := (cookieAttributes setCookie).foldl (applyAttribute now) (out, false)
    if !out.hostOnly && (out.domain.isEmpty || !httpCookieDomainMatch reqHost out.domain) then none
    else some { out with valid := true }

def httpCookieJarInit : HttpCookieJar :=
  ⟨fun _ => HttpCookie.zero, 0, 0, 0, 0, 0⟩

def cookieExpired (c : HttpCookie) (now : Int) : Bool := decide (c.expires ≠ 0 ∧ c.expires ≤ now)

def sameIdentity (a b : HttpCookie) : Bool :=
  decide (a.name = b.name) && ciEq a.domain b.domain && decide (a.path = b.path)

def cookieMatchesRequest (c : HttpCookie) (host path : HttpText) (secure : Bool) (now : Int) :
    Bool :=
  if !c.valid || cookieExpired c now then false
  else if c.secure && !secure then false
  else if c.hostOnly then
    if !ciEq host c.domain then false else httpCookiePathMatch path c.path
  else if !httpCookieDomainMatch host c.domain then false
  else httpCookiePathMatch path c.path

namespace HttpCookieJar
variable (j : HttpCookieJar)

def setCookie (i : Fin httpCookieMax) (c : HttpCookie) : HttpCookieJar :=
  { j with cookies := Function.update j.cookies i c }

def findIdentity (c : HttpCookie) : Option (Fin httpCookieMax) :=
  findSlot j.cookies fun d => d.valid && sameIdentity d c

/-- `alloc_slot`: a free slot, or the one used the longest ago. -/
def allocSlot : Fin httpCookieMax × HttpCookieJar :=
  match findSlot j.cookies (fun d => !d.valid) with
  | some i => (i, j)
  | none =>
    (((List.finRange httpCookieMax).foldl
      (fun (lru : Nat × Fin httpCookieMax) i =>
        if (j.cookies i).lru ≤ lru.1 then ((j.cookies i).lru, i) else lru)
      (2 ^ 64 - 1, ⟨0, by decide⟩)).2, { j with evictions := j.evictions + 1 })

def storeOne (c : HttpCookie) (now : Int) : HttpCookieJar :=
  if cookieExpired c now then
    match j.findIdentity c with
    | some i =>
      { j.setCookie i { j.cookies i with valid := false } with deleted := j.deleted + 1 }
    | none => j
  else
    let (i, j) :=
      match j.findIdentity c with
      | some i => (i, j)
      | none => j.allocSlot
    { j.setCookie i { c with valid := true, lru := j.clock + 1 } with
      clock := j.clock + 1, setCount := j.setCount + 1 }

/-- What one Set-Cookie field does to the jar. -/
def setOne (reqHost reqPath : HttpText) (now : Int) (setCookie : HttpText) : HttpCookieJar :=
  match httpCookieParseSetCookie setCookie reqHost reqPath now with
  | none => { j with rejected := j.rejected + 1 }
  | some c => j.storeOne c now

end HttpCookieJar

/-- The values of the Set-Cookie fields of a response. -/
def setCookieFields (resp : HttpResponse) : List HttpText :=
  ((resp.headers.take httpMaxHeaders).filter fun h => ciEq h.name "Set-Cookie".toList).map (·.value)

namespace HttpCookieJar
variable (j : HttpCookieJar)

/-- `http_cookie_jar_set_from_response`: the jar it leaves. -/
def httpCookieJarSetFromResponse (reqHost reqPath : HttpText) (resp : HttpResponse) (now : Int) :
    HttpCookieJar :=
  (setCookieFields resp).foldl (fun j setCookie => j.setOne reqHost reqPath now setCookie) j

/-- The cookies of a request in the order of their slots. -/
def matching (reqHost reqPath : HttpText) (secure : Bool) (now : Int) : List HttpCookie :=
  let reqPath := if reqPath = [] then ['/'] else reqPath
  ((List.finRange httpCookieMax).map j.cookies).filter fun c =>
    cookieMatchesRequest c reqHost reqPath secure now

def httpCookieJarGc (now : Int) : HttpCookieJar :=
  { j with cookies := fun i =>
      if (j.cookies i).valid && cookieExpired (j.cookies i) now then
        { j.cookies i with valid := false }
      else j.cookies i }

end HttpCookieJar

/-- The place of the first cookie of the longest path, from a candidate on. -/
def longestPath (cookies : List HttpCookie) : Nat :=
  (cookies.zipIdx.foldl
    (fun (best : Nat × Nat) c => if c.1.path.length > best.1 then (c.1.path.length, c.2) else best)
    ((cookies.headD HttpCookie.zero).path.length, 0)).2

/-- The selection sort of `http_cookie_jar_header`: the longest path of the rest is
swapped to the front, `n` times. -/
def orderByPath : Nat → List HttpCookie → List HttpCookie
  | 0, cookies => cookies
  | _ + 1, [] => []
  | n + 1, first :: rest =>
    match longestPath (first :: rest) with
    | 0 => first :: orderByPath n rest
    | best + 1 => rest.getD best first :: orderByPath n (rest.set best first)

/-- The cookies written to a header of `cap` bytes, and its text: a cookie that does
not fit ends it. -/
def writeCookies (cap : Nat) : HttpText → List HttpCookie → List HttpCookie × HttpText
  | out, [] => ([], out)
  | out, c :: cookies =>
    let text := (if out = [] then [] else [';', ' ']) ++ c.name ++ '=' :: c.value
    if out.length + text.length ≥ cap then ([], out)
    else
      let (written, out) := writeCookies cap (out ++ text) cookies
      (c :: written, out)

/-- `http_cookie_jar_header`: the cookies it writes, and the text. -/
def HttpCookieJar.httpCookieJarHeader (j : HttpCookieJar) (reqHost reqPath : HttpText)
    (secure : Bool) (now : Int) (cap : Nat) : List HttpCookie × HttpText :=
  let cookies := j.matching reqHost reqPath secure now
  writeCookies cap [] (orderByPath cookies.length cookies)

/-- A call into the jar that changes it. -/
inductive CookieOp
  | setFromResponse (reqHost reqPath : HttpText) (resp : HttpResponse) (now : Int)
  | gc (now : Int)

def HttpCookieJar.step (j : HttpCookieJar) : CookieOp → HttpCookieJar
  | .setFromResponse reqHost reqPath resp now =>
    j.httpCookieJarSetFromResponse reqHost reqPath resp now
  | .gc now => j.httpCookieJarGc now

def HttpCookieJar.run (j : HttpCookieJar) (ops : List CookieOp) : HttpCookieJar :=
  ops.foldl HttpCookieJar.step j

end CapyOS
