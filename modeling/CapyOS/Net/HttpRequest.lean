import CapyOS.Net.HttpCache

namespace CapyOS
open Lib

/-! The receiving half of `http_request`. A character is a byte. -/

def httpMaxResponseSize : Nat := 8 * 1024 * 1024
def httpHeaderNameSize : Nat := 64
def httpHeaderValueSize : Nat := 256

inductive HttpError
  | recv | responseTooLarge | responseEncoding | responseParse | noMemory
  deriving DecidableEq

def cr : Char := Char.ofNat 13
def lf : Char := Char.ofNat 10
def crlf : HttpText := [cr, lf]

/-- What a C string reads of a buffer that ends with a NUL. -/
def cText (buf : HttpText) : HttpText := buf.takeWhile (· != Char.ofNat 0)

/-- `http_parse_status_line` on a C string: whether it is a status line, and the code. -/
def httpParseStatusLine (line : HttpText) : Bool × Nat :=
  if line.take 7 ≠ "HTTP/1.".toList then (false, 0)
  else
    let digits := (((line.drop 7).dropWhile (· != ' ')).drop 1).takeWhile isDigit
    if digits.length > 3 then (false, digitsValue 0 (digits.take 4)) else (true, digitsValue 0 digits)

/-- A line up to its CRLF, and what follows; without a CRLF the last byte is left. -/
def headerLine : HttpText → HttpText × HttpText
  | c :: d :: rest =>
    if c = cr ∧ d = lf then ([], rest)
    else
      let more := headerLine (d :: rest)
      (c :: more.1, more.2)
  | rest => ([], rest)

theorem headerLine_length : ∀ {l : HttpText}, 2 ≤ l.length → (headerLine l).2.length < l.length
  | c :: [d], _ => by
    unfold headerLine
    split <;> simp [headerLine]
  | c :: d :: e :: rest, _ => by
    unfold headerLine
    split
    · simp
    · have h := @headerLine_length (d :: e :: rest) (by simp)
      simp only [List.length_cons] at h ⊢
      omega

/-- The header lines after the status line. -/
def headerLines (l : HttpText) : List HttpText :=
  if _h : 2 ≤ l.length then
    if l.take 2 = crlf then []
    else (headerLine l).1 :: headerLines (headerLine l).2
  else []
termination_by l.length
decreasing_by exact headerLine_length _h

/-- A control byte, or DEL, as a question mark. -/
def filterName (c : Char) : Char := if c.toNat ≤ 0x20 ∨ c.toNat = 0x7F then '?' else c

def filterValue (c : Char) : Char := if c.toNat < 0x20 ∨ c.toNat = 0x7F then '?' else c

def httpContainsCi (text needle : HttpText) : Bool :=
  text.tails.any fun t => ciEq (t.take needle.length) needle

/-- The loop of `http_parse_content_length`, which stays at SIZE_MAX. -/
def contentLengthFrom (v : Nat) : HttpText → Nat
  | [] => v
  | c :: cs =>
    if isDigit c then
      let digit := c.toNat - '0'.toNat
      if v > (2 ^ 64 - 1 - digit) / 10 then 2 ^ 64 - 1 else contentLengthFrom (v * 10 + digit) cs
    else v

def httpParseContentLength (value : HttpText) : Nat := contentLengthFrom 0 value

/-- What `http_store_headers` sets. -/
structure HttpHead where
  headers : List HttpHeader
  location : HttpText
  contentLength : Nat
  contentLengthPresent : Bool
  connectionClose : Bool
  connectionKeepAlive : Bool
  chunked : Bool
  deriving DecidableEq

def HttpHead.empty : HttpHead := ⟨[], [], 0, false, false, false, false⟩

/-- What one header line does. -/
def storeHeader (head : HttpHead) (line : HttpText) : HttpHead :=
  if ':' ∈ line then
    let value := ((line.dropWhile (· != ':')).drop 1).dropWhile (· == ' ')
    let parsed : HttpHeader :=
      ⟨((line.takeWhile (· != ':')).take (httpHeaderNameSize - 1)).map filterName,
        (value.take (httpHeaderValueSize - 1)).map filterValue⟩
    let head :=
      if ciEq parsed.name "Content-Length".toList then
        { head with contentLength := httpParseContentLength parsed.value, contentLengthPresent := true }
      else head
    let head :=
      if ciEq parsed.name "Connection".toList then
        { head with
          connectionClose := head.connectionClose || httpContainsCi parsed.value "close".toList
          connectionKeepAlive :=
            head.connectionKeepAlive || httpContainsCi parsed.value "keep-alive".toList }
      else head
    let head :=
      if ciEq parsed.name "Transfer-Encoding".toList &&
          httpContainsCi parsed.value "chunked".toList then
        { head with chunked := true }
      else head
    let head :=
      if ciEq parsed.name "Location".toList && head.location.isEmpty then
        { head with location := (value.take (httpMaxUrl - 1)).map filterValue }
      else head
    if head.headers.length < httpMaxHeaders then { head with headers := head.headers ++ [parsed] }
    else head
  else head

def httpStoreHeaders (header : HttpText) : HttpHead :=
  (headerLines (headerLine header).2).foldl storeHeader HttpHead.empty

def httpHexDigit (c : Char) : Option Nat :=
  if isDigit c then some (c.toNat - '0'.toNat)
  else if 'a' ≤ lc c ∧ lc c ≤ 'f' then some (10 + ((lc c).toNat - 'a'.toNat))
  else none

/-- The CRLF after a chunk size, behind an extension or not. -/
def chunkLineEnd (buf : HttpText) : Option HttpText :=
  let buf := if buf.head? = some ';' then skipExtension buf else buf
  if buf.take 2 = crlf then some (buf.drop 2) else none
where
  skipExtension : HttpText → HttpText
    | c :: d :: rest => if c = cr ∧ d = lf then c :: d :: rest else skipExtension (d :: rest)
    | rest => rest

/-- `http_parse_chunk_size` from the digits read so far: the size, and what follows. -/
def chunkSizeFrom (size : Nat) (sawDigit : Bool) : HttpText → Option (Nat × HttpText)
  | [] => none
  | c :: rest =>
    match httpHexDigit c with
    | some hex =>
      if size > (2 ^ 64 - 1) >>> 4 then none else chunkSizeFrom (size * 16 + hex) true rest
    | none => if sawDigit then (chunkLineEnd (c :: rest)).map fun after => (size, after) else none

def httpParseChunkSize (buf : HttpText) : Option (Nat × HttpText) := chunkSizeFrom 0 false buf

/-- `http_chunked_complete`, of a buffer of fewer bytes than `n`. -/
def chunkedCompleteFrom : Nat → HttpText → Bool
  | 0, _ => false
  | n + 1, buf =>
    match httpParseChunkSize buf with
    | none => false
    | some (size, rest) =>
      if size = 0 then decide (rest.take 2 = crlf)
      else if rest.length < 2 ∨ size > rest.length - 2 then false
      else if (rest.drop size).take 2 ≠ crlf then false
      else chunkedCompleteFrom n ((rest.drop size).drop 2)

def httpChunkedComplete (buf : HttpText) : Bool := chunkedCompleteFrom (buf.length + 1) buf

/-- `http_decode_chunked_body`, of a body of fewer bytes than `n`. -/
def decodeChunkedFrom : Nat → HttpText → Option HttpText
  | 0, _ => none
  | n + 1, buf =>
    match httpParseChunkSize buf with
    | none => none
    | some (size, rest) =>
      if size = 0 then some []
      else if size > rest.length then none
      else if (rest.drop size).take 2 ≠ crlf then none
      else (decodeChunkedFrom n ((rest.drop size).drop 2)).map (rest.take size ++ ·)

def httpDecodeChunkedBody (body : HttpText) : Option HttpText := decodeChunkedFrom (body.length + 1) body

/-- Where the first empty line ends. -/
def headerEnd : HttpText → Option Nat
  | [] => none
  | c :: rest =>
    if (c :: rest).take 4 = [cr, lf, cr, lf] then some 4 else (headerEnd rest).map (· + 1)

def httpStatusIsRedirect (status : Nat) : Bool :=
  status == 301 || status == 302 || status == 303 || status == 307 || status == 308

/-- What is known once the header is complete. -/
structure HeaderSeen where
  status : Nat
  head : HttpHead
  headerLen : Nat
  deriving DecidableEq

/-- The result code (none for 0), the status, the headers and the body, with what it was
before its content decoding. -/
structure HttpResult where
  error : Option HttpError
  status : Nat
  head : HttpHead
  undecoded : HttpText
  body : HttpText

/-- A failure: the response keeps what it has, without a body. -/
def HttpResult.fail (error : HttpError) (seen : Option HeaderSeen) : HttpResult :=
  ⟨some error, (seen.map (·.status)).getD 0, (seen.map (·.head)).getD HttpHead.empty, [], []⟩

def HttpHead.find (head : HttpHead) (name : HttpText) : Option HttpText :=
  (head.headers.find? fun h => ciEq h.name name).map (·.value)

/-- `http_set_header_value`: the first field of the name is set. -/
def HttpHead.set (head : HttpHead) (name value : HttpText) : HttpHead :=
  let i := head.headers.findIdx fun h => ciEq h.name name
  { head with headers := head.headers.modify i fun h => { h with value := value } }

/-- `http_response_free`; the status stays. -/
def HttpResult.freed (error : HttpError) (status : Nat) : HttpResult :=
  ⟨some error, status, HttpHead.empty, [], []⟩

variable (decoder : ContentDecoder)

/-- The loop breaks: the response is complete with what is here. -/
def receivedAll (seen : HeaderSeen) (body : HttpText) : Bool :=
  (httpStatusIsRedirect seen.status && seen.head.contentLength == 0 && !seen.head.chunked) ||
    (decide (seen.head.contentLength > 0) && decide (body.length ≥ seen.head.contentLength)) ||
    (seen.head.chunked && httpChunkedComplete body)

/-- The header of a buffer, when it is complete: whether its status line is one. -/
def seeHeader (buf : HttpText) : Option (Bool × HeaderSeen) :=
  (headerEnd buf).map fun n =>
    let status := httpParseStatusLine (cText buf)
    (status.1, ⟨status.2, if status.1 then httpStoreHeaders (buf.take n) else HttpHead.empty, n⟩)

end CapyOS
