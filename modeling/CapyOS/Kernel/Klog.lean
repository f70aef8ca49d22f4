import CapyOS.Lib.Numerals

namespace CapyOS

/-- A string without its NUL. -/
abbrev KText := List Char

def klogLineMax : Nat := 128

abbrev klogRingLines : Nat := 256

def klogRingBytes : Nat := klogLineMax * klogRingLines

/-- `sizeof(g_klog_serial_buf)` -/
def klogSerialBytes : Nat := klogRingBytes + klogLineMax + 1

/-- `klog_append_str` in a buffer of `cap` bytes. -/
def klogAppendStr (cap : Nat) (buf s : KText) : KText := (buf ++ s).take (cap - 1)

def klogHexDigit (n : Nat) : Char := "0123456789ABCDEF".toList.getD n '0'

/-- `klog_append_hex`: the digits from the first that is not zero. -/
def klogAppendHex (cap : Nat) (buf : KText) (val : BitVec 64) : KText :=
  if val = 0 then klogAppendStr cap buf ['0']
  else
    let digits := (List.range 16).map fun k => klogHexDigit ((val >>> (60 - 4 * k)) &&& 0xF).toNat
    klogAppendStr cap buf (digits.dropWhile (· = '0'))

def klogAppendDec (cap : Nat) (buf : KText) (val : Nat) : KText := klogAppendStr cap buf (Nat.toDigits 10 val)

def klogLevelTag (level : Int) : KText :=
  if level = 0 then "DBG".toList
  else if level = 1 then "INF".toList
  else if level = 2 then "WRN".toList
  else if level = 3 then "ERR".toList
  else "???".toList

/-- `klog_begin_entry` in an empty slot, at a tick of the timer. -/
def klogBeginEntry (tick : Nat) (level : Int) : KText :=
  let slot := klogAppendStr klogLineMax [] "[".toList
  let slot := klogAppendDec klogLineMax slot (tick % 2 ^ 32)
  let slot := klogAppendStr klogLineMax slot "] [".toList
  let slot := klogAppendStr klogLineMax slot (klogLevelTag level)
  klogAppendStr klogLineMax slot "] ".toList

structure Klog where
  ring : Fin klogRingLines → KText
  head : Fin klogRingLines
  count : Nat
  total : Nat
  flushedTotal : Nat

/-- `klog_reset`, and the state at boot. -/
def klogReset : Klog := ⟨fun _ => [], 0, 0, 0, 0⟩

/-- The calls, with the tick that the timer shows. The writer of a flush is what it returns,
if there is one. -/
inductive KlogCall where
  | klog (tick : Nat) (level : Int) (msg : Option KText)
  | klogHex (tick : Nat) (level : Int) (pre : Option KText) (value : BitVec 64)
  | klogDec (tick : Nat) (level : Int) (pre : Option KText) (value : BitVec 32)
  | flush (writer : Option Int)

/-- The line that a call puts into its slot. -/
def KlogCall.line : KlogCall → Option KText
  | .klog tick level msg => some (klogAppendStr klogLineMax (klogBeginEntry tick level) (msg.getD []))
  | .klogHex tick level pre value =>
    let slot := klogAppendStr klogLineMax (klogBeginEntry tick level) (pre.getD [])
    some (klogAppendHex klogLineMax (klogAppendStr klogLineMax slot "0x".toList) value)
  | .klogDec tick level pre value =>
    let slot := klogAppendStr klogLineMax (klogBeginEntry tick level) (pre.getD [])
    some (klogAppendDec klogLineMax slot value.toNat)
  | .flush _ => none

namespace Klog
variable (k : Klog)

/-- The line into the slot at the head, and `klog_commit_entry`. -/
def commit (line : KText) : Klog :=
  { k with
    ring := Function.update k.ring k.head line
    head := k.head + 1
    count := if k.count < klogRingLines then k.count + 1 else k.count
    total := (k.total + 1) % 2 ^ 32 }

/-- `klog_oldest_total` -/
def oldestTotal : Nat := if k.total > k.count then k.total - k.count else 0

/-- `klog_serialize_range` behind what the buffer holds. -/
def serializeRange (startTotal endTotal : Nat) (buf : KText) : KText :=
  (List.range' startTotal (endTotal - startTotal)).foldl
    (fun buf total =>
      klogAppendStr klogSerialBytes (klogAppendStr klogSerialBytes buf (k.ring (Fin.ofNat klogRingLines total))) "\n".toList)
    buf

def serialize : KText := if k.count = 0 then [] else k.serializeRange k.oldestTotal k.total []

/-- The line that tells of lost entries. -/
def lostLine (lost : Nat) : KText :=
  let buf := klogAppendStr klogSerialBytes [] "[0] [WRN] klog lost ".toList
  let buf := klogAppendDec klogSerialBytes buf lost
  klogAppendStr klogSerialBytes buf " entries before flush\n".toList

/-- The text that `klog_flush` hands to the writer. -/
def flushText : KText :=
  let lost := if k.flushedTotal < k.oldestTotal then lostLine (k.oldestTotal - k.flushedTotal) else []
  let startTotal := if k.flushedTotal < k.oldestTotal then k.oldestTotal else k.flushedTotal
  if startTotal < k.total then k.serializeRange startTotal k.total lost else lost

/-- `klog_flush`: what it returns, the text that was passed to the writer, and the log. -/
def flush (writer : Option Int) : Int × Option KText × Klog :=
  match writer with
  | none => (-1, none, k)
  | some rc =>
    if k.total = 0 then (0, none, k)
    else if k.flushText = [] then (0, none, k)
    else (rc, some k.flushText, if rc = 0 then { k with flushedTotal := k.total } else k)

end Klog

/-- The log with the lines that were logged, and the texts of the flushes that succeeded. -/
structure KlogTrace where
  log : Klog
  logged : List KText
  flushed : List KText

def KlogTrace.step (t : KlogTrace) (call : KlogCall) : KlogTrace :=
  match call with
  | .flush writer =>
    match t.log.flush writer with
    | (0, some text, log) => { t with log := log, flushed := t.flushed ++ [text] }
    | (_, _, log) => { t with log := log }
  | call =>
    match call.line with
    | some line => { t with log := t.log.commit line, logged := t.logged ++ [line] }
    | none => t

def KlogTrace.run (t : KlogTrace) (calls : List KlogCall) : KlogTrace := calls.foldl KlogTrace.step t

/-- Calls of the log since boot, one after the other. -/
def klogTrace (calls : List KlogCall) : KlogTrace := KlogTrace.run ⟨klogReset, [], []⟩ calls

end CapyOS
