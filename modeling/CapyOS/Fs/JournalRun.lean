import CapyOS.Fs.Journal

namespace CapyOS
open Lib Function

/-- The calls on one journal object. Transactions are named by number. -/
inductive JournalCall where
  | begin (t : Nat)
  | logBlock (t : Nat) (target : BitVec 64) (data : Bytes) (offset length : BitVec 32)
  | commit (t : Nat)
  | abort (t : Nat)
  | checkpoint
  | replay (fuel : Nat)
  | init (startBlock blockCount : Nat)
  | setHmacKey (key : List Byte)

/-- The device, the journal object and its transactions, and beside them the sequence
numbers of the transactions committed so far, oldest first. -/
structure JournalWorld where
  dev : BlockDevice
  journal : Journal
  txns : Nat → Option Transaction
  committed : List (BitVec 64)

section
variable (heap : Heap) (hmac : Hmac)

/-- A call on a transaction that was never begun is not made. -/
def JournalCall.run (s : JournalWorld) : JournalCall → JournalWorld
  | .begin i =>
    let r := journalBegin s.journal
    { s with journal := r.1, txns := update s.txns i (some r.2) }
  | .logBlock i target data offset length =>
    match s.txns i with
    | none => s
    | some t =>
      { s with txns := update s.txns i
                (some (journalLogBlock heap s.dev t target data offset length).2) }
  | .commit i =>
    match s.txns i with
    | none => s
    | some t =>
      let r := journalCommit heap hmac s.dev s.journal t
      { dev := s.dev.apply r.2.2.2
        journal := r.2.1
        txns := update s.txns i (some r.2.2.1)
        committed := if r.1 = 0 then s.committed ++ [t.sequence] else s.committed }
  | .abort i =>
    match s.txns i with
    | none => s
    | some t => { s with txns := update s.txns i (some (journalAbort t)) }
  | .checkpoint =>
    let r := journalCheckpoint heap s.dev s.journal
    { s with dev := s.dev.apply r.writes, journal := r.journal }
  | .replay fuel =>
    let r := journalReplay heap hmac fuel s.dev s.journal
    { s with dev := s.dev.apply r.writes, journal := r.journal }
  | .init startBlock blockCount =>
    { s with journal := (journalInit heap s.dev s.journal startBlock blockCount).2 }
  | .setHmacKey key => { s with journal := (journalSetHmacKey s.journal key).2 }

def journalRun (s : JournalWorld) (calls : List JournalCall) : JournalWorld :=
  calls.foldl (JournalCall.run heap hmac) s

end

/-- A journal before its first transaction. -/
def journalWorld (d : BlockDevice) (j : Journal) : JournalWorld := ⟨d, j, fun _ => none, []⟩

/-- The arguments of one `journal_log_block`. -/
structure LoggedBlock where
  target : BitVec 64
  data : Bytes
  offset : BitVec 32
  length : BitVec 32

/-- Blocks logged one after the other, unless a call is refused. -/
def journalLogAll (heap : Heap) (d : BlockDevice) : Transaction → List LoggedBlock → Option Transaction
  | t, [] => some t
  | t, b :: logs =>
    let r := journalLogBlock heap d t b.target b.data b.offset b.length
    if r.1 = 0 then journalLogAll heap d r.2 logs else none

/-- What the arguments ask for: `length` bytes of `data` from `offset` on, the rest of the
block as it was. -/
def LoggedBlock.overlay (b : LoggedBlock) (old : Bytes) : Bytes := fun i =>
  if b.offset.toNat ≤ i ∧ i < b.offset.toNat + b.length.toNat then b.data (i - b.offset.toNat) else old i

/-- The calls of a journal's client. Transactions are named by number, and a
logged block is a full block: offset 0 and the device's block size. -/
inductive WalOp where
  | begin (t : Nat)
  | logBlock (t : Nat) (target : Nat) (data : Bytes)
  | commit (t : Nat)
  | abort (t : Nat)
  | checkpoint

/-- The bytes of a buffer that fit one block. -/
def fullBlock (bs : Nat) (data : Bytes) : Bytes := fun i => if i < bs then data i else 0

/-- The device, the open journal and its transactions, and beside them the
history a client would keep: what each transaction has logged, and what the
transactions committed since the last checkpoint have logged, oldest first. -/
structure WalState where
  dev : BlockDevice
  journal : Journal
  txns : Nat → Option Transaction
  logged : Nat → List Write
  durable : List Write

section
variable (heap : Heap) (hmac : Hmac)

/-- One call, with the block writes it sent. -/
def walStep (s : WalState) : WalOp → WalState × List Write
  | .begin i =>
    let r := journalBegin s.journal
    ({ s with journal := r.1, txns := update s.txns i (some r.2),
              logged := update s.logged i [] }, [])
  | .logBlock i target data =>
    match s.txns i with
    | none => (s, [])
    | some t =>
      let r := journalLogBlock heap s.dev t (BitVec.ofNat 64 target) data 0
        (BitVec.ofNat 32 s.dev.blockSize)
      let s := { s with txns := update s.txns i (some r.2) }
      let block := fullBlock s.dev.blockSize data
      if r.1 = 0 then
        ({ s with logged := update s.logged i (s.logged i ++ [(target, block)]) }, [])
      else (s, [])
  | .commit i =>
    match s.txns i with
    | none => (s, [])
    | some t =>
      let r := journalCommit heap hmac s.dev s.journal t
      let ws := r.2.2.2
      ({ s with dev := s.dev.apply ws, journal := r.2.1,
                txns := update s.txns i (some r.2.2.1),
                durable := if r.1 = 0 then s.durable ++ s.logged i else s.durable }, ws)
  | .abort i =>
    match s.txns i with
    | none => (s, [])
    | some t =>
      ({ s with txns := update s.txns i (some (journalAbort t)),
                logged := update s.logged i [] }, [])
  | .checkpoint =>
    let r := journalCheckpoint heap s.dev s.journal
    ({ s with dev := s.dev.apply r.writes, journal := r.journal, durable := [] }, r.writes)

def walRun (s : WalState) (ops : List WalOp) : WalState :=
  ops.foldl (fun s op => (walStep heap hmac s op).1) s

/-- `journal_init`, the key of an authenticated journal, `journal_replay`.
`old` is the memory the journal object is opened in. -/
def recover (old : Journal) (startBlock blockCount : Nat) (key : List Byte) (fuel : Nat)
    (d : BlockDevice) : ReplayOutcome :=
  let r := journalInit heap d old startBlock blockCount
  if r.1 ≠ 0 then ⟨some (-1), r.2, []⟩
  else journalReplay heap hmac fuel d (journalSetHmacKey r.2 key).2

/-- A recovery that crashes after its first `n` block writes. -/
def recoverCut (old : Journal) (startBlock blockCount : Nat) (key : List Byte) (fuel : Nat)
    (d : BlockDevice) (n : Nat) : BlockDevice :=
  d.apply ((recover heap hmac old startBlock blockCount key fuel d).writes.take n)

end

/-- `journal_format`, or `journal_format_authenticated` when there is a key. -/
def formatAs (heap : Heap) (d : BlockDevice) (old : Journal) (startBlock blockCount : Nat)
    (key : List Byte) : JournalOutcome :=
  if key = [] then journalFormat heap d old startBlock blockCount
  else journalFormatAuthenticated heap d old startBlock blockCount key

/-- The state after a format: no transaction, nothing durable. -/
def walStart (d : BlockDevice) (r : JournalOutcome) : WalState where
  dev := d.apply r.writes
  journal := r.journal
  txns := fun _ => none
  logged := fun _ => []
  durable := []

/-- A run of a freshly formatted journal that crashes in its last call, after
`cut` of that call's block writes, and then again inside each recovery of
`again`, after that many of its writes. -/
structure WalCrash where
  dev : BlockDevice
  /-- The memory the journal object lives in before the format and before a
  recovery. -/
  old : Journal
  startBlock : Nat
  blockCount : Nat
  key : List Byte
  ops : List WalOp
  last : WalOp
  cut : Nat
  again : List Nat

namespace WalCrash
variable (heap : Heap) (hmac : Hmac) (c : WalCrash)

def formatted : JournalOutcome := formatAs heap c.dev c.old c.startBlock c.blockCount c.key

def before : WalState := walRun heap hmac (walStart c.dev (c.formatted heap)) c.ops

def crashed : BlockDevice :=
  (c.before heap hmac).dev.apply ((walStep heap hmac (c.before heap hmac) c.last).2.take c.cut)

/-- What the transactions whose superblock update reached the device since the
last checkpoint have logged. -/
def durable : List Write :=
  let r := walStep heap hmac (c.before heap hmac) c.last
  if c.cut < r.2.length then (c.before heap hmac).durable else r.1.durable

/-- A recovery of the crashed system; memory is not scarce then. -/
def recovery (fuel : Nat) (d : BlockDevice) : ReplayOutcome :=
  recover ampleHeap hmac c.old c.startBlock c.blockCount c.key fuel d

def interrupted (fuel : Nat) : BlockDevice :=
  c.again.foldl (recoverCut ampleHeap hmac c.old c.startBlock c.blockCount c.key fuel)
    (c.crashed heap hmac)

/-- Recovery succeeds, leaves every block outside the region with the latest
durable contents logged for it, or untouched, and ends with the same device
however often it was interrupted. -/
def Recovered (fuel : Nat) : Prop :=
  let d := c.interrupted heap hmac fuel
  (c.recovery hmac fuel d).rc = some 0 ∧
  (∀ b, b < c.dev.blockCount → ¬ (c.startBlock ≤ b ∧ b < c.startBlock + c.blockCount) →
    (d.apply (c.recovery hmac fuel d).writes).blocks b =
      applyWrites c.dev.blocks (c.durable heap hmac) b) ∧
  d.apply (c.recovery hmac fuel d).writes =
    (c.crashed heap hmac).apply (c.recovery hmac fuel (c.crashed heap hmac)).writes

end WalCrash

/-- A logged block goes to a block of the device outside the journal's region. -/
def WalOp.TargetOk (startBlock blockCount devBlocks : Nat) : WalOp → Prop
  | .logBlock _ target _ =>
    target < devBlocks ∧ ¬ (startBlock ≤ target ∧ target < startBlock + blockCount)
  | _ => True

/-- The journal was formatted on a device without errors, and every call of the
run logs to the blocks around the journal's region. -/
structure WalCrash.Proper (heap : Heap) (c : WalCrash) : Prop where
  reliable : c.dev.Reliable
  fits : c.startBlock + c.blockCount ≤ c.dev.blockCount
  formats : (c.formatted heap).rc = 0
  targets : ∀ op ∈ c.ops, op.TargetOk c.startBlock c.blockCount c.dev.blockCount
  target : c.last.TargetOk c.startBlock c.blockCount c.dev.blockCount

end CapyOS
