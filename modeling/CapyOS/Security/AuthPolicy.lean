import CapyOS.Lib.Slots

namespace CapyOS
open Lib

/-- The characters of a C string before its terminator. -/
abbrev Username := List Char

def authMaxTrackedUsers : Nat := 32
def authUsernameMax : Nat := 32
def authDefaultMaxAttempts : Nat := 5
def authDefaultLockoutSeconds : Nat := 300
def authDefaultMinPasswordLength : Nat := 4

structure AuthAttempt where
  username : Username
  failedCount : Nat
  lastFailTick : Nat
  lockoutUntilTick : Nat
  locked : Bool
  deriving DecidableEq

/-- `ap_memset` of an entry to zero. -/
def AuthAttempt.zero : AuthAttempt := ⟨[], 0, 0, 0, false⟩

structure AuthPolicyConfig where
  maxAttempts : Nat
  lockoutDurationTicks : Nat
  minPasswordLength : Nat
  auditEnabled : Bool
  maxAttempts_lt : maxAttempts < 2 ^ 32

/-- `g_attempts` and `g_config`. -/
structure AuthPolicy where
  attempts : Fin authMaxTrackedUsers → AuthAttempt
  config : AuthPolicyConfig

def authPolicyInit : AuthPolicy where
  attempts := fun _ => AuthAttempt.zero
  config :=
    { maxAttempts := authDefaultMaxAttempts
      lockoutDurationTicks := authDefaultLockoutSeconds * 2000000000
      minPasswordLength := authDefaultMinPasswordLength
      auditEnabled := true
      maxAttempts_lt := by decide }

def apStreq (a b : Username) : Bool := decide (a = b)

/-- The string `ap_strcpy` leaves in a field of `max` bytes. -/
def apStrcpy (s : Username) (max : Nat) : Username := s.take (max - 1)

/-- The reset of an entry whose lockout has run out. -/
def AuthAttempt.reclaim (a : AuthAttempt) (now : Nat) : AuthAttempt :=
  if a.locked && decide (now ≥ a.lockoutUntilTick) then { a with locked := false, failedCount := 0 }
  else a

namespace AuthPolicy
variable (p : AuthPolicy)

def authPolicySetConfig (cfg : AuthPolicyConfig) : AuthPolicy :=
  { p with config :=
    { maxAttempts := if cfg.maxAttempts = 0 then authDefaultMaxAttempts else cfg.maxAttempts
      lockoutDurationTicks :=
        if cfg.lockoutDurationTicks = 0 then authDefaultLockoutSeconds * 2000000000
        else cfg.lockoutDurationTicks
      minPasswordLength :=
        if cfg.minPasswordLength = 0 then authDefaultMinPasswordLength else cfg.minPasswordLength
      auditEnabled := cfg.auditEnabled
      maxAttempts_lt := by split; exacts [by decide, cfg.maxAttempts_lt] } }

def setAttempt (i : Fin authMaxTrackedUsers) (a : AuthAttempt) : AuthPolicy :=
  { p with attempts := Function.update p.attempts i a }

def findExisting (username : Username) : Option (Fin authMaxTrackedUsers) :=
  findSlot p.attempts fun a => !a.username.isEmpty && apStreq a.username username

/-- The slot a full table gives up: the entry without a lock that failed the longest
ago, if its tick is below the highest one. -/
def lruIdx : Option (Fin authMaxTrackedUsers) :=
  ((List.finRange authMaxTrackedUsers).foldl
    (fun (lru : Nat × Option (Fin authMaxTrackedUsers)) i =>
      if (p.attempts i).locked then lru
      else if (p.attempts i).lastFailTick < lru.1 then ((p.attempts i).lastFailTick, some i)
      else lru)
    (2 ^ 64 - 1, none)).2

/-- `find_or_alloc`: the slot, if there is one, and the table with the slot taken. -/
def findOrAlloc (now : Nat) (username : Username) : Option (Fin authMaxTrackedUsers) × AuthPolicy :=
  match p.findExisting username with
  | some i => (some i, p)
  | none =>
    match findSlot p.attempts (fun a => a.username.isEmpty) with
    | some i =>
      (some i, p.setAttempt i { p.attempts i with username := apStrcpy username authUsernameMax })
    | none =>
      let p : AuthPolicy := { p with attempts := fun i => (p.attempts i).reclaim now }
      match p.lruIdx with
      | none => (none, p)
      | some i =>
        (some i,
          p.setAttempt i { AuthAttempt.zero with username := apStrcpy username authUsernameMax })

def authPolicyCheckAllowed (now : Nat) (username : Username) : Bool × AuthPolicy :=
  match p.findExisting username with
  | none => (true, p)
  | some i =>
    (!((p.attempts i).reclaim now).locked, p.setAttempt i ((p.attempts i).reclaim now))

/-- The entry cleared by a success or an unlock. -/
def clearAttempt (username : Username) : AuthPolicy :=
  match p.findExisting username with
  | none => p
  | some i => p.setAttempt i { p.attempts i with failedCount := 0, locked := false }

def authPolicyRecordSuccess (username : Username) : AuthPolicy := p.clearAttempt username

def authPolicyUnlock (username : Username) : AuthPolicy := p.clearAttempt username

/-- An entry after one more failure at the tick `now`. -/
def failOnce (a : AuthAttempt) (now : Nat) : AuthAttempt :=
  let count := (a.failedCount + 1) % 2 ^ 32
  if count ≥ p.config.maxAttempts then
    { a with
      failedCount := count, lastFailTick := now, locked := true
      lockoutUntilTick := (now + p.config.lockoutDurationTicks) % 2 ^ 64 }
  else { a with failedCount := count, lastFailTick := now }

def authPolicyRecordFailure (allocTick failTick : Nat) (username : Username) : AuthPolicy :=
  match p.findOrAlloc allocTick username with
  | (none, after) => after
  | (some i, after) => after.setAttempt i (p.failOnce (after.attempts i) failTick)

end AuthPolicy

structure UserRecord where
  username : List Char
  uid : Nat
  gid : Nat
  home : List Char
  salt : List (BitVec 8)
  hash : List (BitVec 8)
  role : List Char
  algoId : Nat
  algoTCost : Nat
  algoMCost : Nat

def userRecordClear : UserRecord :=
  ⟨[], 0, 0, [], List.replicate 16 0, List.replicate 32 0, [], 0, 0, 0⟩

inductive AuthAnswer
  | ok | failed | locked
  deriving DecidableEq

/-- One call of `userdb_authenticate_with_policy`, with what the calls below it do. -/
structure LoginCall where
  username : Username
  /-- Whether `userdb_authenticate` returns 0. -/
  accepted : Bool
  /-- What it leaves in `out`; `none` is a null `out`. -/
  out : Option UserRecord
  /-- The tick the lockout check reads. -/
  checkTick : Nat
  /-- The tick the search of a full table reads. -/
  allocTick : Nat
  /-- The tick a failure is stamped with. -/
  failTick : Nat

namespace AuthPolicy
variable (p : AuthPolicy)

/-- `userdb_authenticate_with_policy`: its answer, what `out` holds, and the policy. -/
def userdbAuthenticateWithPolicy (call : LoginCall) :
    AuthAnswer × Option UserRecord × AuthPolicy :=
  let (allowed, checked) := p.authPolicyCheckAllowed call.checkTick call.username
  if !allowed then (.locked, call.out.map fun _ => userRecordClear, checked)
  else if call.accepted then (.ok, call.out, checked.authPolicyRecordSuccess call.username)
  else
    (.failed, call.out, checked.authPolicyRecordFailure call.allocTick call.failTick call.username)

end AuthPolicy

/-- What is done with the policy. -/
inductive AuthOp
  | login (call : LoginCall)
  | unlock (username : Username)

def AuthOp.username : AuthOp → Username
  | .login call => call.username
  | .unlock username => username

/-- The ticks an operation may read. -/
def AuthOp.ticks : AuthOp → List Nat
  | .login call => [call.checkTick, call.allocTick, call.failTick]
  | .unlock _ => []

def AuthPolicy.step (p : AuthPolicy) : AuthOp → AuthPolicy
  | .login call => (p.userdbAuthenticateWithPolicy call).2.2
  | .unlock username => p.authPolicyUnlock username

def AuthPolicy.run (p : AuthPolicy) (ops : List AuthOp) : AuthPolicy := ops.foldl AuthPolicy.step p

/-- What the operation answers user `u`. -/
def AuthPolicy.answerTo (p : AuthPolicy) (u : Username) : AuthOp → List AuthAnswer
  | .login call => if call.username = u then [(p.userdbAuthenticateWithPolicy call).1] else []
  | .unlock _ => []

/-- The answers to user `u` in a run, oldest first. -/
def AuthPolicy.answersTo (p : AuthPolicy) (u : Username) : List AuthOp → List AuthAnswer
  | [] => []
  | op :: ops => p.answerTo u op ++ (p.step op).answersTo u ops

end CapyOS
