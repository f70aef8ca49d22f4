import CapyOS.Lib.Numerals

namespace CapyOS

/-- `enum system_service_id`. -/
inductive ServiceId where
  | logger | networkd | updateAgent | capypkg
  deriving DecidableEq, Repr

def ServiceId.index : ServiceId → Nat
  | .logger => 0
  | .networkd => 1
  | .updateAgent => 2
  | .capypkg => 3

/-- The ids in the order of the loops over `SYSTEM_SERVICE_COUNT`. -/
def ServiceId.all : List ServiceId := [.logger, .networkd, .updateAgent, .capypkg]

/-- `enum system_service_target_id`. -/
inductive ServiceTarget where
  | core | network | maintenance | full
  deriving DecidableEq, Repr

/-- `service_mask` of the targets, as `service_manager_bootstrap_defaults` seeds them. -/
def ServiceTarget.serviceMask : ServiceTarget → BitVec 32
  | .core => 1
  | .network => 3
  | .maintenance => 7
  | .full => 15

/-- `enum system_service_state`. -/
inductive ServiceState where
  | unknown | starting | ready | degraded | blocked | stopped
  deriving DecidableEq, Repr

/-- `struct system_service_status`, what the polls read and write of it. -/
structure SystemServiceStatus where
  summary : String
  state : ServiceState
  lastResult : Int
  transitions : BitVec 32
  polls : BitVec 32
  pollIntervalTicks : BitVec 32
  failures : BitVec 32
  restarts : BitVec 32
  backoffTicks : BitVec 32

/-- `struct service_poll_binding`; the callbacks are given as there or not. -/
structure ServicePollBinding where
  poll : Bool
  start : Bool
  stop : Bool
  intervalTicks : BitVec 32
  nextDueTick : BitVec 64
  dependencyMask : BitVec 32
  restartLimit : BitVec 32
  restartAttempts : BitVec 32
  consecutiveFailures : BitVec 32
  restartPending : Bool

/-- What the polls did: a poll callback's result (at a tick when `service_manager_poll_due`
made it) with the failures in a row it would make, a stop callback's result, and a restart
that was applied. -/
inductive ServiceEvent where
  | polled (id : ServiceId) (tick : Option (BitVec 64)) (failures : Nat) (rc : Int)
  | stopped (id : ServiceId) (rc : Int)
  | restarted (id : ServiceId)
  deriving DecidableEq, Repr

/-- A call of `service_manager_set_state`. -/
structure StateCall where
  id : ServiceId
  state : ServiceState
  lastResult : Int
  summary : Option String

/-- What a callback returns, after the calls it makes. -/
structure Callback where
  rc : Int
  calls : List StateCall

structure ServiceCallbacks where
  poll : Callback
  start : Callback
  stop : Callback

/-- `g_services`, `g_service_polls` and `g_current_target`. The log is not in the source. -/
structure ServiceManager where
  services : ServiceId → SystemServiceStatus
  polls : ServiceId → ServicePollBinding
  currentTarget : ServiceTarget
  log : List ServiceEvent

def systemServiceSummaryMax : Nat := 80

def serviceBackoffTicks (interval consecutiveFailures : BitVec 32) : BitVec 32 :=
  let base := if interval ≠ 0 then interval else 1
  let shift := if consecutiveFailures > 5 then 5 else consecutiveFailures
  base <<< shift

/-- The interval, with 1 for 0. -/
def ServicePollBinding.interval (b : ServicePollBinding) : BitVec 32 := if b.intervalTicks ≠ 0 then b.intervalTicks else 1

namespace ServiceManager
variable (m : ServiceManager)

def setService (id : ServiceId) (svc : SystemServiceStatus) : ServiceManager :=
  { m with services := Function.update m.services id svc }

def setBinding (id : ServiceId) (b : ServicePollBinding) : ServiceManager :=
  { m with polls := Function.update m.polls id b }

def note (e : ServiceEvent) : ServiceManager := { m with log := m.log ++ [e] }

/-- `service_manager_set_state`. -/
def setState (id : ServiceId) (state : ServiceState) (lastResult : Int) (summary : Option String) : ServiceManager :=
  let svc := m.services id
  let changed := svc.state ≠ state ∨ svc.lastResult ≠ lastResult ∨ (summary.getD "") ≠ ""
  m.setService id
    { svc with
      transitions := if changed then svc.transitions + 1 else svc.transitions
      state := state
      lastResult := lastResult
      summary := match summary with
        | some text => String.ofList (text.toList.take (systemServiceSummaryMax - 1))
        | none => svc.summary }

/-- The state after a callback. -/
def runCallback (c : Callback) : ServiceManager :=
  c.calls.foldl (fun m call => m.setState call.id call.state call.lastResult call.summary) m

/-- `service_dependencies_ready`. -/
def dependenciesReady (mask : BitVec 32) : Bool :=
  ServiceId.all.all fun id => !mask.getLsbD id.index || (m.services id).state = .ready

/-- `service_pollable`. -/
def pollable (id : ServiceId) : Bool :=
  (m.polls id).poll && m.currentTarget.serviceMask.getLsbD id.index && (m.services id).state ≠ .blocked &&
    (m.services id).state ≠ .stopped

/-- The writes of `next_due_tick`, which only `service_manager_poll_due` asks for. -/
def setDue (id : ServiceId) (updateDueTick : Bool) (tick : BitVec 64) : ServiceManager :=
  if updateDueTick then m.setBinding id { m.polls id with nextDueTick := tick } else m

def setBackoff (id : ServiceId) (ticks : BitVec 32) : ServiceManager :=
  m.setService id { m.services id with backoffTicks := ticks }

/-- `service_maybe_wait_dependencies`: the state where it returns 1. -/
def maybeWaitDependencies (id : ServiceId) (now : BitVec 64) (updateDueTick : Bool) : Option ServiceManager :=
  let b := m.polls id
  if b.dependencyMask = 0 ∨ m.dependenciesReady b.dependencyMask then none
  else some ((m.setState id .starting (-3) (some "waiting for dependencies")).setDue id updateDueTick (now + b.interval.setWidth 64))

/-- A start callback that failed. -/
def restartFailed (id : ServiceId) (now : BitVec 64) (updateDueTick : Bool) (rc : Int) : ServiceManager :=
  let b := m.polls id
  let ticks := serviceBackoffTicks b.interval b.restartAttempts
  (((m.setBinding id { b with restartPending := true }).setBackoff id ticks).setDue id updateDueTick
    (now + ticks.setWidth 64)).setState id .degraded rc (some "service restart failed")

/-- A restart that is applied. -/
def restartApplied (id : ServiceId) (now : BitVec 64) (updateDueTick : Bool) : ServiceManager :=
  let b := m.polls id
  let m := m.setBinding id { b with consecutiveFailures := 0, restartAttempts := 0 }
  let m := m.setService id { m.services id with backoffTicks := 0, restarts := (m.services id).restarts + 1 }
  ((m.setState id .starting 0 (some "service restart applied")).setDue id updateDueTick (now + b.interval.setWidth 64)).note
    (.restarted id)

/-- `service_run_pending_restart`: the state where it returns 1. -/
def runPendingRestart (id : ServiceId) (now : BitVec 64) (updateDueTick : Bool) (a : ServiceCallbacks) :
    Option ServiceManager :=
  if !(m.polls id).restartPending then none
  else
    match m.maybeWaitDependencies id now updateDueTick with
    | some m => some m
    | none =>
      let m := m.setBinding id { m.polls id with restartPending := false }
      if (m.polls id).start then
        let m := m.runCallback a.start
        if a.start.rc < 0 then some (m.restartFailed id now updateDueTick a.start.rc)
        else some (m.restartApplied id now updateDueTick)
      else some (m.restartApplied id now updateDueTick)

/-- A poll that failed and schedules a restart: its stop callback and what follows. -/
def scheduleRestart (id : ServiceId) (now : BitVec 64) (updateDueTick : Bool) (a : ServiceCallbacks) : ServiceManager :=
  let m := (m.runCallback a.stop).note (.stopped id a.stop.rc)
  if a.stop.rc < 0 then m.setState id .degraded a.stop.rc (some "service stop failed during recovery")
  else
    let b := m.polls id
    let ticks := serviceBackoffTicks b.interval (b.consecutiveFailures - 1)
    ((((m.setBinding id { b with restartAttempts := b.restartAttempts + 1, restartPending := true }).setBackoff id ticks).setDue
      id updateDueTick (now + ticks.setWidth 64)).setState id .starting a.poll.rc (some "service restart scheduled after failure"))

/-- A poll that failed and schedules none. -/
def pollDegraded (id : ServiceId) (now : BitVec 64) (updateDueTick : Bool) (a : ServiceCallbacks) : ServiceManager :=
  let b := m.polls id
  let svc := m.services id
  let m :=
    if svc.state ≠ .blocked ∧ svc.state ≠ .stopped then
      m.setState id .degraded a.poll.rc
        (if b.restartLimit ≠ 0 ∧ b.start ∧ b.stop ∧ b.restartAttempts ≥ b.restartLimit then some "service restart limit reached"
        else none)
    else m.setService id { svc with lastResult := a.poll.rc }
  let ticks := serviceBackoffTicks b.interval (b.consecutiveFailures - 1)
  (m.setBackoff id ticks).setDue id updateDueTick (now + ticks.setWidth 64)

/-- The poll callback and what follows. -/
def pollService (id : ServiceId) (now : BitVec 64) (updateDueTick : Bool) (a : ServiceCallbacks) : ServiceManager :=
  let m := m.runCallback a.poll
  let m := m.setService id { m.services id with polls := (m.services id).polls + 1 }
  let b := m.polls id
  let m := m.note (.polled id (if updateDueTick then some now else none) (b.consecutiveFailures.toNat + 1) a.poll.rc)
  if a.poll.rc < 0 then
    let m := m.setBinding id { b with consecutiveFailures := b.consecutiveFailures + 1 }
    let m := m.setService id { m.services id with failures := (m.services id).failures + 1 }
    if b.restartLimit ≠ 0 ∧ b.start ∧ b.stop ∧ b.restartAttempts < b.restartLimit then m.scheduleRestart id now updateDueTick a
    else m.pollDegraded id now updateDueTick a
  else
    ((m.setBinding id { b with consecutiveFailures := 0, restartAttempts := 0 }).setBackoff id 0).setDue id updateDueTick
      (now + b.interval.setWidth 64)

/-- `service_execute_poll`. -/
def executePoll (id : ServiceId) (now : BitVec 64) (updateDueTick : Bool) (a : ServiceCallbacks) : Nat × ServiceManager :=
  if !m.pollable id then (0, m)
  else
    match m.runPendingRestart id now updateDueTick a with
    | some m => (1, m)
    | none =>
      match m.maybeWaitDependencies id now updateDueTick with
      | some m => (0, m)
      | none => (1, m.pollService id now updateDueTick a)

/-- The turn of a service in `service_manager_poll_due`. -/
def dueTurn (now : BitVec 64) (a : ServiceId → ServiceCallbacks) (polled : Nat) (id : ServiceId) : Nat × ServiceManager :=
  if !m.pollable id then (polled, m)
  else if now < (m.polls id).nextDueTick then (polled, m)
  else
    let (n, m) := m.executePoll id now true (a id)
    (polled + n, m.setService id { m.services id with pollIntervalTicks := (m.polls id).interval })

end ServiceManager

def serviceManagerPollOnce (a : ServiceId → ServiceCallbacks) (m : ServiceManager) : Nat × ServiceManager :=
  ServiceId.all.foldl (fun (polled, m) id =>
    let (n, m) := m.executePoll id 0 false (a id)
    (polled + n, m)) (0, m)

def serviceManagerPollDue (now : BitVec 64) (a : ServiceId → ServiceCallbacks) (m : ServiceManager) : Nat × ServiceManager :=
  ServiceId.all.foldl (fun (polled, m) id => m.dueTurn now a polled id) (0, m)

/-- A call of one of the two, with what the callbacks do in it. -/
inductive PollCall where
  | once (a : ServiceId → ServiceCallbacks)
  | due (now : BitVec 64) (a : ServiceId → ServiceCallbacks)

def PollCall.step (m : ServiceManager) : PollCall → ServiceManager
  | .once a => (serviceManagerPollOnce a m).2
  | .due now a => (serviceManagerPollDue now a m).2

def servicePolls (m : ServiceManager) (calls : List PollCall) : ServiceManager := calls.foldl PollCall.step m

end CapyOS
