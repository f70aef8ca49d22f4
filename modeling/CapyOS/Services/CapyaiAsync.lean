import CapyOS.Lib.Bytes

namespace CapyOS
open Lib

/-- `enum capyai_async_status`. -/
inductive AsyncStatus where
  | idle | queued | running | done | failed
  deriving DecidableEq, Repr

/-- `enum capyai_async_result`. -/
inductive AsyncResult where
  | ok | errInvalid | errBusy | errUnavailable | errStale
  deriving DecidableEq, Repr

/-- A request: the intent, the generation of the client, and `ρ` for the permissions, the
session and the callbacks. -/
structure AsyncRequest (ρ : Type) where
  intent : List Byte
  clientGeneration : Nat
  rest : ρ

/-- A response, with `β` for plan, result, session and summary. -/
structure AsyncResponse (β : Type) where
  jobId : Nat
  clientGeneration : Nat
  failed : Bool
  body : β

def capyaiAsyncIntentMax : Nat := 256

/-- The last byte of the intent is made a NUL. -/
def AsyncRequest.terminated {ρ : Type} (r : AsyncRequest ρ) : AsyncRequest ρ :=
  { r with intent := r.intent.set (capyaiAsyncIntentMax - 1) 0 }

/-- Where a submit call stands between two critical sections: before `worker_pool_create`,
before it looks for a free slot, before `worker_pool_submit`, before it takes back a job
that the pool refused, and at its end. -/
inductive SubmitPhase where
  | creating
  | reserving
  | submitting (id : Nat)
  | refused (id : Nat)
  | returned (result : AsyncResult) (id : Option Nat)
  deriving DecidableEq, Repr

structure SubmitCall (ρ : Type) where
  request : AsyncRequest ρ
  phase : SubmitPhase

/-- A worker that took a job and has not finished it. -/
structure WorkerJob (ρ : Type) where
  jobId : Nat
  request : AsyncRequest ρ

/-- `g_async`, the submit calls so far, the worker entries in the pool's queue and those that
took a job. The last four fields are not in the source: the jobs that got an id, those a
worker took, those that `capyai_async_poll` returned and those detached before their end. -/
structure AsyncRuntime (ρ β : Type) where
  initialized : Bool
  initializing : Bool
  state : AsyncStatus
  nextJobId : Nat
  currentJobId : Nat
  detached : Bool
  request : Option (AsyncRequest ρ)
  response : Option (AsyncResponse β)
  calls : List (SubmitCall ρ)
  entries : Nat
  workers : List (WorkerJob ρ)
  reserved : List (Nat × AsyncRequest ρ)
  executed : List Nat
  delivered : List (Nat × AsyncResponse β)
  dropped : List Nat

/-- `capyai_execute_intent_v2` and what is made of its outcome, for a request and the world
it meets: if it failed, and the body of the response. -/
structure AsyncEnv (ρ β ω : Type) where
  execute : AsyncRequest ρ → ω → Bool × β

namespace AsyncRuntime
variable {ρ β ω : Type} (s : AsyncRuntime ρ β) (env : AsyncEnv ρ β ω)

def initial : AsyncRuntime ρ β :=
  ⟨false, false, .idle, 1, 0, false, none, none, [], 0, [], [], [], [], []⟩

def setPhase (k : Nat) (c : SubmitCall ρ) (phase : SubmitPhase) : AsyncRuntime ρ β :=
  { s with calls := s.calls.set k { c with phase := phase } }

/-- `capyai_async_submit_normalized` up to the end of the first critical section of
`capyai_async_init`. -/
def submitNormalized (request : AsyncRequest ρ) : AsyncRuntime ρ β :=
  let call (phase : SubmitPhase) := s.calls ++ [⟨request, phase⟩]
  if request.intent.head? = some 0 then { s with calls := call (.returned .errInvalid none) }
  else if s.initialized then { s with calls := call .reserving }
  else if s.initializing then { s with calls := call (.returned .errUnavailable none) }
  else { s with initializing := true, state := .idle, nextJobId := if s.nextJobId = 0 then 1 else s.nextJobId, calls := call .creating }

/-- `capyai_async_submit_v2`. `capyai_async_submit` fills in the version and the size. -/
def capyaiAsyncSubmitV2 (versionOk sizeOk : Bool) (request : AsyncRequest ρ) : AsyncRuntime ρ β :=
  if !versionOk ∨ !sizeOk then { s with calls := s.calls ++ [⟨request, .returned .errInvalid none⟩] }
  else s.submitNormalized request

/-- The second critical section of `capyai_async_init`. -/
def created (ok : Bool) (k : Nat) (c : SubmitCall ρ) : AsyncRuntime ρ β :=
  if ok then { s with initialized := true, initializing := false }.setPhase k c .reserving
  else { s with initializing := false }.setPhase k c (.returned .errUnavailable none)

/-- The id a job gets, and the next one: 0 is passed over. -/
def takeId : Nat × Nat :=
  let next := (s.nextJobId + 1) % 2 ^ 64
  if s.nextJobId = 0 then (next, (next + 1) % 2 ^ 64) else (s.nextJobId, next)

def reserve (k : Nat) (c : SubmitCall ρ) : AsyncRuntime ρ β :=
  if s.state ≠ .idle then s.setPhase k c (.returned .errBusy none)
  else
    { s with
      nextJobId := s.takeId.2
      request := some c.request.terminated
      currentJobId := s.takeId.1
      detached := false
      state := .queued
      reserved := s.reserved ++ [(s.takeId.1, c.request.terminated)] }.setPhase k c (.submitting s.takeId.1)

/-- `worker_pool_submit`. -/
def poolSubmit (ok : Bool) (k : Nat) (c : SubmitCall ρ) (id : Nat) : AsyncRuntime ρ β :=
  if ok then { s with entries := s.entries + 1 }.setPhase k c (.returned .ok (some id))
  else s.setPhase k c (.refused id)

/-- The critical section after a refused submission. -/
def takeBack (k : Nat) (c : SubmitCall ρ) (id : Nat) : AsyncRuntime ρ β :=
  (if s.currentJobId = id ∧ s.state = .queued then { s with state := .idle, currentJobId := 0, request := none } else s).setPhase
    k c (.returned .errUnavailable none)

/-- The next step of a submit call; `ok` is what the pool answers. -/
def submitTurn (ok : Bool) (k : Nat) : AsyncRuntime ρ β :=
  match s.calls[k]? with
  | none => s
  | some c =>
    match c.phase with
    | .creating => s.created ok k c
    | .reserving => s.reserve k c
    | .submitting id => s.poolSubmit ok k c id
    | .refused id => s.takeBack k c id
    | .returned _ _ => s

/-- `capyai_async_worker` up to the end of its first critical section. -/
def workerStart : AsyncRuntime ρ β :=
  if s.entries = 0 then s
  else
    let s := { s with entries := s.entries - 1 }
    match s.state, s.request with
    | .queued, some request =>
      { s with
        state := .running
        workers := s.workers ++ [⟨s.currentJobId, request⟩]
        executed := s.executed ++ [s.currentJobId] }
    | _, _ => s

/-- The slot as it is left when its job is gone. -/
def clear : AsyncRuntime ρ β :=
  { s with state := .idle, currentJobId := 0, detached := false, request := none, response := none }

/-- The response that a worker computes for its request. -/
def respond (w : WorkerJob ρ) (world : ω) : AsyncResponse β :=
  ⟨w.jobId, w.request.clientGeneration, (env.execute w.request world).1, (env.execute w.request world).2⟩

/-- The second critical section of `capyai_async_worker`. -/
def workerFinish (k : Nat) (world : ω) : AsyncRuntime ρ β :=
  match s.workers[k]? with
  | none => s
  | some w =>
    let response : AsyncResponse β := respond env w world
    let s := { s with workers := s.workers.eraseIdx k }
    if s.currentJobId = w.jobId then
      if s.detached then s.clear
      else { s with response := some response, state := if response.failed then .failed else .done }
    else s

/-- The result of `capyai_async_poll`: 1 for a response, 0 for none yet. -/
def capyaiAsyncPoll (id : Nat) : (Nat ⊕ AsyncResult) × AsyncRuntime ρ β :=
  if id = 0 then (.inr .errInvalid, s)
  else if s.currentJobId ≠ id then (.inr .errStale, s)
  else if s.state = .queued ∨ s.state = .running then (.inl 0, s)
  else if s.state ≠ .done ∧ s.state ≠ .failed then (.inr .errStale, s)
  else (.inl 1, { s with delivered := s.delivered ++ s.response.toList.map fun r => (id, r) }.clear)

def capyaiAsyncDetach (id : Nat) : AsyncResult × AsyncRuntime ρ β :=
  if id = 0 then (.errInvalid, s)
  else if s.currentJobId ≠ id then (.errStale, s)
  else if s.state = .done ∨ s.state = .failed then (.ok, s.clear)
  else (.ok, { s with detached := true, dropped := s.dropped ++ [id] })

end AsyncRuntime

inductive AsyncOp (ρ ω : Type) where
  | submit (request : AsyncRequest ρ)
  | submitV2 (versionOk sizeOk : Bool) (request : AsyncRequest ρ)
  | submitTurn (ok : Bool) (k : Nat)
  | workerStart
  | workerFinish (k : Nat) (world : ω)
  | poll (id : Nat)
  | detach (id : Nat)

variable {ρ β ω : Type}

def asyncStep (env : AsyncEnv ρ β ω) (s : AsyncRuntime ρ β) : AsyncOp ρ ω → AsyncRuntime ρ β
  | .submit request => s.submitNormalized request
  | .submitV2 versionOk sizeOk request => s.capyaiAsyncSubmitV2 versionOk sizeOk request
  | .submitTurn ok k => s.submitTurn ok k
  | .workerStart => s.workerStart
  | .workerFinish k world => s.workerFinish env k world
  | .poll id => (s.capyaiAsyncPoll id).2
  | .detach id => (s.capyaiAsyncDetach id).2

/-- The states that any interleaving of the parties' steps reaches. -/
inductive AsyncRun (env : AsyncEnv ρ β ω) : AsyncRuntime ρ β → Prop where
  | init : AsyncRun env .initial
  | step {s : AsyncRuntime ρ β} (op : AsyncOp ρ ω) (h : AsyncRun env s) : AsyncRun env (asyncStep env s op)

end CapyOS
