import Mathlib.Data.Finset.Card
import SynchrotronCD.Lib.Assoc

/-!
# The worker pool

Bounded worker pool with per-app FIFO serialization. A producer puts a job into
its app's queue; the dispatcher task takes jobs from the front of the queues of
`ready` apps and spawns handlers; a handler that returns re-enters the state,
frees its app and puts it back on the ready list if more jobs wait.

Every function below runs under the state mutex from its first line to its last,
so one call is one atomic step. The counters behind `stats()` and the wake-ups
sent after the lock is dropped play no part in which job runs when, and are left
out here.
-/

namespace SynchrotronCD

open Lib

/-- What caused this reconcile request. -/
inductive Trigger where
  | webhook
  | poll
  | autoHeal
  | manual
deriving DecidableEq, Repr

/-- Slug for the trigger column of the sync history. -/
def Trigger.asStr : Trigger → String
  | .webhook => "webhook"
  | .poll => "poll"
  | .autoHeal => "auto-heal"
  | .manual => "manual"

structure JobCtx where
  appId : String
  trigger : Trigger
  /-- The `Instant` of the enqueue. -/
  enqueuedAt : Nat
deriving DecidableEq, Repr

namespace WorkerPool

structure PoolConfig where
  /-- Hard cap on concurrent handler invocations. -/
  maxConcurrent : Nat
  /-- Per-app pending queue cap. -/
  perAppQueueCap : Nat
deriving Repr

inductive EnqueueError where
  | shutdown
  | queueFull (appId : String) (cap : Nat)
deriving DecidableEq, Repr

/-- The scheduling state behind the mutex. -/
structure State where
  /-- Per-app pending queues. -/
  apps : HashMap String (List JobCtx)
  /-- Apps with queued work that are not currently in-flight, in dispatch order. -/
  ready : List String
  /-- Apps with a handler currently running. -/
  inFlight : Finset String
  /-- Summed queued depth across every app. -/
  queueDepth : Nat
  shutdown : Bool

/-- The state `WorkerPool::new` builds. -/
def State.new : State := ⟨∅, [], ∅, 0, false⟩

/-- The pending jobs of an app; none if it has no entry. -/
def State.queueOf (s : State) (app : String) : List JobCtx := (s.apps.lookup app).getD []

/-- `apps.entry(app).or_default()`: an entry appears for an app that had none. -/
def orDefault (apps : HashMap String (List JobCtx)) (app : String) : HashMap String (List JobCtx) :=
  if app ∈ apps then apps else apps.insert app []

/-- Shared implementation of `enqueue` and `enqueue_coalesce`. -/
def enqueueImpl (cfg : PoolConfig) (s : State) (app : String) (trigger : Trigger) (now : Nat)
    (coalesce : Bool) : State × Except EnqueueError Bool :=
  if s.shutdown then (s, .error .shutdown)
  else if coalesce && decide (app ∈ s.apps) then (s, .ok false)
  else
    -- the entry is made before the cap is looked at
    let s := { s with apps := orDefault s.apps app }
    let q := s.queueOf app
    if cfg.perAppQueueCap ≤ q.length then (s, .error (.queueFull app cfg.perAppQueueCap))
    else
      let s := { s with
        apps := s.apps.insert app (q ++ [⟨app, trigger, now⟩])
        queueDepth := s.queueDepth + 1 }
      let alreadyReady := s.ready.any (· == app)
      if !decide (app ∈ s.inFlight) && !alreadyReady then
        ({ s with ready := s.ready ++ [app] }, .ok true)
      else (s, .ok true)

def enqueue (cfg : PoolConfig) (s : State) (app : String) (trigger : Trigger) (now : Nat) :
    State × Except EnqueueError Bool := enqueueImpl cfg s app trigger now false

def enqueueCoalesce (cfg : PoolConfig) (s : State) (app : String) (trigger : Trigger) (now : Nat) :
    State × Except EnqueueError Bool := enqueueImpl cfg s app trigger now true

/-- One iteration of the dispatcher's drain loop. -/
def nextDispatch (cfg : PoolConfig) (s : State) : State × Option JobCtx :=
  if s.shutdown then (s, none)
  else if cfg.maxConcurrent ≤ s.inFlight.card then (s, none)
  else
    match s.ready with
    | [] => (s, none)
    | app :: rest =>
      match s.apps.lookup app with
      | some (ctx :: q) =>
        ({ s with
            apps := s.apps.insert app q
            ready := rest
            queueDepth := s.queueDepth - 1
            inFlight := insert app s.inFlight }, some ctx)
      -- defensive: the entry was drained behind the ready list's back
      | _ => ({ s with ready := rest }, none)

/-- The locked section a spawned task runs once its handler has returned. -/
def completeHandler (s : State) (app : String) : State :=
  let s := { s with inFlight := s.inFlight.erase app }
  if ((s.apps.lookup app).map (fun q : List JobCtx => !q.isEmpty)).getD false then
    { s with ready := s.ready ++ [app] }
  else { s with apps := s.apps.erase app }

/-- The locked section of `shutdown`. -/
def setShutdown (s : State) : State := { s with shutdown := true }

/-! ## The pool as a machine -/

/-- What an observer outside the mutex sees happen to a job. -/
inductive JobEvent where
  | accepted (job : JobCtx)
  | started (job : JobCtx)
  | completed (job : JobCtx)
deriving DecidableEq, Repr

/-- The pool, the handlers it has spawned, and the history of its jobs. -/
structure Pool where
  state : State
  /-- Spawned handlers that have not been through their completion section. -/
  running : List JobCtx
  /-- Proof-only: everything that ever happened to a job, oldest first. -/
  log : List JobEvent

def Pool.new : Pool := ⟨State.new, [], []⟩

/-- One atomic step, by whichever task takes the mutex next. -/
inductive Action where
  | enqueue (app : String) (trigger : Trigger) (now : Nat)
  | enqueueCoalesce (app : String) (trigger : Trigger) (now : Nat)
  | nextDispatch
  | complete (job : JobCtx)
  | shutdown
deriving Repr

/-- Run an enqueue and record the job if it was accepted. -/
def Pool.enqueue (cfg : PoolConfig) (p : Pool) (app : String) (trigger : Trigger) (now : Nat)
    (coalesce : Bool) : Pool :=
  match enqueueImpl cfg p.state app trigger now coalesce with
  | (s, .ok true) => { p with state := s, log := p.log ++ [.accepted ⟨app, trigger, now⟩] }
  | (s, _) => { p with state := s }

/-- Take the next job, if any, and spawn its handler. -/
def Pool.dispatch (cfg : PoolConfig) (p : Pool) : Pool :=
  match nextDispatch cfg p.state with
  | (s, some ctx) =>
    { state := s, running := p.running ++ [ctx], log := p.log ++ [.started ctx] }
  | (s, none) => { p with state := s }

/-- A running handler returns. -/
def Pool.complete (p : Pool) (job : JobCtx) : Pool :=
  if job ∈ p.running then
    { state := completeHandler p.state job.appId
      running := p.running.erase job
      log := p.log ++ [.completed job] }
  else p

def step (cfg : PoolConfig) (p : Pool) : Action → Pool
  | .enqueue app trigger now => p.enqueue cfg app trigger now false
  | .enqueueCoalesce app trigger now => p.enqueue cfg app trigger now true
  | .nextDispatch => p.dispatch cfg
  | .complete job => p.complete job
  | .shutdown => { p with state := setShutdown p.state }

/-! ## What a history says about one app -/

/-- The jobs of `app` that were accepted, in order. -/
def acceptedOf (app : String) : List JobEvent → List JobCtx :=
  List.filterMap fun
    | .accepted j => if j.appId = app then some j else none
    | _ => none

/-- The jobs of `app` that were started, in order. -/
def startedOf (app : String) : List JobEvent → List JobCtx :=
  List.filterMap fun
    | .started j => if j.appId = app then some j else none
    | _ => none

/-- The jobs of `app` that completed, in order. -/
def completedOf (app : String) : List JobEvent → List JobCtx :=
  List.filterMap fun
    | .completed j => if j.appId = app then some j else none
    | _ => none

/-- The jobs of `app` whose handlers are running. -/
def Pool.runningOf (p : Pool) (app : String) : List JobCtx :=
  p.running.filter (fun j => j.appId = app)

end WorkerPool

end SynchrotronCD
