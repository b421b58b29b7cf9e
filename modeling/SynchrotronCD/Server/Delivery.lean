import SynchrotronCD.Lib.Runs
import SynchrotronCD.Reconcile.DesiredStore
import SynchrotronCD.Reconcile.Trigger
import SynchrotronCD.Reconcile.WorkerPoolProof

/-!
# Delivery of desired-state updates

Four actors between a rendered commit and the reconcile that acts on it: the
render loop puts the manifests into the store and then publishes a sync request;
the trigger takes the oldest event off the bus and enqueues, coalescing; the
dispatcher starts a handler; the handler reads the store and, some time later,
completes. Anything else may publish events as well. Every step of each may fall
between any two steps of the others.

An update is delivered once a handler that started after it was put has read it.
The ghost fields remember the puts of each app, what was read, and for each sync
request which put it announces.

A request that finds a job waiting may be dropped: that job has yet to start. A
request that finds only a running handler is dropped as well, and then everything
depends on whether that handler started after the put (`Lands`).
-/

namespace SynchrotronCD

open Lib WorkerPool

namespace Delivery

/-- A read of the desired state by a handler. -/
structure Read where
  app : AppName
  /-- How many puts of the app there had been when the handler started. -/
  started : Nat
  seen : Except SourceError (List Manifest)

/-- What is known of the handler of an app, while it has one. -/
structure Handler where
  started : Nat
  hasRead : Bool
deriving DecidableEq, Repr

structure State where
  store : DesiredStore
  /-- The app whose sync request the render loop publishes next. -/
  owed : Option AppName
  /-- Events not yet dispatched, oldest first. Proof-only: the number of the put that a
  sync request of the render loop announces; 0 for everyone else's events. -/
  bus : List (SystemEvent × Nat)
  pool : Pool
  handlers : AppName → Handler
  /-- Proof-only: the puts of each app, oldest first. -/
  history : AppName → List DesiredEntry
  /-- Proof-only: every read of the desired state. -/
  reads : List Read

def State.new : State where
  store := ∅
  owed := none
  bus := []
  pool := Pool.new
  handlers _ := ⟨0, false⟩
  history _ := []
  reads := []

/-- One step of one actor. -/
inductive Event where
  /-- The render loop puts a version; it does so only once it owes no sync request. -/
  | put (app : AppName) (manifests : List Manifest) (revision : Option String)
  /-- The render loop publishes the sync request for its last put. -/
  | publish
  /-- Some other component publishes an event. -/
  | notify (e : SystemEvent)
  /-- The trigger takes the oldest event and dispatches it. -/
  | deliver (now : Nat)
  /-- The dispatcher starts the next job, if it can. -/
  | start
  /-- The running handler of an app reads the desired state. -/
  | read (app : AppName)
  /-- A handler that has read the desired state completes. -/
  | complete (job : JobCtx)

/-- The dispatcher's step; a handler that starts has read nothing yet. -/
def startNext (cfg : PoolConfig) (s : State) : State :=
  match nextDispatch cfg s.pool.state with
  | (_, some ctx) =>
    { s with
      pool := s.pool.dispatch cfg
      handlers := Function.update s.handlers ctx.appId ⟨(s.history ctx.appId).length, false⟩ }
  | (_, none) => { s with pool := s.pool.dispatch cfg }

def step (cfg : PoolConfig) (resolver : AppResolver) (s : State) : Event → State
  | .put app manifests revision =>
    if s.owed = none then
      { s with
        store := s.store.putWithRevision app manifests revision
        owed := some app
        history := Function.update s.history app (s.history app ++ [⟨manifests, revision⟩]) }
    else s
  | .publish =>
    match s.owed with
    | some app =>
      { s with
        owed := none
        bus := s.bus ++ [(.manualSyncRequested app, (s.history app).length)] }
    | none => s
  | .notify e => { s with bus := s.bus ++ [(e, 0)] }
  | .deliver now =>
    match s.bus with
    | (e, _) :: rest => { s with bus := rest, pool := dispatch cfg resolver now s.pool e }
    | [] => s
  | .start => startNext cfg s
  | .read app =>
    if app ∈ s.pool.state.inFlight then
      { s with
        reads := s.reads ++ [⟨app, (s.handlers app).started, s.store.get app⟩]
        handlers := Function.update s.handlers app ⟨(s.handlers app).started, true⟩ }
    else s
  | .complete job =>
    if (s.handlers job.appId).hasRead = true then { s with pool := s.pool.complete job } else s

/--
**No update is lost.** Once everything published is dispatched, and an app's puts are all
published, and it has no job waiting or running: its last put was read by a
handler that started after it.
-/
def Delivered (s : State) : Prop :=
  s.bus = [] → ∀ app, s.owed ≠ some app → s.pool.state.queueOf app = [] →
    s.pool.runningOf app = [] → ∀ entry, (s.history app).getLast? = some entry →
      ∃ r ∈ s.reads, r.app = app ∧ r.started = (s.history app).length
        ∧ r.seen = .ok entry.manifests

/-- A dispatched sync request does not find its app with nothing but a handler that started
before the put it announces. -/
def Lands (s : State) : Event → Prop
  | .deliver _ =>
    match s.bus with
    | (.manualSyncRequested app, n) :: _ =>
      s.pool.state.queueOf app = [] → app ∈ s.pool.state.inFlight → n ≤ (s.handlers app).started
    | _ => True
  | _ => True

end Delivery

end SynchrotronCD
