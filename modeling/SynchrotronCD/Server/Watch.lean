import SynchrotronCD.Lib.Runs
import SynchrotronCD.Reconcile.Trigger

/-!
# The watch stream

The fan-in task converts events of the bus into per-app watch events, each with
the next id. It appends an event to the replay ring of its app and then sends it
to the live channel. A client that connects is given what the ring holds after
the id it saw last, and then everything the channel carries from its subscription
on.

Ring and channel are joined without a lock: the two steps of the fan-in task and
the two of the handler may interleave in any way. Of the channel only the queue
of the one client is kept; it never lags. Ids are natural numbers, where the
source has a `u64` counter: it is taken not to run out.
-/

namespace SynchrotronCD

open Lib

/-- The name of a status, as the API spells it. -/
def HealthStatusCode.asStr : HealthStatusCode → String
  | .healthy => "Healthy"
  | .progressing => "Progressing"
  | .suspended => "Suspended"
  | .unknown => "Unknown"
  | .missing => "Missing"
  | .degraded => "Degraded"

namespace Watch

/-- The members of the JSON object a client is sent. -/
inductive Payload where
  | syncRequested (app : String)
  | appChanged (app repo : String)
  | syncOutcome (app cluster : String) (success : Bool) (message : Option FailureMessage)
  | health (app cluster status : String) (message : Option String)
deriving DecidableEq, Repr

/-- One event delivered to subscribers. The `id` is monotonic across the whole watcher. -/
structure AppWatchEvent where
  id : Nat
  app : String
  kind : String
  payload : Payload
deriving DecidableEq, Repr

/-- The watch event for an event of the bus, with the id it takes from the counter; repo-scoped
events have none and take no id. -/
def convertEvent (sys : SystemEvent) (id : Nat) : Option AppWatchEvent :=
  match sys with
  | .manualSyncRequested app => some ⟨id, app, "sync_requested", .syncRequested app⟩
  | .appChanged app repo => some ⟨id, app, "app_changed", .appChanged app repo⟩
  | .syncOutcome o =>
    some ⟨id, o.app, "sync_outcome", .syncOutcome o.app o.cluster o.success o.message⟩
  | .appHealthAssessed app cluster status message =>
    some ⟨id, app, "health", .health app cluster status.asStr message⟩
  | .repoChanged _ _ | .repoUnchanged _ _ | .repoFetchFailed _ _ | .webhookTriggered _ _ => none

structure AppWatcher where
  /-- An `AtomicU64`, which would start over after 2^64 events. -/
  nextId : Nat
  log : HashMap String (List AppWatchEvent)
  perAppCapacity : Nat

/-- The buffered events of an app, oldest first. -/
def AppWatcher.buffer (w : AppWatcher) (app : String) : List AppWatchEvent :=
  (w.log.lookup app).getD []

/-- Buffer an event, dropping the oldest on overflow. -/
def AppWatcher.append (w : AppWatcher) (evt : AppWatchEvent) : AppWatcher :=
  let buf := w.buffer evt.app ++ [evt]
  { w with log := w.log.insert evt.app (buf.drop (buf.length - w.perAppCapacity)) }

/-- Every buffered event of an app with an id above the one given. -/
def AppWatcher.replay (w : AppWatcher) (app : String) (since : Option Nat) : List AppWatchEvent :=
  (w.buffer app).filter fun e => decide (since.getD 0 < e.id)

/-- `str::parse::<u64>`: an optional plus sign and digits, within range. -/
def parseU64 (s : String) : Option Nat :=
  let n := match s.toList with
    | '+' :: ds => digits ds
    | ds => digits ds
  n.filter (fun n => decide (n < 2 ^ 64))

/-- The handler of one client, and what it has for it. -/
inductive Client where
  | away
  /-- The ring was read; the live channel is not subscribed yet. -/
  | replayed (backlog : List AppWatchEvent)
  /-- The stream is open: the backlog still to be sent, the queue of the subscription, and what
  was sent to the client. -/
  | streaming (backlog queue out : List AppWatchEvent)

/-- The live channel hands an event to the subscription, if there is one. -/
def Client.receive (evt : AppWatchEvent) : Client → Client
  | .streaming backlog queue out => .streaming backlog (queue ++ [evt]) out
  | c => c

structure State where
  watcher : AppWatcher
  /-- The event the fan-in task has appended and not yet sent. -/
  inHand : Option AppWatchEvent
  client : Client
  /-- The id the client asked to resume from. -/
  since : Option Nat
  /-- Proof-only: every event appended so far, oldest first. -/
  history : List AppWatchEvent
  /-- Proof-only: what the ring of the client's app held when it was read, and the id that was
  next then. -/
  ringAtReplay : List AppWatchEvent
  nextAtReplay : Nat

def State.new (perAppCapacity : Nat) : State where
  watcher := ⟨1, ∅, perAppCapacity⟩
  inHand := none
  client := .away
  since := none
  history := []
  ringAtReplay := []
  nextAtReplay := 0

inductive Event where
  /-- The fan-in task converts an event of the bus and appends it. -/
  | append (sys : SystemEvent)
  /-- It sends the event it has in hand. -/
  | send
  /-- The handler reads the ring, from the id in the request's header on. -/
  | replay (lastEventId : Option String)
  /-- The handler subscribes to the live channel. -/
  | subscribe
  /-- The stream yields its next event. -/
  | deliver

/-- `app` is the app the client watches. -/
def step (app : String) (s : State) : Event → State
  | .append sys =>
    match s.inHand, convertEvent sys s.watcher.nextId with
    | none, some evt =>
      { s with
        watcher := { s.watcher with nextId := s.watcher.nextId + 1 }.append evt
        inHand := some evt
        history := s.history ++ [evt] }
    | _, _ => s
  | .send =>
    match s.inHand with
    | some evt => { s with inHand := none, client := s.client.receive evt }
    | none => s
  | .replay lastEventId =>
    match s.client with
    | .away =>
      let since := lastEventId.bind parseU64
      { s with
        client := .replayed (s.watcher.replay app since)
        since := since
        ringAtReplay := s.watcher.buffer app
        nextAtReplay := s.watcher.nextId }
    | _ => s
  | .subscribe =>
    match s.client with
    | .replayed backlog => { s with client := .streaming backlog [] [] }
    | _ => s
  | .deliver =>
    match s.client with
    | .streaming (evt :: backlog) queue out =>
      { s with client := .streaming backlog queue (out ++ [evt]) }
    | .streaming [] (evt :: queue) out =>
      { s with client := .streaming [] queue (if evt.app = app then out ++ [evt] else out) }
    | _ => s

/-- What the client was sent, followed by what its stream will yield of what it holds. -/
def received (app : String) : Client → List AppWatchEvent
  | .streaming backlog queue out => out ++ backlog ++ queue.filter (fun e => e.app = app)
  | _ => []

/-- The events the client must get: those after the id it asked for that were in the ring when it
connected or were appended later. -/
def Required (app : String) (s : State) (e : AppWatchEvent) : Prop :=
  e.app = app ∧ s.since.getD 0 < e.id ∧
    (e ∈ s.ringAtReplay ∨ (e ∈ s.history ∧ s.nextAtReplay ≤ e.id))

/-- **What a client whose stream is open gets.** -/
structure Faithful (app : String) (s : State) : Prop where
  /-- Events of its app, in strictly increasing order of ids. -/
  ordered : (received app s.client).Pairwise (fun a b => a.id < b.id)
  only : ∀ e ∈ received app s.client, e.app = app ∧ e ∈ s.history
  /-- Each required event exactly once, unless it is just about to be sent. -/
  complete : ∀ backlog queue out, s.client = .streaming backlog queue out →
    ∀ e, Required app s e → (received app s.client).count e = 1 ∨ s.inHand = some e

/-- The steps of handler and fan-in task that do not cross: no event that the client read from the
ring is still to be sent when it subscribes, and none that it did not read, and wants, is sent
before. -/
def Uncrossed (app : String) (s : State) : Event → Prop
  | .subscribe => ∀ backlog, s.client = .replayed backlog → ∀ e, s.inHand = some e → e ∉ backlog
  | .send => ∀ backlog, s.client = .replayed backlog → ∀ e, s.inHand = some e →
      e.app = app → s.since.getD 0 < e.id → e.id < s.nextAtReplay
  | _ => True

end Watch

end SynchrotronCD
