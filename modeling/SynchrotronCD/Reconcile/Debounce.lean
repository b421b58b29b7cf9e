import SynchrotronCD.Lib.Runs
import SynchrotronCD.Reconcile.WorkerPool

/-!
# The debouncer

A trailing debounce in front of the worker pool. Every `enqueue` bumps the
generation of its app's pending entry and spawns a timer carrying it; a timer
that wakes fires only if the entry still has its generation. `flush_now` fires
every entry at once.

A fire is the locked section that removes the entry. The call into the pool
follows it outside the lock, and is a coalescing enqueue of `WorkerPool`.

Generations are `u64` and wrap. Time is a number of ticks; a timer may run at any
instant from its deadline on, and in any order with the others.
-/

namespace SynchrotronCD.Debouncer

open Lib

structure PendingEntry where
  trigger : Trigger
  /-- Bumped on every enqueue for this app. -/
  generation : UInt64
  /-- Proof-only: the number of this entry, in the order of creation. -/
  entry : Nat
deriving DecidableEq, Repr

/-- A spawned task that has not run yet. -/
structure Timer where
  app : String
  generation : UInt64
  deadline : Nat
  /-- Proof-only: the number of the event that spawned it. -/
  event : Nat
deriving DecidableEq, Repr

inductive Cause where
  | timer
  | flush
deriving DecidableEq, Repr

/-- What happened to an app, and when. -/
inductive LogEvent where
  | accepted (app : String) (trigger : Trigger) (time : Nat) (event : Nat)
  | fired (app : String) (trigger : Trigger) (time : Nat) (entry : Nat) (cause : Cause)
deriving DecidableEq, Repr

structure State where
  now : Nat
  pending : HashMap String PendingEntry
  timers : List Timer
  /-- Proof-only: events accepted so far. -/
  events : Nat
  /-- Proof-only: entries created so far. -/
  entries : Nat
  /-- Proof-only: every event and every fire, oldest first. -/
  log : List LogEvent

def State.new : State := ⟨0, ∅, [], 0, 0, []⟩

/-- The entry an event leaves behind: `or_insert`, then the bump. -/
def State.bumped (s : State) (app : String) (trigger : Trigger) : PendingEntry :=
  let entry := (s.pending.lookup app).getD ⟨trigger, 0, s.entries⟩
  { entry with generation := entry.generation + 1, trigger := trigger }

/-- Record a trigger event for an app and spawn its timer. -/
def enqueue (window : Nat) (s : State) (app : String) (trigger : Trigger) : State :=
  let entry := s.bumped app trigger
  { s with
    pending := s.pending.insert app entry
    timers := s.timers ++ [⟨app, entry.generation, s.now + window, s.events⟩]
    events := s.events + 1
    entries := if app ∈ s.pending then s.entries else s.entries + 1
    log := s.log ++ [.accepted app trigger s.now s.events] }

/-- The fire of a pending entry. -/
def fire (now : Nat) (cause : Cause) (app : String) (entry : PendingEntry) : LogEvent :=
  .fired app entry.trigger now entry.entry cause

/-- Fire every pending entry. -/
def flushNow (s : State) : State :=
  { s with
    pending := ∅
    log := s.log ++ s.pending.entries.map fun e => fire s.now .flush e.1 e.2 }

/-- The locked section of a timer that woke up. -/
def fireIfCurrent (s : State) (app : String) (generation : UInt64) : State :=
  match s.pending.lookup app with
  | some entry =>
    if entry.generation = generation then
      { s with
        pending := s.pending.erase app
        log := s.log ++ [fire s.now .timer app entry] }
    -- a newer generation has taken over
    else s
  -- the entry is gone
  | none => s

/-- A timer runs, unless its sleep is not over. -/
def expire (s : State) (timer : Timer) : State :=
  if timer ∈ s.timers ∧ timer.deadline ≤ s.now then
    fireIfCurrent { s with timers := s.timers.erase timer } timer.app timer.generation
  else s

inductive Event where
  | enqueue (app : String) (trigger : Trigger)
  | flushNow
  | expire (timer : Timer)
  | tick (ticks : Nat)
deriving Repr

def step (window : Nat) (s : State) : Event → State
  | .enqueue app trigger => enqueue window s app trigger
  | .flushNow => flushNow s
  | .expire timer => expire s timer
  | .tick ticks => { s with now := s.now + ticks }

/-! ## What a history says about one app -/

/-- The events of `app` accepted since its last fire, oldest first. -/
def sinceFire (app : String) : List LogEvent → List (Nat × Trigger) :=
  List.foldl (fun waiting e =>
    match e with
    | .accepted a trigger _ event => if a = app then waiting ++ [(event, trigger)] else waiting
    | .fired a _ _ _ _ => if a = app then [] else waiting) []

/-- The number of the last event accepted for `app`. -/
def lastEvent (app : String) : List LogEvent → Option Nat :=
  List.foldl (fun last e =>
    match e with
    | .accepted a _ _ event => if a = app then some event else last
    | .fired _ _ _ _ _ => last) none

/-- The fires of the entry numbered `n`. -/
def firesOf (n : Nat) : List LogEvent → List Cause :=
  List.filterMap fun e =>
    match e with
    | .accepted _ _ _ _ => none
    | .fired _ _ _ entry cause => if entry = n then some cause else none

end SynchrotronCD.Debouncer
