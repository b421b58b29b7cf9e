import SynchrotronCD.Lib.Broadcast
import SynchrotronCD.Lib.Runs
import SynchrotronCD.Reconcile.Trigger

/-!
# The event bus

A subscriber of the bus reads with `recv`, which waits for the next event, or with
`try_recv`, which does not. Events that were dropped because the subscriber was too slow
are skipped: `recv` goes on to the oldest event that is kept. `try_recv` says `None`
there, as it does when there is nothing to read.

So a loop that drains the subscriber until the first `None` reads what `recv` would read
exactly if it never finds the subscriber overrun (`drain_eq_iff`).
-/

namespace SynchrotronCD.EventBus

open Lib

/-- An event with the time of its publication. -/
structure BusEvent where
  publishedAt : Int
  event : SystemEvent
deriving DecidableEq, Repr

abbrev Bus := Channel BusEvent

/-- `EventBus::new`, which panics where this is `none`. -/
def new (capacity : Nat) : Option Bus := Channel.new capacity

abbrev EventReceiver := Subscriber BusEvent

inductive RecvError where
  /-- The bus was dropped. -/
  | closed
deriving DecidableEq, Repr

namespace EventReceiver

/-- How many events the subscriber has missed. -/
def missed (rx : EventReceiver) : Nat := rx.channel.dropped - rx.next

theorem missed_lt {rx rx' : EventReceiver} {n : Nat} (h : rx.read = (.error (.lagged n), rx')) :
    rx'.missed < rx.missed := by
  rcases rx.read_cases with ⟨hover, s', heq, hchannel, hnot, -⟩ | ⟨-, v, s', heq, -⟩ | ⟨-, -, heq⟩
  · obtain rfl := (Prod.mk.inj (heq.symm.trans h)).2
    unfold missed
    unfold Subscriber.Overrun at hover hnot
    omega
  · exact absurd (Prod.mk.inj (heq.symm.trans h)).1 nofun
  · have := Except.error.inj (Prod.mk.inj (heq.symm.trans h)).1
    split at this
    · cases this
    · cases this

/-- The next event; `none` while there is none to come back with. A lagging receiver is advanced
to the oldest event that is still buffered. -/
def recv (rx : EventReceiver) : Option (Except RecvError BusEvent) × EventReceiver :=
  match _h : rx.read with
  | (.ok evt, rx') => (some (.ok evt), rx')
  | (.error .closed, rx') => (some (.error .closed), rx')
  | (.error (.lagged _), rx') => recv rx'
  | (.error .empty, rx') => (none, rx')
termination_by rx.missed
decreasing_by exact missed_lt _h

section

variable {rx rx' : EventReceiver}

theorem recv_of_ok {evt : BusEvent} (h : rx.read = (.ok evt, rx')) :
    rx.recv = (some (.ok evt), rx') := by
  rw [recv]
  grind

theorem recv_of_closed (h : rx.read = (.error .closed, rx')) :
    rx.recv = (some (.error .closed), rx') := by
  rw [recv]
  grind

theorem recv_of_lagged {n : Nat} (h : rx.read = (.error (.lagged n), rx')) :
    rx.recv = recv rx' := by
  rw [recv]
  grind

theorem recv_of_empty (h : rx.read = (.error .empty, rx')) : rx.recv = (none, rx') := by
  rw [recv]
  grind

end

/-- Non-blocking variant. -/
def tryRecv (rx : EventReceiver) : Option BusEvent × EventReceiver :=
  match rx.read with
  | (.ok evt, rx') => (some evt, rx')
  | (.error .empty, rx') | (.error .closed, rx') | (.error (.lagged _), rx') => (none, rx')

/-- `recv`, read as far as there is an event to come back with. -/
def recvNow (rx : EventReceiver) : Option BusEvent × EventReceiver :=
  match rx.recv with
  | (some (.ok evt), rx') => (some evt, rx')
  | (some (.error .closed), rx') | (none, rx') => (none, rx')

theorem tryRecv_overrun {rx : EventReceiver} (h : rx.Overrun) : rx.tryRecv.1 = none := by
  rcases Subscriber.read_cases rx with ⟨-, s', heq, -⟩ | ⟨hnot, -⟩ | ⟨hnot, -⟩
  · rw [tryRecv, heq]
  · exact absurd h hnot
  · exact absurd h hnot

/-- A subscriber that keeps up reads its first event, or there is none. -/
theorem tryRecv_of_keptUp {rx : EventReceiver} (h : ¬ rx.Overrun) :
    (∃ evt rx', rx.tryRecv = (some evt, rx') ∧ rx.recvNow = (some evt, rx'))
      ∨ (rx.unread = [] ∧ rx.tryRecv.1 = none ∧ rx.recvNow.1 = none) := by
  rcases Subscriber.read_cases rx with ⟨hover, -⟩ | ⟨-, evt, rx', heq, -⟩ | ⟨-, hunread, heq⟩
  · exact absurd hover h
  · refine Or.inl ⟨evt, rx', by rw [tryRecv, heq], ?_⟩
    rw [recvNow, recv_of_ok heq]
  · refine Or.inr ⟨hunread, ?_, ?_⟩
    · rw [tryRecv, heq]
      cases rx.channel.closed <;> rfl
    · cases hclosed : rx.channel.closed with
      | true =>
          rw [hclosed] at heq
          rw [recvNow, recv_of_closed heq]
      | false =>
          rw [hclosed] at heq
          rw [recvNow, recv_of_empty heq]

/-- `recv` comes back with an event whenever there is one. -/
theorem recvNow_overrun {rx : EventReceiver} (h : rx.Overrun) : ∃ evt, rx.recvNow.1 = some evt := by
  rcases Subscriber.read_cases rx with ⟨-, rx', heq, -, hnot, hunread⟩ | ⟨hnot, -⟩ | ⟨hnot, -⟩
  · have hrecv : rx.recv = recv rx' := recv_of_lagged heq
    rcases @tryRecv_of_keptUp rx' hnot with ⟨evt, rx'', -, hnow⟩ | ⟨hnil, -⟩
    · refine ⟨evt, ?_⟩
      have hsame : rx.recvNow = recvNow rx' := by rw [recvNow, hrecv, recvNow]
      rw [hsame, hnow]
    · exact absurd (hunread.symm.trans hnil) h.unread_ne_nil
  · exact absurd h hnot
  · exact absurd h hnot

/-! ## Runs -/

inductive Op where
  | publish (event : SystemEvent) (publishedAt : Int)
  | recv
  | tryRecv
  /-- The bus is dropped. -/
  | dropBus
deriving DecidableEq, Repr

def step (rx : EventReceiver) : Op → EventReceiver
  | .publish event publishedAt => rx.send ⟨publishedAt, event⟩
  | .recv => rx.recv.2
  | .tryRecv => rx.tryRecv.2
  | .dropBus => rx.close

/-- `try_recv` returns `None` only when there is nothing to read. -/
def NoneIfEmpty (rx : EventReceiver) (op : Op) : Prop :=
  op = .tryRecv → rx.tryRecv.1 = none → rx.unread = []

/-- No `try_recv` finds the subscriber overrun. -/
def KeepsUp (rx : EventReceiver) (op : Op) : Prop := op = .tryRecv → ¬ rx.Overrun

theorem noneIfEmpty_iff {rx : EventReceiver} {op : Op} : NoneIfEmpty rx op ↔ KeepsUp rx op := by
  constructor
  · intro h hop hover
    exact hover.unread_ne_nil (h hop (tryRecv_overrun hover))
  · intro h hop hnone
    rcases tryRecv_of_keptUp (h hop) with ⟨evt, rx', hsome, -⟩ | ⟨hnil, -⟩
    · rw [hsome] at hnone
      cases hnone
    · exact hnil

/-- Read until the first `None`; so many events are published before each read. -/
def drain (pull : EventReceiver → Option BusEvent × EventReceiver) :
    List (List BusEvent) → EventReceiver → List BusEvent
  | [], _ => []
  | burst :: bursts, rx =>
    match pull (burst.foldl Subscriber.send rx) with
    | (some evt, rx') => evt :: drain pull bursts rx'
    | (none, _) => []

/-- No `try_recv` of a drain finds the subscriber overrun. -/
def DrainKeepsUp : List (List BusEvent) → EventReceiver → Prop
  | [], _ => True
  | burst :: bursts, rx =>
    ¬ (burst.foldl Subscriber.send rx).Overrun ∧
      ∀ evt rx', tryRecv (burst.foldl Subscriber.send rx) = (some evt, rx') → DrainKeepsUp bursts rx'

/-- **A drain reads what `recv` would read** exactly if it never finds the subscriber overrun. -/
theorem drain_eq_iff (bursts : List (List BusEvent)) (rx : EventReceiver) :
    drain tryRecv bursts rx = drain recvNow bursts rx ↔ DrainKeepsUp bursts rx := by
  induction bursts generalizing rx with
  | nil => exact ⟨fun _ => trivial, fun _ => rfl⟩
  | cons burst bursts ih =>
      rw [drain, drain, DrainKeepsUp]
      generalize burst.foldl Subscriber.send rx = rx'
      by_cases hover : rx'.Overrun
      · -- `try_recv` stops the drain, `recv` goes on
        obtain ⟨evt, hevt⟩ := recvNow_overrun hover
        have hnone := tryRecv_overrun hover
        rcases htry : tryRecv rx' with ⟨o, rx₁⟩
        rcases hrecv : recvNow rx' with ⟨o', rx₂⟩
        rw [htry] at hnone
        rw [hrecv] at hevt
        obtain rfl : o = none := hnone
        obtain rfl : o' = some evt := hevt
        exact ⟨fun h => absurd h (List.cons_ne_nil _ _).symm, fun h => absurd hover h.1⟩
      · rcases tryRecv_of_keptUp hover with ⟨evt, rx'', htry, hrecv⟩ | ⟨-, hnone, hnone'⟩
        · rw [htry, hrecv]
          dsimp only
          rw [List.cons_inj_right, ih]
          constructor
          · intro h
            refine ⟨hover, fun evt' rx₁ heq => ?_⟩
            obtain rfl := (Prod.mk.inj heq).2
            exact h
          · intro h
            exact h.2 evt rx'' rfl
        · rcases htry : tryRecv rx' with ⟨o, rx₁⟩
          rcases hrecv : recvNow rx' with ⟨o', rx₂⟩
          rw [htry] at hnone
          rw [hrecv] at hnone'
          obtain rfl : o = none := hnone
          obtain rfl : o' = none := hnone'
          refine ⟨fun _ => ⟨hover, fun evt rx' heq => ?_⟩, fun _ => rfl⟩
          cases (Prod.mk.inj heq).1

/-- **Draining loses nothing** exactly if no `try_recv` finds the subscriber overrun, neither
before the drain nor in it. -/
theorem drains_iff (bus : Bus) (ops : List Op) (bursts : List (List BusEvent)) :
    (Each step NoneIfEmpty bus.subscribe ops
        ∧ drain tryRecv bursts (exec step bus.subscribe ops)
          = drain recvNow bursts (exec step bus.subscribe ops))
      ↔ Each step KeepsUp bus.subscribe ops
        ∧ DrainKeepsUp bursts (exec step bus.subscribe ops) := by
  rw [drain_eq_iff]
  unfold Each
  simp only [noneIfEmpty_iff]

def smallBus : Bus := ⟨2, 0, [], false, by decide, by decide, nofun⟩

theorem new_two : new 2 = some smallBus := by
  have hcapacity : Nat.nextPowerOfTwo 2 = 2 := by decide +kernel
  simp [new, Channel.new, smallBus, hcapacity]

/-- Three events on a bus for two, then an attempt to read. -/
def pushStorm : List Op :=
  [.publish (.appChanged "shop" "repo") 0, .publish (.appChanged "blog" "repo") 1,
    .publish (.appChanged "wiki" "repo") 2, .tryRecv]

/-- **Nothing is read of the two events that are still there.** -/
theorem pushStorm_reads_none : ∃ bus, new 2 = some bus ∧
    ¬ (Each step NoneIfEmpty bus.subscribe pushStorm
        ∧ drain tryRecv [] (exec step bus.subscribe pushStorm)
          = drain recvNow [] (exec step bus.subscribe pushStorm)) := by
  refine ⟨smallBus, new_two, fun h => ?_⟩
  have hnone := h.1 (pushStorm.take 3) .tryRecv ⟨[], rfl⟩ rfl rfl
  exact absurd hnone (by decide)

end EventReceiver

end SynchrotronCD.EventBus
