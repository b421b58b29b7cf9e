import SynchrotronCD.Reconcile.WorkerPoolProof

/-!
# The numbers the pool shows

`stats()` adds nothing up: it reads five counters and two gauges, one after the
other, while the pool is at work. The mutex it holds stops the locked sections,
but two counters are moved outside of them. The dispatcher counts a job as
started after it has let go of the mutex, and a handler counts itself as completed
after its last section. So numbers of one snapshot can come from different moments.

They fit together all the same. Nothing is shown twice: what has completed, runs
and waits is at most what was accepted. And nothing is missing but what is on its
way, which for started jobs is the one job in the dispatcher's hands.
-/

namespace SynchrotronCD.Stats

open Lib WorkerPool

variable {cfg : PoolConfig}

/-! ## Counters and snapshots -/

structure PoolStats where
  enqueued : UInt64
  rejectedFull : UInt64
  started : UInt64
  completed : UInt64
  inFlight : Nat
  queueDepth : Nat
  /-- Sum of the time each started job spent in the queue, in microseconds. -/
  totalWaitMicros : UInt64
deriving DecidableEq, Repr

def PoolStats.zero : PoolStats := ⟨0, 0, 0, 0, 0, 0, 0⟩

/-- What was added to each counter since it was made. An atomic of 64 bits goes round, so a load
sees the number modulo `2 ^ 64`. -/
structure Counters where
  enqueued : Nat
  rejectedFull : Nat
  started : Nat
  completed : Nat
  totalWaitMicros : Nat

def Counters.new : Counters := ⟨0, 0, 0, 0, 0⟩

/-- What an enqueue counts, still under the mutex. -/
def Counters.enqueue (c : Counters) : Except EnqueueError Bool → Counters
  | .ok true => { c with enqueued := c.enqueued + 1 }
  | .error (.queueFull _ _) => { c with rejectedFull := c.rejectedFull + 1 }
  | _ => c

/-- The fields of a snapshot, in the order in which they are loaded. -/
inductive Field where
  | enqueued
  | rejectedFull
  | started
  | completed
  | inFlight
  | queueDepth
  | totalWaitMicros
deriving DecidableEq, Repr

/-- Load one field; what is loaded next, if anything. -/
def load (c : Counters) (s : WorkerPool.State) (st : PoolStats) : Field → PoolStats × Option Field
  | .enqueued => ({ st with enqueued := .ofNat c.enqueued }, some .rejectedFull)
  | .rejectedFull => ({ st with rejectedFull := .ofNat c.rejectedFull }, some .started)
  | .started => ({ st with started := .ofNat c.started }, some .completed)
  | .completed => ({ st with completed := .ofNat c.completed }, some .inFlight)
  | .inFlight => ({ st with inFlight := s.inFlight.card }, some .queueDepth)
  | .queueDepth => ({ st with queueDepth := s.queueDepth }, some .totalWaitMicros)
  | .totalWaitMicros => ({ st with totalWaitMicros := .ofNat c.totalWaitMicros }, none)

/-! ## The pool while it is looked at -/

/-- Where the dispatcher is with the job it took. -/
inductive Hand where
  | empty
  | taken (ctx : JobCtx)
  /-- `started` is counted, the time in the queue is not. -/
  | counted (ctx : JobCtx)
deriving DecidableEq

/-- The job whose handler is not spawned yet. -/
def Hand.job : Hand → Option JobCtx
  | .empty => none
  | .taken ctx => some ctx
  | .counted ctx => some ctx

/-- How many jobs in hand are not counted as started. -/
def Hand.uncounted : Hand → Nat
  | .empty => 0
  | .taken _ => 1
  | .counted _ => 0

structure State where
  pool : Pool
  counters : Counters
  hand : Hand
  /-- Handlers that have been through their last section and are not counted as completed. -/
  retired : Nat
  /-- The call of `stats()` that holds the mutex: what it has loaded, and what is next. -/
  reading : Option (PoolStats × Field)
  /-- Proof-only: the snapshots that were returned. -/
  shown : List PoolStats

def State.new : State := ⟨.new, .new, .empty, 0, none, []⟩

inductive Event where
  | enqueue (app : String) (trigger : Trigger) (now : Nat) (coalesce : Bool)
  | nextDispatch
  | countStarted
  | countWait (micros : Nat)
  | complete (job : JobCtx)
  | countCompleted
  | shutdown
  /-- A call of `stats()` takes the mutex. -/
  | snapshot
  | load

/-- A locked section waits for the call of `stats()` that holds the mutex. -/
def State.locked (s : State) (body : State → State) : State :=
  if s.reading = none then body s else s

def State.enqueue (cfg : PoolConfig) (s : State) (app : String) (trigger : Trigger) (now : Nat)
    (coalesce : Bool) : State :=
  { s with
    pool := s.pool.enqueue cfg app trigger now coalesce
    counters := s.counters.enqueue (enqueueImpl cfg s.pool.state app trigger now coalesce).2 }

/-- The dispatcher asks for its next job, if it has none in hand. -/
def State.nextDispatch (cfg : PoolConfig) (s : State) : State :=
  if s.hand = .empty then
    { s with
      pool := s.pool.dispatch cfg
      hand := match (WorkerPool.nextDispatch cfg s.pool.state).2 with
        | some ctx => .taken ctx
        | none => .empty }
  else s

def State.countStarted (s : State) : State :=
  match s.hand with
  | .taken ctx =>
    { s with
      counters := { s.counters with started := s.counters.started + 1 }
      hand := .counted ctx }
  | _ => s

/-- The time in the queue is counted, and the handler is spawned. -/
def State.countWait (s : State) (micros : Nat) : State :=
  match s.hand with
  | .counted _ =>
    { s with
      counters := { s.counters with totalWaitMicros := s.counters.totalWaitMicros + micros }
      hand := .empty }
  | _ => s

/-- The handler of a job returns, if it was spawned, and goes through its last section. -/
def State.complete (s : State) (job : JobCtx) : State :=
  if job ∈ s.pool.running ∧ s.hand.job ≠ some job then
    { s with pool := s.pool.complete job, retired := s.retired + 1 }
  else s

def State.countCompleted (s : State) : State :=
  if 0 < s.retired then
    { s with
      counters := { s.counters with completed := s.counters.completed + 1 }
      retired := s.retired - 1 }
  else s

/-- The call of `stats()` that holds the mutex loads its next field, and returns with the last. -/
def State.load (s : State) : State :=
  match s.reading with
  | none => s
  | some (st, field) =>
    match Stats.load s.counters s.pool.state st field with
    | (st, some next) => { s with reading := some (st, next) }
    | (st, none) => { s with reading := none, shown := s.shown ++ [st] }

def step (cfg : PoolConfig) (s : State) : Event → State
  | .enqueue app trigger now coalesce => s.locked (·.enqueue cfg app trigger now coalesce)
  | .nextDispatch => s.locked (·.nextDispatch cfg)
  | .countStarted => s.countStarted
  | .countWait micros => s.countWait micros
  | .complete job => s.locked (·.complete job)
  | .countCompleted => s.countCompleted
  | .shutdown => s.locked fun s => { s with pool := WorkerPool.step cfg s.pool .shutdown }
  | .snapshot => s.locked fun s => { s with reading := some (.zero, .enqueued) }
  | .load => s.load

/-! ## What adds up -/

/-- The jobs that were accepted so far. -/
def accepted (p : Pool) : Nat := p.log.countP fun | .accepted _ => true | _ => false

/-- The jobs that were handed to the dispatcher so far. -/
def dispatched (p : Pool) : Nat := p.log.countP fun | .started _ => true | _ => false

/-- The jobs whose handlers went through their last section. -/
def finished (p : Pool) : Nat := p.log.countP fun | .completed _ => true | _ => false

/-- Every accepted job waits or was dispatched, and every dispatched job runs or has finished. -/
structure Balanced (p : Pool) : Prop where
  waits : accepted p = dispatched p + p.state.queueDepth
  runs : dispatched p = finished p + p.running.length

/-- What an accepted job adds. -/
theorem enqueue_counts (cfg : PoolConfig) (p : Pool) (app : String) (t : Trigger) (now : Nat)
    (co : Bool) :
    ((enqueueImpl cfg p.state app t now co).2 = .ok true
      ∧ accepted (p.enqueue cfg app t now co) = accepted p + 1
      ∧ (p.enqueue cfg app t now co).state.queueDepth = p.state.queueDepth + 1
      ∨ (enqueueImpl cfg p.state app t now co).2 ≠ .ok true
      ∧ accepted (p.enqueue cfg app t now co) = accepted p
      ∧ (p.enqueue cfg app t now co).state.queueDepth = p.state.queueDepth)
    ∧ dispatched (p.enqueue cfg app t now co) = dispatched p
    ∧ finished (p.enqueue cfg app t now co) = finished p
    ∧ (p.enqueue cfg app t now co).running = p.running := by
  unfold Pool.enqueue
  rcases enqueueImpl_cases cfg p.state app t now co with
    ⟨_, heq⟩ | ⟨_, _, _, heq⟩ | ⟨_, _, _, heq⟩ | ⟨_, _, _, heq⟩
  · rw [heq]; exact ⟨Or.inr ⟨nofun, rfl, rfl⟩, rfl, rfl, rfl⟩
  · rw [heq]; exact ⟨Or.inr ⟨nofun, rfl, rfl⟩, rfl, rfl, rfl⟩
  · rw [heq]; exact ⟨Or.inr ⟨nofun, rfl, rfl⟩, rfl, rfl, rfl⟩
  · rw [heq]
    refine ⟨Or.inl ⟨rfl, ?_, rfl⟩, ?_, ?_, rfl⟩
    · simp [accepted, List.countP_append]
    · simp [dispatched, List.countP_append]
    · simp [finished, List.countP_append]

/-- What a dispatch moves: a job that waited runs. -/
theorem dispatch_counts {p : Pool} (h : WorkerPool.Inv cfg p) :
    ((nextDispatch cfg p.state).2 = none
      ∧ dispatched (p.dispatch cfg) = dispatched p
      ∧ (p.dispatch cfg).state.queueDepth = p.state.queueDepth
      ∧ (p.dispatch cfg).running = p.running
      ∨ ∃ ctx, (nextDispatch cfg p.state).2 = some ctx
      ∧ dispatched (p.dispatch cfg) = dispatched p + 1
      ∧ (p.dispatch cfg).state.queueDepth + 1 = p.state.queueDepth
      ∧ (p.dispatch cfg).running = p.running ++ [ctx])
    ∧ accepted (p.dispatch cfg) = accepted p
    ∧ finished (p.dispatch cfg) = finished p := by
  unfold Pool.dispatch
  rcases nextDispatch_cases cfg p.state with heq | ⟨app, rest, hr, hq, heq⟩ |
    ⟨app, rest, ctx, q, hr, hl, _, _, heq⟩
  · rw [heq]; exact ⟨Or.inl ⟨rfl, rfl, rfl, rfl⟩, rfl, rfl⟩
  · rw [heq]; exact ⟨Or.inl ⟨rfl, rfl, rfl, rfl⟩, rfl, rfl⟩
  · have hw := weight_insert_add List.length app q p.state.apps
    have hd := h.depth
    rw [hl, Option.map_some, Option.getD_some, List.length_cons] at hw
    rw [heq]
    refine ⟨Or.inr ⟨ctx, rfl, ?_, ?_, rfl⟩, ?_, ?_⟩
    · simp [dispatched, List.countP_append]
    · dsimp only
      omega
    · simp [accepted, List.countP_append]
    · simp [finished, List.countP_append]

/-- What a handler that returns moves: a job that ran has finished. -/
theorem complete_counts {p : Pool} {job : JobCtx} (hj : job ∈ p.running) :
    finished (p.complete job) = finished p + 1
    ∧ (p.complete job).running.length + 1 = p.running.length
    ∧ accepted (p.complete job) = accepted p
    ∧ dispatched (p.complete job) = dispatched p
    ∧ (p.complete job).state.queueDepth = p.state.queueDepth := by
  have hlen := List.length_pos_of_mem hj
  unfold Pool.complete
  rw [if_pos hj]
  refine ⟨?_, ?_, ?_, ?_, ?_⟩
  · simp [finished, List.countP_append]
  · dsimp only
    rw [List.length_erase_of_mem hj]
    omega
  · simp [accepted, List.countP_append]
  · simp [dispatched, List.countP_append]
  · rcases completeHandler_cases p.state job.appId with ⟨_, heq⟩ | ⟨_, heq⟩ <;> rw [heq]

/-! ## What a snapshot can show -/

/-- The fields a call of `stats()` has loaded when `field` is next. -/
def Field.after : Field → Nat
  | .enqueued => 0
  | .rejectedFull => 1
  | .started => 2
  | .completed => 3
  | .inFlight => 4
  | .queueDepth => 5
  | .totalWaitMicros => 6

/-- What was loaded fits the pool, of which the counters outside the mutex lag behind. -/
structure Loaded (p : Pool) (n : Nat) (st : PoolStats) : Prop where
  enqueued : 0 < n → st.enqueued = .ofNat (accepted p)
  started : 2 < n → ∃ k, st.started = .ofNat k ∧ finished p ≤ k ∧ k ≤ dispatched p ∧ dispatched p ≤ k + 1
  completed : 3 < n → ∃ k, st.completed = .ofNat k ∧ k ≤ finished p
  inFlight : 4 < n → st.inFlight = p.state.inFlight.card
  queueDepth : 5 < n → st.queueDepth = p.state.queueDepth

/-- **The numbers of a snapshot fit together.** -/
structure Consistent (cfg : PoolConfig) (st : PoolStats) : Prop where
  /-- No job is counted as completed that is not counted as started. -/
  order : st.completed.toNat ≤ st.started.toNat
  /-- No job is shown twice. -/
  disjoint : st.completed.toNat + st.inFlight + st.queueDepth ≤ st.enqueued.toNat
  /-- No job is missing among the started and the waiting but the one the dispatcher has in hand. -/
  complete : st.enqueued.toNat ≤ st.started.toNat + st.queueDepth + 1
  started : st.started.toNat + st.queueDepth ≤ st.enqueued.toNat
  bound : st.inFlight ≤ cfg.maxConcurrent

theorem Loaded.consistent {p : Pool} {st : PoolStats} (h : Loaded p 7 st) (hi : WorkerPool.Inv cfg p)
    (hb : Balanced p) (hsmall : accepted p < 2 ^ 64) : Consistent cfg st := by
  have hE := h.enqueued (by omega)
  obtain ⟨k, hk, hlow, hhigh, hnear⟩ := h.started (by omega)
  obtain ⟨c, hc, hfin⟩ := h.completed (by omega)
  have hF := h.inFlight (by omega)
  have hQ := h.queueDepth (by omega)
  have hcard := hi.card
  have hbound := hi.bound
  have hwaits := hb.waits
  have hruns := hb.runs
  -- nothing is counted past what was accepted, so no load wraps
  have hEn : st.enqueued.toNat = accepted p := by
    rw [hE, UInt64.toNat_ofNat', Nat.mod_eq_of_lt hsmall]
  have hSn : st.started.toNat = k := by
    rw [hk, UInt64.toNat_ofNat', Nat.mod_eq_of_lt (by omega)]
  have hCn : st.completed.toNat = c := by
    rw [hc, UInt64.toNat_ofNat', Nat.mod_eq_of_lt (by omega)]
  exact ⟨by omega, by omega, by omega, by omega, by omega⟩

/-! ## The invariant -/

structure Inv (cfg : PoolConfig) (s : State) : Prop where
  pool : WorkerPool.Inv cfg s.pool
  balanced : Balanced s.pool
  enqueued : s.counters.enqueued = accepted s.pool
  started : s.counters.started + s.hand.uncounted = dispatched s.pool
  completed : s.counters.completed + s.retired = finished s.pool
  /-- The job in hand has no handler that could return. -/
  hand : ∀ ctx, s.hand.job = some ctx → ctx ∈ s.pool.running
  reading : ∀ st field, s.reading = some (st, field) → Loaded s.pool field.after st
  shown : accepted s.pool < 2 ^ 64 → ∀ st ∈ s.shown, Consistent cfg st

theorem inv_new (cfg : PoolConfig) : Inv cfg State.new where
  pool := WorkerPool.inv_new cfg
  balanced := ⟨rfl, rfl⟩
  enqueued := rfl
  started := rfl
  completed := rfl
  hand := by intro ctx h; cases h
  reading := by intro st field h; cases h
  shown := by intro _ st h; cases h

/-- A job that waits for its handler has not finished. -/
theorem Inv.finished_le {s : State} (h : Inv cfg s) : finished s.pool ≤ s.counters.started := by
  have hruns := h.balanced.runs
  have hstarted := h.started
  cases hhand : s.hand with
  | taken ctx =>
      have hmem := List.length_pos_of_mem (h.hand ctx (by rw [hhand]; rfl))
      rw [hhand, Hand.uncounted] at hstarted
      omega
  | empty =>
      rw [hhand, Hand.uncounted] at hstarted
      omega
  | counted ctx =>
      rw [hhand, Hand.uncounted] at hstarted
      omega

theorem Hand.uncounted_le (hand : Hand) : hand.uncounted ≤ 1 := by
  cases hand <;> simp [Hand.uncounted]

/-- **Every load is right about the pool, or behind it.** -/
theorem loaded_load {s : State} (h : Inv cfg s) {st : PoolStats} {field : Field}
    (hl : Loaded s.pool field.after st) :
    Loaded s.pool (field.after + 1) (load s.counters s.pool.state st field).1 := by
  have hstarted := h.started
  have hcompleted := h.completed
  have hone := s.hand.uncounted_le
  have hfin := h.finished_le
  have later : ∀ {P : Prop} {m n : Nat}, n ≤ m → m < n → P := by
    intro P m n hle hlt
    omega
  cases field with
  | enqueued =>
      exact ⟨fun _ => congrArg UInt64.ofNat h.enqueued, later (by decide), later (by decide),
        later (by decide), later (by decide)⟩
  | rejectedFull =>
      exact ⟨fun _ => hl.enqueued (by decide), later (by decide), later (by decide),
        later (by decide), later (by decide)⟩
  | started =>
      exact ⟨fun _ => hl.enqueued (by decide), fun _ => ⟨_, rfl, hfin, by omega, by omega⟩,
        later (by decide), later (by decide), later (by decide)⟩
  | completed =>
      exact ⟨fun _ => hl.enqueued (by decide), fun _ => hl.started (by decide),
        fun _ => ⟨_, rfl, by omega⟩, later (by decide), later (by decide)⟩
  | inFlight =>
      exact ⟨fun _ => hl.enqueued (by decide), fun _ => hl.started (by decide),
        fun _ => hl.completed (by decide), fun _ => rfl, later (by decide)⟩
  | queueDepth =>
      exact ⟨fun _ => hl.enqueued (by decide), fun _ => hl.started (by decide),
        fun _ => hl.completed (by decide), fun _ => hl.inFlight (by decide), fun _ => rfl⟩
  | totalWaitMicros =>
      exact ⟨fun _ => hl.enqueued (by decide), fun _ => hl.started (by decide),
        fun _ => hl.completed (by decide), fun _ => hl.inFlight (by decide),
        fun _ => hl.queueDepth (by decide)⟩

/-- The fields are loaded one after the other, the last of the seven last. -/
theorem load_next (c : Counters) (p : WorkerPool.State) (st : PoolStats) (field : Field) :
    (∃ next, (load c p st field).2 = some next ∧ next.after = field.after + 1)
    ∨ ((load c p st field).2 = none ∧ field.after + 1 = 7) := by
  cases field with
  | totalWaitMicros => exact Or.inr ⟨rfl, rfl⟩
  | _ => exact Or.inl ⟨_, rfl, rfl⟩

theorem inv_load {s : State} (h : Inv cfg s) : Inv cfg s.load := by
  unfold State.load
  cases hr : s.reading with
  | none => exact h
  | some reading =>
      obtain ⟨st, field⟩ := reading
      have hloaded := loaded_load h (h.reading st field hr)
      rcases load_next s.counters s.pool.state st field with ⟨next, hnext, hafter⟩ | ⟨hnone, hafter⟩
      · obtain ⟨st', hst'⟩ : ∃ st', load s.counters s.pool.state st field = (st', some next) :=
          ⟨_, Prod.ext rfl hnext⟩
        rw [hst', ← hafter] at hloaded
        simp only [hst']
        have hreading : ∀ st f, some (st', next) = some (st, f) → Loaded s.pool f.after st := by
          intro _ _ heq
          cases heq
          exact hloaded
        exact { h with reading := hreading }
      · obtain ⟨st', hst'⟩ : ∃ st', load s.counters s.pool.state st field = (st', none) :=
          ⟨_, Prod.ext rfl hnone⟩
        rw [hst', hafter] at hloaded
        simp only [hst']
        have hshown : accepted s.pool < 2 ^ 64 → ∀ st ∈ s.shown ++ [st'], Consistent cfg st := by
          intro hsmall shown hmem
          rcases List.mem_append.mp hmem with hmem | hmem
          · exact h.shown hsmall shown hmem
          · obtain rfl := List.mem_singleton.mp hmem
            exact hloaded.consistent h.pool h.balanced hsmall
        exact { h with reading := nofun, shown := hshown }

/-! ## Every step keeps it -/

theorem inv_enqueue {s : State} (h : Inv cfg s) (hfree : s.reading = none) (app : String) (t : Trigger)
    (now : Nat) (co : Bool) : Inv cfg (s.enqueue cfg app t now co) := by
  obtain ⟨hnew, hdispatched, hfinished, hrunning⟩ := enqueue_counts cfg s.pool app t now co
  -- a job that is accepted is counted as it joins its queue
  have hcount : (s.counters.enqueue (enqueueImpl cfg s.pool.state app t now co).2).enqueued
      = accepted (s.pool.enqueue cfg app t now co)
      ∧ (s.pool.enqueue cfg app t now co).state.queueDepth + accepted s.pool
        = s.pool.state.queueDepth + accepted (s.pool.enqueue cfg app t now co) := by
    have henq := h.enqueued
    rcases hnew with ⟨hok, hacc, hdepth⟩ | ⟨hno, hacc, hdepth⟩
    · rw [hok, hacc, hdepth]
      exact ⟨congrArg (· + 1) henq, by omega⟩
    · rw [hacc, hdepth]
      refine ⟨?_, rfl⟩
      rw [← henq]
      unfold Counters.enqueue
      split
      · rename_i hok
        exact absurd hok hno
      · rfl
      · rfl
  have hother : (s.counters.enqueue (enqueueImpl cfg s.pool.state app t now co).2).started
      = s.counters.started
      ∧ (s.counters.enqueue (enqueueImpl cfg s.pool.state app t now co).2).completed
      = s.counters.completed := by
    unfold Counters.enqueue
    split <;> exact ⟨rfl, rfl⟩
  have hwaits := h.balanced.waits
  have hruns := h.balanced.runs
  refine ⟨WorkerPool.inv_enqueue h.pool app t now co, ⟨?_, ?_⟩, hcount.1, ?_, ?_, ?_, ?_, ?_⟩
  · show accepted (s.pool.enqueue cfg app t now co) = dispatched (s.pool.enqueue cfg app t now co)
      + (s.pool.enqueue cfg app t now co).state.queueDepth
    omega
  · show dispatched (s.pool.enqueue cfg app t now co) = finished (s.pool.enqueue cfg app t now co)
      + (s.pool.enqueue cfg app t now co).running.length
    rw [hdispatched, hfinished, hrunning, hruns]
  · show _ + _ = dispatched (s.pool.enqueue cfg app t now co)
    rw [hdispatched, ← h.started]
    exact congrArg (· + _) hother.1
  · show _ + _ = finished (s.pool.enqueue cfg app t now co)
    rw [hfinished, ← h.completed]
    exact congrArg (· + _) hother.2
  · intro ctx hctx
    show ctx ∈ (s.pool.enqueue cfg app t now co).running
    rw [hrunning]
    exact h.hand ctx hctx
  · intro st field hr
    exact absurd (hr.symm.trans hfree) nofun
  · intro hsmall
    refine h.shown (Nat.lt_of_le_of_lt ?_ hsmall)
    show accepted s.pool ≤ accepted (s.pool.enqueue cfg app t now co)
    rcases hnew with ⟨_, hacc, _⟩ | ⟨_, hacc, _⟩ <;> omega

theorem inv_nextDispatch {s : State} (h : Inv cfg s) (hfree : s.reading = none) :
    Inv cfg (s.nextDispatch cfg) := by
  unfold State.nextDispatch
  split
  · rename_i hempty
    obtain ⟨hmoved, haccepted, hfinished⟩ := dispatch_counts h.pool
    have hwaits := h.balanced.waits
    have hruns := h.balanced.runs
    have hstarted := h.started
    rw [hempty, Hand.uncounted] at hstarted
    have hreading : ∀ st field, s.reading = some (st, field) →
        Loaded (s.pool.dispatch cfg) field.after st := fun st field hr => absurd (hr.symm.trans hfree) nofun
    have hshown : accepted (s.pool.dispatch cfg) < 2 ^ 64 → ∀ st ∈ s.shown, Consistent cfg st := by
      rw [haccepted]
      exact h.shown
    have henqueued := h.enqueued.trans haccepted.symm
    have hcompleted := h.completed.trans hfinished.symm
    rcases hmoved with ⟨hnone, hdispatched, hdepth, hrunning⟩ | ⟨ctx, hsome, hdispatched, hdepth, hrunning⟩
    · refine ⟨inv_dispatch h.pool, ⟨?_, ?_⟩, henqueued, ?_, hcompleted, ?_, hreading, hshown⟩
      · show accepted (s.pool.dispatch cfg) = dispatched (s.pool.dispatch cfg) + _
        rw [haccepted, hdispatched, hdepth]
        exact hwaits
      · show dispatched (s.pool.dispatch cfg) = finished (s.pool.dispatch cfg) + _
        rw [hdispatched, hfinished, hrunning]
        exact hruns
      · simp only [hnone, Hand.uncounted]
        omega
      · simp only [hnone]
        exact nofun
    · refine ⟨inv_dispatch h.pool, ⟨?_, ?_⟩, henqueued, ?_, hcompleted, ?_, hreading, hshown⟩
      · show accepted (s.pool.dispatch cfg) = dispatched (s.pool.dispatch cfg)
          + (s.pool.dispatch cfg).state.queueDepth
        omega
      · show dispatched (s.pool.dispatch cfg) = finished (s.pool.dispatch cfg)
          + (s.pool.dispatch cfg).running.length
        rw [hrunning, List.length_append, List.length_singleton]
        omega
      · simp only [hsome, Hand.uncounted]
        omega
      · simp only [hsome, Hand.job, hrunning]
        intro ctx' hctx'
        obtain rfl := Option.some.inj hctx'
        simp
  · exact h

theorem inv_countStarted {s : State} (h : Inv cfg s) : Inv cfg s.countStarted := by
  unfold State.countStarted
  split
  · rename_i ctx hhand
    have hstarted := h.started
    rw [hhand, Hand.uncounted] at hstarted
    refine { h with started := ?_, hand := fun ctx' hctx' => h.hand ctx' ?_ }
    · simp only [Hand.uncounted]
      omega
    · rw [hhand]
      exact hctx'
  · exact h

theorem inv_countWait {s : State} (h : Inv cfg s) (micros : Nat) : Inv cfg (s.countWait micros) := by
  unfold State.countWait
  split
  · rename_i ctx hhand
    have hstarted := h.started
    rw [hhand, Hand.uncounted] at hstarted
    exact { h with started := hstarted, hand := nofun }
  · exact h

theorem inv_complete {s : State} (h : Inv cfg s) (hfree : s.reading = none) (job : JobCtx) :
    Inv cfg (s.complete job) := by
  unfold State.complete
  split
  · rename_i hjob
    obtain ⟨hfinished, hrunning, haccepted, hdispatched, hdepth⟩ := complete_counts hjob.1
    have hwaits := h.balanced.waits
    have hruns := h.balanced.runs
    have hcompleted := h.completed
    refine ⟨WorkerPool.inv_complete h.pool job, ⟨?_, ?_⟩, h.enqueued.trans haccepted.symm,
      h.started.trans hdispatched.symm, ?_, ?_, ?_, ?_⟩
    · show accepted (s.pool.complete job) = dispatched (s.pool.complete job) + _
      rw [haccepted, hdispatched, hdepth]
      exact hwaits
    · show dispatched (s.pool.complete job) = finished (s.pool.complete job)
        + (s.pool.complete job).running.length
      omega
    · show s.counters.completed + (s.retired + 1) = finished (s.pool.complete job)
      omega
    · intro ctx hctx
      show ctx ∈ (s.pool.complete job).running
      unfold Pool.complete
      rw [if_pos hjob.1]
      have hne : ctx ≠ job := by
        rintro rfl
        exact hjob.2 hctx
      exact (List.mem_erase_of_ne hne).mpr (h.hand ctx hctx)
    · intro st field hr
      exact absurd (hr.symm.trans hfree) nofun
    · intro hsmall
      refine h.shown ?_
      rw [← haccepted]
      exact hsmall
  · exact h

theorem inv_countCompleted {s : State} (h : Inv cfg s) : Inv cfg s.countCompleted := by
  unfold State.countCompleted
  split
  · have hcompleted := h.completed
    exact { h with completed := by dsimp only; omega }
  · exact h

theorem inv_locked {s : State} (h : Inv cfg s) (body : State → State)
    (hbody : s.reading = none → Inv cfg (body s)) : Inv cfg (s.locked body) := by
  unfold State.locked
  split
  · rename_i hfree
    exact hbody hfree
  · exact h

theorem inv_step (s : State) (e : Event) (h : Inv cfg s) : Inv cfg (step cfg s e) := by
  cases e with
  | enqueue app t now co =>
      exact inv_locked h (·.enqueue cfg app t now co) fun hfree => inv_enqueue h hfree app t now co
  | nextDispatch => exact inv_locked h (·.nextDispatch cfg) fun hfree => inv_nextDispatch h hfree
  | countStarted => exact inv_countStarted h
  | countWait micros => exact inv_countWait h micros
  | complete job => exact inv_locked h (·.complete job) fun hfree => inv_complete h hfree job
  | countCompleted => exact inv_countCompleted h
  | shutdown =>
      refine inv_locked h (fun s => { s with pool := WorkerPool.step cfg s.pool .shutdown })
        fun hfree => ?_
      have hreading : ∀ st field, s.reading = some (st, field) →
          Loaded (WorkerPool.step cfg s.pool .shutdown) field.after st :=
        fun st field hr => absurd (hr.symm.trans hfree) nofun
      exact { h with
        pool := WorkerPool.inv_step .shutdown h.pool
        balanced := ⟨h.balanced.waits, h.balanced.runs⟩
        reading := hreading }
  | snapshot =>
      refine inv_locked h (fun s => { s with reading := some (.zero, .enqueued) }) fun _ => ?_
      have hreading : ∀ st field, some (PoolStats.zero, Field.enqueued) = some (st, field) →
          Loaded s.pool field.after st := by
        intro st field heq
        cases heq
        exact ⟨nofun, nofun, nofun, nofun, nofun⟩
      exact { h with reading := hreading }
  | load => exact inv_load h

/-! ## Every snapshot of every run -/

/-- The state a run of the pool leads to. -/
def after (cfg : PoolConfig) (es : List Event) : State := exec (step cfg) .new es

/-- Nothing is on its way between the mutex and a counter. -/
structure Settled (s : State) : Prop where
  hand : s.hand = .empty
  retired : s.retired = 0
  reading : s.reading = none

/-- A snapshot that nothing comes in between. -/
def undisturbed : List Event := .snapshot :: List.replicate 7 .load

@[simp] theorem countStarted_pool (s : State) : s.countStarted.pool = s.pool := by
  unfold State.countStarted
  split <;> rfl

@[simp] theorem countWait_pool (s : State) (micros : Nat) : (s.countWait micros).pool = s.pool := by
  unfold State.countWait
  split <;> rfl

@[simp] theorem countCompleted_pool (s : State) : s.countCompleted.pool = s.pool := by
  unfold State.countCompleted
  split <;> rfl

@[simp] theorem load_pool (s : State) : s.load.pool = s.pool := by
  unfold State.load
  split
  · rfl
  · split <;> rfl

/-- A step accepts at most one job. -/
theorem accepted_step {s : State} (h : Inv cfg s) (e : Event) :
    accepted (step cfg s e).pool ≤ accepted s.pool + 1 := by
  have hlocked : ∀ body : State → State, accepted (body s).pool ≤ accepted s.pool + 1 →
      accepted (s.locked body).pool ≤ accepted s.pool + 1 := by
    intro body hbody
    unfold State.locked
    split
    · exact hbody
    · omega
  cases e with
  | enqueue app t now co =>
      refine hlocked (·.enqueue cfg app t now co) ?_
      show accepted (s.pool.enqueue cfg app t now co) ≤ _
      obtain ⟨⟨_, hacc, _⟩ | ⟨_, hacc, _⟩, -⟩ := enqueue_counts cfg s.pool app t now co <;> omega
  | nextDispatch =>
      refine hlocked (·.nextDispatch cfg) ?_
      unfold State.nextDispatch
      split
      · have hacc := (dispatch_counts h.pool).2.1
        dsimp only
        omega
      · omega
  | countStarted => simp [step]
  | countWait micros => simp [step]
  | complete job =>
      refine hlocked (·.complete job) ?_
      unfold State.complete
      split
      · rename_i hjob
        have hacc := (complete_counts hjob.1).2.2.1
        dsimp only
        omega
      · omega
  | countCompleted => simp [step]
  | shutdown =>
      exact hlocked (fun s => { s with pool := WorkerPool.step cfg s.pool .shutdown }) (Nat.le_succ _)
  | snapshot =>
      exact hlocked (fun s => { s with reading := some (.zero, .enqueued) }) (Nat.le_succ _)
  | load => simp [step]

theorem accepted_exec {s : State} (h : Inv cfg s) (es : List Event) :
    accepted (exec (step cfg) s es).pool ≤ accepted s.pool + es.length := by
  induction es generalizing s with
  | nil => exact Nat.le_refl _
  | cons e es ih =>
      have hrest := ih (inv_step s e h)
      have hone := accepted_step h e
      rw [exec_cons, List.length_cons]
      omega

/--
**What `stats()` shows fits together, in every interleaving.**

Whatever the producers, the dispatcher and the handlers do while the counters are
read, the snapshot is consistent. And one that is taken while nothing is on its way
accounts for every job: it waits, runs or has completed.
-/
theorem snapshots_consistent (cfg : PoolConfig) (es : List Event) (hshort : es.length < 2 ^ 64) :
    (∀ st ∈ (after cfg es).shown, Consistent cfg st) ∧
    (Settled (after cfg es) → ∃ st,
      (after cfg (es ++ undisturbed)).shown = (after cfg es).shown ++ [st]
        ∧ st.enqueued.toNat = st.started.toNat + st.queueDepth
        ∧ st.started.toNat = st.completed.toNat + st.inFlight) := by
  have h : Inv cfg (after cfg es) := exec_inv inv_step (inv_new cfg) es
  have hsmall : accepted (after cfg es).pool < 2 ^ 64 := by
    have hexec := accepted_exec (inv_new cfg) es
    have hnone : accepted State.new.pool = 0 := rfl
    unfold after
    omega
  refine ⟨h.shown hsmall, fun hs => ?_⟩
  have hsplit : after cfg (es ++ undisturbed) = exec (step cfg) (after cfg es) undisturbed :=
    exec_append _ _ _
  rw [hsplit]
  generalize after cfg es = s at h hsmall hs
  have hwaits := h.balanced.waits
  have hruns := h.balanced.runs
  have henqueued := h.enqueued
  have hstarted := h.started
  have hcompleted := h.completed
  rw [hs.hand, Hand.uncounted] at hstarted
  rw [hs.retired] at hcompleted
  refine ⟨⟨.ofNat s.counters.enqueued, .ofNat s.counters.rejectedFull, .ofNat s.counters.started,
    .ofNat s.counters.completed, s.pool.state.inFlight.card, s.pool.state.queueDepth,
    .ofNat s.counters.totalWaitMicros⟩, ?_, ?_, ?_⟩
  · simp [undisturbed, List.replicate, step, State.locked, hs.reading, State.load, load]
  · simp only [UInt64.toNat_ofNat']
    rw [Nat.mod_eq_of_lt (by omega), Nat.mod_eq_of_lt (by omega)]
    omega
  · simp only [UInt64.toNat_ofNat', h.pool.card]
    rw [Nat.mod_eq_of_lt (by omega), Nat.mod_eq_of_lt (by omega)]
    omega

/-- A job is taken, starts and returns while its pool is looked at: it is counted as accepted and as
started, runs no more, and is not yet counted as completed. -/
def lateRun : List Event :=
  [.enqueue "shop" .manual 0 false, .nextDispatch, .countStarted, .countWait 3,
    .complete ⟨"shop", .manual, 0⟩, .snapshot, .load, .load, .load, .load, .countCompleted, .load,
    .load, .load]

theorem late_snapshot :
    (after ⟨1, 1⟩ lateRun).shown = [⟨1, 0, 1, 0, 0, 0, 3⟩]
      ∧ Consistent ⟨1, 1⟩ ⟨1, 0, 1, 0, 0, 0, 3⟩
      ∧ ∃ st, (after ⟨1, 1⟩ (lateRun ++ undisturbed)).shown = [⟨1, 0, 1, 0, 0, 0, 3⟩, st]
        ∧ st.enqueued.toNat = st.started.toNat + st.queueDepth
        ∧ st.started.toNat = st.completed.toNat + st.inFlight := by
  have hshown : (after ⟨1, 1⟩ lateRun).shown = [⟨1, 0, 1, 0, 0, 0, 3⟩] := by decide
  obtain ⟨hconsistent, hsettled⟩ := snapshots_consistent ⟨1, 1⟩ lateRun (by decide)
  obtain ⟨st, hnext, hwaits, hruns⟩ := hsettled ⟨by decide, by decide, by decide⟩
  rw [hshown] at hnext
  exact ⟨hshown, hconsistent _ (by rw [hshown]; simp), st, hnext, hwaits, hruns⟩

end SynchrotronCD.Stats
