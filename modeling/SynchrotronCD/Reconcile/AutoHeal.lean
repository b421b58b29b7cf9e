import SynchrotronCD.Lib.Durations
import SynchrotronCD.Reconcile.Occupancy

/-!
# Periodic auto-heal

Wakes every interval and enqueues a reconcile for every known app, spread over a
window at the start of the interval. An app that already has a pending or in-flight
reconcile is skipped.

The loop runs beside everything else that uses the pool, so its turns are steps of
one machine among any others. A turn that skips its app has found a job that will
end after it, and a turn that does not has found its app idle: either way, once the
app has no job left, one has completed since its turn. What does not hold is that it
also started since then. The job a turn skips for may have read the cluster long
before.
-/

namespace SynchrotronCD.AutoHeal

open Lib WorkerPool

variable {cfg : PoolConfig}

/-! ## The loop -/

structure AutoHealConfig where
  /-- Time between ticks. -/
  interval : Duration
  /-- What `interval.mul_f64(jitter_fraction.clamp(0.0, 1.0))` comes to. -/
  jitterWindow : Duration

structure AutoHealStats where
  ticks : UInt64
  enqueued : UInt64
  skipped : UInt64
deriving DecidableEq, Repr

/-- What was added to each counter; a load sees it modulo `2 ^ 64`. -/
structure Counters where
  ticks : Nat
  enqueued : Nat
  skipped : Nat

/-- How long a tick over `n` apps waits after each but the last. The number is cut to 32 bits, and
to divide by zero panics. -/
def perAppDelay (config : AutoHealConfig) (n : Nat) : Option Duration :=
  if config.jitterWindow.isZero || decide (n ≤ 1) then some .ZERO
  else config.jitterWindow.checkedDiv (n % 2 ^ 32)

/-- Where the task is. -/
inductive Point where
  /-- Between ticks. -/
  | sleeping
  /-- At the body of the loop for the `i`-th app of a tick. -/
  | enqueuing (apps : List String) (i : Nat) (delay : Duration)
  /-- In the sleep after that app. -/
  | spreading (apps : List String) (i : Nat) (delay : Duration)
  | panicked

/-- One pass through the body of the loop, as it is seen from outside. -/
structure Turn where
  app : String
  /-- The app is the `index`-th of `listed`. -/
  index : Nat
  listed : Nat
  /-- Nanoseconds the tick slept up to here. -/
  offset : Nat
  now : Nat
  /-- The history of the pool when the turn came. -/
  before : List JobEvent
  result : Except EnqueueError Bool

structure State where
  pool : Pool
  counters : Counters
  point : Point
  /-- Proof-only: nanoseconds slept since the tick began. -/
  slept : Nat
  /-- Proof-only: what the lister gave, tick by tick. -/
  ticks : List (List String)
  /-- Proof-only: the turns so far. -/
  turns : List Turn

def State.new : State := ⟨.new, ⟨0, 0, 0⟩, .sleeping, 0, [], []⟩

def State.stats (s : State) : AutoHealStats :=
  ⟨.ofNat s.counters.ticks, .ofNat s.counters.enqueued, .ofNat s.counters.skipped⟩

inductive Event where
  /-- A step of anyone else with the pool. -/
  | pool (a : Action)
  /-- The interval is over, and the lister gives these apps. -/
  | tick (apps : List String)
  | turn (now : Nat)
  /-- A sleep between two apps is over. -/
  | wake

/-- What a turn counts; a refused enqueue is only logged. -/
def Counters.turn (c : Counters) : Except EnqueueError Bool → Counters
  | .ok true => { c with enqueued := c.enqueued + 1 }
  | .ok false => { c with skipped := c.skipped + 1 }
  | .error _ => c

/-- The first lines of `tick`. -/
def State.tick (config : AutoHealConfig) (s : State) (apps : List String) : State :=
  match s.point with
  | .sleeping =>
    { s with
      counters := { s.counters with ticks := s.counters.ticks + 1 }
      point :=
        if apps.isEmpty then .sleeping
        else match perAppDelay config apps.length with
          | some delay => .enqueuing apps 0 delay
          | none => .panicked
      slept := 0
      ticks := s.ticks ++ [apps] }
  | _ => s

/-- Where the body of the loop leads. -/
def next (apps : List String) (i : Nat) (delay : Duration) : Point :=
  if i + 1 < apps.length then
    if Duration.ZERO < delay then .spreading apps i delay else .enqueuing apps (i + 1) delay
  else .sleeping

/-- The body of the loop over a tick's apps. -/
def State.turn (cfg : PoolConfig) (s : State) (now : Nat) : State :=
  match s.point with
  | .enqueuing apps i delay =>
    match apps[i]? with
    | some app =>
      let result := (enqueueCoalesce cfg s.pool.state app .autoHeal now).2
      { s with
        pool := s.pool.enqueue cfg app .autoHeal now true
        counters := s.counters.turn result
        point := next apps i delay
        turns := s.turns ++ [⟨app, i, apps.length, s.slept, now, s.pool.log, result⟩] }
    | none => s
  | _ => s

def State.wake (s : State) : State :=
  match s.point with
  | .spreading apps i delay =>
    { s with point := .enqueuing apps (i + 1) delay, slept := s.slept + delay.nanos }
  | _ => s

def step (config : AutoHealConfig) (cfg : PoolConfig) (s : State) : Event → State
  | .pool a => { s with pool := WorkerPool.step cfg s.pool a }
  | .tick apps => s.tick config apps
  | .turn now => s.turn cfg now
  | .wake => s.wake

/-- The state a run of the scheduler and the pool leads to. -/
def after (config : AutoHealConfig) (cfg : PoolConfig) (es : List Event) : State :=
  exec (step config cfg) .new es

/-! ## The pool under it -/

/-- What holds of the pool whoever uses it. -/
structure PoolOk (cfg : PoolConfig) (p : Pool) : Prop where
  inv : WorkerPool.Inv cfg p
  scheduled : Scheduled p.state
  held : ∀ a ∈ p.state.inFlight, a ∈ p.state.apps

theorem poolOk_new (cfg : PoolConfig) : PoolOk cfg .new where
  inv := inv_new cfg
  scheduled := by intro a ha; simp [Pool.new, WorkerPool.State.new] at ha
  held := by intro a ha; simp [Pool.new, WorkerPool.State.new] at ha

theorem poolOk_enqueue {p : Pool} (hcap : 1 ≤ cfg.perAppQueueCap) (h : PoolOk cfg p) (app : String)
    (t : Trigger) (now : Nat) (co : Bool) : PoolOk cfg (p.enqueue cfg app t now co) where
  inv := inv_enqueue h.inv app t now co
  scheduled := scheduled_enqueue hcap h.scheduled app t now co
  held := held_enqueue h.held app t now co

theorem poolOk_step {p : Pool} (hcap : 1 ≤ cfg.perAppQueueCap) (h : PoolOk cfg p) (a : Action) :
    PoolOk cfg (WorkerPool.step cfg p a) := by
  cases a with
  | enqueue app t now => exact poolOk_enqueue hcap h app t now false
  | enqueueCoalesce app t now => exact poolOk_enqueue hcap h app t now true
  | nextDispatch => exact ⟨inv_dispatch h.inv, scheduled_dispatch h.inv h.scheduled, held_dispatch h.held⟩
  | complete job =>
      refine ⟨inv_complete h.inv job, ?_, held_complete h.held job⟩
      by_cases hj : job ∈ p.running
      · exact (complete_frame hj).2.2.2 h.scheduled
      · show Scheduled (p.complete job).state
        rw [Pool.complete, if_neg hj]
        exact h.scheduled
  | shutdown => exact ⟨inv_step .shutdown h.inv, h.scheduled, h.held⟩

/-- The history of the pool only grows. -/
theorem log_step (cfg : PoolConfig) (p : Pool) (a : Action) :
    p.log <+: (WorkerPool.step cfg p a).log := by
  have henqueue : ∀ app t now co, p.log <+: (p.enqueue cfg app t now co).log := by
    intro app t now co
    unfold Pool.enqueue
    split
    · exact List.prefix_append _ _
    · exact List.prefix_refl _
  cases a with
  | enqueue app t now => exact henqueue app t now false
  | enqueueCoalesce app t now => exact henqueue app t now true
  | nextDispatch =>
      show p.log <+: (p.dispatch cfg).log
      unfold Pool.dispatch
      split
      · exact List.prefix_append _ _
      · exact List.prefix_refl _
  | complete job =>
      show p.log <+: (p.complete job).log
      unfold Pool.complete
      split
      · exact List.prefix_append _ _
      · exact List.prefix_refl _
  | shutdown => exact List.prefix_refl _

/-- An app has nothing waiting and nothing running. -/
def Idle (p : Pool) (app : String) : Prop := p.state.queueOf app = [] ∧ app ∉ p.state.inFlight

/-- An app is idle when everything that was accepted for it has completed. -/
theorem idle_iff {p : Pool} (h : WorkerPool.Inv cfg p) (app : String) :
    Idle p app ↔ acceptedOf app p.log = completedOf app p.log := by
  have hsplit := h.split app
  have hserved := h.served app
  rw [Idle, ← h.runningOf_eq_nil app, hsplit, hserved, List.append_assoc]
  refine ⟨fun ⟨hq, hr⟩ => by rw [hq, hr, List.append_nil, List.append_nil], fun heq => ?_⟩
  have hnil := List.self_eq_append_right.mp heq.symm
  obtain ⟨hr, hq⟩ := List.append_eq_nil_iff.mp hnil
  exact ⟨hq, hr⟩

/-! ## What a turn comes to -/

/-- The job a turn asks for. -/
def Turn.job (t : Turn) : JobCtx := ⟨t.app, .autoHeal, t.now⟩

/-- The history of the pool when the turn was over. -/
def Turn.after (t : Turn) : List JobEvent :=
  match t.result with
  | .ok true => t.before ++ [.accepted t.job]
  | _ => t.before

/-- What is known of a turn ever after. -/
structure TurnOk (p : Pool) (t : Turn) : Prop where
  after : t.after <+: p.log
  startOrder : startedOf t.app t.before <+: acceptedOf t.app t.before
  completeOrder : completedOf t.app t.before <+: startedOf t.app t.before
  accepted : t.result = .ok true → acceptedOf t.app t.before = completedOf t.app t.before
  coalesced : t.result = .ok false → acceptedOf t.app t.before ≠ completedOf t.app t.before
  refused : ∀ e, t.result = .error e → e = .shutdown ∧ p.state.shutdown = true

theorem TurnOk.before {p : Pool} {t : Turn} (h : TurnOk p t) : t.before <+: p.log := by
  refine List.IsPrefix.trans ?_ h.after
  unfold Turn.after
  split
  · exact List.prefix_append _ _
  · exact List.prefix_refl _

/-- A pool that was shut down stays so. -/
theorem shutdown_step (cfg : PoolConfig) {p : Pool} (h : p.state.shutdown = true) (a : Action) :
    (WorkerPool.step cfg p a).state.shutdown = true := by
  cases a with
  | enqueue app t now => exact ((enqueue_frame cfg p app t now false).2.2.1).trans h
  | enqueueCoalesce app t now => exact ((enqueue_frame cfg p app t now true).2.2.1).trans h
  | nextDispatch =>
      have hnext : WorkerPool.nextDispatch cfg p.state = (p.state, none) := if_pos h
      show (p.dispatch cfg).state.shutdown = true
      rw [Pool.dispatch, hnext]
      exact h
  | complete job =>
      by_cases hj : job ∈ p.running
      · exact (complete_frame hj).2.1.trans h
      · show (p.complete job).state.shutdown = true
        rw [Pool.complete, if_neg hj]
        exact h
  | shutdown => rfl

theorem turnOk_step {p : Pool} {t : Turn} (h : TurnOk p t) (a : Action) :
    TurnOk (WorkerPool.step cfg p a) t :=
  { h with
    after := h.after.trans (log_step cfg p a)
    refused := fun e he => ⟨(h.refused e he).1, shutdown_step cfg (h.refused e he).2 a⟩ }

/-- **A turn enqueues for an idle app, skips a busy one, and is refused by a closed pool only.** -/
theorem turnOk_enqueue {p : Pool} (hcap : 1 ≤ cfg.perAppQueueCap) (h : PoolOk cfg p) (app : String)
    (i n slept now : Nat) :
    TurnOk (p.enqueue cfg app .autoHeal now true)
      ⟨app, i, n, slept, now, p.log, (enqueueCoalesce cfg p.state app .autoHeal now).2⟩ := by
  have hsafe := h.inv.safe
  have hidle := idle_iff h.inv app
  unfold Pool.enqueue enqueueCoalesce
  rcases enqueueImpl_cases cfg p.state app .autoHeal now true with
    ⟨hs, heq⟩ | ⟨_, _, hmem, heq⟩ | ⟨_, hnot, hfull, heq⟩ | ⟨_, hnot, _, heq⟩
  · rw [heq]
    refine ⟨List.prefix_refl _, hsafe.startOrder app, hsafe.completeOrder app, fun h => absurd h (by simp),
      fun h => absurd h (by simp), ?_⟩
    intro e he
    cases he
    exact ⟨rfl, hs⟩
  · rw [heq]
    refine ⟨List.prefix_refl _, hsafe.startOrder app, hsafe.completeOrder app, fun h => absurd h (by simp),
      ?_, fun _ h => absurd h (by simp)⟩
    intro _ hdone
    obtain ⟨hq, hf⟩ := hidle.mpr hdone
    exact (h.scheduled app hmem).elim (fun hne => hne hq) hf
  · -- an app without an entry has an empty queue, which is not full
    have hnil : p.state.queueOf app = [] := by
      rw [WorkerPool.State.queueOf, AList.lookup_eq_none.mpr (hnot rfl)]
      rfl
    rw [hnil, List.length_nil] at hfull
    omega
  · have hnil : p.state.queueOf app = [] := by
      rw [WorkerPool.State.queueOf, AList.lookup_eq_none.mpr (hnot rfl)]
      rfl
    rw [heq]
    refine ⟨List.prefix_refl _, hsafe.startOrder app, hsafe.completeOrder app, fun _ => ?_,
      fun h => absurd h (by simp), fun _ h => absurd h (by simp)⟩
    exact hidle.mp ⟨hnil, fun hf => hnot rfl (h.held app hf)⟩

/-- **What a turn did for its app.** -/
structure Healed (p : Pool) (t : Turn) : Prop where
  accepted : t.result = .ok true → acceptedOf t.app t.before = completedOf t.app t.before
  coalesced : t.result = .ok false → acceptedOf t.app t.before ≠ completedOf t.app t.before
  refused : ∀ e, t.result = .error e → e = .shutdown ∧ p.state.shutdown = true
  /-- Once the app is idle again, a job of it has completed since the turn. -/
  completes : (∀ e, t.result ≠ .error e) → Idle p t.app →
    ∃ since, p.log = t.before ++ since ∧ completedOf t.app since ≠ []
  /-- The job of the turn has started and completed, if it was accepted. -/
  starts : t.result = .ok true → Idle p t.app → ∃ since, p.log = t.before ++ since
    ∧ t.job ∈ startedOf t.app since ∧ t.job ∈ completedOf t.app since

theorem TurnOk.healed {p : Pool} {t : Turn} (h : TurnOk p t) (hi : WorkerPool.Inv cfg p) :
    Healed p t := by
  have hjob : ∀ since, t.result = .ok true → p.log = t.before ++ since →
      ∃ more, acceptedOf t.app since = t.job :: more := by
    intro since hok hsince
    have hafter := h.after
    rw [Turn.after, hok, hsince] at hafter
    obtain ⟨more, rfl⟩ := (List.prefix_append_right_inj _).mp hafter
    exact ⟨acceptedOf t.app more, by rw [acceptedOf_append]; simp [Turn.job]⟩
  have between : ∀ {a s c : List JobCtx}, a = c → s <+: a → c <+: s → s = c := by
    rintro a s c rfl hs hc
    exact hs.sublist.antisymm hc.sublist
  refine ⟨h.accepted, h.coalesced, h.refused, fun hno hidle => ?_, fun hok hidle => ?_⟩
  · obtain ⟨since, hsince⟩ := h.before
    refine ⟨since, hsince.symm, fun hnone => ?_⟩
    have hdone := (idle_iff hi t.app).mp hidle
    rw [← hsince, acceptedOf_append, completedOf_append, hnone, List.append_nil] at hdone
    cases hres : t.result with
    | error e => exact hno e hres
    | ok enqueued =>
        cases enqueued with
        | true =>
            obtain ⟨more, hmore⟩ := hjob since hres hsince.symm
            have hlen := congrArg List.length hdone
            rw [← h.accepted hres, hmore, List.length_append, List.length_cons] at hlen
            omega
        | false =>
            -- less has completed than was accepted, and completions are accepted jobs
            have hle := (h.completeOrder.trans h.startOrder).length_le
            have hlen := congrArg List.length hdone
            rw [List.length_append] at hlen
            have hnil : acceptedOf t.app since = [] := List.length_eq_zero_iff.mp (by omega)
            rw [hnil, List.append_nil] at hdone
            exact h.coalesced hres hdone
  · obtain ⟨since, hsince⟩ := h.before
    obtain ⟨more, hmore⟩ := hjob since hok hsince.symm
    have hdone := (idle_iff hi t.app).mp hidle
    have hstarted := between hdone (hi.safe.startOrder t.app) (hi.safe.completeOrder t.app)
    have hbefore := between (h.accepted hok) h.startOrder h.completeOrder
    rw [← hsince, acceptedOf_append, completedOf_append, h.accepted hok, hmore] at hdone
    rw [← hsince, startedOf_append, completedOf_append, hbefore] at hstarted
    have hc := List.append_cancel_left hdone
    have hs := List.append_cancel_left hstarted
    refine ⟨since, hsince.symm, ?_, ?_⟩
    · rw [hs, ← hc]
      exact List.mem_cons_self
    · rw [← hc]
      exact List.mem_cons_self

/-! ## Every run -/

/-- The turns a tick over these apps is made of: app, place, number of apps. -/
def slots (apps : List String) : List (String × Nat × Nat) :=
  apps.zipIdx.map fun p => (p.1, p.2, apps.length)

def Turn.slot (t : Turn) : String × Nat × Nat := (t.app, t.index, t.listed)

/-- How far the loop has come with what the lister gave. -/
def Covered (config : AutoHealConfig) (s : State) : Prop :=
  match s.point with
  | .sleeping => s.turns.map Turn.slot = s.ticks.flatMap slots
  | .enqueuing apps i delay => ∃ earlier, s.ticks = earlier ++ [apps]
      ∧ s.turns.map Turn.slot = earlier.flatMap slots ++ (slots apps).take i
      ∧ i < apps.length ∧ perAppDelay config apps.length = some delay ∧ s.slept = i * delay.nanos
  | .spreading apps i delay => ∃ earlier, s.ticks = earlier ++ [apps]
      ∧ s.turns.map Turn.slot = earlier.flatMap slots ++ (slots apps).take (i + 1)
      ∧ i + 1 < apps.length ∧ perAppDelay config apps.length = some delay ∧ s.slept = i * delay.nanos
  | .panicked => ∃ earlier apps, s.ticks = earlier ++ [apps] ∧ perAppDelay config apps.length = none
      ∧ s.turns.map Turn.slot = earlier.flatMap slots

/-- A turn comes when the spread of its tick says. -/
structure Spread (config : AutoHealConfig) (t : Turn) : Prop where
  index : t.index < t.listed
  /-- The window is divided by a `u32`. -/
  offset : t.listed < 2 ^ 32 → t.offset = t.index * (config.jitterWindow.nanos / t.listed)

/-- How many turns ended in this way. -/
def State.count (s : State) (enqueued : Bool) : Nat :=
  s.turns.countP fun t => match t.result with
    | .ok b => b == enqueued
    | .error _ => false

/-- The loop goes over what it was given, and counts. -/
structure Counted (config : AutoHealConfig) (s : State) : Prop where
  spread : ∀ t ∈ s.turns, Spread config t
  covered : Covered config s
  ticks : s.counters.ticks = s.ticks.length
  enqueued : s.counters.enqueued = s.count true
  skipped : s.counters.skipped = s.count false

theorem counted_new (config : AutoHealConfig) : Counted config State.new := ⟨nofun, rfl, rfl, rfl, rfl⟩

theorem perAppDelay_eq {config : AutoHealConfig} {n i : Nat} {delay : Duration}
    (h : perAppDelay config n = some delay) (hi : i < n) (hn : n < 2 ^ 32) :
    i * delay.nanos = i * (config.jitterWindow.nanos / n) := by
  unfold perAppDelay at h
  split at h
  · rename_i hzero
    obtain rfl := Option.some.inj h
    rcases Bool.or_eq_true _ _ |>.mp hzero with hw | hone
    · rw [Duration.nanos_of_isZero hw, Nat.zero_div]
      rfl
    · -- the only app of a tick comes at once
      have : i = 0 := by
        have := of_decide_eq_true hone
        omega
      rw [this, Nat.zero_mul, Nat.zero_mul]
  · rw [Nat.mod_eq_of_lt hn, Duration.checkedDiv, if_neg (by omega)] at h
    obtain rfl := Option.some.inj h
    rfl

theorem counted_tick {config : AutoHealConfig} {s : State} (h : Counted config s)
    (apps : List String) : Counted config (s.tick config apps) := by
  unfold State.tick
  cases hp : s.point with
  | sleeping =>
      have hcovered := h.covered
      unfold Covered at hcovered
      rw [hp] at hcovered
      refine { h with covered := ?_, ticks := ?_ }
      · unfold Covered
        by_cases hempty : apps.isEmpty = true
        · obtain rfl := List.isEmpty_iff.mp hempty
          simpa [slots] using hcovered
        · have hpos : 0 < apps.length := List.length_pos_iff.mpr fun hnil => hempty (hnil ▸ rfl)
          simp only [hempty, Bool.false_eq_true, if_false]
          cases hd : perAppDelay config apps.length with
          | none => exact ⟨s.ticks, apps, rfl, hd, hcovered⟩
          | some delay =>
              refine ⟨s.ticks, rfl, ?_, hpos, hd, (Nat.zero_mul _).symm⟩
              rw [List.take_zero, List.append_nil]
              exact hcovered
      · show s.counters.ticks + 1 = (s.ticks ++ [apps]).length
        rw [h.ticks, List.length_append, List.length_singleton]
  | enqueuing apps i delay => exact h
  | spreading apps i delay => exact h
  | panicked => exact h

theorem counted_wake {config : AutoHealConfig} {s : State} (h : Counted config s) :
    Counted config s.wake := by
  unfold State.wake
  cases hp : s.point with
  | spreading apps i delay =>
      have hcovered := h.covered
      unfold Covered at hcovered
      rw [hp] at hcovered
      obtain ⟨earlier, hticks, hturns, hi, hdelay, hslept⟩ := hcovered
      refine { h with covered := ⟨earlier, hticks, hturns, hi, hdelay, ?_⟩ }
      show s.slept + delay.nanos = (i + 1) * delay.nanos
      rw [hslept, Nat.succ_mul]
  | sleeping => exact h
  | enqueuing apps i delay => exact h
  | panicked => exact h

theorem slots_getElem? {apps : List String} {i : Nat} {app : String} (h : apps[i]? = some app) :
    (slots apps)[i]? = some (app, i, apps.length) := by
  rw [slots, List.getElem?_map, List.getElem?_zipIdx, h, Nat.zero_add]
  rfl

theorem length_slots (apps : List String) : (slots apps).length = apps.length := by
  rw [slots, List.length_map, List.length_zipIdx]

theorem covered_next {config : AutoHealConfig} {s : State} {apps : List String} {i : Nat}
    {delay : Duration} {earlier : List (List String)} (hpoint : s.point = next apps i delay)
    (hticks : s.ticks = earlier ++ [apps])
    (hturns : s.turns.map Turn.slot = earlier.flatMap slots ++ (slots apps).take (i + 1))
    (hdelay : perAppDelay config apps.length = some delay) (hslept : s.slept = i * delay.nanos) :
    Covered config s := by
  unfold Covered
  rw [hpoint]
  unfold next
  by_cases hmore : i + 1 < apps.length
  · rw [if_pos hmore]
    by_cases hpos : Duration.ZERO < delay
    · rw [if_pos hpos]
      exact ⟨earlier, hticks, hturns, hmore, hdelay, hslept⟩
    · -- no sleep between apps, and none is owed
      have hzero : delay.nanos = 0 := Nat.eq_zero_of_not_pos hpos
      rw [if_neg hpos]
      refine ⟨earlier, hticks, hturns, hmore, hdelay, ?_⟩
      rw [hslept, hzero, Nat.mul_zero, Nat.mul_zero]
  · rw [if_neg hmore]
    have hall : (slots apps).take (i + 1) = slots apps :=
      List.take_of_length_le (by rw [length_slots]; omega)
    show s.turns.map Turn.slot = s.ticks.flatMap slots
    rw [hturns, hall, hticks, List.flatMap_append, List.flatMap_singleton]

/-- What a turn adds to either count. -/
theorem count_turn {s s' : State} {t : Turn} (hs : s'.turns = s.turns ++ [t]) (enqueued : Bool) :
    s'.count enqueued = s.count enqueued + match t.result with
      | .ok b => if b = enqueued then 1 else 0
      | .error _ => 0 := by
  unfold State.count
  rw [hs, List.countP_append, List.countP_singleton]
  cases t.result with
  | error e => rfl
  | ok b =>
      cases enqueued with
      | true => cases b <;> rfl
      | false => cases b <;> rfl

theorem counted_turn {config : AutoHealConfig} {s : State} (h : Counted config s) (now : Nat) :
    Counted config (s.turn cfg now) := by
  unfold State.turn
  cases hp : s.point with
  | enqueuing apps i delay =>
      cases happ : apps[i]? with
      | none => simpa only [happ] using h
      | some app =>
          have hcovered := h.covered
          unfold Covered at hcovered
          rw [hp] at hcovered
          obtain ⟨earlier, hticks, hturns, hi, hdelay, hslept⟩ := hcovered
          simp only [happ]
          refine ⟨?_, ?_, ?_, ?_, ?_⟩
          · intro t ht
            rcases List.mem_append.mp ht with ht | ht
            · exact h.spread t ht
            · obtain rfl := List.mem_singleton.mp ht
              exact ⟨hi, fun hn => hslept.trans (perAppDelay_eq hdelay hi hn)⟩
          · refine covered_next rfl hticks ?_ hdelay hslept
            rw [List.map_append, hturns, List.append_assoc, List.take_add_one, slots_getElem? happ]
            rfl
          · refine Eq.trans ?_ h.ticks
            cases (enqueueCoalesce cfg s.pool.state app .autoHeal now).2 with
            | error e => rfl
            | ok b => cases b <;> rfl
          · rw [count_turn rfl true, ← h.enqueued]
            cases (enqueueCoalesce cfg s.pool.state app .autoHeal now).2 with
            | error e => rfl
            | ok b => cases b <;> rfl
          · rw [count_turn rfl false, ← h.skipped]
            cases (enqueueCoalesce cfg s.pool.state app .autoHeal now).2 with
            | error e => rfl
            | ok b => cases b <;> rfl
  | sleeping => exact h
  | spreading apps i delay => exact h
  | panicked => exact h

theorem counted_step {config : AutoHealConfig} (s : State) (e : Event) (h : Counted config s) :
    Counted config (step config cfg s e) := by
  cases e with
  | pool a => exact ⟨h.spread, h.covered, h.ticks, h.enqueued, h.skipped⟩
  | tick apps => exact counted_tick h apps
  | turn now => exact counted_turn h now
  | wake => exact counted_wake h

/--
**Every app of every tick has its turn, when the spread says.**

In every interleaving: the turns are the apps of the ticks, in the order in which the
lister gave them, and between ticks none is missing. The one at place `i` of `n` comes
when its tick has slept `i` times the `n`-th part of the window. The counters count the
ticks, the turns that enqueued and those that skipped.
-/
theorem ticks_are_spread (config : AutoHealConfig) (cfg : PoolConfig) (es : List Event) :
    ((after config cfg es).turns.map Turn.slot <+: (after config cfg es).ticks.flatMap slots)
    ∧ ((after config cfg es).point = .sleeping →
      (after config cfg es).turns.map Turn.slot = (after config cfg es).ticks.flatMap slots)
    ∧ (∀ t ∈ (after config cfg es).turns, Spread config t)
    ∧ (after config cfg es).stats = ⟨.ofNat (after config cfg es).ticks.length,
      .ofNat ((after config cfg es).count true), .ofNat ((after config cfg es).count false)⟩ := by
  have h : Counted config (after config cfg es) := exec_inv counted_step (counted_new config) es
  generalize after config cfg es = s at h
  have hcovered := h.covered
  unfold Covered at hcovered
  refine ⟨?_, ?_, h.spread, ?_⟩
  · cases hp : s.point with
    | sleeping =>
        rw [hp] at hcovered
        rw [hcovered]
    | enqueuing apps i delay =>
        rw [hp] at hcovered
        obtain ⟨earlier, hticks, hturns, -⟩ := hcovered
        rw [hturns, hticks, List.flatMap_append, List.flatMap_singleton]
        exact (List.prefix_append_right_inj _).mpr (List.take_prefix _ _)
    | spreading apps i delay =>
        rw [hp] at hcovered
        obtain ⟨earlier, hticks, hturns, -⟩ := hcovered
        rw [hturns, hticks, List.flatMap_append, List.flatMap_singleton]
        exact (List.prefix_append_right_inj _).mpr (List.take_prefix _ _)
    | panicked =>
        rw [hp] at hcovered
        obtain ⟨earlier, apps, hticks, -, hturns⟩ := hcovered
        rw [hturns, hticks, List.flatMap_append]
        exact List.prefix_append _ _
  · intro hp
    rwa [hp] at hcovered
  · rw [State.stats, h.ticks, h.enqueued, h.skipped]

/-! ## What the turns do -/

/-- The pool is as any user leaves it, and the turns so far were what they are. -/
structure Inv (cfg : PoolConfig) (s : State) : Prop where
  pool : PoolOk cfg s.pool
  turns : ∀ t ∈ s.turns, TurnOk s.pool t

theorem inv_new (cfg : PoolConfig) : Inv cfg State.new := ⟨poolOk_new cfg, nofun⟩

theorem inv_turn {s : State} (hcap : 1 ≤ cfg.perAppQueueCap) (h : Inv cfg s) (now : Nat) :
    Inv cfg (s.turn cfg now) := by
  unfold State.turn
  cases hp : s.point with
  | enqueuing apps i delay =>
      cases happ : apps[i]? with
      | none => simpa only [happ] using h
      | some app =>
          simp only [happ]
          refine ⟨poolOk_enqueue hcap h.pool app .autoHeal now true, fun t ht => ?_⟩
          rcases List.mem_append.mp ht with ht | ht
          · exact turnOk_step (h.turns t ht) (.enqueueCoalesce app .autoHeal now)
          · obtain rfl := List.mem_singleton.mp ht
            exact turnOk_enqueue hcap h.pool app i apps.length s.slept now
  | sleeping => exact h
  | spreading apps i delay => exact h
  | panicked => exact h

theorem inv_step {config : AutoHealConfig} (hcap : 1 ≤ cfg.perAppQueueCap) (s : State) (e : Event)
    (h : Inv cfg s) : Inv cfg (step config cfg s e) := by
  cases e with
  | pool a => exact ⟨poolOk_step hcap h.pool a, fun t ht => turnOk_step (h.turns t ht) a⟩
  | tick apps =>
      show Inv cfg (s.tick config apps)
      unfold State.tick
      split
      · exact ⟨h.pool, h.turns⟩
      · exact h
  | turn now => exact inv_turn hcap h now
  | wake =>
      show Inv cfg s.wake
      unfold State.wake
      split
      · exact ⟨h.pool, h.turns⟩
      · exact h

/--
**Every turn heals its app.**

In every interleaving of the scheduler with all that use the pool: a turn enqueues for
an idle app and skips a busy one, and only a pool that was shut down refuses it. When
the app has no job left after that, one has completed since the turn, and the one that
the turn enqueued has also started since.
-/
theorem every_turn_heals (config : AutoHealConfig) (hcap : 1 ≤ cfg.perAppQueueCap) (es : List Event) :
    ∀ t ∈ (after config cfg es).turns, Healed (after config cfg es).pool t := by
  have h : Inv cfg (after config cfg es) := exec_inv (inv_step hcap) (inv_new cfg) es
  exact fun t ht => (h.turns t ht).healed h.pool.inv

/-- The shop is still being reconciled when its second turn comes. -/
def twoTicks : List Event :=
  [.tick ["shop", "blog"], .turn 0, .pool .nextDispatch, .wake, .turn 1, .tick ["shop", "blog"],
    .turn 10, .pool (.complete ⟨"shop", .autoHeal, 0⟩)]

def everyTenSeconds : AutoHealConfig := ⟨.fromSecs 10, .fromSecs 1⟩

theorem shop_healed :
    (after everyTenSeconds ⟨1, 1⟩ twoTicks).turns.map (fun t => (t.app, t.offset, t.result.toOption))
        = [("shop", 0, some true), ("blog", 500000000, some true), ("shop", 0, some false)]
      ∧ ∀ t ∈ (after everyTenSeconds ⟨1, 1⟩ twoTicks).turns,
        Healed (after everyTenSeconds ⟨1, 1⟩ twoTicks).pool t :=
  ⟨by decide, @every_turn_heals ⟨1, 1⟩ everyTenSeconds (by decide) twoTicks⟩

end SynchrotronCD.AutoHeal
