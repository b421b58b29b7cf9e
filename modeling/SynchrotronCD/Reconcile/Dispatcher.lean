import SynchrotronCD.Reconcile.WorkerPoolProof

/-!
# The dispatcher and its wake-ups

The dispatcher drains the ready list, looks at the shutdown flag, and parks on a
`Notify`. Producers and handlers leave their locked section first and call
`notify_one` afterwards; shutdown sets the flag and then calls `notify_waiters`.
All of these interleave.

A `Notify` remembers one `notify_one` that found nobody waiting; it remembers no
`notify_waiters`. A wake-up is lost if it is of the second kind and falls after
the flag was read and before the dispatcher parks, and then only if nothing else
is going to wake it (`neverStuck_iff`).
-/

namespace SynchrotronCD.Dispatcher

open Lib WorkerPool

/-- Where the dispatcher is in its loop. -/
inductive Point where
  /-- In the inner loop over `next_dispatch`. -/
  | draining
  /-- About to read the shutdown flag. -/
  | checking
  /-- The flag was not set; about to call `notified()`. -/
  | parking
  /-- Waiting in `notified().await`. -/
  | parked
  /-- Out of the loop: awaits the handlers still running and returns. -/
  | exiting
deriving DecidableEq, Repr

/-- How far the one call of `shutdown` has come. -/
inductive ShutdownPhase where
  | notCalled
  | flagSet
  /-- `notify_waiters` was called. -/
  | notified
deriving DecidableEq, Repr

structure State where
  pool : Pool
  point : Point
  /-- The permit stored in the `Notify`. -/
  permit : Bool
  /-- Enqueues and completions that have left their locked section and not yet called
  `notify_one`. -/
  notifying : Nat
  phase : ShutdownPhase

def State.new : State := ⟨Pool.new, .draining, false, 0, .notCalled⟩

/-- `Notify::notify_one`: wake the waiter, or leave a permit. -/
def notifyOne (s : State) : State :=
  if s.point = .parked then { s with point := .draining } else { s with permit := true }

/-- `Notify::notify_waiters`: wake the waiter, if there is one. -/
def notifyWaiters (s : State) : State :=
  if s.point = .parked then { s with point := .draining } else s

/-- `notified().await`: consume the permit, or wait. -/
def notified (s : State) : State :=
  if s.permit then { s with permit := false, point := .draining } else { s with point := .parked }

/-- One iteration of the inner loop. -/
def drain (cfg : PoolConfig) (s : State) : State :=
  match (nextDispatch cfg s.pool.state).2 with
  | some _ => { s with pool := s.pool.dispatch cfg }
  | none => { s with pool := s.pool.dispatch cfg, point := .checking }

inductive Event where
  /-- The locked section of an enqueue, plain or coalescing. -/
  | enqueue (app : String) (trigger : Trigger) (now : Nat) (coalesce : Bool)
  /-- The locked section of a handler that has returned. -/
  | complete (job : JobCtx)
  /-- One of those calls `notify_one`. -/
  | notifyOne
  | drain
  | check
  | park
  /-- The locked section of `shutdown`. -/
  | setFlag
  /-- `shutdown` calls `notify_waiters`. -/
  | notifyWaiters
deriving Repr

def step (cfg : PoolConfig) (s : State) : Event → State
  | .enqueue app trigger now coalesce =>
    { s with
      pool := s.pool.enqueue cfg app trigger now coalesce
      notifying :=
        match (enqueueImpl cfg s.pool.state app trigger now coalesce).2 with
        | .ok true => s.notifying + 1
        | _ => s.notifying }
  | .complete job =>
    if job ∈ s.pool.running then
      { s with pool := s.pool.complete job, notifying := s.notifying + 1 }
    else s
  | .notifyOne =>
    if s.notifying = 0 then s else notifyOne { s with notifying := s.notifying - 1 }
  | .drain => if s.point = .draining then drain cfg s else s
  | .check =>
    if s.point = .checking then
      { s with point := if s.pool.state.shutdown then .exiting else .parking }
    else s
  | .park => if s.point = .parking then notified s else s
  | .setFlag =>
    if s.phase = .notCalled then
      { s with pool := { s.pool with state := setShutdown s.pool.state }, phase := .flagSet }
    else s
  | .notifyWaiters =>
    if s.phase = .flagSet then notifyWaiters { s with phase := .notified } else s

/--
**The dispatcher is stuck**: parked without a permit and with none on its way,
although it could start a job, or should return.
-/
structure Stuck (cfg : PoolConfig) (s : State) : Prop where
  parked : s.point = .parked
  noPermit : s.permit = false
  noneComing : s.notifying = 0
  wanted : (s.pool.state.ready ≠ [] ∧ s.pool.running.length < cfg.maxConcurrent) ∨
    (s.pool.state.shutdown = true ∧ s.phase = .notified ∧ s.pool.running = [])

/-- The steps the dispatcher takes by itself. -/
def OwnStep : Event → Prop
  | .drain | .check | .park => True
  | _ => False

/-- Nowhere in the run is the dispatcher stuck, nor does it get stuck by itself from there. -/
def NeverStuck (cfg : PoolConfig) (run : List Event) : Prop :=
  ∀ pre, pre <+: run → ∀ own : List Event, (∀ e ∈ own, OwnStep e) →
    ¬ Stuck cfg (exec (step cfg) State.new (pre ++ own))

/-- `notify_waiters` does not fall between the dispatcher's look at the flag and its parking,
unless another wake-up is stored, on its way, or owed by a running handler. -/
def FindsWaiter (s : State) : Event → Prop
  | .notifyWaiters => s.phase = .flagSet → s.point = .parking →
      s.permit = true ∨ 0 < s.notifying ∨ s.pool.running ≠ []
  | _ => True

/-! ## What the steps do to the ready list -/

variable {cfg : PoolConfig}

/-- The dispatcher stops draining for one of three reasons. -/
theorem nextDispatch_none {s : WorkerPool.State} (h : (nextDispatch cfg s).2 = none)
    (hready : ∀ app ∈ s.ready, s.queueOf app ≠ []) :
    s.shutdown = true ∨ cfg.maxConcurrent ≤ s.inFlight.card ∨ s.ready = [] := by
  unfold nextDispatch at h
  split at h
  · rename_i hs
    exact Or.inl hs
  · split at h
    · rename_i hcap
      exact Or.inr (Or.inl hcap)
    · split at h
      · rename_i hr
        exact Or.inr (Or.inr hr)
      · rename_i app rest hr
        split at h
        · simp at h
        · -- an app on the ready list has a job
          rename_i hl
          exfalso
          refine hready app (by rw [hr]; exact List.mem_cons_self) ?_
          unfold State.queueOf
          cases hq : s.apps.lookup app with
          | none => rfl
          | some l =>
              cases l with
              | nil => rfl
              | cons ctx q => exact absurd hq (hl ctx q)

theorem dispatch_of_none {p : Pool} (h : Inv cfg p) (hn : (nextDispatch cfg p.state).2 = none) :
    p.dispatch cfg = p := by
  rcases nextDispatch_cases cfg p.state with heq | ⟨app, rest, hr, hq, _⟩ |
    ⟨app, rest, ctx, q, _, _, _, _, heq⟩
  · unfold Pool.dispatch
    rw [heq]
  · exact absurd hq ((h.ready app).mp (by rw [hr]; simp)).1
  · rw [heq] at hn; simp at hn

/-- An enqueue that accepts nothing leaves the ready list alone. -/
theorem enqueue_ready {p : Pool} {app : String} {t : Trigger} {now : Nat} {co : Bool}
    (h : (enqueueImpl cfg p.state app t now co).2 ≠ .ok true) :
    (p.enqueue cfg app t now co).state.ready = p.state.ready := by
  unfold Pool.enqueue
  rcases enqueueImpl_cases cfg p.state app t now co with
    ⟨_, heq⟩ | ⟨_, _, _, heq⟩ | ⟨_, _, _, heq⟩ | ⟨_, _, _, heq⟩
  · rw [heq]
  · rw [heq]
  · rw [heq]
  · rw [heq] at h; exact absurd rfl h

/-! ## The invariant -/

/-- Some wake-up is stored or on its way. -/
def Coming (s : State) : Prop := s.permit = true ∨ 0 < s.notifying

/-- Past its drain, the dispatcher has missed nothing it is not about to be told of. -/
structure Awake (cfg : PoolConfig) (s : State) : Prop where
  pool : Inv cfg s.pool
  flag : s.phase ≠ .notCalled → s.pool.state.shutdown = true
  /-- There was nothing to start when it stopped draining, and what came since it will hear of. -/
  drained : s.point ≠ .draining → s.point ≠ .exiting →
    s.pool.state.ready = [] ∨ cfg.maxConcurrent ≤ s.pool.running.length ∨ Coming s ∨
      (s.point = .checking ∧ s.pool.state.shutdown = true)
  /-- After the last step of shutdown it has heard, or will. -/
  told : s.phase = .notified → s.point = .parking ∨ s.point = .parked →
    Coming s ∨ s.pool.running ≠ []

theorem awake_new (cfg : PoolConfig) : Awake cfg State.new where
  pool := inv_new cfg
  flag := by intro h; exact absurd rfl h
  drained := by intro h; exact absurd rfl h
  told := by intro h; simp [State.new] at h

theorem Awake.not_stuck {s : State} (h : Awake cfg s) : ¬ Stuck cfg s := by
  intro hs
  have hcoming : ¬ Coming s := by
    intro hc
    rcases hc with hp | hn
    · rw [hs.noPermit] at hp; simp at hp
    · rw [hs.noneComing] at hn; omega
  rcases hs.wanted with ⟨hready, hroom⟩ | ⟨_, hphase, hidle⟩
  · rcases h.drained (by rw [hs.parked]; simp) (by rw [hs.parked]; simp) with
      hr | hfull | hc | ⟨hp, _⟩
    · exact hready hr
    · omega
    · exact hcoming hc
    · rw [hs.parked] at hp; simp at hp
  · rcases h.told hphase (Or.inr hs.parked) with hc | hr
    · exact hcoming hc
    · exact hr hidle

theorem awake_enqueue {s : State} (h : Awake cfg s) (app : String) (t : Trigger) (now : Nat)
    (co : Bool) : Awake cfg (step cfg s (.enqueue app t now co)) := by
  obtain ⟨_, hrun, hsd, _⟩ := enqueue_frame cfg s.pool app t now co
  have hpool := inv_enqueue h.pool app t now co
  by_cases hacc : (enqueueImpl cfg s.pool.state app t now co).2 = .ok true
  · -- an accepted job: its `notify_one` is on its way
    have hn : (step cfg s (.enqueue app t now co)).notifying = s.notifying + 1 := by
      simp [step, hacc]
    have hc : Coming (step cfg s (.enqueue app t now co)) := Or.inr (by omega)
    exact ⟨hpool, fun hp => hsd.trans (h.flag hp), fun _ _ => Or.inr (Or.inr (Or.inl hc)),
      fun _ _ => Or.inl hc⟩
  · have hn : (step cfg s (.enqueue app t now co)).notifying = s.notifying := by
      simp [step]
    have hc : Coming (step cfg s (.enqueue app t now co)) ↔ Coming s := by
      unfold Coming
      rw [hn]
      rfl
    refine ⟨hpool, fun hp => hsd.trans (h.flag hp), fun hd he => ?_, fun hp hpt => ?_⟩
    · rw [hc]
      show (s.pool.enqueue cfg app t now co).state.ready = [] ∨
        cfg.maxConcurrent ≤ (s.pool.enqueue cfg app t now co).running.length ∨ _ ∨
        (_ ∧ (s.pool.enqueue cfg app t now co).state.shutdown = true)
      rw [enqueue_ready hacc, hrun, hsd]
      exact h.drained hd he
    · rw [hc]
      show _ ∨ (s.pool.enqueue cfg app t now co).running ≠ []
      rw [hrun]
      exact h.told hp hpt

theorem awake_notifyOne {s : State} (h : Awake cfg s) : Awake cfg (step cfg s .notifyOne) := by
  simp only [step]
  split
  · exact h
  · unfold notifyOne
    split
    · exact ⟨h.pool, h.flag, fun hd => absurd rfl hd, fun _ hp => by simp at hp⟩
    · exact ⟨h.pool, h.flag, fun _ _ => Or.inr (Or.inr (Or.inl (Or.inl rfl))),
        fun _ _ => Or.inl (Or.inl rfl)⟩

theorem awake_drain {s : State} (h : Awake cfg s) : Awake cfg (step cfg s .drain) := by
  simp only [step]
  split
  swap
  · exact h
  rename_i hpt
  have hsd : (s.pool.dispatch cfg).state.shutdown = s.pool.state.shutdown := by
    rcases dispatch_cases h.pool with heq | ⟨_, _, _, _, _, _, heq, _⟩
    · rw [heq]
    · exact heq
  unfold drain
  split
  · refine ⟨inv_dispatch h.pool, fun hp => hsd.trans (h.flag hp), fun hd => absurd hpt hd,
      fun _ hp => ?_⟩
    dsimp only at hp
    rw [hpt] at hp
    simp at hp
  · -- nothing left to start
    rename_i hn
    rw [dispatch_of_none h.pool hn]
    refine ⟨h.pool, h.flag, fun _ _ => ?_, fun _ hp => by simp at hp⟩
    have hq : ∀ app ∈ s.pool.state.ready, s.pool.state.queueOf app ≠ [] :=
      fun app ha => ((h.pool.ready app).mp ha).1
    rcases nextDispatch_none hn hq with hflag | hcap | hr
    · exact Or.inr (Or.inr (Or.inr ⟨rfl, hflag⟩))
    · rw [h.pool.card] at hcap
      exact Or.inr (Or.inl hcap)
    · exact Or.inl hr

theorem awake_check {s : State} (h : Awake cfg s) : Awake cfg (step cfg s .check) := by
  simp only [step]
  split
  swap
  · exact h
  rename_i hpt
  by_cases hflag : s.pool.state.shutdown = true
  · simp only [hflag, if_true]
    exact ⟨h.pool, h.flag, fun _ he => absurd rfl he, fun _ hp => by simp at hp⟩
  · simp only [hflag]
    refine ⟨h.pool, h.flag, fun _ _ => ?_, fun hp _ => ?_⟩
    · rcases h.drained (by rw [hpt]; simp) (by rw [hpt]; simp) with hr | hfull | hc | ⟨_, hs⟩
      · exact Or.inl hr
      · exact Or.inr (Or.inl hfull)
      · exact Or.inr (Or.inr (Or.inl hc))
      · exact absurd hs hflag
    · -- the flag is set before anyone is notified of it
      have hphase : s.phase = .notified := hp
      exact absurd (h.flag (by rw [hphase]; simp)) hflag

theorem awake_park {s : State} (h : Awake cfg s) : Awake cfg (step cfg s .park) := by
  simp only [step]
  split
  swap
  · exact h
  rename_i hpt
  unfold notified
  split
  · exact ⟨h.pool, h.flag, fun hd => absurd rfl hd, fun _ hp => by simp at hp⟩
  · refine ⟨h.pool, h.flag, fun _ _ => ?_, fun hp _ => h.told hp (Or.inl hpt)⟩
    rcases h.drained (by rw [hpt]; simp) (by rw [hpt]; simp) with hr | hfull | hc | ⟨hp, _⟩
    · exact Or.inl hr
    · exact Or.inr (Or.inl hfull)
    · exact Or.inr (Or.inr (Or.inl hc))
    · rw [hpt] at hp; simp at hp

theorem awake_complete {s : State} (h : Awake cfg s) (job : JobCtx) :
    Awake cfg (step cfg s (.complete job)) := by
  simp only [step]
  split
  swap
  · exact h
  rename_i hj
  have hsd := (complete_frame hj).2.1
  have hc : Coming { s with pool := s.pool.complete job, notifying := s.notifying + 1 } :=
    Or.inr (Nat.succ_pos _)
  exact ⟨inv_complete h.pool job, fun hp => hsd.trans (h.flag hp),
    fun _ _ => Or.inr (Or.inr (Or.inl hc)), fun _ _ => Or.inl hc⟩

theorem awake_setFlag {s : State} (h : Awake cfg s) : Awake cfg (step cfg s .setFlag) := by
  simp only [step]
  split
  · refine ⟨h.pool.of_apps (fun _ => rfl) rfl rfl h.pool.depth, fun _ => rfl, fun hd he => ?_,
      fun hp => by simp at hp⟩
    rcases h.drained hd he with hr | hfull | hc | ⟨hp, _⟩
    · exact Or.inl hr
    · exact Or.inr (Or.inl hfull)
    · exact Or.inr (Or.inr (Or.inl hc))
    · exact Or.inr (Or.inr (Or.inr ⟨hp, rfl⟩))
  · exact h

theorem awake_notifyWaiters {s : State} (h : Awake cfg s) (hc : FindsWaiter s .notifyWaiters) :
    Awake cfg (step cfg s .notifyWaiters) := by
  simp only [step]
  split
  swap
  · exact h
  rename_i hphase
  have hflag := h.flag (by rw [hphase]; simp)
  unfold notifyWaiters
  split
  · exact ⟨h.pool, fun _ => hflag, fun hd => absurd rfl hd, fun _ hp => by simp at hp⟩
  · rename_i hnp
    refine ⟨h.pool, fun _ => hflag, h.drained, fun _ hp => ?_⟩
    rcases hp with hp | hp
    · -- the wake-up falls into the gap
      rcases hc hphase hp with h1 | h1 | h1
      · exact Or.inl (Or.inl h1)
      · exact Or.inl (Or.inr h1)
      · exact Or.inr h1
    · exact absurd hp hnp

/-- **A step that does not lose the wake-up of shutdown keeps the dispatcher awake.** -/
theorem awake_step (s : State) (e : Event) (h : Awake cfg s) (hc : FindsWaiter s e) :
    Awake cfg (step cfg s e) := by
  cases e with
  | enqueue app t now co => exact awake_enqueue h app t now co
  | complete job => exact awake_complete h job
  | notifyOne => exact awake_notifyOne h
  | drain => exact awake_drain h
  | check => exact awake_check h
  | park => exact awake_park h
  | setFlag => exact awake_setFlag h
  | notifyWaiters => exact awake_notifyWaiters h hc

/-! ## When the dispatcher gets stuck -/

theorem findsWaiter_ownStep {s : State} {e : Event} (h : OwnStep e) : FindsWaiter s e := by
  cases e with
  | notifyWaiters => exact absurd h id
  | _ => trivial

/-- **A wake-up that falls into the gap is lost**: the dispatcher parks for good. -/
theorem stuck_of_lost {s : State} (h : Awake cfg s) (hc : ¬ FindsWaiter s .notifyWaiters) :
    Stuck cfg (exec (step cfg) s [.notifyWaiters, .park]) := by
  simp only [FindsWaiter, not_forall, not_or] at hc
  obtain ⟨hphase, hpt, hperm, hnote, hrun⟩ := hc
  have hflag := h.flag (by rw [hphase]; simp)
  have hperm' : s.permit = false := by simpa using hperm
  have hend : exec (step cfg) s [.notifyWaiters, .park]
      = { s with phase := .notified, point := .parked } := by
    simp [step, notifyWaiters, notified, hphase, hpt, hperm']
  rw [hend]
  exact ⟨rfl, hperm', by dsimp only; omega, Or.inr ⟨hflag, rfl, not_not.mp hrun⟩⟩

/--
**When the dispatcher is never stuck.**

For any caps, and however enqueues, completions, their `notify_one`, the steps of
the dispatcher and those of shutdown interleave: the dispatcher is never parked
for good while it has something to do, exactly when `notify_waiters` does not fall
between its look at the flag and its parking at a moment when no other wake-up is
stored, on its way, or owed by a running handler.
-/
theorem neverStuck_iff (cfg : PoolConfig) (run : List Event) :
    NeverStuck cfg run ↔ Each (step cfg) FindsWaiter State.new run := by
  refine ⟨?_, ?_⟩
  · intro h
    -- up to the first wake-up that is lost the dispatcher is awake
    induction run using List.reverseRecOn with
    | nil => exact each_nil
    | append_singleton run e ih =>
        have hrun : Each (step cfg) FindsWaiter State.new run :=
          ih fun pre hp => h pre (hp.trans (List.prefix_append _ _))
        have hawake : Awake cfg (exec (step cfg) State.new run) :=
          exec_inv_of_each awake_step (awake_new cfg) hrun
        refine each_snoc.mpr ⟨hrun, ?_⟩
        by_contra hc
        have hnw : e = .notifyWaiters := by
          cases e with
          | notifyWaiters => rfl
          | _ => exact absurd trivial hc
        subst hnw
        have hstuck := h (run ++ [.notifyWaiters]) (List.prefix_refl _) [.park]
          (by intro e he; rw [List.mem_singleton.mp he]; trivial)
        rw [List.append_assoc, exec_append] at hstuck
        exact hstuck (stuck_of_lost hawake hc)
  · intro h pre hp own hown
    have hall : Each (step cfg) FindsWaiter State.new (pre ++ own) :=
      (h.of_prefix hp).append_of_forall fun _ e he => findsWaiter_ownStep (hown e he)
    exact (exec_inv_of_each awake_step (awake_new cfg) hall).not_stuck

/-- An idle pool is shut down while its dispatcher is about to park. -/
theorem shutdown_can_be_lost :
    ¬ NeverStuck ⟨1, 1⟩ [.drain, .check, .setFlag, .notifyWaiters] := by
  intro h
  refine h _ (List.prefix_refl _) [.park] (by intro e he; rw [List.mem_singleton.mp he]; trivial) ?_
  exact ⟨by decide, by decide, by decide, by decide⟩

end SynchrotronCD.Dispatcher
