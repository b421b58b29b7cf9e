import SynchrotronCD.Lib.Runs
import SynchrotronCD.Reconcile.WorkerPool

/-!
# The worker pool schedules safely

The four structures behind the mutex — queues, ready list, in-flight set, depth
counter — say the same thing in four ways, and `Inv` is the statement that they
agree: with one another, with the handlers actually running, and with the
history of every job. Each locked section keeps it, so it holds after every run
(`inv_exec`), whatever the cap, the concurrency bound and the order of steps.

What a step can do is said once, in `enqueueImpl_cases`, `nextDispatch_cases` and
`completeHandler_cases`; no later proof unfolds the code again.
-/

namespace SynchrotronCD.WorkerPool

open Lib

variable {cfg : PoolConfig}

/-! ## Queues under map updates -/

@[simp] theorem queueOf_insert_self {s : State} {a : String} {q : List JobCtx}
    {m : HashMap String (List JobCtx)} (h : s.apps = m.insert a q) : s.queueOf a = q := by
  simp [State.queueOf, h]

theorem queueOf_insert_ne {s : State} {a b : String} {q : List JobCtx}
    {m : HashMap String (List JobCtx)} (h : s.apps = m.insert b q) (hab : a ≠ b) :
    s.queueOf a = (m.lookup a).getD [] := by
  simp [State.queueOf, h, AList.lookup_insert_ne hab]

theorem lookup_orDefault (m : HashMap String (List JobCtx)) (a b : String) :
    ((orDefault m b).lookup a).getD [] = (m.lookup a).getD [] := by
  unfold orDefault
  split
  · rfl
  · rename_i hb
    by_cases hab : a = b
    · subst hab
      simp [AList.lookup_eq_none.mpr hb]
    · rw [AList.lookup_insert_ne hab]

theorem mem_orDefault {m : HashMap String (List JobCtx)} {a b : String} :
    a ∈ orDefault m b ↔ a = b ∨ a ∈ m := by
  unfold orDefault
  split
  · rename_i hb
    refine ⟨?_, ?_⟩
    · exact Or.inr
    · intro hm
      rcases hm with rfl | h
      · exact hb
      · exact h
  · exact AList.mem_insert m

theorem weight_orDefault (m : HashMap String (List JobCtx)) (a : String) :
    weight List.length (orDefault m a) = weight List.length m := by
  unfold orDefault
  split
  · rfl
  · rename_i ha
    have := weight_insert_add List.length a [] m
    rw [AList.lookup_eq_none.mpr ha] at this
    simpa using this

/-! ## What each locked section can do -/

/-- The state after an accepted enqueue. -/
def State.push (s : State) (job : JobCtx) : State where
  apps := (orDefault s.apps job.appId).insert job.appId (s.queueOf job.appId ++ [job])
  ready := if job.appId ∈ s.inFlight ∨ job.appId ∈ s.ready then s.ready
    else s.ready ++ [job.appId]
  inFlight := s.inFlight
  queueDepth := s.queueDepth + 1
  shutdown := s.shutdown

/-- **The four ways an enqueue can end.** -/
theorem enqueueImpl_cases (cfg : PoolConfig) (s : State) (app : String) (t : Trigger) (now : Nat)
    (co : Bool) :
    (s.shutdown = true ∧ enqueueImpl cfg s app t now co = (s, .error .shutdown))
    ∨ (s.shutdown = false ∧ co = true ∧ app ∈ s.apps
        ∧ enqueueImpl cfg s app t now co = (s, .ok false))
    ∨ (s.shutdown = false ∧ (co = true → app ∉ s.apps)
        ∧ cfg.perAppQueueCap ≤ (s.queueOf app).length
        ∧ enqueueImpl cfg s app t now co = ({ s with apps := orDefault s.apps app },
            .error (.queueFull app cfg.perAppQueueCap)))
    ∨ (s.shutdown = false ∧ (co = true → app ∉ s.apps)
        ∧ (s.queueOf app).length < cfg.perAppQueueCap
        ∧ enqueueImpl cfg s app t now co = (s.push ⟨app, t, now⟩, .ok true)) := by
  have hq : (State.queueOf { s with apps := orDefault s.apps app } app) = s.queueOf app :=
    lookup_orDefault s.apps app app
  by_cases hs : s.shutdown = true
  · exact Or.inl ⟨hs, by simp [enqueueImpl, hs]⟩
  -- presence in the map is what coalescing goes by
  have hs' : s.shutdown = false := by simpa using hs
  by_cases hc : co = true ∧ app ∈ s.apps
  · exact Or.inr (Or.inl ⟨hs', hc.1, hc.2, by simp [enqueueImpl, hs', hc]⟩)
  have hco : co = true → app ∉ s.apps := fun h hm => hc ⟨h, hm⟩
  have hg : (co && decide (app ∈ s.apps)) = false := by
    cases co with
    | false => rfl
    | true => simpa using hco rfl
  -- from here on the app has an entry, with the queue it had
  rcases Nat.lt_or_ge (s.queueOf app).length cfg.perAppQueueCap with hlt | hge
  · refine Or.inr (Or.inr (Or.inr ⟨hs', hco, hlt, ?_⟩))
    unfold enqueueImpl
    rw [if_neg (by simp [hs']), hg]
    simp only [Bool.false_eq_true, if_false, hq, Nat.not_le.mpr hlt]
    unfold State.push
    by_cases h1 : app ∈ s.inFlight
    · simp [h1]
    · by_cases h2 : app ∈ s.ready <;> simp [h1, h2]
  · refine Or.inr (Or.inr (Or.inl ⟨hs', hco, hge, ?_⟩))
    unfold enqueueImpl
    rw [if_neg (by simp [hs']), hg]
    simp only [Bool.false_eq_true, if_false, hq, hge, if_true]

/-- **The three ways a dispatch can end**: nothing to do, a stale ready entry, a job. -/
theorem nextDispatch_cases (cfg : PoolConfig) (s : State) :
    nextDispatch cfg s = (s, none)
    ∨ (∃ app rest, s.ready = app :: rest ∧ s.queueOf app = []
        ∧ nextDispatch cfg s = ({ s with ready := rest }, none))
    ∨ (∃ app rest ctx q, s.ready = app :: rest ∧ s.apps.lookup app = some (ctx :: q)
        ∧ s.shutdown = false ∧ s.inFlight.card < cfg.maxConcurrent
        ∧ nextDispatch cfg s = ({ s with
            apps := s.apps.insert app q
            ready := rest
            queueDepth := s.queueDepth - 1
            inFlight := insert app s.inFlight }, some ctx)) := by
  unfold nextDispatch
  split
  · exact Or.inl rfl
  · rename_i hs
    split
    · exact Or.inl rfl
    · rename_i hcap
      split
      · exact Or.inl rfl
      · rename_i app rest hr
        split
        · rename_i ctx q hl
          exact Or.inr (Or.inr ⟨app, rest, ctx, q, hr, hl, by simpa using hs,
            Nat.lt_of_not_le hcap, rfl⟩)
        · -- no entry and an empty queue are one case to the code
          rename_i hl
          refine Or.inr (Or.inl ⟨app, rest, hr, ?_, rfl⟩)
          unfold State.queueOf
          cases hq : s.apps.lookup app with
          | none => rfl
          | some l =>
              cases l with
              | nil => rfl
              | cons ctx q => exact absurd hq (hl ctx q)

/-- **The two ways a handler can be retired**: its app has more jobs, or it is idle. -/
theorem completeHandler_cases (s : State) (app : String) :
    (s.queueOf app ≠ [] ∧ completeHandler s app
        = { s with inFlight := s.inFlight.erase app, ready := s.ready ++ [app] })
    ∨ (s.queueOf app = [] ∧ completeHandler s app
        = { s with inFlight := s.inFlight.erase app, apps := s.apps.erase app }) := by
  unfold completeHandler State.queueOf
  cases hq : s.apps.lookup app with
  | none => exact Or.inr ⟨rfl, by simp [hq]⟩
  | some q =>
      cases q with
      | nil => exact Or.inr ⟨rfl, by simp [hq]⟩
      | cons j q => exact Or.inl ⟨by simp, by simp [hq]⟩

/-! ## The history of one app -/

@[simp] theorem acceptedOf_append (a : String) (l m : List JobEvent) :
    acceptedOf a (l ++ m) = acceptedOf a l ++ acceptedOf a m := List.filterMap_append

@[simp] theorem startedOf_append (a : String) (l m : List JobEvent) :
    startedOf a (l ++ m) = startedOf a l ++ startedOf a m := List.filterMap_append

@[simp] theorem completedOf_append (a : String) (l m : List JobEvent) :
    completedOf a (l ++ m) = completedOf a l ++ completedOf a m := List.filterMap_append

@[simp] theorem acceptedOf_event (a : String) (e : JobEvent) :
    acceptedOf a [e] = match e with
      | .accepted j => if j.appId = a then [j] else []
      | _ => [] := by
  cases e with
  | accepted j => by_cases hj : j.appId = a <;> simp [acceptedOf, hj]
  | started j => rfl
  | completed j => rfl

@[simp] theorem startedOf_event (a : String) (e : JobEvent) :
    startedOf a [e] = match e with
      | .started j => if j.appId = a then [j] else []
      | _ => [] := by
  cases e with
  | accepted j => rfl
  | started j => by_cases hj : j.appId = a <;> simp [startedOf, hj]
  | completed j => rfl

@[simp] theorem completedOf_event (a : String) (e : JobEvent) :
    completedOf a [e] = match e with
      | .completed j => if j.appId = a then [j] else []
      | _ => [] := by
  cases e with
  | accepted j => rfl
  | started j => rfl
  | completed j => by_cases hj : j.appId = a <;> simp [completedOf, hj]

/-! ## The invariant -/

/-- The scheduling state, the running handlers and the history agree. -/
structure Inv (cfg : PoolConfig) (p : Pool) : Prop where
  /-- No app has two handlers. -/
  oneEach : (p.running.map JobCtx.appId).Nodup
  /-- The in-flight set is the set of apps with a handler. -/
  inFlight : ∀ a, a ∈ p.state.inFlight ↔ a ∈ p.running.map JobCtx.appId
  /-- The concurrency bound. -/
  bound : p.running.length ≤ cfg.maxConcurrent
  /-- A job waits in its own app's queue. -/
  owned : ∀ a, ∀ j ∈ p.state.queueOf a, j.appId = a
  /-- What was accepted was started or still waits. -/
  split : ∀ a, acceptedOf a p.log = startedOf a p.log ++ p.state.queueOf a
  /-- What was started completed or still runs. -/
  served : ∀ a, startedOf a p.log = completedOf a p.log ++ p.runningOf a
  /-- The cached depth is right. -/
  depth : p.state.queueDepth = weight List.length p.state.apps
  /-- The ready list has no duplicate. -/
  readyNodup : p.state.ready.Nodup
  /-- The ready list holds the apps that have work and no handler. -/
  ready : ∀ a, a ∈ p.state.ready ↔ p.state.queueOf a ≠ [] ∧ a ∉ p.state.inFlight

theorem inv_new (cfg : PoolConfig) : Inv cfg Pool.new where
  oneEach := by simp [Pool.new]
  inFlight := by intro a; simp [Pool.new, State.new]
  bound := by simp [Pool.new]
  owned := by intro a j h; simp [Pool.new, State.new, State.queueOf] at h
  split := by intro a; rfl
  served := by intro a; rfl
  depth := rfl
  readyNodup := by simp [Pool.new, State.new]
  ready := by intro a; simp [Pool.new, State.new, State.queueOf]

/-- The in-flight set has as many elements as there are handlers. -/
theorem Inv.card {p : Pool} (h : Inv cfg p) : p.state.inFlight.card = p.running.length := by
  have heq : p.state.inFlight = (p.running.map JobCtx.appId).toFinset := by
    ext a; rw [List.mem_toFinset]; exact h.inFlight a
  rw [heq, List.toFinset_card_of_nodup h.oneEach, List.length_map]

/-- Only queues, flags and lists count: the layout of the map does not. -/
theorem Inv.of_apps {p : Pool} (h : Inv cfg p) {s : State}
    (hq : ∀ a, s.queueOf a = p.state.queueOf a) (hr : s.ready = p.state.ready)
    (hf : s.inFlight = p.state.inFlight)
    (hd : s.queueDepth = weight List.length s.apps) : Inv cfg { p with state := s } where
  oneEach := h.oneEach
  inFlight := by intro a; dsimp only; rw [hf]; exact h.inFlight a
  bound := h.bound
  owned := by intro a j hj; dsimp only at hj; rw [hq] at hj; exact h.owned a j hj
  split := by intro a; dsimp only; rw [hq]; exact h.split a
  served := h.served
  depth := hd
  readyNodup := by dsimp only; rw [hr]; exact h.readyNodup
  ready := by intro a; dsimp only; rw [hr, hf, hq]; exact h.ready a

/-! ## Enqueue -/

theorem queueOf_push (s : State) (job : JobCtx) (a : String) :
    (s.push job).queueOf a = if a = job.appId then s.queueOf a ++ [job] else s.queueOf a := by
  split
  · rename_i h; subst h
    exact queueOf_insert_self rfl
  · rename_i h
    rw [queueOf_insert_ne rfl h, lookup_orDefault]
    rfl

theorem depth_push {s : State} (job : JobCtx) (h : s.queueDepth = weight List.length s.apps) :
    (s.push job).queueDepth = weight List.length (s.push job).apps := by
  have hw := weight_insert_add List.length job.appId (s.queueOf job.appId ++ [job])
    (orDefault s.apps job.appId)
  have hl : ((AList.lookup job.appId (orDefault s.apps job.appId)).map List.length).getD 0
      = (s.queueOf job.appId).length := by
    have := lookup_orDefault s.apps job.appId job.appId
    unfold State.queueOf
    rw [← this]
    cases AList.lookup job.appId (orDefault s.apps job.appId) <;> rfl
  rw [hl, weight_orDefault, List.length_append, List.length_singleton] at hw
  show s.queueDepth + 1 = _
  unfold State.push
  dsimp only
  omega

/-- The application of a new job is ready, unless a handler has it. -/
theorem mem_ready_push (s : State) (job : JobCtx) (a : String) :
    a ∈ (s.push job).ready ↔ a ∈ s.ready ∨ a = job.appId ∧ job.appId ∉ s.inFlight := by
  unfold State.push
  dsimp only
  split
  · rename_i h
    rcases h with h | h
    · simp [h]
    · refine ⟨Or.inl, ?_⟩
      rintro (ha | ⟨rfl, -⟩)
      · exact ha
      · exact h
  · rename_i h
    simp [not_or.mp h]

theorem nodup_ready_push {s : State} (job : JobCtx) (h : s.ready.Nodup) :
    (s.push job).ready.Nodup := by
  unfold State.push
  dsimp only
  split
  · exact h
  · rename_i hn
    rw [← List.concat_eq_append, List.nodup_concat]
    exact ⟨fun ha => hn (Or.inr ha), h⟩

/-- **An accepted job joins the back of its queue and nothing else changes.** -/
theorem inv_push {p : Pool} (h : Inv cfg p) (job : JobCtx) :
    Inv cfg { p with state := p.state.push job, log := p.log ++ [.accepted job] } where
  oneEach := h.oneEach
  inFlight := h.inFlight
  bound := h.bound
  owned := by
    intro a j hj
    dsimp only at hj
    rw [queueOf_push] at hj
    split at hj
    · rename_i ha
      rcases List.mem_append.mp hj with hj | hj
      · exact h.owned a j hj
      · rw [List.mem_singleton.mp hj, ha]
    · exact h.owned a j hj
  split := by
    intro a
    dsimp only
    rw [acceptedOf_append, startedOf_append, h.split a, queueOf_push]
    by_cases ha : a = job.appId
    · simp [ha]
    · simp [ha, Ne.symm ha]
  served := by
    intro a
    have := h.served a
    simpa [Pool.runningOf] using this
  depth := depth_push job h.depth
  readyNodup := nodup_ready_push job h.readyNodup
  ready := by
    intro a
    show a ∈ (p.state.push job).ready ↔ (p.state.push job).queueOf a ≠ [] ∧ a ∉ p.state.inFlight
    rw [mem_ready_push, queueOf_push, h.ready a]
    by_cases ha : a = job.appId
    · subst ha
      simp
    · simp [ha]

theorem inv_enqueue {p : Pool} (h : Inv cfg p) (app : String) (t : Trigger) (now : Nat)
    (co : Bool) : Inv cfg (p.enqueue cfg app t now co) := by
  unfold Pool.enqueue
  rcases enqueueImpl_cases cfg p.state app t now co with
    ⟨_, heq⟩ | ⟨_, _, _, heq⟩ | ⟨_, _, _, heq⟩ | ⟨_, _, _, heq⟩
  · rw [heq]; exact h
  · rw [heq]; exact h
  · rw [heq]
    refine h.of_apps (fun a => lookup_orDefault p.state.apps a app) rfl rfl ?_
    exact h.depth.trans (weight_orDefault p.state.apps app).symm
  · rw [heq]; exact inv_push h ⟨app, t, now⟩

/-! ## Dispatch -/

/-- **A dispatched job moves from the front of its queue to a handler.** -/
theorem inv_start {p : Pool} (h : Inv cfg p) {app : String} {rest : List String} {ctx : JobCtx}
    {q : List JobCtx} (hr : p.state.ready = app :: rest)
    (hl : p.state.apps.lookup app = some (ctx :: q))
    (hc : p.state.inFlight.card < cfg.maxConcurrent) :
    Inv cfg {
      state := { p.state with
        apps := p.state.apps.insert app q
        ready := rest
        queueDepth := p.state.queueDepth - 1
        inFlight := insert app p.state.inFlight }
      running := p.running ++ [ctx]
      log := p.log ++ [.started ctx] } := by
  have hq : p.state.queueOf app = ctx :: q := by simp [State.queueOf, hl]
  have hctx : ctx.appId = app := h.owned app ctx (by rw [hq]; exact List.mem_cons_self)
  have hidle : app ∉ p.state.inFlight := ((h.ready app).mp (by rw [hr]; simp)).2
  have hnew : app ∉ p.running.map JobCtx.appId := fun hm => hidle ((h.inFlight app).mpr hm)
  have hnd : app ∉ rest ∧ rest.Nodup := by
    have := h.readyNodup; rw [hr] at this; exact List.nodup_cons.mp this
  refine ⟨?_, ?_, ?_, ?_, ?_, ?_, ?_, hnd.2, ?_⟩
  · -- a second handler of the app is impossible: it was on the ready list
    rw [List.map_append, List.map_singleton, hctx, ← List.concat_eq_append, List.nodup_concat]
    exact ⟨hnew, h.oneEach⟩
  · intro a
    simp only [Finset.mem_insert, List.map_append, List.map_cons, List.map_nil, List.mem_append,
      List.mem_singleton, hctx, h.inFlight a]
    exact or_comm
  · rw [List.length_append, List.length_singleton, ← h.card]; exact hc
  · intro a j hj
    by_cases ha : a = app
    · subst ha
      rw [queueOf_insert_self rfl] at hj
      exact h.owned a j (by rw [hq]; exact List.mem_cons_of_mem _ hj)
    · rw [queueOf_insert_ne rfl ha] at hj
      exact h.owned a j hj
  · -- the job leaves the front of its queue as it joins the end of the started ones
    intro a
    have hs := h.split a
    by_cases ha : a = app
    · subst ha
      rw [hq] at hs
      rw [queueOf_insert_self rfl]
      simp [hs, hctx]
    · rw [queueOf_insert_ne rfl ha]
      have hne : ¬ app = a := Ne.symm ha
      simpa [hctx, hne, State.queueOf] using hs
  · intro a
    have hs := h.served a
    by_cases ha : app = a <;> simp [hs, hctx, ha, Pool.runningOf, List.filter_append]
  · have hw := weight_insert_add List.length app q p.state.apps
    have hd := h.depth
    rw [hl] at hw
    simp only [Option.map_some, Option.getD_some, List.length_cons] at hw
    dsimp only
    omega
  · -- the app leaves the ready list as it enters the in-flight set
    intro a
    have hra := h.ready a
    rw [hr] at hra
    by_cases ha : a = app
    · subst ha
      simp [hnd.1]
    · rw [queueOf_insert_ne rfl ha]
      simpa [ha, State.queueOf] using hra

theorem inv_dispatch {p : Pool} (h : Inv cfg p) : Inv cfg (p.dispatch cfg) := by
  unfold Pool.dispatch
  rcases nextDispatch_cases cfg p.state with heq | ⟨app, rest, hr, hq, heq⟩ |
    ⟨app, rest, ctx, q, hr, hl, _, hc, heq⟩
  · rw [heq]; exact h
  · -- a ready app always has a job, so the defensive branch is dead
    exact absurd hq ((h.ready app).mp (by rw [hr]; simp)).1
  · rw [heq]; exact inv_start h hr hl hc

/-! ## Completion -/

/-- Whatever else runs is not for this job's app. -/
theorem filter_erase_eq_nil {p : Pool} (h : Inv cfg p) {job : JobCtx} (hj : job ∈ p.running) :
    (p.running.erase job).filter (fun j => j.appId = job.appId) = [] := by
  have hnd : ((job :: p.running.erase job).map JobCtx.appId).Nodup :=
    ((List.perm_cons_erase hj).map JobCtx.appId).nodup_iff.mp h.oneEach
  rw [List.map_cons, List.nodup_cons] at hnd
  rw [List.filter_eq_nil_iff]
  intro j hjm hja
  exact hnd.1 (List.mem_map.mpr ⟨j, hjm, by simpa using hja⟩)

theorem runningOf_erase {p : Pool} (h : Inv cfg p) {job : JobCtx} (hj : job ∈ p.running)
    (a : String) :
    p.runningOf a = (if job.appId = a then [job] else [])
      ++ (p.running.erase job).filter (fun j => j.appId = a) := by
  by_cases ha : job.appId = a
  · -- the app's only handler is this one
    have hrest : (p.running.erase job).filter (fun j => j.appId = a) = [] := by
      rw [← ha]; exact filter_erase_eq_nil h hj
    have hp : (p.runningOf a).Perm [job] := by
      have := (List.perm_cons_erase hj).filter (fun j : JobCtx => j.appId = a)
      rw [List.filter_cons_of_pos (by simpa using ha), hrest] at this
      exact this
    rw [if_pos ha, hrest, List.append_nil]
    exact List.perm_singleton.mp hp
  · -- a job of another app is filtered out before and after
    rw [if_neg ha, List.nil_append]
    have hne : ∀ l : List JobCtx,
        (l.erase job).filter (fun j => j.appId = a) = l.filter (fun j => j.appId = a) := by
      intro l
      induction l with
      | nil => rfl
      | cons x l ih =>
          by_cases hx : x = job
          · subst hx; simp [ha]
          · rw [List.erase_cons_tail (by simpa using hx)]
            simp only [List.filter_cons, ih]
    exact (hne p.running).symm

/-- Dropping the entry of an app whose queue is empty changes no queue. -/
theorem queueOf_erase {s : State} {app : String} (hq : s.queueOf app = []) (a : String) :
    State.queueOf { s with
      inFlight := s.inFlight.erase app
      apps := s.apps.erase app } a = s.queueOf a := by
  by_cases ha : a = app
  · subst ha
    rw [hq]
    simp [State.queueOf]
  · simp [State.queueOf, AList.lookup_erase_ne ha]

/-- The other handlers are of other apps, and the in-flight set without this app is theirs. -/
theorem Inv.erase_running {p : Pool} (h : Inv cfg p) {job : JobCtx} (hj : job ∈ p.running) :
    ((p.running.erase job).map JobCtx.appId).Nodup
      ∧ ∀ a, a ∈ p.state.inFlight.erase job.appId
        ↔ a ∈ (p.running.erase job).map JobCtx.appId := by
  have hperm := (List.perm_cons_erase hj).map JobCtx.appId
  have hnd := hperm.nodup_iff.mp h.oneEach
  rw [List.map_cons] at hperm hnd
  obtain ⟨hother, hrest⟩ := List.nodup_cons.mp hnd
  refine ⟨hrest, fun a => ?_⟩
  rw [Finset.mem_erase, h.inFlight a, hperm.mem_iff, List.mem_cons]
  constructor
  · rintro ⟨hne, rfl | hm⟩
    · exact absurd rfl hne
    · exact hm
  · intro hm
    exact ⟨fun he => hother (he ▸ hm), Or.inr hm⟩

theorem Inv.served_completed {p : Pool} (h : Inv cfg p) {job : JobCtx} (hj : job ∈ p.running)
    (a : String) : startedOf a (p.log ++ [.completed job])
      = completedOf a (p.log ++ [.completed job])
        ++ (p.running.erase job).filter (fun j => j.appId = a) := by
  have hs := h.served a
  rw [runningOf_erase h hj a] at hs
  simp [hs]

/-- **A handler that returns frees its app, and re-queues it if work is waiting.** -/
theorem inv_complete {p : Pool} (h : Inv cfg p) (job : JobCtx) : Inv cfg (p.complete job) := by
  unfold Pool.complete
  split
  swap
  · exact h
  rename_i hj
  have hfl : job.appId ∈ p.state.inFlight := (h.inFlight _).mpr (List.mem_map_of_mem hj)
  have hnr : job.appId ∉ p.state.ready := fun hm => ((h.ready _).mp hm).2 hfl
  obtain ⟨hnd, hinf⟩ := h.erase_running hj
  have hbound : (p.running.erase job).length ≤ cfg.maxConcurrent :=
    Nat.le_trans List.length_erase_le h.bound
  have hserved := h.served_completed hj
  rcases completeHandler_cases p.state job.appId with ⟨hq, heq⟩ | ⟨hq, heq⟩
  · -- more jobs are waiting: the app becomes ready again
    rw [heq]
    refine ⟨hnd, hinf, hbound, h.owned, ?_, hserved, h.depth, ?_, ?_⟩
    · intro a; simpa [State.queueOf] using h.split a
    · rw [← List.concat_eq_append, List.nodup_concat]
      exact ⟨hnr, h.readyNodup⟩
    · intro a
      show a ∈ p.state.ready ++ [job.appId]
        ↔ p.state.queueOf a ≠ [] ∧ a ∉ p.state.inFlight.erase job.appId
      rw [List.mem_append, List.mem_singleton, h.ready a, Finset.mem_erase]
      by_cases ha : a = job.appId
      · subst ha; simp [hq]
      · simp [ha]
  · -- the app is idle: its entry is dropped
    have hqa := queueOf_erase hq
    rw [heq]
    refine ⟨hnd, hinf, hbound, ?_, ?_, hserved, ?_, h.readyNodup, ?_⟩
    · intro a j hja
      dsimp only at hja
      rw [hqa] at hja
      exact h.owned a j hja
    · intro a
      dsimp only
      rw [hqa]
      simpa using h.split a
    · refine h.depth.trans (weight_erase_of_zero ?_).symm
      intro v hv
      have : p.state.queueOf job.appId = v := by simp [State.queueOf, hv]
      rw [← this, hq]; rfl
    · intro a
      show a ∈ p.state.ready ↔ State.queueOf _ a ≠ [] ∧ a ∉ p.state.inFlight.erase job.appId
      rw [hqa, h.ready a, Finset.mem_erase]
      by_cases ha : a = job.appId
      · subst ha; simp [hq]
      · simp [ha]

/-! ## Every run -/

/-- **The invariant is preserved by every step.** -/
theorem inv_step {p : Pool} (a : Action) (h : Inv cfg p) : Inv cfg (step cfg p a) := by
  cases a with
  | enqueue app t now => exact inv_enqueue h app t now false
  | enqueueCoalesce app t now => exact inv_enqueue h app t now true
  | nextDispatch => exact inv_dispatch h
  | complete job => exact inv_complete h job
  | shutdown => exact h.of_apps (fun _ => rfl) rfl rfl h.depth

theorem inv_exec (cfg : PoolConfig) (run : List Action) :
    Inv cfg (exec (step cfg) Pool.new run) :=
  exec_inv (fun _ a h => inv_step a h) (inv_new cfg) run

/-! ## What the pool promises -/

/-- The guarantees of the pool, in terms of what an observer sees. -/
structure Safe (cfg : PoolConfig) (p : Pool) : Prop where
  /-- No app has two handlers running. -/
  oneHandler : ∀ app, (p.runningOf app).length ≤ 1
  bound : p.running.length ≤ cfg.maxConcurrent
  /-- Jobs start in the order they were accepted, none twice. -/
  startOrder : ∀ app, startedOf app p.log <+: acceptedOf app p.log
  /-- Jobs complete in the order they started, none twice. -/
  completeOrder : ∀ app, completedOf app p.log <+: startedOf app p.log
  /-- Every accepted job completed, runs, or waits: none is lost, none duplicated. -/
  accounted : ∀ app, acceptedOf app p.log
    = completedOf app p.log ++ p.runningOf app ++ p.state.queueOf app
  depth : p.state.queueDepth = weight List.length p.state.apps
  readyNodup : p.state.ready.Nodup
  /-- The ready list holds the apps that have work and no handler. -/
  ready : ∀ app, app ∈ p.state.ready ↔ p.state.queueOf app ≠ [] ∧ p.runningOf app = []

/-- An app is in flight exactly when it has a handler. -/
theorem Inv.runningOf_eq_nil {p : Pool} (h : Inv cfg p) (app : String) :
    p.runningOf app = [] ↔ app ∉ p.state.inFlight := by
  rw [h.inFlight, Pool.runningOf, List.filter_eq_nil_iff]
  simp

theorem Inv.runningOf_length {p : Pool} (h : Inv cfg p) (app : String) :
    (p.runningOf app).length ≤ 1 := by
  cases hr : p.runningOf app with
  | nil => simp
  | cons job rest =>
      have hj : job ∈ p.running := List.mem_of_mem_filter (hr ▸ List.mem_cons_self)
      have ha : job.appId = app := by
        have : job ∈ p.runningOf app := hr ▸ List.mem_cons_self
        simpa using (List.mem_filter.mp this).2
      subst ha
      have herase := runningOf_erase h hj job.appId
      rw [if_pos rfl, filter_erase_eq_nil h hj, hr] at herase
      simp [herase]

theorem Inv.safe {p : Pool} (h : Inv cfg p) : Safe cfg p where
  oneHandler := h.runningOf_length
  bound := h.bound
  startOrder app := by rw [h.split app]; exact List.prefix_append _ _
  completeOrder app := by rw [h.served app]; exact List.prefix_append _ _
  accounted app := by rw [h.split app, h.served app]
  depth := h.depth
  readyNodup := h.readyNodup
  ready app := by rw [h.ready app, h.runningOf_eq_nil app]

/--
**The pool schedules safely.**

For any cap and any concurrency bound, whatever order enqueues, coalescing
enqueues, dispatches, completions and shutdown come in.
-/
theorem schedules_safely (cfg : PoolConfig) (run : List Action) :
    Safe cfg (exec (step cfg) Pool.new run) := (inv_exec cfg run).safe

/-! ## What each step does to one app -/

/-- Presence in the map means a job that waits or runs. -/
def Scheduled (s : State) : Prop := ∀ a ∈ s.apps, s.queueOf a ≠ [] ∨ a ∈ s.inFlight

theorem queueOf_push_ne_nil {s : State} {job : JobCtx} {a : String}
    (h : a = job.appId ∨ s.queueOf a ≠ []) : (s.push job).queueOf a ≠ [] := by
  rw [queueOf_push]
  split
  · simp
  · rename_i hne
    exact h.resolve_left hne

/-- **An enqueue only adds.** Handlers are left alone, and no queue is emptied. -/
theorem enqueue_frame (cfg : PoolConfig) (p : Pool) (app : String) (t : Trigger) (now : Nat)
    (co : Bool) :
    (p.enqueue cfg app t now co).state.inFlight = p.state.inFlight
    ∧ (p.enqueue cfg app t now co).running = p.running
    ∧ (p.enqueue cfg app t now co).state.shutdown = p.state.shutdown
    ∧ ∀ a, p.state.queueOf a ≠ [] → (p.enqueue cfg app t now co).state.queueOf a ≠ [] := by
  unfold Pool.enqueue
  rcases enqueueImpl_cases cfg p.state app t now co with
    ⟨_, heq⟩ | ⟨_, _, _, heq⟩ | ⟨_, _, _, heq⟩ | ⟨_, _, _, heq⟩
  · rw [heq]; exact ⟨rfl, rfl, rfl, fun _ h => h⟩
  · rw [heq]; exact ⟨rfl, rfl, rfl, fun _ h => h⟩
  · rw [heq]
    refine ⟨rfl, rfl, rfl, fun a h => ?_⟩
    show ((orDefault p.state.apps app).lookup a).getD [] ≠ []
    rw [lookup_orDefault]
    exact h
  · rw [heq]; exact ⟨rfl, rfl, rfl, fun _ h => queueOf_push_ne_nil (Or.inr h)⟩

/-- An open pool has an entry for an app once it was asked to enqueue it, coalesced or not. -/
theorem mem_apps_enqueueCoalesce (cfg : PoolConfig) {p : Pool} (hopen : p.state.shutdown = false)
    (app : String) (t : Trigger) (now : Nat) (a : String) :
    a ∈ (p.enqueue cfg app t now true).state.apps ↔ a = app ∨ a ∈ p.state.apps := by
  unfold Pool.enqueue
  rcases enqueueImpl_cases cfg p.state app t now true with
    ⟨hs, _⟩ | ⟨_, _, hmem, heq⟩ | ⟨_, _, _, heq⟩ | ⟨_, _, _, heq⟩
  · rw [hopen] at hs
    simp at hs
  · rw [heq]
    refine ⟨Or.inr, fun h => ?_⟩
    rcases h with rfl | h
    · exact hmem
    · exact h
  · rw [heq]
    exact mem_orDefault
  · rw [heq]
    show a ∈ (orDefault p.state.apps app).insert app _ ↔ _
    rw [AList.mem_insert, mem_orDefault]
    exact ⟨fun h => h.elim Or.inl id, Or.inr⟩

theorem scheduled_enqueue {p : Pool} (hcap : 1 ≤ cfg.perAppQueueCap) (h : Scheduled p.state)
    (app : String) (t : Trigger) (now : Nat) (co : Bool) :
    Scheduled (p.enqueue cfg app t now co).state := by
  unfold Pool.enqueue
  rcases enqueueImpl_cases cfg p.state app t now co with
    ⟨_, heq⟩ | ⟨_, _, _, heq⟩ | ⟨_, _, hfull, heq⟩ | ⟨_, _, _, heq⟩
  · rw [heq]; exact h
  · rw [heq]; exact h
  · -- the entry made for a full queue was there before: a full queue is not empty
    rw [heq]
    intro a ha
    show ((orDefault p.state.apps app).lookup a).getD [] ≠ [] ∨ a ∈ p.state.inFlight
    rw [lookup_orDefault]
    rcases mem_orDefault.mp ha with rfl | ha
    · refine Or.inl fun hnil => ?_
      have : (p.state.queueOf a).length = 0 := by rw [State.queueOf, hnil]; rfl
      omega
    · exact h a ha
  · rw [heq]
    intro a ha
    rcases (AList.mem_insert _).mp ha with rfl | ha
    · exact Or.inl (queueOf_push_ne_nil (Or.inl rfl))
    · rcases mem_orDefault.mp ha with rfl | ha
      · exact Or.inl (queueOf_push_ne_nil (Or.inl rfl))
      · rcases h a ha with hq | hf
        · exact Or.inl (queueOf_push_ne_nil (Or.inr hq))
        · exact Or.inr hf

/-- **A coalescing enqueue leaves a job waiting, or finds one that only runs.** -/
theorem enqueueCoalesce_lands {p : Pool} (hcap : 1 ≤ cfg.perAppQueueCap) (h : Scheduled p.state)
    (hopen : p.state.shutdown = false) (app : String) (t : Trigger) (now : Nat) :
    (p.enqueue cfg app t now true).state.queueOf app ≠ []
    ∨ (p.state.queueOf app = [] ∧ app ∈ p.state.inFlight) := by
  unfold Pool.enqueue
  rcases enqueueImpl_cases cfg p.state app t now true with
    ⟨hs, _⟩ | ⟨_, _, hmem, heq⟩ | ⟨_, hnot, hfull, _⟩ | ⟨_, _, _, heq⟩
  · rw [hopen] at hs; simp at hs
  · rw [heq]
    by_cases hq : p.state.queueOf app = []
    · exact Or.inr ⟨hq, (h app hmem).resolve_left fun hne => hne hq⟩
    · exact Or.inl hq
  · -- an app without an entry has an empty queue, which is not full
    have hnil : p.state.queueOf app = [] := by
      rw [State.queueOf, AList.lookup_eq_none.mpr (hnot rfl)]
      rfl
    rw [hnil, List.length_nil] at hfull
    omega
  · rw [heq]; exact Or.inl (queueOf_push_ne_nil (Or.inl rfl))

/-- **A dispatch does nothing, or starts the first job of one idle app.** -/
theorem dispatch_cases {p : Pool} (h : Inv cfg p) :
    p.dispatch cfg = p
    ∨ ∃ ctx q, p.state.queueOf ctx.appId = ctx :: q ∧ ctx.appId ∉ p.state.inFlight
      ∧ (p.dispatch cfg).state.inFlight = insert ctx.appId p.state.inFlight
      ∧ (p.dispatch cfg).running = p.running ++ [ctx]
      ∧ (p.dispatch cfg).state.shutdown = p.state.shutdown
      ∧ (∀ a, a ≠ ctx.appId → (p.dispatch cfg).state.queueOf a = p.state.queueOf a)
      ∧ (∀ a, a ∈ (p.dispatch cfg).state.apps → a = ctx.appId ∨ a ∈ p.state.apps) := by
  unfold Pool.dispatch
  rcases nextDispatch_cases cfg p.state with heq | ⟨app, rest, hr, hq, heq⟩ |
    ⟨app, rest, ctx, q, hr, hl, _, _, heq⟩
  · rw [heq]; exact Or.inl rfl
  · exact absurd hq ((h.ready app).mp (by rw [hr]; simp)).1
  · right
    have hq : p.state.queueOf app = ctx :: q := by simp [State.queueOf, hl]
    have hctx : ctx.appId = app := h.owned app ctx (by rw [hq]; exact List.mem_cons_self)
    have hidle : app ∉ p.state.inFlight := ((h.ready app).mp (by rw [hr]; simp)).2
    subst hctx
    rw [heq]
    refine ⟨ctx, q, hq, hidle, rfl, rfl, rfl, fun a ha => queueOf_insert_ne rfl ha, fun a ha => ?_⟩
    exact (AList.mem_insert _).mp ha

theorem scheduled_dispatch {p : Pool} (hi : Inv cfg p) (h : Scheduled p.state) :
    Scheduled (p.dispatch cfg).state := by
  rcases dispatch_cases hi with heq | ⟨ctx, q, _, _, hf, _, _, hq, hmem⟩
  · rw [heq]; exact h
  · intro a ha
    by_cases hac : a = ctx.appId
    · exact Or.inr (by rw [hf, hac]; exact Finset.mem_insert_self _ _)
    · rw [hq a hac, hf, Finset.mem_insert]
      rcases h a ((hmem a ha).resolve_left hac) with h | h
      · exact Or.inl h
      · exact Or.inr (Or.inr h)

/-- **A completion frees one app.** No queue changes. -/
theorem complete_frame {p : Pool} {job : JobCtx} (hj : job ∈ p.running) :
    (p.complete job).state.inFlight = p.state.inFlight.erase job.appId
    ∧ (p.complete job).state.shutdown = p.state.shutdown
    ∧ (∀ a, (p.complete job).state.queueOf a = p.state.queueOf a)
    ∧ (Scheduled p.state → Scheduled (p.complete job).state) := by
  unfold Pool.complete
  rw [if_pos hj]
  rcases completeHandler_cases p.state job.appId with ⟨hq, heq⟩ | ⟨hq, heq⟩
  · rw [heq]
    refine ⟨rfl, rfl, fun _ => rfl, fun h a ha => ?_⟩
    by_cases hne : a = job.appId
    · exact Or.inl (by rw [hne]; exact hq)
    · exact (h a ha).imp_right fun hf => Finset.mem_erase.mpr ⟨hne, hf⟩
  · have hqa := queueOf_erase hq
    rw [heq]
    refine ⟨rfl, rfl, hqa, fun h a ha => ?_⟩
    dsimp only at ha ⊢
    obtain ⟨hne, ha⟩ := AList.mem_erase.mp ha
    rw [hqa]
    exact (h a ha).imp_right fun hf => Finset.mem_erase.mpr ⟨hne, hf⟩

end SynchrotronCD.WorkerPool
