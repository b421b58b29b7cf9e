import SynchrotronCD.Server.Delivery

/-!
# No update is lost while every request lands

`Pending` lists the places where an app's last put can be on its way to a
handler: the request is owed, it is on the bus, a job waits, a handler that
started late enough runs — or such a handler has read it already. Every step of
every actor moves an app along this list or leaves it where it is (`inv_step`),
with one exception, and `Lands` rules the exception out: a request that finds
nothing but an older handler is dropped, and the app falls off the list.
-/

namespace SynchrotronCD

open Lib WorkerPool

namespace Delivery

variable {cfg : PoolConfig} {resolver : AppResolver}

/-- The last put of an app was read by a handler that started after it. -/
def Seen (s : State) (app : AppName) : Prop :=
  ∃ r ∈ s.reads, r.app = app ∧ r.started = (s.history app).length ∧ r.seen = s.store.get app

/-- Reads are never forgotten: only a put of the app can make what was seen stale. -/
theorem Seen.frame {s s' : State} {app : AppName} (h : Seen s app)
    (hreads : ∀ r ∈ s.reads, r ∈ s'.reads) (hhist : s'.history app = s.history app)
    (hget : s'.store.get app = s.store.get app) : Seen s' app := by
  obtain ⟨r, hmem, happ, hstarted, hseen⟩ := h
  refine ⟨r, hreads r hmem, happ, ?_, ?_⟩
  · rw [hhist]; exact hstarted
  · rw [hget]; exact hseen

/-- Where the last put of an app may be. -/
inductive Pending (s : State) (app : AppName) : Prop where
  | owed (h : s.owed = some app)
  | published (h : (.manualSyncRequested app, (s.history app).length) ∈ s.bus)
  | queued (h : s.pool.state.queueOf app ≠ [])
  | running (h : app ∈ s.pool.state.inFlight)
      (hs : (s.handlers app).started = (s.history app).length)
  | seen (h : Seen s app)

/-- What holds in every state, as long as every request lands. -/
structure Inv (cfg : PoolConfig) (s : State) : Prop where
  pool : WorkerPool.Inv cfg s.pool
  scheduled : Scheduled s.pool.state
  isOpen : s.pool.state.shutdown = false
  /-- The store holds the last put. -/
  stored : ∀ a, s.store.lookup a = (s.history a).getLast?
  started_le : ∀ a, (s.handlers a).started ≤ (s.history a).length
  /-- A handler that started after the last put and has read the store saw that put. -/
  fresh : ∀ a ∈ s.pool.state.inFlight, (s.handlers a).hasRead = true →
    (s.handlers a).started = (s.history a).length → Seen s a
  /-- The last put of an app is on its way. -/
  pending : ∀ a, s.history a ≠ [] → Pending s a

theorem inv_init (cfg : PoolConfig) : Inv cfg State.new where
  pool := inv_new cfg
  scheduled := by intro a h; exact absurd h (AList.notMem_empty a)
  isOpen := rfl
  stored := by intro a; rfl
  started_le := by intro a; exact Nat.le_refl 0
  fresh := by intro a h; exact absurd h (Finset.notMem_empty a)
  pending := by intro a h; exact absurd rfl h

/-! ## The render loop and the bus -/

theorem inv_put {s : State} (h : Inv cfg s) (app : AppName) (manifests : List Manifest)
    (revision : Option String) : Inv cfg (step cfg resolver s (.put app manifests revision)) := by
  unfold step
  dsimp only
  split
  swap
  · exact h
  rename_i howed
  -- an app other than the one put keeps its puts and its entry
  have hhist : ∀ a, a ≠ app → Function.update s.history app
      (s.history app ++ [⟨manifests, revision⟩]) a = s.history a := fun a ha =>
    Function.update_of_ne ha _ _
  have hget : ∀ a, a ≠ app →
      (s.store.putWithRevision app manifests revision).get a = s.store.get a := by
    intro a ha
    unfold DesiredStore.get DesiredStore.putWithRevision
    rw [AList.lookup_insert_ne ha]
  refine ⟨h.pool, h.scheduled, h.isOpen, fun a => ?_, fun a => ?_, fun a hf hr hs => ?_,
    fun a hne => ?_⟩
  · dsimp only
    unfold DesiredStore.putWithRevision
    by_cases ha : a = app
    · subst ha; simp
    · rw [AList.lookup_insert_ne ha, hhist a ha]; exact h.stored a
  · dsimp only
    have := h.started_le a
    by_cases ha : a = app
    · subst ha; simp; omega
    · rw [hhist a ha]; exact this
  · dsimp only at hf hr hs
    by_cases ha : a = app
    · -- a handler that runs now started before this put
      subst ha
      have := h.started_le a
      simp only [Function.update_self, List.length_append, List.length_singleton] at hs
      omega
    · rw [hhist a ha] at hs
      exact (h.fresh a hf hr hs).frame (fun _ hm => hm) (hhist a ha) (hget a ha)
  · dsimp only at hne
    by_cases ha : a = app
    · exact .owed (by rw [ha])
    · rw [hhist a ha] at hne
      cases h.pending a hne with
      | owed h => rw [howed] at h; simp at h
      | published hb => exact .published (by dsimp only; rw [hhist a ha]; exact hb)
      | queued hq => exact .queued hq
      | running hf hs => exact .running hf (by dsimp only; rw [hhist a ha]; exact hs)
      | seen hs => exact .seen (hs.frame (fun _ hm => hm) (hhist a ha) (hget a ha))

theorem inv_publish {s : State} (h : Inv cfg s) : Inv cfg (step cfg resolver s .publish) := by
  unfold step
  dsimp only
  split
  swap
  · exact h
  rename_i app howed
  refine ⟨h.pool, h.scheduled, h.isOpen, h.stored, h.started_le, h.fresh, fun a hne => ?_⟩
  cases h.pending a hne with
  | owed ha =>
      obtain rfl : app = a := Option.some.inj (howed.symm.trans ha)
      exact .published (by simp)
  | published hb => exact .published (List.mem_append_left _ hb)
  | queued hq => exact .queued hq
  | running hf hs => exact .running hf hs
  | seen hs => exact .seen hs

theorem inv_notify {s : State} (h : Inv cfg s) (e : SystemEvent) :
    Inv cfg (step cfg resolver s (.notify e)) where
  pool := h.pool
  scheduled := h.scheduled
  isOpen := h.isOpen
  stored := h.stored
  started_le := h.started_le
  fresh := h.fresh
  pending a hne := by
    cases h.pending a hne with
    | owed ha => exact .owed ha
    | published hb => exact .published (List.mem_append_left _ hb)
    | queued hq => exact .queued hq
    | running hf hs => exact .running hf hs
    | seen hs => exact .seen hs

/-! ## The trigger -/

/-- **A dispatched event only adds jobs.** -/
theorem dispatch_frame (resolver : AppResolver) (hcap : 1 ≤ cfg.perAppQueueCap) {p : Pool}
    (hp : WorkerPool.Inv cfg p) (hs : Scheduled p.state) (now : Nat) (e : SystemEvent) :
    WorkerPool.Inv cfg (dispatch cfg resolver now p e)
    ∧ Scheduled (dispatch cfg resolver now p e).state
    ∧ (dispatch cfg resolver now p e).state.shutdown = p.state.shutdown
    ∧ (dispatch cfg resolver now p e).state.inFlight = p.state.inFlight
    ∧ ∀ a, p.state.queueOf a ≠ [] → (dispatch cfg resolver now p e).state.queueOf a ≠ [] := by
  unfold dispatch
  generalize (e.targets resolver).1 = apps
  generalize (e.targets resolver).2 = t
  induction apps generalizing p with
  | nil => exact ⟨hp, hs, rfl, rfl, fun _ h => h⟩
  | cons app apps ih =>
      obtain ⟨hf, -, hopen, hq⟩ := enqueue_frame cfg p app t now true
      obtain ⟨h1, h2, h3, h4, h5⟩ := ih (inv_enqueue hp app t now true)
        (scheduled_enqueue hcap hs app t now true)
      exact ⟨h1, h2, h3.trans hopen, h4.trans hf, fun a ha => h5 a (hq a ha)⟩

theorem inv_deliver (hcap : 1 ≤ cfg.perAppQueueCap) {s : State} (h : Inv cfg s) (now : Nat)
    (hl : Lands s (.deliver now)) : Inv cfg (step cfg resolver s (.deliver now)) := by
  unfold step
  unfold Lands at hl
  dsimp only at hl ⊢
  cases hb : s.bus with
  | nil => exact h
  | cons entry rest =>
      obtain ⟨e, n⟩ := entry
      obtain ⟨hp, hs, hopen, hf, hq⟩ :=
        dispatch_frame resolver hcap h.pool h.scheduled now e
      dsimp only
      refine ⟨hp, hs, hopen.trans h.isOpen, h.stored, h.started_le, ?_, fun a hne => ?_⟩
      · dsimp only; rw [hf]; exact h.fresh
      · cases h.pending a hne with
        | owed ha => exact .owed ha
        | queued hqa => exact .queued (hq a hqa)
        | running hfa hsa => exact .running (by dsimp only; rw [hf]; exact hfa) hsa
        | seen hs => exact .seen hs
        | published hmem =>
            rw [hb] at hmem hl
            rcases List.mem_cons.mp hmem with heq | hrest
            swap
            · exact .published hrest
            -- the request itself: it leaves a job, or finds a handler that started late enough
            obtain ⟨rfl, rfl⟩ := Prod.mk.inj heq
            rcases enqueueCoalesce_lands hcap h.scheduled h.isOpen a .manual now with
              hqa | ⟨hnil, hfa⟩
            · exact .queued hqa
            · refine .running (by dsimp only; rw [hf]; exact hfa) ?_
              exact Nat.le_antisymm (h.started_le a) (hl hnil hfa)

/-! ## The worker -/

/-- **The dispatcher does nothing, or starts one handler that has yet to read.** -/
theorem startNext_cases {s : State} (h : WorkerPool.Inv cfg s.pool) :
    startNext cfg s = s
    ∨ ∃ ctx : JobCtx, (s.pool.dispatch cfg).state.inFlight
          = insert ctx.appId s.pool.state.inFlight
      ∧ (s.pool.dispatch cfg).state.shutdown = s.pool.state.shutdown
      ∧ (∀ a, a ≠ ctx.appId →
          (s.pool.dispatch cfg).state.queueOf a = s.pool.state.queueOf a)
      ∧ startNext cfg s = { s with
          pool := s.pool.dispatch cfg
          handlers := Function.update s.handlers ctx.appId
            ⟨(s.history ctx.appId).length, false⟩ } := by
  have hrun : (s.pool.dispatch cfg).running
      = s.pool.running ++ (nextDispatch cfg s.pool.state).2.toList := by
    unfold Pool.dispatch
    split
    · rename_i heq; rw [heq]; rfl
    · rename_i heq; rw [heq]; simp
  unfold startNext
  rcases dispatch_cases h with heq | ⟨ctx, q, _, _, hf, hr, hopen, hq, _⟩
  · -- a pool that is left alone has no new handler
    left
    split
    · rename_i st ctx hn
      rw [heq, hn] at hrun
      simp at hrun
    · rw [heq]
  · right
    rw [hr] at hrun
    split
    · rename_i st ctx' hn
      rw [hn] at hrun
      have hc : [ctx] = [ctx'] := List.append_cancel_left hrun
      -- the job whose handler is recorded is the one whose handler is spawned
      obtain rfl : ctx = ctx' := List.singleton_inj.mp hc
      exact ⟨ctx, hf, hopen, hq, rfl⟩
    · rename_i st hn
      rw [hn] at hrun
      simp at hrun

theorem inv_start {s : State} (h : Inv cfg s) : Inv cfg (step cfg resolver s .start) := by
  show Inv cfg (startNext cfg s)
  rcases startNext_cases h.pool with heq | ⟨ctx, hf, hopen, hq, heq⟩
  · rw [heq]; exact h
  rw [heq]
  refine ⟨inv_dispatch h.pool, scheduled_dispatch h.pool h.scheduled, hopen.trans h.isOpen,
    h.stored, fun a => ?_, fun a hfa hr hs => ?_, fun a hne => ?_⟩
  · dsimp only
    by_cases ha : a = ctx.appId
    · subst ha; simp
    · rw [Function.update_of_ne ha]; exact h.started_le a
  · dsimp only at hfa hr hs
    by_cases ha : a = ctx.appId
    · subst ha; simp at hr
    · rw [Function.update_of_ne ha] at hr hs
      rw [hf, Finset.mem_insert] at hfa
      exact h.fresh a (hfa.resolve_left ha) hr hs
  · by_cases ha : a = ctx.appId
    · -- whatever its last put was waiting for, a handler starts after it now
      refine .running ?_ ?_
      · dsimp only; rw [hf, ha]; exact Finset.mem_insert_self _ _
      · dsimp only; rw [ha, Function.update_self]
    · cases h.pending a hne with
      | owed ho => exact .owed ho
      | published hb => exact .published hb
      | queued hqa => exact .queued (by dsimp only; rw [hq a ha]; exact hqa)
      | running hfa hs =>
          refine .running ?_ ?_
          · dsimp only; rw [hf]; exact Finset.mem_insert_of_mem hfa
          · dsimp only; rw [Function.update_of_ne ha]; exact hs
      | seen hs => exact .seen hs

theorem inv_read {s : State} (h : Inv cfg s) (app : AppName) :
    Inv cfg (step cfg resolver s (.read app)) := by
  unfold step
  dsimp only
  split
  swap
  · exact h
  rename_i happ
  have hstarted : ∀ a, (Function.update s.handlers app ⟨(s.handlers app).started, true⟩ a).started
      = (s.handlers a).started := by
    intro a
    by_cases ha : a = app
    · subst ha; simp
    · rw [Function.update_of_ne ha]
  refine ⟨h.pool, h.scheduled, h.isOpen, h.stored, fun a => ?_, fun a hf hr hs => ?_,
    fun a hne => ?_⟩
  · dsimp only; rw [hstarted]; exact h.started_le a
  · dsimp only at hf hr hs
    rw [hstarted] at hs
    by_cases ha : a = app
    · -- this read is the one: a handler that started after the last put finds that put
      subst ha
      exact ⟨⟨a, _, _⟩, List.mem_append_right _ List.mem_cons_self, rfl, hs, rfl⟩
    · rw [Function.update_of_ne ha] at hr
      exact (h.fresh a hf hr hs).frame (fun _ hm => List.mem_append_left _ hm) rfl rfl
  · cases h.pending a hne with
    | owed ho => exact .owed ho
    | published hb => exact .published hb
    | queued hq => exact .queued hq
    | running hf hs => exact .running hf (by dsimp only; rw [hstarted]; exact hs)
    | seen hs => exact .seen (hs.frame (fun _ hm => List.mem_append_left _ hm) rfl rfl)

theorem inv_complete {s : State} (h : Inv cfg s) (job : JobCtx) :
    Inv cfg (step cfg resolver s (.complete job)) := by
  unfold step
  dsimp only
  split
  swap
  · exact h
  rename_i hread
  by_cases hj : job ∈ s.pool.running
  swap
  · have : s.pool.complete job = s.pool := by unfold Pool.complete; rw [if_neg hj]
    rw [this]; exact h
  obtain ⟨hf, hopen, hq, hsch⟩ := complete_frame hj
  refine ⟨WorkerPool.inv_complete h.pool job, hsch h.scheduled, hopen.trans h.isOpen, h.stored,
    h.started_le, fun a hfa hr hs => ?_, fun a hne => ?_⟩
  · dsimp only at hfa
    rw [hf] at hfa
    exact h.fresh a (Finset.mem_of_mem_erase hfa) hr hs
  · cases h.pending a hne with
    | owed ho => exact .owed ho
    | published hb => exact .published hb
    | queued hqa => exact .queued (by dsimp only; rw [hq]; exact hqa)
    | running hfa hs =>
        by_cases ha : a = job.appId
        · -- the handler that retires has read what it had to
          subst ha
          exact .seen (h.fresh _ hfa hread hs)
        · exact .running (by dsimp only; rw [hf]; exact Finset.mem_erase.mpr ⟨ha, hfa⟩) hs
    | seen hs => exact .seen hs

/-! ## Every run -/

/-- **The invariant is preserved by every step that lands.** -/
theorem inv_step (hcap : 1 ≤ cfg.perAppQueueCap) (s : State) (e : Event) (h : Inv cfg s)
    (hl : Lands s e) : Inv cfg (step cfg resolver s e) := by
  cases e with
  | put app manifests revision => exact inv_put h app manifests revision
  | publish => exact inv_publish h
  | notify e => exact inv_notify h e
  | deliver now => exact inv_deliver hcap h now hl
  | start => exact inv_start h
  | read app => exact inv_read h app
  | complete job => exact inv_complete h job

theorem Inv.delivered {s : State} (h : Inv cfg s) : Delivered s := by
  intro hbus app howed hqueue hrun entry hlast
  have hidle : app ∉ s.pool.state.inFlight := (h.pool.runningOf_eq_nil app).mp hrun
  have hne : s.history app ≠ [] := by
    intro hnil
    rw [hnil] at hlast
    simp at hlast
  cases h.pending app hne with
  | owed ho => exact absurd ho howed
  | published hb => rw [hbus] at hb; simp at hb
  | queued hq => exact absurd hqueue hq
  | running hf hs => exact absurd hf hidle
  | seen hs =>
      obtain ⟨r, hmem, hra, hrs, hseen⟩ := hs
      refine ⟨r, hmem, hra, hrs, ?_⟩
      rw [hseen, DesiredStore.get, h.stored app, hlast]

/--
**No desired-state update is lost, as long as every sync request lands.**

In every state of every interleaving of the four actors.
-/
theorem delivered_always (cfg : PoolConfig) (hcap : 1 ≤ cfg.perAppQueueCap)
    (resolver : AppResolver) (run : List Event)
    (h : Each (step cfg resolver) Lands State.new run) :
    Always (step cfg resolver) Delivered State.new run := by
  intro pre hpre
  have hinv : Inv cfg (exec (step cfg resolver) State.new pre) :=
    exec_inv_of_each (inv_step hcap) (inv_init cfg) (h.of_prefix hpre)
  exact hinv.delivered

/-! ## Two puts, and when the second one is read -/

/-- Put a version of the one app, announce it, and dispatch the announcement. -/
def rollout (marker : String) : List Event :=
  [.put "shop" [configMap "settings" marker] (some marker), .publish, .deliver 0]

/-- The second request is dropped while the first job still waits. -/
def coalescedRun : List Event :=
  rollout "v1" ++ rollout "v2" ++ [.start, .read "shop", .complete ⟨"shop", .manual, 0⟩]

theorem coalescedRun_delivered :
    (exec (step ⟨1, 1⟩ fun _ => []) State.new coalescedRun).pool.running = []
    ∧ Delivered (exec (step ⟨1, 1⟩ fun _ => []) State.new coalescedRun) := by
  refine ⟨rfl, (delivered_always ⟨1, 1⟩ (by decide) (fun _ => []) coalescedRun ?_).final⟩
  simp only [coalescedRun, rollout, List.cons_append, List.nil_append, each_cons]
  refine ⟨trivial, trivial, ?_, trivial, trivial, ?_, trivial, trivial, trivial, each_nil⟩
  · exact fun _ hf => absurd hf (by decide)
  · exact fun hq => absurd hq (by decide)

/-- The second request is dropped while a handler runs that has read the first version. -/
def overtakenRun : List Event :=
  rollout "v1" ++ [.start, .read "shop"] ++ rollout "v2" ++ [.complete ⟨"shop", .manual, 0⟩]

/-- **An update can be lost.** Everything is dispatched, nothing waits or runs, and no
handler has started since the second put. -/
theorem overtakenRun_undelivered :
    (exec (step ⟨1, 1⟩ fun _ => []) State.new overtakenRun).bus = []
    ∧ ((exec (step ⟨1, 1⟩ fun _ => []) State.new overtakenRun).reads.map Read.started) = [1]
    ∧ ¬ Always (step ⟨1, 1⟩ fun _ => []) Delivered State.new overtakenRun := by
  have hreads : ((exec (step ⟨1, 1⟩ fun _ => []) State.new overtakenRun).reads.map Read.started)
      = [1] := by decide
  refine ⟨rfl, hreads, fun h => ?_⟩
  obtain ⟨r, hr, _, hstarted, _⟩ := h.final rfl "shop" (by decide) rfl rfl
    ⟨[configMap "settings" "v2"], some "v2"⟩ rfl
  have hone : r.started ∈ [1] := hreads ▸ List.mem_map_of_mem hr
  rw [List.mem_singleton.mp hone] at hstarted
  exact absurd hstarted (by decide)

end Delivery

end SynchrotronCD
