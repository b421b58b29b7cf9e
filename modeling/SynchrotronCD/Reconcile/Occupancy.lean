import SynchrotronCD.Reconcile.WorkerPoolProof

/-!
# Who occupies the pool

"Absent from the map ≡ no pending and not in-flight": presence in `apps` is what
a coalescing enqueue goes by, so an entry that nothing stands behind makes the
pool deaf to its app. Two paths leave one behind. A queue cap of zero lets the
first enqueue create the entry it then refuses to fill; and a handler that
panics never runs the section that frees its app.

A handler that panicked looks, to the state behind the mutex, exactly like one
that never returns. So the pool with its panicked handlers put back (`seen`) is
a pool of `WorkerPoolProof`, its invariant holds there in every run, and what is
left to prove is when the two pools are the same.
-/

namespace SynchrotronCD.WorkerPool

open Lib

variable {cfg : PoolConfig}

/-- The pool, and the handlers whose tasks ended in a panic. -/
structure PanicPool where
  pool : Pool
  /-- Proof-only: jobs whose handler panicked. -/
  panicked : List JobCtx

def PanicPool.new : PanicPool := ⟨Pool.new, []⟩

/-- A step of the pool, or the end of a handler's task by a panic. -/
inductive PanicAction where
  | act (a : Action)
  | panic (job : JobCtx)
deriving Repr

/-- The task of a live handler ends in a panic: nothing behind the mutex is touched. -/
def PanicPool.panic (p : PanicPool) (job : JobCtx) : PanicPool :=
  if job ∈ p.pool.running then
    { pool := { p.pool with running := p.pool.running.erase job }
      panicked := p.panicked ++ [job] }
  else p

def panicStep (cfg : PoolConfig) (p : PanicPool) : PanicAction → PanicPool
  | .act a => { p with pool := step cfg p.pool a }
  | .panic job => p.panic job

/-- The pool as its state sees it: a handler that panicked might as well still run. -/
def PanicPool.seen (p : PanicPool) : Pool :=
  { p.pool with running := p.pool.running ++ p.panicked }

/-! ## What occupancy says -/

/-- **The entries of the map, and the in-flight set, are what they are documented to be.** -/
structure Occupied (p : Pool) : Prop where
  /-- An app has an entry if and only if it has a queued job or a live handler. -/
  entry : ∀ a, a ∈ p.state.apps ↔ p.state.queueOf a ≠ [] ∨ p.runningOf a ≠ []
  /-- The in-flight set is the set of apps with a live handler. -/
  inFlight : ∀ a, a ∈ p.state.inFlight ↔ p.runningOf a ≠ []

/-- An enqueue answers what it may: coalesced only behind another job, and an error only with the
state as it was. -/
structure Answers (cfg : PoolConfig) (p : Pool) (app : String) (t : Trigger) (now : Nat)
    (co : Bool) : Prop where
  coalesced : (enqueueImpl cfg p.state app t now co).2 = .ok false →
    p.state.queueOf app ≠ [] ∨ p.runningOf app ≠ []
  refused : ∀ err, (enqueueImpl cfg p.state app t now co).2 = .error err →
    (enqueueImpl cfg p.state app t now co).1 = p.state

/-- What a step must answer, if it is an enqueue. -/
def AnswersAct (cfg : PoolConfig) (p : PanicPool) : PanicAction → Prop
  | .act (.enqueue app t now) => Answers cfg p.pool app t now false
  | .act (.enqueueCoalesce app t now) => Answers cfg p.pool app t now true
  | _ => True

/-- Occupancy holds all along a run, and every enqueue on the way answers accordingly. -/
def KeepsOccupancy (cfg : PoolConfig) (run : List PanicAction) : Prop :=
  Always (panicStep cfg) (fun p => Occupied p.pool) PanicPool.new run ∧
    Each (panicStep cfg) (AnswersAct cfg) PanicPool.new run

/-- The steps that cannot leave an orphaned entry: no live handler panics, and an enqueue has
room for a job, or makes no entry. -/
def LeavesNoOrphan (cfg : PoolConfig) (p : PanicPool) : PanicAction → Prop
  | .act (.enqueue app _ _) | .act (.enqueueCoalesce app _ _) =>
      1 ≤ cfg.perAppQueueCap ∨ p.pool.state.shutdown = true ∨ app ∈ p.pool.state.apps
  | .panic job => job ∉ p.pool.running
  | _ => True

/-! ## The state sees panicked handlers as running -/

theorem runningOf_perm {p : Pool} (h : Inv cfg p) {running : List JobCtx}
    (hp : running.Perm p.running) (a : String) :
    Pool.runningOf { p with running := running } a = p.runningOf a := by
  have hfilter : (Pool.runningOf { p with running := running } a).Perm (p.runningOf a) :=
    hp.filter _
  have hone := h.runningOf_length a
  cases hr : p.runningOf a with
  | nil => rw [hr] at hfilter; exact hfilter.eq_nil
  | cons j rest =>
      rw [hr] at hone hfilter
      have hrest : rest = [] := by
        rw [List.length_cons] at hone
        exact List.length_eq_zero_iff.mp (by omega)
      rw [hrest] at hfilter ⊢
      exact List.perm_singleton.mp hfilter

/-- The order in which the handlers are listed does not matter. -/
theorem Inv.perm {p : Pool} (h : Inv cfg p) {running : List JobCtx}
    (hp : running.Perm p.running) : Inv cfg { p with running := running } where
  oneEach := (hp.map JobCtx.appId).nodup_iff.mpr h.oneEach
  inFlight := by intro a; rw [h.inFlight a]; exact (hp.map JobCtx.appId).mem_iff.symm
  bound := by rw [hp.length_eq]; exact h.bound
  owned := h.owned
  split := h.split
  served := by intro a; rw [runningOf_perm h hp a]; exact h.served a
  depth := h.depth
  readyNodup := h.readyNodup
  ready := h.ready

theorem seen_enqueue (p : PanicPool) (app : String) (t : Trigger) (now : Nat) (co : Bool) :
    PanicPool.seen { p with pool := p.pool.enqueue cfg app t now co }
      = p.seen.enqueue cfg app t now co := by
  unfold PanicPool.seen Pool.enqueue
  dsimp only
  split <;> rfl

/-- A dispatch on what the state sees, up to the place of the new handler in the list. -/
theorem seen_dispatch (p : PanicPool) :
    ∃ running, running.Perm (p.seen.dispatch cfg).running ∧
      PanicPool.seen { p with pool := p.pool.dispatch cfg }
        = { p.seen.dispatch cfg with running := running } := by
  unfold PanicPool.seen Pool.dispatch
  dsimp only
  split
  · rename_i s ctx _
    refine ⟨p.pool.running ++ [ctx] ++ p.panicked, ?_, rfl⟩
    rw [List.append_assoc, List.append_assoc]
    exact List.perm_append_comm.append_left _
  · exact ⟨_, List.Perm.refl _, rfl⟩

theorem seen_complete {p : PanicPool} {job : JobCtx} (hj : job ∈ p.pool.running) :
    PanicPool.seen { p with pool := p.pool.complete job } = p.seen.complete job := by
  unfold PanicPool.seen Pool.complete
  rw [if_pos hj, if_pos (List.mem_append_left _ hj), List.erase_append_left _ hj]

/-- A panic moves a handler from one list to the other. -/
theorem seen_panic {p : PanicPool} {job : JobCtx} (hj : job ∈ p.pool.running) :
    ∃ running, running.Perm p.seen.running ∧
      (p.panic job).seen = { p.seen with running := running } := by
  unfold PanicPool.panic PanicPool.seen
  rw [if_pos hj]
  refine ⟨p.pool.running.erase job ++ (p.panicked ++ [job]), ?_, rfl⟩
  have hcons : (p.pool.running.erase job ++ (p.panicked ++ [job])).Perm
      (job :: p.pool.running.erase job ++ p.panicked) := by
    rw [← List.append_assoc]
    exact List.perm_append_singleton _ _
  exact hcons.trans ((List.perm_cons_erase hj).symm.append_right _)

/-! ## What holds in every run, panics or not -/

/-- The pool invariant, for what the state sees; and an app in flight has an entry. -/
structure Seen (cfg : PoolConfig) (p : PanicPool) : Prop where
  inv : Inv cfg p.seen
  held : ∀ a ∈ p.pool.state.inFlight, a ∈ p.pool.state.apps

theorem seen_new (cfg : PoolConfig) : Seen cfg PanicPool.new where
  inv := inv_new cfg
  held := by intro a ha; simp [PanicPool.new, Pool.new, State.new] at ha

theorem held_enqueue {p : Pool} (h : ∀ a ∈ p.state.inFlight, a ∈ p.state.apps) (app : String)
    (t : Trigger) (now : Nat) (co : Bool) :
    ∀ a ∈ (p.enqueue cfg app t now co).state.inFlight,
      a ∈ (p.enqueue cfg app t now co).state.apps := by
  intro a ha
  rw [(enqueue_frame cfg p app t now co).1] at ha
  have hmem := h a ha
  unfold Pool.enqueue
  rcases enqueueImpl_cases cfg p.state app t now co with
    ⟨_, heq⟩ | ⟨_, _, _, heq⟩ | ⟨_, _, _, heq⟩ | ⟨_, _, _, heq⟩
  · rw [heq]; exact hmem
  · rw [heq]; exact hmem
  · rw [heq]; exact mem_orDefault.mpr (Or.inr hmem)
  · rw [heq]
    exact (AList.mem_insert _).mpr (Or.inr (mem_orDefault.mpr (Or.inr hmem)))

theorem held_dispatch {p : Pool} (h : ∀ a ∈ p.state.inFlight, a ∈ p.state.apps) :
    ∀ a ∈ (p.dispatch cfg).state.inFlight, a ∈ (p.dispatch cfg).state.apps := by
  intro a ha
  unfold Pool.dispatch at ha ⊢
  rcases nextDispatch_cases cfg p.state with heq | ⟨app, rest, _, _, heq⟩ |
    ⟨app, rest, ctx, q, _, _, _, _, heq⟩
  · rw [heq] at ha ⊢; exact h a ha
  · rw [heq] at ha ⊢; exact h a ha
  · rw [heq] at ha ⊢
    rcases Finset.mem_insert.mp ha with rfl | ha
    · exact (AList.mem_insert _).mpr (Or.inl rfl)
    · exact (AList.mem_insert _).mpr (Or.inr (h a ha))

theorem held_complete {p : Pool} (h : ∀ a ∈ p.state.inFlight, a ∈ p.state.apps) (job : JobCtx) :
    ∀ a ∈ (p.complete job).state.inFlight, a ∈ (p.complete job).state.apps := by
  intro a ha
  unfold Pool.complete at ha ⊢
  split at ha
  · rename_i hj
    rw [if_pos hj]
    rcases completeHandler_cases p.state job.appId with ⟨_, heq⟩ | ⟨_, heq⟩
    · rw [heq] at ha ⊢
      exact h a (Finset.mem_erase.mp ha).2
    · rw [heq] at ha ⊢
      obtain ⟨hne, ha⟩ := Finset.mem_erase.mp ha
      exact AList.mem_erase.mpr ⟨hne, h a ha⟩
  · rename_i hj
    rw [if_neg hj]
    exact h a ha

theorem seen_act {p : PanicPool} (h : Seen cfg p) (a : Action) :
    Seen cfg (panicStep cfg p (.act a)) := by
  cases a with
  | enqueue app t now =>
      refine ⟨?_, held_enqueue h.held app t now false⟩
      show Inv cfg (PanicPool.seen { p with pool := p.pool.enqueue cfg app t now false })
      rw [seen_enqueue]
      exact inv_enqueue h.inv app t now false
  | enqueueCoalesce app t now =>
      refine ⟨?_, held_enqueue h.held app t now true⟩
      show Inv cfg (PanicPool.seen { p with pool := p.pool.enqueue cfg app t now true })
      rw [seen_enqueue]
      exact inv_enqueue h.inv app t now true
  | nextDispatch =>
      refine ⟨?_, held_dispatch h.held⟩
      obtain ⟨running, hperm, heq⟩ := @seen_dispatch cfg p
      show Inv cfg (PanicPool.seen { p with pool := p.pool.dispatch cfg })
      rw [heq]
      exact (inv_dispatch h.inv).perm hperm
  | complete job =>
      refine ⟨?_, held_complete h.held job⟩
      show Inv cfg (PanicPool.seen { p with pool := p.pool.complete job })
      by_cases hj : job ∈ p.pool.running
      · rw [seen_complete hj]
        exact inv_complete h.inv job
      · have hsame : p.pool.complete job = p.pool := by unfold Pool.complete; rw [if_neg hj]
        rw [hsame]
        exact h.inv
  | shutdown => exact ⟨h.inv.of_apps (fun _ => rfl) rfl rfl h.inv.depth, h.held⟩

theorem seen_step {p : PanicPool} (h : Seen cfg p) (a : PanicAction) :
    Seen cfg (panicStep cfg p a) := by
  cases a with
  | act a => exact seen_act h a
  | panic job =>
      show Seen cfg (p.panic job)
      by_cases hj : job ∈ p.pool.running
      · obtain ⟨running, hperm, heq⟩ := seen_panic hj
        have hstate : (p.panic job).pool.state = p.pool.state := by
          unfold PanicPool.panic; rw [if_pos hj]
        refine ⟨?_, by rw [hstate]; exact h.held⟩
        rw [heq]
        exact h.inv.perm hperm
      · have hsame : p.panic job = p := by unfold PanicPool.panic; rw [if_neg hj]
        rw [hsame]
        exact h

/-! ## When occupancy holds -/

/-- **Occupancy is two things**: no panicked handler, and no entry without a job behind it. -/
theorem occupied_iff {p : PanicPool} (h : Seen cfg p) :
    Occupied p.pool ↔ p.panicked = [] ∧ Scheduled p.pool.state := by
  refine ⟨?_, ?_⟩
  · intro ho
    refine ⟨?_, ?_⟩
    · -- the app of a panicked handler is in flight, and no other handler may be its
      rw [List.eq_nil_iff_forall_not_mem]
      intro j hj
      have hfl : j.appId ∈ p.pool.state.inFlight :=
        (h.inv.inFlight _).mpr (List.mem_map_of_mem (List.mem_append_right _ hj))
      obtain ⟨k, hk⟩ := List.exists_mem_of_ne_nil _ ((ho.inFlight _).mp hfl)
      obtain ⟨hk, hka⟩ := List.mem_filter.mp hk
      have hnd : ((p.pool.running ++ p.panicked).map JobCtx.appId).Nodup := h.inv.oneEach
      rw [List.map_append] at hnd
      exact List.disjoint_of_nodup_append hnd (List.mem_map_of_mem hk)
        (by rw [of_decide_eq_true hka]; exact List.mem_map_of_mem hj)
    · intro a ha
      exact ((ho.entry a).mp ha).imp_right (ho.inFlight a).mpr
  · intro hp
    obtain ⟨hnone, hsched⟩ := hp
    have hinv : Inv cfg p.pool := by
      have := h.inv
      rwa [PanicPool.seen, hnone, List.append_nil] at this
    have hfl : ∀ a, a ∈ p.pool.state.inFlight ↔ p.pool.runningOf a ≠ [] := by
      intro a
      rw [Ne, hinv.runningOf_eq_nil, not_not]
    refine ⟨fun a => ⟨fun ha => ?_, fun ha => ?_⟩, hfl⟩
    · exact (hsched a ha).imp_right (hfl a).mp
    · rcases ha with hq | hr
      · -- an app without an entry has an empty queue
        by_contra hnot
        rw [State.queueOf, AList.lookup_eq_none.mpr hnot] at hq
        exact hq rfl
      · exact h.held a ((hfl a).mpr hr)

/-- An enqueue leaves an entry behind exactly when the cap is zero and it made one. -/
theorem scheduled_enqueue_iff {p : Pool} (hs : Scheduled p.state)
    (hheld : ∀ a ∈ p.state.inFlight, a ∈ p.state.apps) (app : String) (t : Trigger) (now : Nat)
    (co : Bool) :
    Scheduled (p.enqueue cfg app t now co).state
      ↔ 1 ≤ cfg.perAppQueueCap ∨ p.state.shutdown = true ∨ app ∈ p.state.apps := by
  by_cases hcap : 1 ≤ cfg.perAppQueueCap
  · exact ⟨fun _ => Or.inl hcap, fun _ => scheduled_enqueue hcap hs app t now co⟩
  have hzero : cfg.perAppQueueCap = 0 := by omega
  unfold Pool.enqueue
  rcases enqueueImpl_cases cfg p.state app t now co with
    ⟨hsd, heq⟩ | ⟨_, _, hmem, heq⟩ | ⟨hopen, _, _, heq⟩ | ⟨_, _, hlt, _⟩
  · rw [heq]; exact ⟨fun _ => Or.inr (Or.inl hsd), fun _ => hs⟩
  · rw [heq]; exact ⟨fun _ => Or.inr (Or.inr hmem), fun _ => hs⟩
  · rw [heq]
    by_cases hmem : app ∈ p.state.apps
    · have hsame : orDefault p.state.apps app = p.state.apps := by
        unfold orDefault; rw [if_pos hmem]
      simp only [hsame]
      exact ⟨fun _ => Or.inr (Or.inr hmem), fun _ => hs⟩
    · -- the entry that was made has no job, and its app no handler
      refine ⟨fun hnext => ?_, fun hc => ?_⟩
      · exfalso
        rcases hnext app (mem_orDefault.mpr (Or.inl rfl)) with hq | hf
        · refine hq ?_
          show ((orDefault p.state.apps app).lookup app).getD [] = []
          rw [lookup_orDefault, AList.lookup_eq_none.mpr hmem]
          rfl
        · exact hmem (hheld app hf)
      · rcases hc with hc | hc | hc
        · exact absurd hc hcap
        · rw [hopen] at hc; simp at hc
        · exact absurd hc hmem
  · omega

/-- **In an occupied pool, the next step keeps occupancy exactly if it leaves no orphan.** -/
theorem occupied_step {p : PanicPool} (h : Seen cfg p) (ho : Occupied p.pool) (a : PanicAction) :
    Occupied (panicStep cfg p a).pool ↔ LeavesNoOrphan cfg p a := by
  obtain ⟨hnone, hsched⟩ := (occupied_iff h).mp ho
  have hinv : Inv cfg p.pool := by
    have := h.inv
    rwa [PanicPool.seen, hnone, List.append_nil] at this
  rw [occupied_iff (seen_step h a)]
  cases a with
  | act a =>
      have hpan : (panicStep cfg p (.act a)).panicked = [] := hnone
      rw [hpan]
      cases a with
      | enqueue app t now =>
          rw [eq_self_iff_true, true_and]
          exact scheduled_enqueue_iff hsched h.held app t now false
      | enqueueCoalesce app t now =>
          rw [eq_self_iff_true, true_and]
          exact scheduled_enqueue_iff hsched h.held app t now true
      | nextDispatch => exact ⟨fun _ => trivial, fun _ => ⟨rfl, scheduled_dispatch hinv hsched⟩⟩
      | complete job =>
          refine ⟨fun _ => trivial, fun _ => ⟨rfl, ?_⟩⟩
          show Scheduled (p.pool.complete job).state
          by_cases hj : job ∈ p.pool.running
          · exact (complete_frame hj).2.2.2 hsched
          · unfold Pool.complete
            rw [if_neg hj]
            exact hsched
      | shutdown => exact ⟨fun _ => trivial, fun _ => ⟨rfl, hsched⟩⟩
  | panic job =>
      show (p.panic job).panicked = [] ∧ _ ↔ job ∉ p.pool.running
      unfold PanicPool.panic
      by_cases hj : job ∈ p.pool.running
      · simp [hj]
      · simp [panicStep, PanicPool.panic, hj, hnone, hsched]

/-- In an occupied pool, an enqueue that leaves no orphan answers as it may. -/
theorem answers_of_occupied {p : Pool} (ho : Occupied p) {app : String} {t : Trigger} {now : Nat}
    {co : Bool} (hc : 1 ≤ cfg.perAppQueueCap ∨ p.state.shutdown = true ∨ app ∈ p.state.apps) :
    Answers cfg p app t now co := by
  rcases enqueueImpl_cases cfg p.state app t now co with
    ⟨_, heq⟩ | ⟨_, _, hmem, heq⟩ | ⟨hopen, _, hfull, heq⟩ | ⟨_, _, _, heq⟩
  · exact ⟨by rw [heq]; simp, by rw [heq]; simp⟩
  · exact ⟨fun _ => (ho.entry app).mp hmem, by rw [heq]; simp⟩
  · refine ⟨by rw [heq]; simp, fun _ _ => ?_⟩
    -- a full queue is not empty, so the entry was there
    have hmem : app ∈ p.state.apps := by
      rcases hc with hc | hc | hc
      · refine (ho.entry app).mpr (Or.inl fun hnil => ?_)
        rw [hnil, List.length_nil] at hfull
        omega
      · rw [hopen] at hc; simp at hc
      · exact hc
    rw [heq]
    unfold orDefault
    rw [if_pos hmem]
  · exact ⟨by rw [heq]; simp, by rw [heq]; simp⟩

/--
**Occupancy holds along a run exactly when none of its steps leaves an orphan.**

For any caps and any order of enqueues, coalescing enqueues, dispatches, handlers
that return or panic, and shutdown: the map, the in-flight set and the answers
given to enqueuers are right throughout if and only if no handler panics and no
enqueue creates an entry in a pool whose queue cap is zero.
-/
theorem keepsOccupancy_iff (cfg : PoolConfig) (run : List PanicAction) :
    KeepsOccupancy cfg run ↔ Each (panicStep cfg) (LeavesNoOrphan cfg) PanicPool.new run := by
  have hstart : Occupied PanicPool.new.pool :=
    (occupied_iff (seen_new cfg)).mpr
      ⟨rfl, by intro a ha; simp [PanicPool.new, Pool.new, State.new] at ha⟩
  have hiff : Always (panicStep cfg) (fun p => Occupied p.pool) PanicPool.new run
      ↔ Each (panicStep cfg) (LeavesNoOrphan cfg) PanicPool.new run :=
    always_iff_each (I := Seen cfg) (P := fun p => Occupied p.pool) (A := fun _ => True)
      (fun _ a h _ => seen_step h a) (fun _ a h ho _ => occupied_step h ho a) (seen_new cfg)
      hstart (fun _ _ => trivial)
  refine ⟨fun h => hiff.mp h.1, fun h => ⟨hiff.mpr h, ?_⟩⟩
  intro pre a hp
  have ho : Occupied (exec (panicStep cfg) PanicPool.new pre).pool :=
    hiff.mpr h pre ((List.prefix_append _ _).trans hp)
  have hc := h pre a hp
  cases a with
  | act a =>
      cases a with
      | enqueue app t now => exact answers_of_occupied ho hc
      | enqueueCoalesce app t now => exact answers_of_occupied ho hc
      | nextDispatch => trivial
      | complete job => trivial
      | shutdown => trivial
  | panic job => trivial

/-! ## The two ways to lose an app -/

/-- A cap of zero: the refused enqueue leaves an entry, and the next one is coalesced behind a
job that does not exist. -/
theorem zeroCap_orphans :
    ¬ KeepsOccupancy ⟨1, 0⟩ [.act (.enqueue "a" .poll 0), .act (.enqueueCoalesce "a" .poll 1)]
    ∧ (enqueueImpl ⟨1, 0⟩ (exec (panicStep ⟨1, 0⟩) PanicPool.new
        [.act (.enqueue "a" .poll 0)]).pool.state "a" .poll 1 true).2 = .ok false
    ∧ ¬ KeepsOccupancy ⟨1, 1⟩ [.act (.enqueue "a" .poll 0), .act .nextDispatch,
        .panic ⟨"a", .poll, 0⟩] := by
  refine ⟨?_, by decide, ?_⟩
  · intro h
    have hocc := h.1 [.act (.enqueue "a" .poll 0)] ⟨[.act (.enqueueCoalesce "a" .poll 1)], rfl⟩
    have hmem := (hocc.entry "a").mp (by decide)
    revert hmem
    decide
  · intro h
    have hocc := h.1.final
    have hrun := (hocc.inFlight "a").mp (by decide)
    revert hrun
    decide

end SynchrotronCD.WorkerPool
