import SynchrotronCD.Kube.HealthMonitor

/-!
# The supervisor of an informer

An informer watches one kind while its cluster is up. Its supervisor looks at the health of
the cluster whenever the monitor has published one: it starts a watch session when the
cluster has come up, and aborts the session when the cluster has gone down. A session is a
task of its own, and ends when its stream yields an error or ends; nobody is told.

So there is one session while the cluster is up if and only if no session ends by itself
(`supervised_iff`), and an informer that has lost its session has lost it until the
cluster goes down (`lost_until_transition`).

An aborted task is gone here as soon as it is aborted, where the runtime drops it at its
next await.
-/

namespace SynchrotronCD.Informer

open Lib

variable {K : Type}

/-- What a watch stream yields. -/
inductive WatchEvent (K : Type) where
  | apply (obj : K)
  | delete (obj : K)
  /-- A list begins. -/
  | init
  | initApply (obj : K)
  | initDone
deriving DecidableEq, Repr

/-- What subscribers get. -/
inductive InformerEvent (K : Type) where
  | applied (obj : K)
  | deleted (obj : K)
  /-- The full set of objects, as listed. -/
  | restarted (objs : List K)
deriving DecidableEq, Repr

/-! ## Sessions -/

/-- A running watch session. -/
structure Session (K : Type) where
  id : Nat
  /-- What its stream has yielded so far. -/
  seen : List (WatchEvent K)
  /-- The objects of the list under way. -/
  initBuf : Option (List K)
deriving DecidableEq, Repr

/-- One event of the stream: the session after it, and what it sends. -/
def Session.handle (w : Session K) (ev : WatchEvent K) : Session K × List (InformerEvent K) :=
  let w : Session K := { w with seen := w.seen ++ [ev] }
  match ev with
  | .apply obj => (w, [.applied obj])
  | .delete obj => (w, [.deleted obj])
  | .init => ({ w with initBuf := some [] }, [])
  | .initApply obj =>
    match w.initBuf with
    | some buf => ({ w with initBuf := some (buf ++ [obj]) }, [])
    -- outside of a list: forwarded, so that no object is dropped
    | none => (w, [.applied obj])
  | .initDone => ({ w with initBuf := none }, [.restarted (w.initBuf.getD [])])

/-! ## The machine -/

structure State (K : Type) where
  /-- What is in the health channel, and whether the supervisor has yet to look at it. -/
  health : HealthState
  unseen : Bool
  /-- The monitor is gone. -/
  closed : Bool
  /-- `last_state`; `none` once the supervisor has returned. -/
  lastState : Option HealthState
  /-- The session the supervisor has a handle of; it may have ended. -/
  session : Option Nat
  /-- The session tasks that have not ended. -/
  running : List (Session K)
  nextId : Nat
  /-- What has been broadcast. -/
  sent : List (InformerEvent K)

/-- An informer is spawned on a channel with some health in it. -/
def State.new (health : HealthState) : State K :=
  ⟨health, true, false, some .unknown, none, [], 0, []⟩

inductive Event (K : Type) where
  /-- The monitor publishes the health of the cluster. -/
  | publish (health : HealthState)
  /-- The monitor is dropped. -/
  | close
  /-- The supervisor gets to run. -/
  | wake
  /-- The stream of a session yields an event, or an error. -/
  | item (id : Nat) (item : Except String (WatchEvent K))
  /-- The stream of a session ends. -/
  | streamEnd (id : Nat)

namespace State

def spawnSession (s : State K) : State K :=
  { s with
    session := some s.nextId
    running := s.running ++ [⟨s.nextId, [], none⟩]
    nextId := s.nextId + 1 }

/-- The task returns. -/
def endSession (s : State K) (id : Nat) : State K :=
  { s with running := s.running.filter fun w => w.id ≠ id }

/-- Abort the session there is a handle of. -/
def abortSession (s : State K) : State K :=
  match s.session with
  | some id => { s.endSession id with session := none }
  | none => s

/-- The loop body of the supervisor. -/
def supervise (s : State K) (last : HealthState) : State K :=
  let current := s.health
  let next : State K :=
    if last ≠ .up ∧ current = .up then s.spawnSession
    else if last = .up ∧ current ≠ .up then s.abortSession
    else s
  { next with lastState := some current, unseen := false }

/-- The supervisor looks at a health it has not seen, or finds the channel closed, or waits. -/
def wake (s : State K) : State K :=
  match s.lastState with
  | none => s
  | some last =>
    if s.unseen then s.supervise last
    else if s.closed then { s.abortSession with lastState := none }
    else s

/-- A session takes an event from its stream. -/
def handleItem (s : State K) (id : Nat) (ev : WatchEvent K) : State K :=
  match s.running.find? fun w => w.id = id with
  | none => s
  | some w =>
    { s with
      running := s.running.map fun v => if v.id = id then (v.handle ev).1 else v
      sent := s.sent ++ (w.handle ev).2 }

end State

def step (s : State K) : Event K → State K
  | .publish health => if s.closed then s else { s with health, unseen := true }
  | .close => { s with closed := true }
  | .wake => s.wake
  | .item id (.ok ev) => s.handleItem id ev
  -- a watch error ends the session
  | .item id (.error _) => s.endSession id
  | .streamEnd id => s.endSession id

/-! ## One session -/

/-- One session is running if the cluster was up when last looked at, and none otherwise. -/
def OneSession (s : State K) : Prop :=
  s.running.length = if s.lastState = some .up then 1 else 0

/-- The event is that a running session ends by itself. -/
def EndsItself (s : State K) (e : Event K) : Prop :=
  ∃ w ∈ s.running, e = .streamEnd w.id ∨ ∃ err, e = .item w.id (.error err)

/-- The objects that a stream has listed since the last list began, if one has. -/
def sinceInit (seen : List (WatchEvent K)) : Option (List K) :=
  seen.foldl (fun acc ev => match ev with
    | .init => some []
    | .initApply obj => acc.map (· ++ [obj])
    | _ => acc) none

def listedSince (seen : List (WatchEvent K)) : List K := (sinceInit seen).getD []

/-- A list is under way. -/
def listing (seen : List (WatchEvent K)) : Bool :=
  seen.foldl (fun acc ev => match ev with
    | .init => true
    | .initDone => false
    | _ => acc) false

theorem sinceInit_snoc (seen : List (WatchEvent K)) (ev : WatchEvent K) :
    sinceInit (seen ++ [ev]) = match ev with
      | .init => some []
      | .initApply obj => (sinceInit seen).map (· ++ [obj])
      | _ => sinceInit seen := by
  unfold sinceInit
  rw [List.foldl_append]
  cases ev <;> rfl

theorem listing_snoc (seen : List (WatchEvent K)) (ev : WatchEvent K) :
    listing (seen ++ [ev]) = match ev with
      | .init => true
      | .initDone => false
      | _ => listing seen := by
  unfold listing
  rw [List.foldl_append]
  cases ev <;> rfl

/-- What an event makes known as a restart is what the session's stream has listed. -/
def RestartsExactly (s : State K) (e : Event K) : Prop :=
  ∀ objs, (step s e).sent = s.sent ++ [.restarted objs] →
    ∃ w ∈ s.running, e = .item w.id (.ok .initDone) ∧ objs = listedSince w.seen

/-- A list is done that is not under way, though objects have been listed. -/
def DoneTwice (s : State K) (e : Event K) : Prop :=
  ∃ w ∈ s.running, e = .item w.id (.ok .initDone) ∧ listing w.seen = false
    ∧ listedSince w.seen ≠ []

/-! ## What holds in every state -/

/-- A session holds what has been listed while a list is under way, and nothing else. -/
def Session.Buffered (w : Session K) : Prop :=
  (listing w.seen = true ∧ ∃ buf, w.initBuf = some buf ∧ sinceInit w.seen = some buf)
    ∨ (listing w.seen = false ∧ w.initBuf = none)

/-- What the supervisor and its sessions never lose, whatever ends. -/
structure Inv (s : State K) : Prop where
  /-- The supervisor has the handle of every session. -/
  handle : ∀ w ∈ s.running, s.session = some w.id
  atMostOne : s.running.length ≤ 1
  /-- No session is left when the cluster is down. -/
  down : s.lastState ≠ some .up → s.running = []
  buffered : ∀ w ∈ s.running, w.Buffered

theorem Inv.ofNil {s : State K} (h : s.running = []) : Inv s where
  handle := by simp [h]
  atMostOne := by simp [h]
  down _ := h
  buffered := by simp [h]

theorem inv_new (health : HealthState) : Inv (State.new health : State K) := .ofNil rfl

theorem running_cases {s : State K} (h : Inv s) :
    s.running = [] ∨ ∃ w, s.running = [w] ∧ s.session = some w.id := by
  have hle := h.atMostOne
  match hr : s.running with
  | [] => exact .inl rfl
  | [w] => exact .inr ⟨w, rfl, h.handle w (by simp [hr])⟩
  | w :: v :: rest => simp [hr] at hle

theorem abortSession_running {s : State K} (h : Inv s) : s.abortSession.running = [] := by
  unfold State.abortSession State.endSession
  rcases running_cases h with hr | ⟨w, hr, hs⟩
  · split
    · simp [hr]
    · exact hr
  · simp [hs, hr]

/-- What is left of the sessions after one has ended is some of those that were there. -/
theorem Inv.ofSublist {s t : State K} (h : Inv s) (hsub : t.running.Sublist s.running)
    (hsession : t.running ≠ [] → t.session = s.session)
    (hlast : t.running ≠ [] → t.lastState = s.lastState) : Inv t where
  handle w hw := by
    rw [hsession (List.ne_nil_of_mem hw)]
    exact h.handle w (hsub.subset hw)
  atMostOne := Nat.le_trans hsub.length_le h.atMostOne
  down hne := by
    by_contra hrun
    rw [hlast hrun] at hne
    exact hrun (List.sublist_nil.mp (h.down hne ▸ hsub))
  buffered w hw := h.buffered w (hsub.subset hw)

theorem Inv.spawn {s t : State K} (hnone : s.running = [])
    (hrun : t.running = s.spawnSession.running) (hsession : t.session = some s.nextId)
    (hlast : t.lastState = some .up) : Inv t := by
  have hone : t.running = [⟨s.nextId, [], none⟩] := by
    rw [hrun, State.spawnSession, hnone]
    rfl
  refine ⟨?_, ?_, fun hne => absurd hlast hne, ?_⟩
  · simp [hone, hsession]
  · simp [hone]
  · rw [hone, List.forall_mem_singleton]
    exact .inr ⟨rfl, rfl⟩

theorem handle_id (w : Session K) (ev : WatchEvent K) : (w.handle ev).1.id = w.id := by
  unfold Session.handle
  cases ev with
  | initApply obj => dsimp only; split <;> rfl
  | apply | delete | init | initDone => rfl

theorem handle_seen (w : Session K) (ev : WatchEvent K) :
    (w.handle ev).1.seen = w.seen ++ [ev] := by
  unfold Session.handle
  cases ev with
  | initApply obj => dsimp only; split <;> rfl
  | apply | delete | init | initDone => rfl

theorem buffered_handle {w : Session K} (h : w.Buffered) (ev : WatchEvent K) :
    (w.handle ev).1.Buffered := by
  unfold Session.Buffered
  rw [handle_seen, listing_snoc, sinceInit_snoc]
  rcases h with ⟨hlisting, buf, hbuf, hsince⟩ | ⟨hlisting, hbuf⟩
  · cases ev with
    | apply | delete => exact .inl ⟨hlisting, buf, hbuf, hsince⟩
    | init => exact .inl ⟨rfl, [], rfl, rfl⟩
    | initApply obj =>
        refine .inl ⟨hlisting, buf ++ [obj], ?_, ?_⟩
        · simp [Session.handle, hbuf]
        · simp [hsince]
    | initDone => exact .inr ⟨rfl, rfl⟩
  · cases ev with
    | apply | delete => exact .inr ⟨hlisting, hbuf⟩
    | init => exact .inl ⟨rfl, [], rfl, rfl⟩
    | initApply obj =>
        refine .inr ⟨hlisting, ?_⟩
        simp [Session.handle, hbuf]
    | initDone => exact .inr ⟨rfl, rfl⟩

theorem handleItem_running (s : State K) (id : Nat) (ev : WatchEvent K) :
    (s.handleItem id ev).running =
      s.running.map fun v => if v.id = id then (v.handle ev).1 else v := by
  unfold State.handleItem
  split
  · rename_i hnone
    have hother : ∀ v ∈ s.running, (if v.id = id then (v.handle ev).1 else v) = v := fun v hv =>
      if_neg (by simpa using List.find?_eq_none.mp hnone v hv)
    rw [List.map_congr_left hother, List.map_id']
  · rfl

theorem handleItem_other (s : State K) (id : Nat) (ev : WatchEvent K) :
    (s.handleItem id ev).session = s.session ∧ (s.handleItem id ev).lastState = s.lastState := by
  unfold State.handleItem
  split <;> exact ⟨rfl, rfl⟩

theorem inv_handleItem {s : State K} (h : Inv s) (id : Nat) (ev : WatchEvent K) :
    Inv (s.handleItem id ev) := by
  obtain ⟨hsession, hlast⟩ := handleItem_other s id ev
  have hrun := handleItem_running s id ev
  refine ⟨?_, ?_, ?_, ?_⟩
  · rw [hrun, hsession, List.forall_mem_map]
    intro v hv
    split
    · rw [handle_id]
      exact h.handle v hv
    · exact h.handle v hv
  · rw [hrun, List.length_map]
    exact h.atMostOne
  · rw [hrun, hlast, List.map_eq_nil_iff]
    exact h.down
  · rw [hrun, List.forall_mem_map]
    intro v hv
    split
    · exact buffered_handle (h.buffered v hv) ev
    · exact h.buffered v hv

theorem inv_wake {s : State K} (h : Inv s) : Inv s.wake := by
  unfold State.wake
  cases hlast : s.lastState with
  | none => exact h
  | some last =>
      dsimp only
      split
      · unfold State.supervise
        dsimp only
        split
        · -- the cluster has come up
          rename_i hup
          have hnone := h.down (by rw [hlast]; exact fun he => hup.1 (Option.some.inj he))
          exact .spawn hnone rfl rfl (congrArg some hup.2)
        · split
          · -- it has gone down
            exact .ofNil (abortSession_running h)
          · rename_i hstart hstop
            refine ⟨h.handle, h.atMostOne, fun hne => h.down ?_, h.buffered⟩
            rw [hlast]
            intro he
            exact hstop ⟨Option.some.inj he, fun hup => hne (congrArg some hup)⟩
      · split
        · exact .ofNil (abortSession_running h)
        · exact h

theorem inv_step {s : State K} (h : Inv s) (e : Event K) : Inv (step s e) := by
  cases e with
  | publish health =>
      rw [step]
      split
      · exact h
      · exact ⟨h.handle, h.atMostOne, h.down, h.buffered⟩
  | close => exact ⟨h.handle, h.atMostOne, h.down, h.buffered⟩
  | wake => exact inv_wake h
  | streamEnd id => exact h.ofSublist List.filter_sublist (fun _ => rfl) fun _ => rfl
  | item id item =>
      cases item with
      | error err => exact h.ofSublist List.filter_sublist (fun _ => rfl) fun _ => rfl
      | ok ev => exact inv_handleItem h id ev

/-! ## What one event does -/

/-- A session ends: one is running as before exactly if it was not there. -/
theorem oneSession_endSession {s : State K} (h : OneSession s) (id : Nat) :
    OneSession (s.endSession id) ↔ ∀ w ∈ s.running, w.id ≠ id := by
  unfold OneSession at *
  rw [State.endSession, ← h]
  dsimp only
  rw [List.length_filter_eq_length_iff]
  simp

theorem oneSession_wake {s : State K} (h : Inv s) (hone : OneSession s) : OneSession s.wake := by
  unfold State.wake
  cases hlast : s.lastState with
  | none => exact hone
  | some last =>
      unfold OneSession at *
      rw [hlast] at hone
      dsimp only
      split
      · unfold State.supervise
        dsimp only
        split
        · rename_i hup
          have hnone := h.down (by rw [hlast]; exact fun he => hup.1 (Option.some.inj he))
          rw [State.spawnSession, hup.2, hnone]
          rfl
        · split
          · rename_i hdown
            rw [abortSession_running h, if_neg (fun he => hdown.2 (Option.some.inj he))]
            rfl
          · rename_i hstart hstop
            have hsame : (some s.health = some HealthState.up) ↔ (some last = some HealthState.up) := by
              rw [Option.some.injEq, Option.some.injEq]
              constructor
              · intro hup
                by_contra hne
                exact hstart ⟨hne, hup⟩
              · intro hup
                by_contra hne
                exact hstop ⟨hup, hne⟩
            rw [hone]
            exact if_congr hsame.symm rfl rfl
      · split
        · rw [abortSession_running h]
          rfl
        · rw [hlast]
          exact hone

/-- **An event leaves one session** unless it is that a session ends by itself. -/
theorem oneSession_step {s : State K} (h : Inv s) (hone : OneSession s) (e : Event K) :
    OneSession (step s e) ↔ ¬ EndsItself s e := by
  cases e with
  | publish health =>
      refine iff_of_true ?_ (by simp [EndsItself])
      rw [step]
      split <;> exact hone
  | close => exact iff_of_true hone (by simp [EndsItself])
  | wake => exact iff_of_true (oneSession_wake h hone) (by simp [EndsItself])
  | streamEnd id =>
      refine (oneSession_endSession hone id).trans ?_
      simp [EndsItself, eq_comm]
  | item id item =>
      cases item with
      | error err =>
          refine (oneSession_endSession hone id).trans ?_
          simp [EndsItself, eq_comm]
      | ok ev =>
          refine iff_of_true ?_ (by simp [EndsItself])
          unfold OneSession at *
          rw [step, handleItem_running, List.length_map, (handleItem_other s id ev).2]
          exact hone

theorem wake_sent (s : State K) : s.wake.sent = s.sent := by
  have habort : s.abortSession.sent = s.sent := by
    unfold State.abortSession
    split <;> rfl
  unfold State.wake
  split
  · rfl
  · split
    · unfold State.supervise
      dsimp only
      split
      · rfl
      · split
        · exact habort
        · rfl
    · split
      · exact habort
      · rfl

theorem handle_restarted {w : Session K} {ev : WatchEvent K} {objs : List K} :
    (w.handle ev).2 = [.restarted objs] ↔ ev = .initDone ∧ objs = w.initBuf.getD [] := by
  unfold Session.handle
  cases ev with
  | initApply obj => dsimp only; split <;> simp
  | apply | delete | init => simp
  | initDone => simp [eq_comm]

theorem handleItem_sent {s : State K} (h : Inv s) {w : Session K} (hw : w ∈ s.running)
    (ev : WatchEvent K) : (s.handleItem w.id ev).sent = s.sent ++ (w.handle ev).2 := by
  rcases running_cases h with hr | ⟨v, hr, -⟩
  · rw [hr] at hw
    exact absurd hw List.not_mem_nil
  · rw [hr, List.mem_singleton] at hw
    subst hw
    simp [State.handleItem, hr]

/-- A restart is sent by a list that is done, and it carries what the session has buffered. -/
theorem step_restarted {s : State K} (h : Inv s) {e : Event K} {objs : List K}
    (hsent : (step s e).sent = s.sent ++ [.restarted objs]) :
    ∃ w ∈ s.running, e = .item w.id (.ok .initDone) ∧ objs = w.initBuf.getD [] := by
  have hquiet : ∀ t : State K, t.sent = s.sent → t.sent ≠ s.sent ++ [.restarted objs] := by
    intro t ht he
    rw [ht] at he
    exact absurd (List.self_eq_append_right.mp he) (List.cons_ne_nil _ _)
  cases e with
  | publish health =>
      refine absurd hsent (hquiet _ ?_)
      rw [step]
      split <;> rfl
  | close => exact absurd hsent (hquiet _ rfl)
  | wake => exact absurd hsent (hquiet _ (wake_sent s))
  | streamEnd id => exact absurd hsent (hquiet _ rfl)
  | item id item =>
      cases item with
      | error err => exact absurd hsent (hquiet _ rfl)
      | ok ev =>
          rcases running_cases h with hr | ⟨w, hr, -⟩
          · refine absurd hsent (hquiet _ ?_)
            rw [step, State.handleItem, hr]
            rfl
          · have hw : w ∈ s.running := by simp [hr]
            by_cases hid : w.id = id
            · subst hid
              rw [step, handleItem_sent h hw] at hsent
              obtain ⟨rfl, rfl⟩ := handle_restarted.mp (List.append_cancel_left hsent)
              exact ⟨w, hw, rfl, rfl⟩
            · refine absurd hsent (hquiet _ ?_)
              rw [step, State.handleItem, hr]
              simp [hid]

/-- **A restart carries what has been listed** unless a list is done that is not under way. -/
theorem restartsExactly_step {s : State K} (h : Inv s) (e : Event K) :
    RestartsExactly s e ↔ ¬ DoneTwice s e := by
  constructor
  · rintro hexact ⟨w, hw, rfl, hlisting, hlisted⟩
    have hbuf : w.initBuf = none := by
      rcases h.buffered w hw with ⟨hl, -⟩ | ⟨-, hbuf⟩
      · rw [hl] at hlisting
        exact absurd hlisting nofun
      · exact hbuf
    -- the restart is sent, and it is empty
    have hsent : (step s (.item w.id (.ok .initDone))).sent = s.sent ++ [.restarted []] := by
      rw [step, handleItem_sent h hw, handle_restarted.mpr ⟨rfl, rfl⟩, hbuf]
      rfl
    obtain ⟨v, hv, -, hempty⟩ := hexact [] hsent
    obtain rfl : v = w := by
      rcases running_cases h with hr | ⟨u, hr, -⟩
      · rw [hr] at hw
        exact absurd hw List.not_mem_nil
      · rw [hr, List.mem_singleton] at hv hw
        rw [hv, hw]
    exact hlisted hempty.symm
  · intro hno objs hsent
    obtain ⟨w, hw, rfl, rfl⟩ := step_restarted h hsent
    refine ⟨w, hw, rfl, ?_⟩
    rcases h.buffered w hw with ⟨-, buf, hbuf, hsince⟩ | ⟨hlisting, hbuf⟩
    · rw [listedSince, hbuf, hsince]
    · rw [hbuf]
      by_contra hne
      exact hno ⟨w, hw, rfl, hlisting, fun he => hne he.symm⟩

/-! ## Every run -/

/-- All along a run there is one session while the cluster is up and none otherwise, and
every restart carries what has been listed since the last list began. -/
structure Supervised (health : HealthState) (run : List (Event K)) : Prop where
  sessions : Always step OneSession (State.new health) run
  restarts : Each step RestartsExactly (State.new health) run

theorem inv_exec (health : HealthState) (run : List (Event K)) :
    Inv (exec step (State.new health) run) :=
  exec_inv (P := Inv) (fun _ e h => inv_step h e) (inv_new health) run

/--
**When an informer is supervised.**

For every run of the monitor, the supervisor and the watch streams, from any health in the
channel: in every state reached one session is running if the supervisor has last seen the
cluster up and none otherwise, and every restart carries what has been listed since
the last list began, if and only if no session ends by itself, and no list is done that
is not under way.
-/
theorem supervised_iff (health : HealthState) (run : List (Event K)) :
    Supervised health run ↔
      Each step (fun s e => ¬ EndsItself s e ∧ ¬ DoneTwice s e) (State.new health) run := by
  have hsessions : Always step OneSession (State.new health) run ↔
      Each step (fun s e => ¬ EndsItself s e) (State.new health) run :=
    always_iff_each (I := Inv) (A := fun _ => True) (fun _ e h _ => inv_step h e)
      (fun _ e h hone _ => oneSession_step h hone e) (inv_new health) rfl fun _ _ => trivial
  constructor
  · rintro ⟨hone, hexact⟩ pre e hp
    exact ⟨hsessions.mp hone pre e hp,
      (restartsExactly_step (inv_exec health pre) e).mp (hexact pre e hp)⟩
  · intro h
    refine ⟨hsessions.mpr fun pre e hp => (h pre e hp).1, fun pre e hp => ?_⟩
    exact (restartsExactly_step (inv_exec health pre) e).mpr (h pre e hp).2

/-- **A supervisor that has caught up** has last seen the cluster as it is. -/
theorem caught_up (health : HealthState) (run : List (Event K))
    (hseen : (exec step (State.new health) run).unseen = false) :
    (exec step (State.new health) run).lastState
        = some (exec step (State.new health) run).health
      ∨ (exec step (State.new health) run).lastState = none := by
  refine exec_inv (P := fun s : State K => s.unseen = false →
    s.lastState = some s.health ∨ s.lastState = none) (fun s e h => ?_) (by simp [State.new]) run
    hseen
  have habort : s.abortSession.health = s.health ∧ s.abortSession.unseen = s.unseen := by
    unfold State.abortSession
    split <;> exact ⟨rfl, rfl⟩
  cases e with
  | publish health =>
      rw [step]
      split
      · exact h
      · exact nofun
  | close | streamEnd id => exact h
  | wake =>
      rw [step, State.wake]
      split
      · exact h
      · split
        · intro _
          refine .inl ?_
          unfold State.supervise
          dsimp only
          split
          · rfl
          · split
            · rw [habort.1]
            · rfl
        · split
          · exact fun _ => .inr rfl
          · exact h
  | item id item =>
      cases item with
      | error err => exact h
      | ok ev =>
          rw [step, State.handleItem]
          split <;> exact h

/-! ## A lost session -/

/-- The cluster is up, and the informer has no session. -/
structure Lost (s : State K) : Prop where
  none : s.running = []
  up : s.health = .up
  seenUp : s.lastState = some .up ∨ s.lastState = Option.none

theorem lost_step {s : State K} (h : Lost s) {e : Event K}
    (he : ∀ health, e = .publish health → health = .up) : Lost (step s e) := by
  have hend : ∀ id, Lost (s.endSession id) := fun id =>
    ⟨by rw [State.endSession, h.none]; rfl, h.up, h.seenUp⟩
  cases e with
  | publish health =>
      rw [step]
      split
      · exact h
      · exact ⟨h.none, he health rfl, h.seenUp⟩
  | close => exact ⟨h.none, h.up, h.seenUp⟩
  | wake =>
      have habort : s.abortSession.running = [] ∧ s.abortSession.health = .up := by
        unfold State.abortSession
        split
        · exact ⟨(hend _).none, h.up⟩
        · exact ⟨h.none, h.up⟩
      rw [step, State.wake]
      rcases h.seenUp with hlast | hlast
      · rw [hlast]
        dsimp only
        split
        · -- it was up and still is: there is nothing to do
          unfold State.supervise
          dsimp only
          rw [if_neg (fun hup => hup.1 rfl), if_neg (fun hdown => hdown.2 h.up)]
          exact ⟨h.none, h.up, .inl (congrArg some h.up)⟩
        · split
          · exact ⟨habort.1, habort.2, .inr rfl⟩
          · exact h
      · rw [hlast]
        exact h
  | streamEnd id => exact hend id
  | item id item =>
      cases item with
      | error err => exact hend id
      | ok ev =>
          have hsame : s.handleItem id ev = s := by
            rw [State.handleItem, h.none]
            rfl
          rw [step, hsame]
          exact h

/-- **A session that is lost is lost until the cluster goes down**, whatever else happens. -/
theorem lost_until_transition {s : State K} (h : Lost s) {run : List (Event K)}
    (hrun : ∀ e ∈ run, ∀ health, e = .publish health → health = .up) :
    (exec step s run).running = [] :=
  (exec_inv_of_mem (P := Lost) (A := fun e => ∀ health, e = .publish health → health = .up)
    (fun _ _ h he => lost_step h he) h hrun).none

/-- The session starts, lists an object, and its watch fails. -/
def watchFails : List (Event String) :=
  [.wake, .item 0 (.ok .init), .item 0 (.ok (.initApply "web")), .item 0 (.ok .initDone),
    .item 0 (.error "connection reset")]

/-- On a channel that says that the cluster is up, an informer whose watch has failed has
no session, and will never have one again as long as the cluster stays up. -/
theorem watch_failure_is_final : ¬ Supervised .up watchFails
    ∧ (exec step (State.new .up) watchFails).lastState = some .up
    ∧ ∀ run : List (Event String), (∀ e ∈ run, ∀ health, e = .publish health → health = .up) →
      (exec step (State.new .up) (watchFails ++ run)).running = [] := by
  have hlost : Lost (exec step (State.new .up) watchFails) := ⟨rfl, rfl, .inl rfl⟩
  refine ⟨fun h => ?_, rfl, fun run hrun => ?_⟩
  · exact absurd h.sessions.final (by unfold OneSession; decide)
  · rw [exec_append]
    exact lost_until_transition hlost hrun

end SynchrotronCD.Informer
