import Mathlib.Logic.Function.Basic
import SynchrotronCD.Lib.Assoc
import SynchrotronCD.Lib.Runs

/-!
# The cluster registry

Each registered cluster has a health monitor, whose probe loop runs in a task of its own. A
registration looks whether the name is free, builds a client and spawns the monitor, and looks
again under the write lock before it enters it; if somebody else was faster it shuts its monitor
down. Callers share the monitors: a monitor that nobody has any more is dropped, which aborts
its loop.

No monitor is forgotten: one runs exactly while a name, a registration or a caller has it, unless
a caller has shut it down (`monitors_accounted`).
-/

namespace SynchrotronCD.ClusterRegistry

open Lib

/-- The monitors are numbered as they are spawned. -/
abbrev MonitorId := Nat

inductive RegisterError where
  | alreadyRegistered (name : String)
  /-- The client could not be built. -/
  | connect (text : String)
deriving DecidableEq, Repr

/-- Where a registration is that has not returned. -/
inductive Call where
  /-- The name was free; the client is being built. -/
  | checked (name : String)
  /-- The monitor runs; about to enter it, unless the name is taken by now. -/
  | spawned (name : String) (monitor : MonitorId)
deriving DecidableEq, Repr

/-- A change of the map. -/
inductive Change where
  | registered (name : String) (monitor : MonitorId)
  | deregistered (name : String) (monitor : MonitorId)
deriving DecidableEq, Repr

structure State where
  inner : HashMap String MonitorId
  /-- The registration of each task, while it has one. -/
  calls : Nat → Option Call
  /-- The monitors that callers have, once for each time they have it. -/
  handles : List MonitorId
  /-- The cluster of each monitor there has been. -/
  monitors : List String
  aborted : List MonitorId
  /-- Those that a caller has shut down. -/
  shutDown : List MonitorId
  history : List Change
  returned : List (Nat × Except RegisterError Unit)

namespace State

def new : State := ⟨∅, fun _ => none, [], [], [], [], [], []⟩

variable (s : State)

def enter (task : Nat) (c : Call) : State :=
  { s with calls := Function.update s.calls task (some c) }

def finish (task : Nat) (result : Except RegisterError Unit) : State :=
  { s with calls := Function.update s.calls task none, returned := s.returned ++ [(task, result)] }

def abort (monitor : MonitorId) : State := { s with aborted := monitor :: s.aborted }

/-- The first section of `register`, under the read lock. -/
def register (task : Nat) (name : String) : State :=
  match s.calls task with
  | some _ => s
  | none =>
    if name ∈ s.inner then s.finish task (.error (.alreadyRegistered name))
    else s.enter task (.checked name)

/-- `HealthMonitor::spawn`: the loop runs as soon as there is a client. -/
def connect (task : Nat) (error : Option String) : State :=
  match s.calls task, error with
  | some (.checked _), some text => s.finish task (.error (.connect text))
  | some (.checked name), none =>
    { s with monitors := s.monitors ++ [name] }.enter task (.spawned name s.monitors.length)
  | _, _ => s

/-- The last section of `register`, under the write lock. -/
def insert (task : Nat) : State :=
  match s.calls task with
  | some (.spawned name monitor) =>
    if name ∈ s.inner then (s.abort monitor).finish task (.error (.alreadyRegistered name))
    else { s with
      inner := s.inner.insert name monitor
      history := s.history ++ [Change.registered name monitor] }.finish task (.ok ())
  | _ => s

/-- The future of a registration is dropped where it waits, with the monitor it has. -/
def cancel (task : Nat) : State :=
  match s.calls task with
  | some (.spawned _ monitor) =>
    { s.abort monitor with calls := Function.update s.calls task none }
  | some (.checked _) => { s with calls := Function.update s.calls task none }
  | none => s

/-- The caller gets the monitor. -/
def deregister (name : String) : State :=
  match s.inner.lookup name with
  | some monitor =>
    { s with
      inner := s.inner.erase name
      handles := monitor :: s.handles
      history := s.history ++ [.deregistered name monitor] }
  | none => s

/-- `get`, and `client` and `health` until they return. -/
def get (name : String) : State :=
  match s.inner.lookup name with
  | some monitor => { s with handles := monitor :: s.handles }
  | none => s

/-- `HealthMonitor::shutdown`, by a caller that has it. -/
def shutdown (monitor : MonitorId) : State :=
  if monitor ∈ s.handles then { s.abort monitor with shutDown := monitor :: s.shutDown } else s

/-- Some name has the monitor. -/
def Registered (monitor : MonitorId) : Prop := ∃ e ∈ s.inner.entries, e.2 = monitor

instance (monitor : MonitorId) : Decidable (s.Registered monitor) :=
  inferInstanceAs (Decidable (∃ e ∈ s.inner.entries, e.2 = monitor))

/-- A caller drops it; if nobody has it any more its loop is aborted. -/
def drop (monitor : MonitorId) : State :=
  if monitor ∈ s.handles then
    let s' := { s with handles := s.handles.erase monitor }
    if monitor ∈ s'.handles ∨ s'.Registered monitor then s' else s'.abort monitor
  else s

end State

inductive Event where
  | register (task : Nat) (name : String)
  | connect (task : Nat) (error : Option String)
  | insert (task : Nat)
  | cancel (task : Nat)
  | deregister (name : String)
  | get (name : String)
  | shutdown (monitor : MonitorId)
  | drop (monitor : MonitorId)
deriving DecidableEq, Repr

def step (s : State) : Event → State
  | .register task name => s.register task name
  | .connect task error => s.connect task error
  | .insert task => s.insert task
  | .cancel task => s.cancel task
  | .deregister name => s.deregister name
  | .get name => s.get name
  | .shutdown monitor => s.shutdown monitor
  | .drop monitor => s.drop monitor

/-! ## Who has a monitor -/

/-- Its loop has not been told to stop. -/
def State.Running (s : State) (m : MonitorId) : Prop := m < s.monitors.length ∧ m ∉ s.aborted

/-- A registration that has not returned has it. -/
def State.Pending (s : State) (m : MonitorId) : Prop :=
  ∃ task name, s.calls task = some (.spawned name m)

/-- Somebody has it: a name, a registration or a caller. -/
def State.Owned (s : State) (m : MonitorId) : Prop := s.Registered m ∨ s.Pending m ∨ m ∈ s.handles

theorem registered_iff {s : State} {m : MonitorId} :
    s.Registered m ↔ ∃ name, s.inner.lookup name = some m := by
  unfold State.Registered
  constructor
  · rintro ⟨⟨name, m'⟩, he, rfl⟩
    exact ⟨name, AList.mem_lookup_iff.mpr he⟩
  · rintro ⟨name, hname⟩
    exact ⟨⟨name, m⟩, AList.mem_lookup_iff.mp hname, rfl⟩

/-- What a change makes of a map, if it can happen there. -/
def Change.apply (occupant : String → Option MonitorId) : Change → Option (String → Option MonitorId)
  | .registered name m =>
    if occupant name = none then some (Function.update occupant name (some m)) else none
  | .deregistered name m =>
    if occupant name = some m then some (Function.update occupant name none) else none

/-- The changes one after the other, if a name is only ever taken while it is free. -/
def replay (history : List Change) : Option (String → Option MonitorId) :=
  history.foldlM Change.apply fun _ => none

theorem replay_snoc (history : List Change) (c : Change) :
    replay (history ++ [c]) = (replay history).bind fun occupant => c.apply occupant := by
  unfold replay
  rw [List.foldlM_append]
  cases List.foldlM Change.apply (fun _ => none) history <;> simp

/-! ## The invariant -/

structure Inv (s : State) : Prop where
  named : ∀ name m, s.inner.lookup name = some m → s.monitors[m]? = some name
  spawned : ∀ task name m, s.calls task = some (.spawned name m) → s.monitors[m]? = some name
  /-- The monitor of a registration is nobody else's yet. -/
  alone : ∀ task name m, s.calls task = some (.spawned name m) → ¬ s.Registered m ∧ m ∉ s.handles
  distinct : ∀ task task' name name' m, s.calls task = some (.spawned name m) →
    s.calls task' = some (.spawned name' m) → task = task'
  handled : ∀ m ∈ s.handles, m < s.monitors.length
  aborted : ∀ m ∈ s.aborted, m < s.monitors.length
  /-- Nothing that somebody has is aborted, but by a caller. -/
  owned : ∀ m, s.Owned m → m ∈ s.aborted → m ∈ s.shutDown
  shutDown : ∀ m ∈ s.shutDown, m ∈ s.aborted
  /-- Whatever runs somebody has. -/
  kept : ∀ m, s.Running m → s.Owned m
  history : replay s.history = some fun name => s.inner.lookup name

theorem inv_new : Inv State.new where
  named _ _ h := by simp [State.new] at h
  spawned := nofun
  alone := nofun
  distinct := nofun
  handled := nofun
  aborted := nofun
  owned _ _ := nofun
  shutDown := nofun
  kept _ h := absurd h.1 (by simp [State.new])
  history := by
    show some _ = some _
    congr 1

section

variable {s : State} (h : Inv s)

include h

theorem Inv.lt_of_owned {m : MonitorId} (hm : s.Owned m) : m < s.monitors.length := by
  rcases hm with hr | ⟨task, name, hc⟩ | hh
  · obtain ⟨name, hname⟩ := registered_iff.mp hr
    exact (List.getElem?_eq_some_iff.mp (h.named name m hname)).1
  · exact (List.getElem?_eq_some_iff.mp (h.spawned task name m hc)).1
  · exact h.handled m hh

/-- A task that has no monitor comes to where it still has none. -/
theorem inv_calls {task : Nat} {c : Option Call} (r : List (Nat × Except RegisterError Unit))
    (hbefore : ∀ name m, s.calls task ≠ some (.spawned name m))
    (hafter : ∀ name m, c ≠ some (.spawned name m)) :
    Inv { s with calls := Function.update s.calls task c, returned := r } := by
  have hsame : ∀ t name m, Function.update s.calls task c t = some (.spawned name m) ↔
      s.calls t = some (.spawned name m) := by
    intro t name m
    by_cases ht : t = task
    · subst ht
      rw [Function.update_self]
      exact iff_of_false (hafter name m) (hbefore name m)
    · rw [Function.update_of_ne ht]
  have howned : ∀ m, State.Owned { s with
      calls := Function.update s.calls task c, returned := r } m ↔ s.Owned m := by
    intro m
    unfold State.Owned State.Pending
    simp only [hsame]
    rfl
  exact {
    named := h.named
    spawned := fun t name m hc => h.spawned t name m ((hsame t name m).mp hc)
    alone := fun t name m hc => h.alone t name m ((hsame t name m).mp hc)
    distinct := fun t t' n n' m hc hc' =>
      h.distinct t t' n n' m ((hsame t n m).mp hc) ((hsame t' n' m).mp hc')
    handled := h.handled
    aborted := h.aborted
    owned := fun m hm => h.owned m ((howned m).mp hm)
    shutDown := h.shutDown
    kept := fun m hm => (howned m).mpr (h.kept m hm)
    history := h.history }

/-- When a registration ends, its monitor is no registration's. -/
theorem calls_ended {task : Nat} {name : String} {m : MonitorId}
    (hc : s.calls task = some (.spawned name m)) (t : Nat) (n : String) (m' : MonitorId) :
    Function.update s.calls task none t = some (.spawned n m') ↔
      m' ≠ m ∧ s.calls t = some (.spawned n m') := by
  by_cases ht : t = task
  · subst ht
    rw [Function.update_self, hc]
    simp only [reduceCtorEq, false_iff, Option.some.injEq, Call.spawned.injEq]
    rintro ⟨hne, -, rfl⟩
    exact hne rfl
  · rw [Function.update_of_ne ht]
    refine ⟨fun hs => ⟨?_, hs⟩, And.right⟩
    rintro rfl
    exact ht (h.distinct t task n name m' hs hc)

/-- A registration ends and takes its monitor with it. -/
theorem inv_abandon {task : Nat} {name : String} {m : MonitorId}
    (r : List (Nat × Except RegisterError Unit)) (hc : s.calls task = some (.spawned name m)) :
    Inv { s.abort m with calls := Function.update s.calls task none, returned := r } := by
  have hcalls := calls_ended h hc
  have howned : ∀ m', State.Owned { s.abort m with
      calls := Function.update s.calls task none, returned := r } m' ↔ m' ≠ m ∧ s.Owned m' := by
    intro m'
    have halone := h.alone task name m hc
    unfold State.Owned State.Pending
    simp only [hcalls]
    constructor
    · rintro (hr | ⟨t, n, hne, hs⟩ | hh)
      · exact ⟨fun heq => halone.1 (heq ▸ hr), .inl hr⟩
      · exact ⟨hne, .inr (.inl ⟨t, n, hs⟩)⟩
      · exact ⟨fun heq => halone.2 (heq ▸ hh), .inr (.inr hh)⟩
    · rintro ⟨hne, hr | ⟨t, n, hs⟩ | hh⟩
      · exact .inl hr
      · exact .inr (.inl ⟨t, n, hne, hs⟩)
      · exact .inr (.inr hh)
  exact {
    named := h.named
    spawned := fun t n m' ht => h.spawned t n m' ((hcalls t n m').mp ht).2
    alone := fun t n m' ht => h.alone t n m' ((hcalls t n m').mp ht).2
    distinct := fun t t' n n' m' ht ht' =>
      h.distinct t t' n n' m' ((hcalls t n m').mp ht).2 ((hcalls t' n' m').mp ht').2
    handled := h.handled
    aborted := List.forall_mem_cons.mpr ⟨h.lt_of_owned (.inr (.inl ⟨task, name, hc⟩)), h.aborted⟩
    owned := fun m' hm' ha => by
      obtain ⟨hne, hm'⟩ := (howned m').mp hm'
      exact h.owned m' hm' ((List.mem_cons.mp ha).resolve_left hne)
    shutDown := fun m' hm' => List.mem_cons_of_mem _ (h.shutDown m' hm')
    kept := fun m' hm' => by
      obtain ⟨hlt, hnot⟩ := hm'
      obtain ⟨hne, hnot⟩ := not_or.mp (fun hor => hnot (List.mem_cons.mpr hor))
      exact (howned m').mpr ⟨hne, h.kept m' ⟨hlt, hnot⟩⟩
    history := h.history }

theorem inv_register (task : Nat) (name : String) : Inv (s.register task name) := by
  unfold State.register
  split
  · exact h
  · rename_i hnone
    have hbefore : ∀ n m, s.calls task ≠ some (.spawned n m) := by simp [hnone]
    split
    · exact inv_calls h _ hbefore nofun
    · exact inv_calls h _ hbefore (by simp)

theorem inv_cancel (task : Nat) : Inv (s.cancel task) := by
  unfold State.cancel
  split
  · rename_i hc
    exact inv_abandon h _ hc
  · rename_i hc
    exact inv_calls h _ (by simp [hc]) nofun
  · exact h

/-- The new monitor is that of its registration alone. -/
theorem inv_connect (task : Nat) (error : Option String) : Inv (s.connect task error) := by
  unfold State.connect
  split
  · rename_i hc
    exact inv_calls h _ (by simp [hc]) nofun
  · rename_i name hc
    have hcalls : ∀ t n m, Function.update s.calls task (some (.spawned name s.monitors.length)) t
        = some (.spawned n m) ↔ (t = task ∧ n = name ∧ m = s.monitors.length) ∨
          s.calls t = some (.spawned n m) := by
      intro t n m
      by_cases ht : t = task
      · subst ht
        rw [Function.update_self, hc]
        simp [eq_comm]
      · rw [Function.update_of_ne ht]
        simp [ht]
    -- nobody has the new monitor yet
    have hfresh : ∀ m, s.Owned m → m ≠ s.monitors.length := fun m hm =>
      Nat.ne_of_lt (h.lt_of_owned hm)
    have hold : ∀ {m : MonitorId} {n : String}, s.monitors[m]? = some n →
        (s.monitors ++ [name])[m]? = some n := by
      intro m n hm
      rw [List.getElem?_append_left (List.getElem?_eq_some_iff.mp hm).1]
      exact hm
    refine {
      named := fun n m hn => hold (h.named n m hn)
      spawned := fun t n m ht => ?_
      alone := fun t n m ht => ?_
      distinct := fun t t' n n' m ht ht' => ?_
      handled := fun m hm => ?_
      aborted := fun m hm => ?_
      owned := fun m hm ha => ?_
      shutDown := h.shutDown
      kept := fun m hm => ?_
      history := h.history }
    · rcases (hcalls t n m).mp ht with ⟨-, rfl, rfl⟩ | ht
      · exact List.getElem?_concat_length
      · exact hold (h.spawned t n m ht)
    · rcases (hcalls t n m).mp ht with ⟨-, -, rfl⟩ | ht
      · exact ⟨fun hr => hfresh _ (.inl hr) rfl, fun hh => hfresh _ (.inr (.inr hh)) rfl⟩
      · exact h.alone t n m ht
    · rcases (hcalls t n m).mp ht with ⟨heq, -, hm⟩ | hs
      · rcases (hcalls t' n' m).mp ht' with ⟨heq', -, -⟩ | hs'
        · exact heq.trans heq'.symm
        · exact absurd hm (hfresh m (.inr (.inl ⟨t', n', hs'⟩)))
      · rcases (hcalls t' n' m).mp ht' with ⟨-, -, hm'⟩ | hs'
        · exact absurd hm' (hfresh m (.inr (.inl ⟨t, n, hs⟩)))
        · exact h.distinct t t' n n' m hs hs'
    · have hlt := h.handled m hm
      show m < (s.monitors ++ [name]).length
      rw [List.length_append]
      exact Nat.lt_add_right _ hlt
    · have hlt := h.aborted m hm
      show m < (s.monitors ++ [name]).length
      rw [List.length_append]
      exact Nat.lt_add_right _ hlt
    · rcases hm with hr | ⟨t, n, ht⟩ | hh
      · exact h.owned m (.inl hr) ha
      · rcases (hcalls t n m).mp ht with ⟨-, -, rfl⟩ | ht
        · exact absurd (h.aborted _ ha) (Nat.lt_irrefl _)
        · exact h.owned m (.inr (.inl ⟨t, n, ht⟩)) ha
      · exact h.owned m (.inr (.inr hh)) ha
    · obtain ⟨hlt, hnot⟩ := hm
      have hlt : m < (s.monitors ++ [name]).length := hlt
      rw [List.length_append, List.length_singleton] at hlt
      -- an old monitor, or the new one, which its own call has
      rcases Nat.lt_or_eq_of_le (Nat.le_of_lt_succ hlt) with hlt | rfl
      · rcases h.kept m ⟨hlt, hnot⟩ with hr | ⟨t, n, ht⟩ | hh
        · exact .inl hr
        · exact .inr (.inl ⟨t, n, (hcalls t n m).mpr (.inr ht)⟩)
        · exact .inr (.inr hh)
      · exact .inr (.inl ⟨task, name, (hcalls task name _).mpr (.inl ⟨rfl, rfl, rfl⟩)⟩)
  · exact h

/-- The monitor of the registration is now that of its name. -/
theorem inv_insert (task : Nat) : Inv (s.insert task) := by
  unfold State.insert
  split
  · rename_i name m hc
    split
    · exact inv_abandon h _ hc
    · rename_i hfree
      -- the name is free, so nothing is overwritten
      have hlookup : ∀ n m', (s.inner.insert name m).lookup n = some m' ↔
          (n = name ∧ m' = m) ∨ s.inner.lookup n = some m' := by
        intro n m'
        by_cases hn : n = name
        · subst hn
          rw [AList.lookup_insert, AList.lookup_eq_none.mpr hfree]
          simp [eq_comm]
        · rw [AList.lookup_insert_ne hn]
          simp [hn]
      have hcalls := calls_ended h hc
      refine {
        named := fun n m' hn => ?_
        spawned := fun t n m' ht => h.spawned t n m' ((hcalls t n m').mp ht).2
        alone := fun t n m' ht => ?_
        distinct := fun t t' n n' m' ht ht' =>
          h.distinct t t' n n' m' ((hcalls t n m').mp ht).2 ((hcalls t' n' m').mp ht').2
        handled := h.handled
        aborted := h.aborted
        owned := fun m' hm' => h.owned m' ?_
        shutDown := h.shutDown
        kept := fun m' hm' => ?_
        history := ?_ }
      · rcases (hlookup n m').mp hn with ⟨rfl, rfl⟩ | hn
        · exact h.spawned task n m' hc
        · exact h.named n m' hn
      · obtain ⟨hne, ht⟩ := (hcalls t n m').mp ht
        obtain ⟨hreg, hhandle⟩ := h.alone t n m' ht
        refine ⟨fun hr => hreg ?_, hhandle⟩
        obtain ⟨n', hn'⟩ := registered_iff.mp hr
        rcases (hlookup n' m').mp hn' with ⟨-, heq⟩ | hn'
        · exact absurd heq hne
        · exact registered_iff.mpr ⟨n', hn'⟩
      · rcases hm' with hr | ⟨t, n, ht⟩ | hh
        · obtain ⟨n', hn'⟩ := registered_iff.mp hr
          rcases (hlookup n' m').mp hn' with ⟨-, rfl⟩ | hn'
          · exact .inr (.inl ⟨task, name, hc⟩)
          · exact .inl (registered_iff.mpr ⟨n', hn'⟩)
        · exact .inr (.inl ⟨t, n, ((hcalls t n m').mp ht).2⟩)
        · exact .inr (.inr hh)
      · -- what the call had, the name has now
        by_cases heq : m' = m
        · exact .inl (registered_iff.mpr ⟨name, (hlookup name m').mpr (.inl ⟨rfl, heq⟩)⟩)
        · rcases h.kept m' hm' with hr | ⟨t, n, ht⟩ | hh
          · obtain ⟨n', hn'⟩ := registered_iff.mp hr
            exact .inl (registered_iff.mpr ⟨n', (hlookup n' m').mpr (.inr hn')⟩)
          · exact .inr (.inl ⟨t, n, (hcalls t n m').mpr ⟨heq, ht⟩⟩)
          · exact .inr (.inr hh)
      · show replay (s.history ++ [.registered name m]) = _
        rw [replay_snoc, h.history, Option.bind_some, Change.apply,
          if_pos (AList.lookup_eq_none.mpr hfree)]
        congr 1
        funext n
        by_cases hn : n = name
        · subst hn
          rw [Function.update_self]
          exact (AList.lookup_insert s.inner).symm
        · rw [Function.update_of_ne hn]
          exact (AList.lookup_insert_ne hn).symm
  · exact h

/-- Who has a monitor may change, as long as somebody still has it. -/
theorem Inv.of_owned {s' : State} (hcalls : s'.calls = s.calls) (hmonitors : s'.monitors = s.monitors)
    (haborted : s'.aborted = s.aborted) (hshut : s'.shutDown = s.shutDown)
    (howned : ∀ m, s'.Owned m ↔ s.Owned m)
    (hnamed : ∀ name m, s'.inner.lookup name = some m → s.inner.lookup name = some m)
    (hhandles : ∀ m ∈ s'.handles, m ∈ s.handles ∨ s.Registered m)
    (hhistory : replay s'.history = some fun name => s'.inner.lookup name) : Inv s' where
  named name m hn := hmonitors ▸ h.named name m (hnamed name m hn)
  spawned t n m ht := hmonitors ▸ h.spawned t n m (hcalls ▸ ht)
  alone t n m ht := by
    obtain ⟨hreg, hhandle⟩ := h.alone t n m (hcalls ▸ ht)
    refine ⟨fun hr => hreg ?_, fun hm => (hhandles m hm).elim hhandle hreg⟩
    obtain ⟨n', hn'⟩ := registered_iff.mp hr
    exact registered_iff.mpr ⟨n', hnamed n' m hn'⟩
  distinct t t' n n' m ht ht' := h.distinct t t' n n' m (hcalls ▸ ht) (hcalls ▸ ht')
  handled m hm := hmonitors ▸ h.lt_of_owned ((howned m).mp (.inr (.inr hm)))
  aborted m hm := hmonitors ▸ h.aborted m (haborted ▸ hm)
  owned m hm ha := hshut ▸ h.owned m ((howned m).mp hm) (haborted ▸ ha)
  shutDown m hm := haborted ▸ h.shutDown m (hshut ▸ hm)
  kept m hm := (howned m).mpr (h.kept m ⟨hmonitors ▸ hm.1, haborted ▸ hm.2⟩)
  history := hhistory

theorem inv_deregister (name : String) : Inv (s.deregister name) := by
  unfold State.deregister
  split
  · rename_i m hm
    have hlookup : ∀ n m', (s.inner.erase name).lookup n = some m' ↔
        n ≠ name ∧ s.inner.lookup n = some m' := by
      intro n m'
      by_cases hn : n = name
      · subst hn
        simp [AList.lookup_erase]
      · rw [AList.lookup_erase_ne hn]
        simp [hn]
    refine h.of_owned rfl rfl rfl rfl (fun m' => ?_) (fun n m' hn => ((hlookup n m').mp hn).2)
      (fun m' hm' => ?_) ?_
    · -- the registry's share goes to the handle that is returned
      constructor
      · rintro (hr | hp | hh)
        · obtain ⟨n, hn⟩ := registered_iff.mp hr
          exact .inl (registered_iff.mpr ⟨n, ((hlookup n m').mp hn).2⟩)
        · exact .inr (.inl hp)
        · rcases List.mem_cons.mp hh with rfl | hh
          · exact .inl (registered_iff.mpr ⟨name, hm⟩)
          · exact .inr (.inr hh)
      · rintro (hr | hp | hh)
        · obtain ⟨n, hn⟩ := registered_iff.mp hr
          by_cases hne : n = name
          · subst hne
            rw [hm] at hn
            exact .inr (.inr (Option.some.inj hn ▸ List.mem_cons_self))
          · exact .inl (registered_iff.mpr ⟨n, (hlookup n m').mpr ⟨hne, hn⟩⟩)
        · exact .inr (.inl hp)
        · exact .inr (.inr (List.mem_cons_of_mem _ hh))
    · rcases List.mem_cons.mp hm' with rfl | hm'
      · exact .inr (registered_iff.mpr ⟨name, hm⟩)
      · exact .inl hm'
    · show replay (s.history ++ [.deregistered name m]) = _
      rw [replay_snoc, h.history, Option.bind_some, Change.apply, if_pos hm]
      congr 1
      funext n
      by_cases hn : n = name
      · subst hn
        rw [Function.update_self]
        exact (AList.lookup_erase n s.inner).symm
      · rw [Function.update_of_ne hn]
        exact (AList.lookup_erase_ne hn).symm
  · exact h

theorem inv_get (name : String) : Inv (s.get name) := by
  unfold State.get
  split
  · rename_i m hm
    have hreg : s.Registered m := registered_iff.mpr ⟨name, hm⟩
    have hhandles : ∀ m' ∈ m :: s.handles, m' ∈ s.handles ∨ s.Registered m' :=
      List.forall_mem_cons.mpr ⟨.inr hreg, fun _ hm' => .inl hm'⟩
    refine h.of_owned rfl rfl rfl rfl (fun m' => ?_) (fun _ _ hn => hn) hhandles h.history
    constructor
    · rintro (hr | hp | hh)
      · exact .inl hr
      · exact .inr (.inl hp)
      · exact (hhandles m' hh).elim (fun hh => .inr (.inr hh)) .inl
    · rintro (hr | hp | hh)
      · exact .inl hr
      · exact .inr (.inl hp)
      · exact .inr (.inr (List.mem_cons_of_mem _ hh))
  · exact h

theorem inv_shutdown (m : MonitorId) : Inv (s.shutdown m) := by
  unfold State.shutdown
  split
  · rename_i hm
    exact {
      named := h.named
      spawned := h.spawned
      alone := h.alone
      distinct := h.distinct
      handled := h.handled
      aborted := List.forall_mem_cons.mpr ⟨h.handled m hm, h.aborted⟩
      owned := fun m' hm' ha => (List.mem_cons.mp ha).elim (fun heq => heq ▸ List.mem_cons_self)
        fun ha => List.mem_cons_of_mem _ (h.owned m' hm' ha)
      shutDown := fun m' hm' => (List.mem_cons.mp hm').elim (fun heq => heq ▸ List.mem_cons_self)
        fun hm' => List.mem_cons_of_mem _ (h.shutDown m' hm')
      kept := fun m' hm' => h.kept m' ⟨hm'.1, fun ha => hm'.2 (List.mem_cons_of_mem _ ha)⟩
      history := h.history }
  · exact h

/-- The last one that has a monitor takes it with it. -/
theorem inv_drop (m : MonitorId) : Inv (s.drop m) := by
  unfold State.drop
  split
  · rename_i hm
    have hrest : ∀ m' ∈ s.handles.erase m, m' ∈ s.handles := fun m' hm' => List.mem_of_mem_erase hm'
    have hother : ∀ m' ∈ s.handles, m' = m ∨ m' ∈ s.handles.erase m := by
      intro m' hm'
      by_cases heq : m' = m
      · exact .inl heq
      · exact .inr ((List.mem_erase_of_ne heq).mpr hm')
    dsimp only
    split
    · rename_i hshared
      refine h.of_owned rfl rfl rfl rfl (fun m' => ?_) (fun _ _ hn => hn)
        (fun m' hm' => .inl (hrest m' hm')) h.history
      constructor
      · rintro (hr | hp | hh)
        · exact .inl hr
        · exact .inr (.inl hp)
        · exact .inr (.inr (hrest m' hh))
      · rintro (hr | hp | hh)
        · exact .inl hr
        · exact .inr (.inl hp)
        · rcases hother m' hh with rfl | hh
          · exact hshared.elim (fun hh => .inr (.inr hh)) .inl
          · exact .inr (.inr hh)
    · rename_i hlast
      -- nobody else has it, and no call brings it any more
      obtain ⟨hgone, hfree⟩ := not_or.mp hlast
      have hpending : ¬ s.Pending m := fun ⟨t, n, ht⟩ => (h.alone t n m ht).2 hm
      refine {
        named := h.named
        spawned := h.spawned
        alone := fun t n m' ht => ⟨(h.alone t n m' ht).1, fun hh => (h.alone t n m' ht).2 (hrest m' hh)⟩
        distinct := h.distinct
        handled := fun m' hm' => h.handled m' (hrest m' hm')
        aborted := List.forall_mem_cons.mpr ⟨h.handled m hm, h.aborted⟩
        owned := fun m' hm' ha => ?_
        shutDown := fun m' hm' => List.mem_cons_of_mem _ (h.shutDown m' hm')
        kept := fun m' hm' => ?_
        history := h.history }
      · have hne : m' ≠ m := by
          rintro rfl
          exact hm'.elim hfree fun hor => hor.elim hpending hgone
        refine h.owned m' ?_ ((List.mem_cons.mp ha).resolve_left hne)
        exact hm'.imp id (Or.imp id (hrest m'))
      · obtain ⟨hlt, hnot⟩ := hm'
        obtain ⟨hne, hnot⟩ := not_or.mp fun hor => hnot (List.mem_cons.mpr hor)
        exact (h.kept m' ⟨hlt, hnot⟩).imp id
          (Or.imp id fun hh => (hother m' hh).resolve_left hne)
  · exact h

/-- **The invariant rule**, one case for each section of a call. -/
theorem inv_step (e : Event) : Inv (step s e) := by
  cases e with
  | register task name => exact inv_register h task name
  | connect task error => exact inv_connect h task error
  | insert task => exact inv_insert h task
  | cancel task => exact inv_cancel h task
  | deregister name => exact inv_deregister h name
  | get name => exact inv_get h name
  | shutdown m => exact inv_shutdown h m
  | drop m => exact inv_drop h m

end

theorem inv_exec (es : List Event) : Inv (exec step State.new es) :=
  exec_inv (P := Inv) (fun _ e h => inv_step h e) inv_new es

/-! ## Nobody loses a cluster -/

/-- Only a deregistration takes a monitor from a name. -/
theorem lookup_step {s : State} {name : String} {m : MonitorId} (e : Event)
    (hname : s.inner.lookup name = some m) (hne : e ≠ .deregister name) :
    (step s e).inner.lookup name = some m := by
  cases e with
  | register task n =>
    simp only [step, State.register]
    split
    · exact hname
    · split <;> exact hname
  | connect task error =>
    simp only [step, State.connect]
    split <;> exact hname
  | insert task =>
    simp only [step, State.insert]
    split
    · rename_i n m' _
      split
      · exact hname
      · rename_i hfree
        -- the name is taken, and this one was free
        have hne : name ≠ n := by
          rintro rfl
          exact hfree (AList.lookup_isSome.mp (by simp [hname]))
        exact (AList.lookup_insert_ne hne).trans hname
    · exact hname
  | cancel task =>
    simp only [step, State.cancel]
    split <;> exact hname
  | deregister n =>
    have hne : name ≠ n := fun heq => hne (heq ▸ rfl)
    simp only [step, State.deregister]
    split
    · exact (AList.lookup_erase_ne hne).trans hname
    · exact hname
  | get n =>
    simp only [step, State.get]
    split <;> exact hname
  | shutdown m' =>
    simp only [step, State.shutdown]
    split <;> exact hname
  | drop m' =>
    simp only [step, State.drop]
    split
    · split <;> exact hname
    · exact hname

theorem lookup_exec {s : State} {name : String} {m : MonitorId} (es : List Event)
    (hname : s.inner.lookup name = some m) (hes : .deregister name ∉ es) :
    (exec step s es).inner.lookup name = some m := by
  induction es generalizing s with
  | nil => exact hname
  | cons e es ih =>
    obtain ⟨hne, hes⟩ := not_or.mp fun hor => hes (List.mem_cons.mpr hor)
    exact ih (lookup_step e hname (Ne.symm hne)) hes

/-- What holds of the registry after the events `es`. -/
structure Accounted (es : List Event) : Prop where
  /-- A monitor runs exactly while somebody has it that a caller has not shut down. -/
  running : ∀ m, (exec step State.new es).Running m ↔
    (exec step State.new es).Owned m ∧ m ∉ (exec step State.new es).shutDown
  /-- The monitor of a name watches that cluster. -/
  named : ∀ name m, (exec step State.new es).inner.lookup name = some m →
    (exec step State.new es).monitors[m]? = some name
  /-- Every name was free when it was taken, and taken when it was freed. -/
  exclusive : replay (exec step State.new es).history =
    some fun name => (exec step State.new es).inner.lookup name
  /-- A name keeps its monitor until it is deregistered. -/
  kept : ∀ pre suf name m, es = pre ++ suf → .deregister name ∉ suf →
    (exec step State.new pre).inner.lookup name = some m →
    (exec step State.new es).inner.lookup name = some m

/-- **Every monitor is accounted for**, whatever the registrations, cancellations and callers do,
in any order. -/
theorem monitors_accounted (es : List Event) : Accounted es where
  running m := by
    have h := inv_exec es
    constructor
    · intro hm
      exact ⟨h.kept m hm, fun hs => hm.2 (h.shutDown m hs)⟩
    · rintro ⟨howned, hnot⟩
      exact ⟨h.lt_of_owned howned, fun ha => hnot (h.owned m howned ha)⟩
  named := (inv_exec es).named
  exclusive := (inv_exec es).history
  kept pre suf name m hes hnot hname := by
    subst hes
    rw [exec_append]
    exact lookup_exec suf hname hnot

/-- Of two registrations that race for a name one shuts down the monitor it has spawned. -/
example : let s := exec step State.new [.register 0 "prod", .register 1 "prod", .connect 0 none,
    .connect 1 none, .insert 1, .insert 0]
    s.aborted = [0] ∧ s.inner.lookup "prod" = some 1 := by
  decide

end SynchrotronCD.ClusterRegistry
