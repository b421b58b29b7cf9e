import SynchrotronCD.Git.Client
import SynchrotronCD.Lib.Runs

/-!
# The orchestrator and the trigger registry

Two maps by repository: the pollers of the orchestrator, and what a webhook has to
notify to wake a poller. A registration looks at the first, enters its poller in the
second and then in the first, and takes the second step back if somebody else was
faster; a deregistration drops the poller and then the trigger.

Each map has a lock of its own. A call is cut where it waits for one, so a step is a
locked section with what follows up to the next wait; only the rollback of a
registration waits while it holds a lock.
-/

namespace SynchrotronCD.Git.Orchestrator

open Lib

/-- What a poller waits on; every poller that is spawned has its own. -/
abbrev Notify := Nat

/-- A poller, as far as others can reach it. -/
structure Poller where
  trigger : Notify
deriving DecidableEq, Repr

structure Entry where
  repo : Repo
  poller : Poller
deriving DecidableEq, Repr

abbrev RepoTriggers := HashMap RepoId Notify

/-- Where a call is that has not returned. -/
inductive Call where
  /-- `register`, about to look whether the repository is there. -/
  | register (repo : Repo)
  /-- It was not, and the poller runs; about to enter the trigger. -/
  | spawned (repo : Repo) (poller : Poller)
  /-- About to enter the poller, unless the repository is there by now. -/
  | triggered (repo : Repo) (poller : Poller)
  /-- It is there, and the entries are locked; about to drop the trigger. -/
  | rollback (repo : Repo)
  /-- `deregister`, about to drop the poller. -/
  | deregister (id : RepoId)
  /-- About to drop the trigger. -/
  | removed (id : RepoId)
deriving DecidableEq, Repr

/-- What a call has returned. -/
inductive Returned where
  | register (result : Except GitError Unit)
  | deregister (removed : Bool)

structure State where
  entries : HashMap RepoId Entry
  triggers : RepoTriggers
  /-- The call of each task, while it has one. -/
  calls : Nat → Option Call
  /-- The task that keeps the entries locked while it waits. -/
  locked : Option Nat
  /-- How many pollers there have been. -/
  spawned : Nat
  returned : List (Nat × Returned)

def State.new : State := ⟨∅, ∅, fun _ => none, none, 0, []⟩

inductive Event where
  /-- A task that has no call makes one. -/
  | register (task : Nat) (repo : Repo)
  | deregister (task : Nat) (id : RepoId)
  /-- The call of a task goes on to where it waits next, or returns. -/
  | advance (task : Nat)
deriving DecidableEq, Repr

def alreadyRegistered (repo : Repo) : GitError :=
  .invalidState ("repo " ++ repo.id ++ " already registered")

namespace State

variable (s : State)

def enter (task : Nat) (c : Call) : State :=
  { s with calls := Function.update s.calls task (some c) }

def finish (task : Nat) (r : Returned) : State :=
  { s with calls := Function.update s.calls task none, returned := s.returned ++ [(task, r)] }

/-- One step of a call; what needs the entries waits while they are locked. -/
def advance (task : Nat) : Call → State
  | .register repo =>
    if s.locked ≠ none then s
    else if repo.id ∈ s.entries then s.finish task (.register (.error (alreadyRegistered repo)))
    else { s with spawned := s.spawned + 1 }.enter task (.spawned repo ⟨s.spawned⟩)
  | .spawned repo poller =>
    { s with triggers := s.triggers.insert repo.id poller.trigger }.enter task
      (.triggered repo poller)
  | .triggered repo poller =>
    if s.locked ≠ none then s
    else if repo.id ∈ s.entries then { s with locked := some task }.enter task (.rollback repo)
    else { s with entries := s.entries.insert repo.id ⟨repo, poller⟩ }.finish task
      (.register (.ok ()))
  | .rollback repo =>
    { s with triggers := s.triggers.erase repo.id, locked := none }.finish task
      (.register (.error (alreadyRegistered repo)))
  | .deregister id =>
    if s.locked ≠ none then s
    else if id ∈ s.entries then { s with entries := s.entries.erase id }.enter task (.removed id)
    else s.finish task (.deregister false)
  | .removed id =>
    { s with triggers := s.triggers.erase id }.finish task (.deregister true)

/-- `RepoTriggers::trigger`: whether a poller was woken. -/
def trigger (id : RepoId) : Bool := (s.triggers.lookup id).isSome

end State

def step (s : State) : Event → State
  | .register task repo => if s.calls task = none then s.enter task (.register repo) else s
  | .deregister task id => if s.calls task = none then s.enter task (.deregister id) else s
  | .advance task =>
    match s.calls task with
    | some c => s.advance task c
    | none => s

/-! ## Agreement -/

/-- The two maps are about the same repositories, and a trigger is that of the entry's poller. -/
structure Agrees (s : State) : Prop where
  ids : ∀ id, id ∈ s.entries ↔ id ∈ s.triggers
  handles : ∀ id notify, s.triggers.lookup id = some notify →
    ∃ entry, s.entries.lookup id = some entry ∧ entry.poller.trigger = notify

/-- **Orchestrator and registry agree**, whenever no call is in progress. -/
def AgreesAtRest (s : State) : Prop := (∀ task, s.calls task = none) → Agrees s

/-- Some registration has put its trigger, which is for this repository, and not its poller. -/
def Registering (s : State) (id : RepoId) : Prop :=
  ∃ task repo poller, s.calls task = some (.triggered repo poller) ∧ repo.id = id

/-- A registration that gets to enter its poller finds none there; and a deregistration that gets
to drop the trigger finds neither a poller nor a registration that has put a trigger again. -/
def Uncontested (s : State) : Event → Prop
  | .advance task => (∀ repo poller, s.calls task = some (.triggered repo poller) →
      repo.id ∉ s.entries)
    ∧ ∀ id, s.calls task = some (.removed id) → id ∉ s.entries ∧ ¬ Registering s id
  | _ => True

/-! ## The invariant -/

/-- A call that has put a trigger for a repository, or is about to drop it. -/
def Concerns (c : Option Call) (id : RepoId) : Prop :=
  c = some (.removed id) ∨ ∃ repo poller, c = some (.triggered repo poller) ∧ repo.id = id

/-- Unless a trigger is about to be dropped, it is that of a registration under way; or it is that
of the entry, and without one nobody is registering. -/
def MapsAt (s : State) (id : RepoId) : Prop :=
  (∀ task, s.calls task ≠ some (.removed id)) →
    (∃ task repo poller, s.calls task = some (.triggered repo poller) ∧ repo.id = id
      ∧ s.triggers.lookup id = some poller.trigger)
    ∨ (s.triggers.lookup id = (s.entries.lookup id).map (fun e => e.poller.trigger)
      ∧ (s.entries.lookup id ≠ none ∨ ¬ Registering s id))

structure Consistent (s : State) : Prop where
  unlocked : s.locked = none
  noRollback : ∀ task repo, s.calls task ≠ some (.rollback repo)
  maps : ∀ id, MapsAt s id

theorem consistent_new : Consistent State.new where
  unlocked := rfl
  noRollback _ _ := by simp [State.new]
  maps id _ := Or.inr ⟨rfl, Or.inr fun h => by
    obtain ⟨task, repo, poller, hc, -⟩ := h
    simp [State.new] at hc⟩

/-- A call that is about another repository, or has touched nothing, changes nothing here. -/
theorem MapsAt.congr {s s' : State} {id : RepoId} {t : Nat} {c : Option Call} (h : MapsAt s id)
    (hcalls : s'.calls = Function.update s.calls t c) (hnew : ¬ Concerns c id)
    (hold : ¬ Concerns (s.calls t) id) (hentries : s'.entries.lookup id = s.entries.lookup id)
    (htriggers : s'.triggers.lookup id = s.triggers.lookup id) : MapsAt s' id := by
  have hsame : ∀ x, Concerns (s'.calls x) id ∨ Concerns (s.calls x) id → s'.calls x = s.calls x := by
    intro x hx
    rw [hcalls] at hx ⊢
    by_cases ht : x = t
    · subst ht
      rw [Function.update_self] at hx
      exact absurd hx (not_or.mpr ⟨hnew, hold⟩)
    · rw [Function.update_of_ne ht]
  have hreg : Registering s' id → Registering s id := by
    intro hr
    obtain ⟨x, repo, poller, hx, hid⟩ := hr
    exact ⟨x, repo, poller, by rw [← hsame x (Or.inl (Or.inr ⟨repo, poller, hx, hid⟩)), hx], hid⟩
  intro hnone
  rw [hentries, htriggers]
  refine (h fun x hx => hnone x ?_).imp (fun hmine => ?_) (And.imp_right (Or.imp_right (mt hreg)))
  · rw [hsame x (Or.inr (Or.inl hx)), hx]
  · obtain ⟨x, repo, poller, hx, hid, htrig⟩ := hmine
    exact ⟨x, repo, poller, by rw [hsame x (Or.inr (Or.inr ⟨repo, poller, hx, hid⟩)), hx], hid, htrig⟩

/-- A call that goes anywhere but into a rollback. -/
theorem Consistent.noRollback_update {s : State} (h : Consistent s) {t : Nat} {c : Option Call}
    (hback : ∀ repo, c ≠ some (.rollback repo)) (x : Nat) (repo : Repo) :
    Function.update s.calls t c x ≠ some (.rollback repo) := by
  by_cases hx : x = t
  · subst hx
    rw [Function.update_self]
    exact hback repo
  · rw [Function.update_of_ne hx]
    exact h.noRollback x repo

/-- A step that leaves both maps, for a call that had touched nothing and still has not. -/
theorem Consistent.of_calls {s s' : State} (h : Consistent s) {t : Nat} {c : Option Call}
    (hcalls : s'.calls = Function.update s.calls t c) (hnew : ∀ id, ¬ Concerns c id)
    (hold : ∀ id, ¬ Concerns (s.calls t) id) (hback : ∀ repo, c ≠ some (.rollback repo))
    (hentries : s'.entries = s.entries) (htriggers : s'.triggers = s.triggers)
    (hlocked : s'.locked = s.locked) : Consistent s' := by
  refine ⟨hlocked.trans h.unlocked, fun x repo => ?_, fun id => ?_⟩
  · rw [hcalls]
    exact h.noRollback_update hback x repo
  · exact (h.maps id).congr hcalls (hnew id) (hold id) (by rw [hentries]) (by rw [htriggers])

theorem Consistent.agrees {s : State} (h : Consistent s) : AgreesAtRest s := by
  intro hrest
  have hmaps : ∀ id, s.triggers.lookup id
      = (s.entries.lookup id).map (fun e => e.poller.trigger) := by
    intro id
    rcases h.maps id (fun task => by rw [hrest task]; simp) with ⟨t, repo, poller, ht, -⟩ | ⟨heq, -⟩
    · rw [hrest t] at ht
      simp at ht
    · exact heq
  refine ⟨fun id => ?_, fun id notify hlook => ?_⟩
  · rw [← AList.lookup_isSome, ← AList.lookup_isSome, hmaps id, Option.isSome_map]
  · rw [hmaps id] at hlook
    exact Option.map_eq_some_iff.mp hlook

/-! ## Steps -/

/-- A registration puts its trigger. -/
theorem consistent_spawned {s : State} (h : Consistent s) {t : Nat} {repo : Repo} {poller : Poller}
    (ht : s.calls t = some (.spawned repo poller)) :
    Consistent (s.advance t (.spawned repo poller)) := by
  refine ⟨h.unlocked, h.noRollback_update (by simp), fun id => ?_⟩
  by_cases hid : repo.id = id
  · -- the trigger is its own
    subst hid
    exact fun _ => Or.inl ⟨t, repo, poller, Function.update_self .., rfl, AList.lookup_insert _⟩
  · refine (h.maps id).congr (t := t) (c := some (.triggered repo poller)) rfl ?_ ?_ rfl
      (AList.lookup_insert_ne (Ne.symm hid))
    · simpa [Concerns] using hid
    · simp [Concerns, ht]

/-- A registration enters its poller where there is none. -/
theorem consistent_entered {s : State} (h : Consistent s) {t : Nat} {repo : Repo} {poller : Poller}
    (ht : s.calls t = some (.triggered repo poller)) (hfree : repo.id ∉ s.entries) :
    Consistent (s.advance t (.triggered repo poller)) := by
  have hadv : s.advance t (.triggered repo poller)
      = { s with entries := s.entries.insert repo.id ⟨repo, poller⟩ }.finish t
        (.register (.ok ())) := by
    unfold State.advance
    dsimp only
    rw [if_neg (by simpa using h.unlocked), if_neg hfree]
  rw [hadv]
  refine ⟨h.unlocked, h.noRollback_update (by simp), fun id => ?_⟩
  by_cases hid : repo.id = id
  swap
  · refine (h.maps id).congr (t := t) (c := none) rfl ?_ ?_ (AList.lookup_insert_ne (Ne.symm hid)) rfl
    · simp [Concerns]
    · simpa [Concerns, ht] using hid
  subst hid
  intro hnone
  have hbefore : ∀ task, s.calls task ≠ some (.removed repo.id) := by
    intro x hx
    have hne : x ≠ t := by
      intro heq
      rw [heq, ht] at hx
      simp at hx
    exact hnone x ((Function.update_of_ne hne _ _).trans hx)
  have hregistering : Registering s repo.id := ⟨t, repo, poller, ht, rfl⟩
  have hentry : (s.entries.insert repo.id ⟨repo, poller⟩).lookup repo.id = some ⟨repo, poller⟩ :=
    AList.lookup_insert _
  rcases h.maps repo.id hbefore with ⟨x, repo', poller', hx, hid, htrig⟩ | ⟨-, hold | hold⟩
  · by_cases hxt : x = t
    · -- the last trigger put was this one
      subst hxt
      obtain ⟨rfl, rfl⟩ := Call.triggered.inj (Option.some.inj (hx.symm.trans ht))
      refine Or.inr ⟨?_, Or.inl ?_⟩
      · exact htrig.trans (congrArg (Option.map fun e : Entry => e.poller.trigger) hentry).symm
      · show (s.entries.insert repo'.id ⟨repo', poller'⟩).lookup repo'.id ≠ none
        rw [hentry]
        simp
    · exact Or.inl ⟨x, repo', poller', (Function.update_of_ne hxt _ _).trans hx, hid, htrig⟩
  · exact absurd (AList.lookup_eq_none.mpr hfree) hold
  · exact absurd hregistering hold

/-- A poller is dropped; from here on its trigger is about to be. -/
theorem consistent_deregister {s : State} (h : Consistent s) {t : Nat} {id : RepoId}
    (ht : s.calls t = some (.deregister id)) : Consistent (s.advance t (.deregister id)) := by
  unfold State.advance
  dsimp only
  rw [if_neg (by simpa using h.unlocked)]
  split
  swap
  · exact h.of_calls (t := t) (c := none) rfl (by simp [Concerns]) (by simp [Concerns, ht]) (by simp)
      rfl rfl rfl
  refine ⟨h.unlocked, h.noRollback_update (by simp), fun i => ?_⟩
  by_cases hi : i = id
  · subst hi
    exact fun hnone => absurd (Function.update_self ..) (hnone t)
  · refine (h.maps i).congr (t := t) (c := some (.removed id)) rfl ?_ ?_ (AList.lookup_erase_ne hi) rfl
    · simpa [Concerns] using Ne.symm hi
    · simp [Concerns, ht]

/-- A trigger is dropped of a repository that nobody has registered or is registering. -/
theorem consistent_removed {s : State} (h : Consistent s) {t : Nat} {id : RepoId}
    (ht : s.calls t = some (.removed id)) (hfree : id ∉ s.entries) (hnobody : ¬ Registering s id) :
    Consistent (s.advance t (.removed id)) := by
  refine ⟨h.unlocked, h.noRollback_update (by simp), fun i => ?_⟩
  by_cases hi : i = id
  swap
  · refine (h.maps i).congr (t := t) (c := none) rfl ?_ ?_ rfl (AList.lookup_erase_ne hi)
    · simp [Concerns]
    · simpa [Concerns, ht] using Ne.symm hi
  subst hi
  intro _
  have hentry : s.entries.lookup i = none := AList.lookup_eq_none.mpr hfree
  refine Or.inr ⟨?_, Or.inr fun hr => hnobody ?_⟩
  · show (s.triggers.erase i).lookup i = (s.entries.lookup i).map _
    rw [AList.lookup_erase, hentry]
    rfl
  · obtain ⟨x, repo, poller, hx, hid⟩ := hr
    have hne : x ≠ t := by
      intro heq
      subst heq
      exact absurd ((Function.update_self (f := s.calls) ..).symm.trans hx) (by simp)
    exact ⟨x, repo, poller, (Function.update_of_ne hne _ _).symm.trans hx, hid⟩

theorem consistent_step {s : State} {e : Event} (h : Consistent s) (hfree : Uncontested s e) :
    Consistent (step s e) := by
  -- a call that enters concerns no repository yet
  have hnew : ∀ t c, s.calls t = none → (∀ id, ¬ Concerns (some c) id) →
      (∀ repo, some c ≠ some (.rollback repo)) → Consistent (s.enter t c) := by
    intro t c hcall hc hback
    exact h.of_calls (t := t) rfl hc (by simp [Concerns, hcall]) hback rfl rfl rfl
  cases e with
  | register task repo =>
      unfold step
      dsimp only
      split
      · rename_i hcall
        exact hnew _ _ hcall (by simp [Concerns]) (by simp)
      · exact h
  | deregister task id =>
      unfold step
      dsimp only
      split
      · rename_i hcall
        exact hnew _ _ hcall (by simp [Concerns]) (by simp)
      · exact h
  | advance task =>
  obtain ⟨hentered, hremoved⟩ := hfree
  unfold step
  dsimp only
  cases ht : s.calls task with
  | none => exact h
  | some c =>
  cases c with
  | register repo =>
      dsimp only
      unfold State.advance
      dsimp only
      rw [if_neg (by simpa using h.unlocked)]
      split
      · exact h.of_calls (t := task) rfl (by simp [Concerns]) (by simp [Concerns, ht]) (by simp)
          rfl rfl rfl
      · exact h.of_calls (t := task) rfl (by simp [Concerns]) (by simp [Concerns, ht]) (by simp)
          rfl rfl rfl
  | spawned repo poller => exact consistent_spawned h ht
  | triggered repo poller => exact consistent_entered h ht (hentered repo poller ht)
  | rollback repo => exact absurd ht (h.noRollback task repo)
  | deregister id => exact consistent_deregister h ht
  | removed id => exact consistent_removed h ht (hremoved id ht).1 (hremoved id ht).2

/-! ## Runs -/

/--
**Without a race, the orchestrator and the registry agree.**

For any interleaving of registrations and deregistrations of any repositories: if every
registration finds no poller of its repository when it gets to enter its own, and every
deregistration finds its repository still free, and nobody's trigger there, when it gets to drop
the trigger, then whenever no call is in progress both maps are about the same repositories and
every trigger is that of the entry's poller.
-/
theorem agrees_at_rest (es : List Event) (hfree : Each step Uncontested State.new es) :
    Always step AgreesAtRest State.new es := fun _ hp =>
  (exec_inv_of_each (fun _ _ h hf => consistent_step h hf) consistent_new
    (hfree.of_prefix hp)).agrees

/-! ## One registration, and two at once -/

/-- Where the call is decides what is asked of its next step. -/
theorem uncontested_advance {s : State} {task : Nat} {c : Call} (hc : s.calls task = some c)
    (h : match c with
      | .triggered repo _ => repo.id ∉ s.entries
      | .removed id => id ∉ s.entries ∧ ¬ Registering s id
      | _ => True) : Uncontested s (.advance task) := by
  refine ⟨fun repo poller ht => ?_, fun id ht => ?_⟩
  · obtain rfl := Option.some.inj (hc.symm.trans ht)
    exact h
  · obtain rfl := Option.some.inj (hc.symm.trans ht)
    exact h

/-- The task whose step it is. -/
def Event.task : Event → Nat
  | .register task _ | .deregister task _ | .advance task => task

/-- A step leaves the calls of the other tasks where they are. -/
theorem calls_step (s : State) (e : Event) {x : Nat} (hx : x ≠ e.task) :
    (step s e).calls x = s.calls x := by
  have hupdate : ∀ c, Function.update s.calls e.task c x = s.calls x := fun c =>
    Function.update_of_ne hx c s.calls
  cases e with
  | register task repo =>
      unfold step
      dsimp only
      split
      · exact hupdate _
      · rfl
  | deregister task id =>
      unfold step
      dsimp only
      split
      · exact hupdate _
      · rfl
  | advance task =>
      unfold step
      dsimp only
      split
      swap
      · rfl
      unfold State.advance
      split
      · split
        · rfl
        · split <;> exact hupdate _
      · exact hupdate _
      · split
        · rfl
        · split <;> exact hupdate _
      · exact hupdate _
      · split
        · rfl
        · split <;> exact hupdate _
      · exact hupdate _

/-- A repository under some id. -/
def someRepo : Repo := ⟨"0a8b", "https://example.com/shop.git", "main"⟩

/-- One registration, from start to end. -/
def registered : List Event :=
  [.register 0 someRepo, .advance 0, .advance 0, .advance 0]

theorem registered_agrees : Always step AgreesAtRest State.new registered :=
  agrees_at_rest registered (by
    unfold registered
    rw [each_cons, each_cons, each_cons, each_cons]
    exact ⟨trivial, uncontested_advance (c := .register someRepo) rfl trivial,
      uncontested_advance (c := .spawned someRepo ⟨0⟩) rfl trivial,
      uncontested_advance (c := .triggered someRepo ⟨0⟩) rfl (by decide), each_nil⟩)

/-- Two registrations that both find nothing. -/
def racing : List Event :=
  [.register 0 someRepo, .register 1 someRepo, .advance 0, .advance 1, .advance 0, .advance 1,
    .advance 0, .advance 1, .advance 1]

/-- Only the first two tasks ever have a call. -/
theorem racing_rest (task : Nat) : (exec step State.new racing).calls task = none := by
  by_cases h0 : task = 0
  · subst h0
    rfl
  by_cases h1 : task = 1
  · subst h1
    rfl
  · refine exec_inv_of_mem (P := fun s : State => s.calls task = none)
      (A := fun e => e.task = 0 ∨ e.task = 1) (fun s e hs he => ?_) rfl (by decide)
    exact (calls_step s e (by omega)).trans hs

/-- **The loser takes the winner's trigger along.** -/
theorem racing_disagrees : ¬ ∀ es, Always step AgreesAtRest State.new es := by
  intro h
  have hagrees := (h racing).final racing_rest
  have hmem := (hagrees.ids someRepo.id).mp (by decide)
  exact absurd hmem (by decide)

end SynchrotronCD.Git.Orchestrator
