import Mathlib.Data.List.Flatten
import SynchrotronCD.Reconcile.PlanSpec
import SynchrotronCD.Reconcile.ReconcileProof
import SynchrotronCD.Reconcile.WaveGroups

/-!
# Passes converge

What the passes are for: the cluster is to hold what is desired. Here a cluster is
the object reported behind each reference, a pass reads it as it is, and every call to
the applier does to it what the API server makes of the call, if it is accepted. A
refused call may have been carried out all the same, as when the answer is lost.

What the server makes of a call is reported behind the reference that was called for.
Nothing else is assumed of it: it may add fields, keep those of others and put the keys in
another order, and an object that is deleted may be there for a while. So an object is as
it is wanted if it is what the server made of the desired manifest (`Wanted`); a pass
leaves it alone only if it shows the desired body (`Matches`).

One pass moves a reference only to where it is wanted (`pass_moves`), so what is
right stays right however many passes fail. A pass that succeeds leaves nothing else
(`pass_settles`). `passes_converge` puts these together over a run of passes.
-/

namespace SynchrotronCD.Convergence

open Lib

/-- The object reported behind each reference, if there is one. -/
abbrev Cluster := ResourceRef → Option Manifest

/-- A list of live manifests that tells what is in the cluster. -/
def Shows (live : List Manifest) (c : Cluster) : Prop := ∀ r, lastOf live r = c r

/-- What the API server makes of what is there when it carries out a call. -/
structure Server where
  /-- What was there, what is sent, and what is reported then. -/
  stores : Option Manifest → Manifest → Manifest → Prop
  /-- What was there, and what is reported once it is deleted: nothing, or what is not gone yet. -/
  removes : Option Manifest → Option Manifest → Prop

variable (srv : Server)

/-- What may become of the reference of an entry. -/
def Server.Does (e : PlanEntry) (m before after : Option Manifest) : Prop :=
  match e.action, m with
  | .apply, some m => ∃ l, after = some l ∧ srv.stores before m l
  | .delete, _ => srv.removes before after
  | _, _ => after = before

/-- What a call may do to the cluster. -/
inductive Effect (c : Cluster) : Call → Cluster → Prop where
  /-- The change was made, whatever was answered. -/
  | made {e : PlanEntry} {m after : Option Manifest} {res : Except ApplyError Unit} :
      srv.Does e m (c e.resource) after →
      Effect c (.apply e m res) (Function.update c e.resource after)
  | refused {e : PlanEntry} {m : Option Manifest} {source : ApplyError} :
      Effect c (.apply e m (.error source)) c
  | polled {rs : List ResourceRef} {st : HealthStatusCode} : Effect c (.health rs st) c

/-- What a trace of calls may do to the cluster. -/
inductive Effects : Cluster → Trace → Cluster → Prop where
  | nil {c : Cluster} : Effects c [] c
  | cons {c d e : Cluster} {call : Call} {t : Trace} :
      Effect srv c call d → Effects d t e → Effects c (call :: t) e

/-- A reference shows what is desired: the desired body is there, or nothing is desired and nothing
is there. -/
def Matches (desired : List Manifest) (c : Cluster) (r : ResourceRef) : Prop :=
  match lastOf desired r with
  | some d => ∃ l, c r = some l ∧ manifestBodiesEqual d l = true
  | none => c r = none

/-- A reference is as it is wanted: it shows what is desired, or what the server has made of it. -/
def Wanted (desired : List Manifest) (c : Cluster) (r : ResourceRef) : Prop :=
  Matches desired c r ∨
    match lastOf desired r with
    | some d => ∃ before l, c r = some l ∧ srv.stores before d l
    | none => ∃ before, srv.removes before (c r)

/-! ## The effects of a trace -/

variable {srv} {c c' : Cluster} {t : Trace} {desired live : List Manifest}

/-- The references the applier was called for. -/
def touchedRefs (t : Trace) : List ResourceRef := (appliedEntries t).map PlanEntry.resource

@[simp] theorem touchedRefs_apply (e : PlanEntry) (m : Option Manifest)
    (r : Except ApplyError Unit) (t : Trace) :
    touchedRefs (.apply e m r :: t) = e.resource :: touchedRefs t := rfl

@[simp] theorem touchedRefs_health (rs : List ResourceRef) (st : HealthStatusCode) (t : Trace) :
    touchedRefs (.health rs st :: t) = touchedRefs t := rfl

theorem mem_touchedRefs {e : PlanEntry} {m : Option Manifest} {res : Except ApplyError Unit}
    (h : .apply e m res ∈ t) : e.resource ∈ touchedRefs t :=
  List.mem_map_of_mem (List.mem_filterMap.mpr ⟨_, h, rfl⟩)

theorem Effects.of_not_touched (h : Effects srv c t c') {r : ResourceRef} (hr : r ∉ touchedRefs t) :
    c' r = c r := by
  induction h with
  | nil => rfl
  | cons he _ ih =>
      cases he with
      | polled => exact ih hr
      | refused => exact ih fun hm => hr (List.mem_cons_of_mem _ hm)
      | made =>
          rw [touchedRefs_apply, List.mem_cons, not_or] at hr
          rw [ih hr.2, Function.update_of_ne hr.1]

/-- A call whose reference comes up once decides it: an accepted one is carried out, a refused
one may have been. -/
theorem Effects.of_call (h : Effects srv c t c') (hnd : (touchedRefs t).Nodup) {e : PlanEntry}
    {m : Option Manifest} {res : Except ApplyError Unit} (hmem : .apply e m res ∈ t) :
    srv.Does e m (c e.resource) (c' e.resource)
      ∨ (c' e.resource = c e.resource ∧ res ≠ .ok ()) := by
  induction h with
  | nil => exact absurd hmem List.not_mem_nil
  | cons he hrest ih =>
      cases he with
      | polled => exact ih hnd ((List.mem_cons.mp hmem).resolve_left Call.noConfusion)
      | refused =>
          obtain ⟨hnot, hnd⟩ := List.nodup_cons.mp hnd
          rcases List.mem_cons.mp hmem with heq | hmem
          · obtain ⟨rfl, rfl, rfl⟩ := Call.apply.inj heq
            exact Or.inr ⟨hrest.of_not_touched hnot, by simp⟩
          · exact ih hnd hmem
      | @made x _ _ _ hdoes =>
          obtain ⟨hnot, hnd⟩ := List.nodup_cons.mp hnd
          rcases List.mem_cons.mp hmem with heq | hmem
          · obtain ⟨rfl, rfl, rfl⟩ := Call.apply.inj heq
            rw [hrest.of_not_touched hnot, Function.update_self]
            exact Or.inl hdoes
          · -- the call is a later one, and so for another reference
            have hlater := mem_touchedRefs hmem
            have hne : e.resource ≠ x.resource := fun heq => hnot (heq ▸ hlater)
            have hcall := ih hnd hmem
            rw [Function.update_of_ne hne] at hcall
            exact hcall

/-! ## What is wanted -/

theorem matches_congr {r : ResourceRef} (h : c' r = c r) :
    Matches desired c' r ↔ Matches desired c r := by
  unfold Matches
  rw [h]

theorem wanted_congr {r : ResourceRef} (h : c' r = c r) :
    Wanted srv desired c' r ↔ Wanted srv desired c r := by
  unfold Wanted
  rw [matches_congr h, h]

/-- A reference shows what is desired exactly if the planner would leave it alone. -/
theorem matches_iff (h : Shows live c) (r : ResourceRef) :
    Matches desired c r ↔
      intendedAction desired live r = none ∨ intendedAction desired live r = some .noOp := by
  rw [Matches, intendedAction, h r]
  cases lastOf desired r with
  | none => cases c r <;> simp
  | some d =>
      cases c r with
      | none => simp
      | some l => by_cases heq : manifestBodiesEqual d l = true <;> simp [heq]

/-- What is applied is what is desired. -/
theorem desired_of_apply {e : PlanEntry} (he : e ∈ (plan desired live).entries)
    (happly : e.action = .apply) : ∃ d, lastOf desired e.resource = some d := by
  have hint := mem_plan_iff_intended.mp he
  rw [happly, intendedAction] at hint
  cases hd : lastOf desired e.resource with
  | none =>
      rw [hd] at hint
      cases hl : lastOf live e.resource with
      | none => rw [hl] at hint; simp at hint
      | some l => rw [hl] at hint; simp at hint
  | some d => exact ⟨d, rfl⟩

/-- What is deleted is not desired, and is there. -/
theorem not_desired_of_delete {e : PlanEntry} (he : e ∈ (plan desired live).entries)
    (hdelete : e.action = .delete) :
    lastOf desired e.resource = none ∧ ∃ l, lastOf live e.resource = some l := by
  have hint := mem_plan_iff_intended.mp he
  rw [hdelete, intendedAction] at hint
  cases hd : lastOf desired e.resource with
  | none =>
      refine ⟨rfl, ?_⟩
      cases hl : lastOf live e.resource with
      | none => rw [hd, hl] at hint; simp at hint
      | some l => exact ⟨l, rfl⟩
  | some d =>
      rw [hd] at hint
      cases hl : lastOf live e.resource with
      | none => rw [hl] at hint; simp at hint
      | some l =>
          rw [hl] at hint
          dsimp only at hint
          split at hint <;> simp at hint

/-- What the server makes of a change of the plan is what is wanted. -/
theorem wanted_of_does {e : PlanEntry} {live' : List Manifest}
    (he : e ∈ (plan desired live).entries) (hne : e.action ≠ .noOp)
    (hdoes : srv.Does e (manifestFor desired live' e) (c e.resource) (c' e.resource)) :
    Wanted srv desired c' e.resource := by
  rw [manifestFor_eq] at hdoes
  unfold Wanted
  cases ha : e.action with
  | noOp => exact absurd ha hne
  | apply =>
      obtain ⟨d, hd⟩ := desired_of_apply he ha
      unfold Server.Does at hdoes
      rw [ha] at hdoes
      simp only [hd] at hdoes
      obtain ⟨l, hl, hstores⟩ := hdoes
      rw [hd]
      exact Or.inr ⟨_, l, hl, hstores⟩
  | delete =>
      obtain ⟨hd, -⟩ := not_desired_of_delete he ha
      unfold Server.Does at hdoes
      rw [ha] at hdoes
      rw [hd]
      exact Or.inr ⟨_, hdoes⟩

/-! ## One pass -/

/-- The references of the changes of a plan come up once each. -/
theorem touchedRefs_nodup (ex : ReconcileExecutor) (desired live desired' live' : List Manifest) :
    (touchedRefs (executeWaves ex (groupIntoWaves (plan desired live) desired' live')
      desired' live').1).Nodup := by
  have hall : ((groupIntoWaves (plan desired live) desired' live').waves.flatMap
      WaveGroup.entries).map PlanEntry.resource |>.Nodup :=
    ((groupIntoWaves_perm _ desired' live').map _).nodup_iff.mpr (plan_resources_nodup desired live)
  have hchanged : (changedOf (groupIntoWaves (plan desired live) desired' live').waves).Sublist
      ((groupIntoWaves (plan desired live) desired' live').waves.flatMap WaveGroup.entries) :=
    List.Sublist.flatMap_right _ fun _ _ => List.filter_sublist
  exact hall.sublist (((appliedEntries_initial _ _ _).sublist.trans hchanged).map _)

/-- A pass that is alone with the cluster: its reads see what is desired and what is there. -/
structure Undisturbed (reads : PassReads) (desired : List Manifest) (c : Cluster) : Prop where
  plans : reads.desired = .ok desired
  carriesOut : reads.desiredAgain = .ok desired
  sees : ∃ live, reads.live = .ok live ∧ Shows live c
  seesAgain : ∃ live, reads.liveAgain = .ok live ∧ Shows live c

/-- Waves without a change are gone through without a call. -/
theorem executeFrom_unchanged (ex : ReconcileExecutor) (bodyOf : PlanEntry → Option Manifest)
    (done : List Int) (t : Trace) {gs : List WaveGroup} (h : ∀ g ∈ gs, g.changed = []) :
    executeFrom ex bodyOf done t gs = (t, .ok ⟨done ++ gs.map WaveGroup.wave⟩) := by
  induction gs generalizing done with
  | nil => simp [executeFrom]
  | cons g gs ih =>
      obtain ⟨hg, hgs⟩ := List.forall_mem_cons.mp h
      have happlied : applyAll ex g.wave bodyOf t g.changed = (t, .ok ()) := by
        rw [hg]
        rfl
      have hwave : executeWave ex bodyOf t g = (t, .ok ()) := by
        rw [executeWave_of_accepted happlied, hg]
        rfl
      rw [executeFrom, hwave]
      dsimp only
      rw [ih _ hgs, List.append_assoc]
      rfl

section

variable {rec : Reconciler} {app : AppName} {cluster : ClusterName} {trigger : String}
  {reads : PassReads} {ex : ReconcileExecutor}

variable (app trigger) in
/-- Such a pass carries out the plan for what it saw. -/
theorem Undisturbed.pass (h : Undisturbed reads desired c)
    (hx : rec.executorFor cluster = some ex) :
    ∃ live, Shows live c ∧ rec.reconcileAndApplyApp app cluster trigger reads
      = publishApplyResult app cluster (plan desired live) trigger reads.revision
        (executeWaves ex (groupIntoWaves (plan desired live) desired live) desired live).1
        (executeWaves ex (groupIntoWaves (plan desired live) desired live) desired live).2 := by
  obtain ⟨live, hlive, hshows⟩ := h.sees
  obtain ⟨live', hlive', hshows'⟩ := h.seesAgain
  have hsame : plan desired live = plan desired live' :=
    plan_congr rfl (funext fun r => (hshows r).trans (hshows' r).symm)
  refine ⟨live', hshows', ?_⟩
  rw [Reconciler.reconcileAndApplyApp,
    planOnly_ok.mpr ⟨desired, live, h.plans, hlive, rfl⟩, hx, h.carriesOut, hlive', hsame]

/-- A pass that had nothing to do. -/
def Quiet (p : Pass) : Prop :=
  p.calls = [] ∧ p.published.success = true ∧ p.published.resourcesSynced = 0

/-- What a pass over a cluster calls the applier for. -/
structure CallsFor (desired : List Manifest) (c : Cluster) (p : Pass) : Prop where
  /-- What shows what is desired is left alone. -/
  differ : ∀ e m res, .apply e m res ∈ p.calls → ¬ Matches desired c e.resource
  sends : ∀ e m res, .apply e m res ∈ p.calls →
    (e.action = .apply ∧ m.isSome = true ∧ m = lastOf desired e.resource) ∨
    (e.action = .delete ∧ lastOf desired e.resource = none)
  once : (touchedRefs p.calls).Nodup
  all : p.published.success = true → ∀ r, ¬ Matches desired c r → r ∈ touchedRefs p.calls
  quiet : (∀ r, Matches desired c r) → Quiet p

section

variable (h : Undisturbed reads desired c) (hx : rec.executorFor cluster = some ex)
include h hx

variable (app trigger) in
/-- **A pass that finds everything as desired has nothing to do.** -/
theorem pass_quiet (hc : ∀ r, Matches desired c r) :
    Quiet (rec.reconcileAndApplyApp app cluster trigger reads) := by
  obtain ⟨live, hshows, hpass⟩ := h.pass app trigger hx
  have hnoop : ∀ e ∈ (plan desired live).entries, e.action = .noOp := by
    intro e he
    have hint := mem_plan_iff_intended.mp he
    rcases (matches_iff hshows _).mp (hc e.resource) with hnone | hsome
    · rw [hnone] at hint; simp at hint
    · rw [hsome] at hint
      exact (Option.some.inj hint).symm
  have hgroups : ∀ g ∈ (groupIntoWaves (plan desired live) desired live).waves, g.changed = [] := by
    intro g hg
    refine List.filter_eq_nil_iff.mpr fun e he => ?_
    simpa using hnoop e (mem_groupIntoWaves.mp ⟨g, hg, he⟩)
  have hrun := executeFrom_unchanged ex (manifestFor desired live) [] [] hgroups
  have hchanges : (plan desired live).changes = 0 := by
    refine List.length_eq_zero_iff.mpr (List.filter_eq_nil_iff.mpr fun e he => ?_)
    simp [hnoop e he]
  rw [hpass, executeWaves, hrun, publishApplyResult, hchanges]
  exact ⟨rfl, rfl, rfl⟩

variable (app trigger) in
/-- **A pass calls the applier for what differs,** and if it succeeds for all of it. -/
theorem pass_callsFor : CallsFor desired c (rec.reconcileAndApplyApp app cluster trigger reads) := by
  obtain ⟨live, hshows, hpass⟩ := h.pass app trigger hx
  have hcalls : ∀ e m res,
      .apply e m res ∈ (rec.reconcileAndApplyApp app cluster trigger reads).calls →
      e ∈ (plan desired live).entries ∧ e.action ≠ .noOp ∧ m = manifestFor desired live e := by
    intro e m res hcall
    rw [hpass] at hcall
    exact executeWaves_calls hcall
  refine ⟨fun e m res hcall hmatches => ?_, fun e m res hcall => ?_, ?_, fun hok r hr => ?_,
    pass_quiet app trigger h hx⟩
  · obtain ⟨hplan, hne, -⟩ := hcalls e m res hcall
    have hint := mem_plan_iff_intended.mp hplan
    rcases (matches_iff hshows _).mp hmatches with hnone | hnoop
    · rw [hnone] at hint; simp at hint
    · rw [hnoop] at hint
      exact hne (Option.some.inj hint).symm
  · obtain ⟨hplan, hne, rfl⟩ := hcalls e m res hcall
    rw [manifestFor_eq]
    cases ha : e.action with
    | noOp => exact absurd ha hne
    | apply =>
        obtain ⟨d, hd⟩ := desired_of_apply hplan ha
        exact Or.inl ⟨rfl, by simp [hd], rfl⟩
    | delete => exact Or.inr ⟨rfl, (not_desired_of_delete hplan ha).1⟩
  · rw [hpass]
    exact touchedRefs_nodup ex desired live desired live
  · cases hres : (executeWaves ex (groupIntoWaves (plan desired live) desired live) desired live).2 with
    | error e => rw [hpass, hres] at hok; simp [publishApplyResult] at hok
    | ok report =>
        -- a change is planned for it, and it was accepted
        rw [matches_iff hshows, not_or] at hr
        obtain ⟨a, ha⟩ := Option.ne_none_iff_exists'.mp hr.1
        have hne : a ≠ .noOp := fun heq => hr.2 (heq ▸ ha)
        have hplan : ⟨r, a⟩ ∈ (plan desired live).entries := mem_plan_iff_intended.mpr ha
        rw [hpass]
        exact mem_touchedRefs (executeWaves_ok hres hplan hne)

end

variable (h : Undisturbed reads desired c) (hx : rec.executorFor cluster = some ex)
  (heff : Effects srv c (rec.reconcileAndApplyApp app cluster trigger reads).calls c')
include h hx heff

/-- **A pass moves a reference only to where it is wanted.** -/
theorem pass_moves (r : ResourceRef) : c' r = c r ∨ Wanted srv desired c' r := by
  obtain ⟨live, hshows, hpass⟩ := h.pass app trigger hx
  rw [hpass] at heff
  by_cases hr : r ∈ touchedRefs (executeWaves ex (groupIntoWaves (plan desired live) desired live)
    desired live).1
  · obtain ⟨e, he, rfl⟩ := List.mem_map.mp hr
    obtain ⟨call, hcall, hentry⟩ := List.mem_filterMap.mp he
    cases call with
    | health rs st => simp at hentry
    | apply x m res =>
        obtain rfl : x = e := Option.some.inj hentry
        obtain ⟨hplan, hne, rfl⟩ := executeWaves_calls hcall
        rcases heff.of_call (touchedRefs_nodup ex desired live desired live) hcall with hdoes | hkept
        · exact Or.inr (wanted_of_does hplan hne hdoes)
        · exact Or.inl hkept.1
  · exact Or.inl (heff.of_not_touched hr)

/-- **What is as wanted stays so.** -/
theorem pass_keeps {r : ResourceRef} (hr : Wanted srv desired c r) : Wanted srv desired c' r := by
  rcases pass_moves h hx heff r with hkept | hwanted
  · exact (wanted_congr hkept).mpr hr
  · exact hwanted

/-- **A pass that succeeds leaves everything as it is wanted.** -/
theorem pass_settles
    (hok : (rec.reconcileAndApplyApp app cluster trigger reads).published.success = true)
    (r : ResourceRef) : Wanted srv desired c' r := by
  by_cases hr : Matches desired c r
  · exact pass_keeps h hx heff (Or.inl hr)
  · obtain ⟨live, hshows, hpass⟩ := h.pass app trigger hx
    cases hres : (executeWaves ex (groupIntoWaves (plan desired live) desired live) desired live).2 with
    | error e => rw [hpass, hres] at hok; simp [publishApplyResult] at hok
    | ok report =>
        rw [matches_iff hshows, not_or] at hr
        obtain ⟨a, ha⟩ := Option.ne_none_iff_exists'.mp hr.1
        have hne : a ≠ .noOp := fun heq => hr.2 (heq ▸ ha)
        have hplan : ⟨r, a⟩ ∈ (plan desired live).entries := mem_plan_iff_intended.mpr ha
        have hcall := executeWaves_ok hres hplan hne
        rw [hpass] at heff
        rcases heff.of_call (touchedRefs_nodup ex desired live desired live) hcall with hdoes | hkept
        · exact wanted_of_does hplan hne hdoes
        · exact absurd rfl hkept.2

end

/-! ## Runs of passes -/

/-- Passes for one desired state, one after the other, each alone with the cluster. Each may be
made with an executor of its own. -/
inductive Passes (srv : Server) (app : AppName) (cluster : ClusterName) (desired : List Manifest) :
    Cluster → List Pass → Cluster → Prop where
  | nil {c : Cluster} : Passes srv app cluster desired c [] c
  | cons {c d e : Cluster} {rec : Reconciler} {ex : ReconcileExecutor} {trigger : String}
      {reads : PassReads} {ps : List Pass} :
      Undisturbed reads desired c → rec.executorFor cluster = some ex →
      Effects srv c (rec.reconcileAndApplyApp app cluster trigger reads).calls d →
      Passes srv app cluster desired d ps e →
      Passes srv app cluster desired c (rec.reconcileAndApplyApp app cluster trigger reads :: ps) e

variable {app : AppName} {cluster : ClusterName} {ps : List Pass}

/-- A run of passes goes through a cluster at each point. -/
theorem Passes.split {before after : List Pass}
    (h : Passes srv app cluster desired c (before ++ after) c') :
    ∃ d, Passes srv app cluster desired c before d ∧ Passes srv app cluster desired d after c' := by
  induction before generalizing c with
  | nil => exact ⟨c, .nil, h⟩
  | cons p before ih =>
      rw [List.cons_append] at h
      cases h with
      | cons hreads hx heff hrest =>
          obtain ⟨d, hbefore, hafter⟩ := ih hrest
          exact ⟨d, .cons hreads hx heff hbefore, hafter⟩

theorem Passes.moves (h : Passes srv app cluster desired c ps c') (r : ResourceRef) :
    (c' r = c r ∨ Wanted srv desired c' r) ∧ (Wanted srv desired c r → Wanted srv desired c' r) := by
  induction h with
  | nil => exact ⟨Or.inl rfl, id⟩
  | @cons c d e rec ex trigger reads ps hreads hx heff _ ih =>
      refine ⟨?_, fun hr => ih.2 (pass_keeps hreads hx heff hr)⟩
      rcases pass_moves hreads hx heff r with hkept | hwanted
      · rw [← hkept]
        exact ih.1
      · exact Or.inr (ih.2 hwanted)

/-- Once a pass has succeeded everything is as it is wanted. -/
theorem Passes.settles (h : Passes srv app cluster desired c ps c')
    (hok : ∃ p ∈ ps, p.published.success = true) (r : ResourceRef) : Wanted srv desired c' r := by
  obtain ⟨p, hp, hok⟩ := hok
  obtain ⟨before, after, rfl⟩ := List.append_of_mem hp
  obtain ⟨d, -, hrest⟩ := h.split
  cases hrest with
  | cons hreads hx heff hafter => exact (hafter.moves r).2 (pass_settles hreads hx heff hok r)

/-- What a run of passes does to a cluster. -/
structure Converges (srv : Server) (app : AppName) (cluster : ClusterName) (desired : List Manifest)
    (c : Cluster) (ps : List Pass) (c' : Cluster) : Prop where
  /-- A reference is left where it was or ends up as it is wanted. -/
  moves : ∀ r, c' r = c r ∨ Wanted srv desired c' r
  /-- What is as wanted stays so. -/
  keeps : ∀ r, Wanted srv desired c r → Wanted srv desired c' r
  settles : (∃ p ∈ ps, p.published.success = true) → ∀ r, Wanted srv desired c' r
  /-- Each pass is made over what those before it have left. -/
  passes : ∀ before p after, ps = before ++ p :: after →
    ∃ d, Passes srv app cluster desired c before d ∧ CallsFor desired d p ∧
      ((∃ q ∈ before, q.published.success = true) → ∀ r, Wanted srv desired d r)

/--
**Passes converge.**

Over any run of passes for one desired state, whatever fails in them and whatever the
server makes of what it is sent: a reference is left where it was or ends up as it is
wanted, and stays so. From the first pass that succeeds on, everything is as it is wanted,
and later passes are called for nothing but what shows something else than is desired.
-/
theorem passes_converge {srv : Server} {desired : List Manifest} {app : AppName}
    {cluster : ClusterName} {c c' : Cluster} {ps : List Pass}
    (h : Passes srv app cluster desired c ps c') : Converges srv app cluster desired c ps c' where
  moves r := (h.moves r).1
  keeps r := (h.moves r).2
  settles := h.settles
  passes before p after hps := by
    subst hps
    obtain ⟨d, hbefore, hrest⟩ := h.split
    refine ⟨d, hbefore, ?_, hbefore.settles⟩
    cases hrest with
    | cons hreads hx _ _ => exact pass_callsFor app _ hreads hx

/-- What is reported has a resource version that the text has not. -/
def stamp (m : Manifest) : Manifest :=
  let v : Value := match m.body.value with
    | .mapping kvs => .mapping (kvs.map fun kv => match kv with
      | (.string "metadata", .mapping md) =>
        (.string "metadata", .mapping (md ++ [(.string "resourceVersion", .string "1")]))
      | _ => kv)
    | v => v
  { m with body := (@ManifestBody.fromValue .ofBits v).getD m.body }

/-- A server that stamps what it stores, and removes at once. -/
def stampingServer : Server := ⟨fun _ m l => l = stamp m, fun _ after => after = none⟩

/-- Whatever is called for, something comes of it. -/
theorem stamping_effects (c : Cluster) (t : Trace) : ∃ c', Effects stampingServer c t c' := by
  induction t generalizing c with
  | nil => exact ⟨c, .nil⟩
  | cons call t ih =>
      cases call with
      | apply e m res =>
          have hdoes : ∃ after, stampingServer.Does e m (c e.resource) after := by
            unfold Server.Does stampingServer
            split
            · exact ⟨_, _, rfl, rfl⟩
            · exact ⟨_, rfl⟩
            · exact ⟨_, rfl⟩
          obtain ⟨after, hdoes⟩ := hdoes
          obtain ⟨c', h⟩ := ih (Function.update c e.resource after)
          exact ⟨c', .cons (.made hdoes) h⟩
      | health rs st =>
          obtain ⟨c', h⟩ := ih c
          exact ⟨c', .cons .polled h⟩

/-- A config map `settings` is to go from `v0` to `v1`. -/
def settingsDesired : List Manifest := [configMap "settings" "v1"]

def settingsReads : PassReads :=
  ⟨.ok settingsDesired, .ok [stamp (configMap "settings" "v0")], none, .ok settingsDesired,
    .ok [stamp (configMap "settings" "v0")]⟩

/-- The pass that does it, on a cluster that gives no trouble. -/
def settingsPass : Pass :=
  (Reconciler.new.withExecutor compliantExecutor).reconcileAndApplyApp "shop" "prod" "manual"
    settingsReads

theorem settingsReads_undisturbed :
    Undisturbed settingsReads settingsDesired (lastOf [stamp (configMap "settings" "v0")]) :=
  ⟨rfl, rfl, ⟨_, rfl, fun _ => rfl⟩, ⟨_, rfl, fun _ => rfl⟩⟩

theorem settingsPass_succeeds : settingsPass.published.success = true := by
  have hexec : (Reconciler.new.withExecutor compliantExecutor).executorFor "prod"
      = some compliantExecutor := rfl
  obtain ⟨live, -, hpass⟩ := settingsReads_undisturbed.pass "shop" "manual" hexec
  obtain ⟨report, hres⟩ := compliant_compliantExecutor.executeWaves
    (groupIntoWaves (plan settingsDesired live) settingsDesired live) settingsDesired live
  rw [settingsPass, hpass, hres]
  rfl

theorem settings_converge : ∃ c', Passes stampingServer "shop" "prod" settingsDesired
      (lastOf [stamp (configMap "settings" "v0")]) [settingsPass] c'
    ∧ ∀ r, Wanted stampingServer settingsDesired c' r := by
  obtain ⟨c', heff⟩ := stamping_effects (lastOf [stamp (configMap "settings" "v0")])
    settingsPass.calls
  have hrun : Passes stampingServer "shop" "prod" settingsDesired _ [settingsPass] c' :=
    .cons settingsReads_undisturbed rfl heff .nil
  exact ⟨c', hrun, (passes_converge hrun).settles
    ⟨settingsPass, List.mem_singleton.mpr rfl, settingsPass_succeeds⟩⟩

/-! ## With others at work -/

/-- What can happen to a cluster: a pass, or someone else changing an object. -/
inductive ClusterStep where
  | pass (p : Pass)
  | drift (r : ResourceRef) (m : Option Manifest)

/-- Passes for one desired state, with changes by others in between. -/
inductive History (srv : Server) (app : AppName) (cluster : ClusterName) (desired : List Manifest) :
    Cluster → List ClusterStep → Cluster → Prop where
  | nil {c : Cluster} : History srv app cluster desired c [] c
  | pass {c d e : Cluster} {rec : Reconciler} {ex : ReconcileExecutor} {trigger : String}
      {reads : PassReads} {ss : List ClusterStep} :
      Undisturbed reads desired c → rec.executorFor cluster = some ex →
      Effects srv c (rec.reconcileAndApplyApp app cluster trigger reads).calls d →
      History srv app cluster desired d ss e →
      History srv app cluster desired c
        (.pass (rec.reconcileAndApplyApp app cluster trigger reads) :: ss) e
  | drift {c e : Cluster} {r : ResourceRef} {m : Option Manifest} {ss : List ClusterStep} :
      History srv app cluster desired (Function.update c r m) ss e →
      History srv app cluster desired c (.drift r m :: ss) e

/-- What is as it is wanted stays so until someone else changes it. -/
theorem History.keeps {ss : List ClusterStep} (h : History srv app cluster desired c ss c')
    {r : ResourceRef} (hr : Wanted srv desired c r) (hss : ∀ m, .drift r m ∉ ss) :
    Wanted srv desired c' r := by
  induction h with
  | nil => exact hr
  | pass hreads hx heff _ ih =>
      exact ih (pass_keeps hreads hx heff hr) fun m hm => hss m (List.mem_cons_of_mem _ hm)
  | @drift c e r' m ss _ ih =>
      have hne : r ≠ r' := fun heq => hss m (heq ▸ List.mem_cons_self)
      exact ih ((wanted_congr (Function.update_of_ne hne _ _)).mpr hr)
        fun m hm => hss m (List.mem_cons_of_mem _ hm)

/--
**Drift is corrected.**

Whatever others did to the cluster, whatever failed before and whatever the server makes
of what it is sent: after a pass that succeeds, a reference that is not as it is wanted was
changed by someone else since.
-/
theorem drift_corrected {srv : Server} {desired : List Manifest} {app : AppName}
    {cluster : ClusterName} {c c' : Cluster} {before after : List ClusterStep} {p : Pass}
    (h : History srv app cluster desired c (before ++ .pass p :: after) c')
    (hok : p.published.success = true) (r : ResourceRef) :
    Wanted srv desired c' r ∨ ∃ m, .drift r m ∈ after := by
  induction before generalizing c with
  | nil =>
      cases h with
      | pass hreads hx heff hrest =>
          by_cases hdrift : ∃ m, .drift r m ∈ after
          · exact Or.inr hdrift
          · exact Or.inl (hrest.keeps (pass_settles hreads hx heff hok r)
              fun m hm => hdrift ⟨m, hm⟩)
  | cons s before ih =>
      cases h with
      | pass _ _ _ hrest => exact ih hrest
      | drift hrest => exact ih hrest

/-- Someone deletes the config map after the pass: that is all that is not as it is wanted. -/
theorem settings_drift : ∃ c',
    History stampingServer "shop" "prod" settingsDesired
        (lastOf [stamp (configMap "settings" "v0")])
        [.pass settingsPass, .drift (ResourceRef.of (configMap "settings" "v1")) none] c'
      ∧ ∀ r, r ≠ ResourceRef.of (configMap "settings" "v1") →
        Wanted stampingServer settingsDesired c' r := by
  obtain ⟨d, heff⟩ := stamping_effects (lastOf [stamp (configMap "settings" "v0")])
    settingsPass.calls
  have hrun : History stampingServer "shop" "prod" settingsDesired _
      [.pass settingsPass, .drift (ResourceRef.of (configMap "settings" "v1")) none] _ :=
    .pass settingsReads_undisturbed rfl heff (.drift .nil)
  refine ⟨_, hrun, fun r hr => ?_⟩
  rcases @drift_corrected _ _ _ _ _ _ [] _ _ hrun settingsPass_succeeds r with hwanted | ⟨m, hm⟩
  · exact hwanted
  · exact absurd (ClusterStep.drift.inj (List.mem_singleton.mp hm)).1 hr

end SynchrotronCD.Convergence
