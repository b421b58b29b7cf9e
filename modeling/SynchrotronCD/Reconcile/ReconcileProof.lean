import SynchrotronCD.Reconcile.DesiredStore
import SynchrotronCD.Reconcile.PlanProof
import SynchrotronCD.Reconcile.WaveProof

/-!
# What a reconcile pass guarantees

A pass ends in one of four ways, and `reconcile_cases` lists them. What it hands
to the applier and what it publishes is read off from there.

The pass reads the desired store three times and locks it for none of them
longer than the read. `snapshot_consistent` says exactly which writes between
the reads can make it apply a body it did not plan from, or report a revision it
did not evaluate.
-/

namespace SynchrotronCD

open Lib

variable {rec : Reconciler} {app : AppName} {cluster : ClusterName} {trigger : String}
  {reads : PassReads}

/-- There is a plan exactly when both first reads succeed. -/
theorem planOnly_ok {desired live : Except SourceError (List Manifest)} {p : Plan} :
    planOnly app cluster desired live = .ok p
      ↔ ∃ d l, desired = .ok d ∧ live = .ok l ∧ p = plan d l := by
  cases desired with
  | error e => cases e <;> simp [planOnly]
  | ok d =>
      cases live with
      | error e => cases e <;> simp [planOnly]
      | ok l =>
          refine ⟨?_, ?_⟩
          · intro h
            exact ⟨d, l, rfl, rfl, (Except.ok.inj h).symm⟩
          · intro hm
            obtain ⟨d', l', hd, hl, rfl⟩ := hm
            rw [Except.ok.inj hd, Except.ok.inj hl]
            rfl

/-- **The four ways a pass can end**: no plan, a plan only, a second read that
failed, a plan carried out. -/
theorem reconcile_cases (rec : Reconciler) (app : AppName) (cluster : ClusterName)
    (trigger : String) (reads : PassReads) :
    (∃ e, planOnly app cluster reads.desired reads.live = .error e
      ∧ rec.reconcileAndApplyApp app cluster trigger reads = emitFailure app cluster e trigger)
    ∨ (∃ p, planOnly app cluster reads.desired reads.live = .ok p
      ∧ rec.executorFor cluster = none
      ∧ rec.reconcileAndApplyApp app cluster trigger reads
        = emitPlanOnly app cluster p trigger reads.revision)
    ∨ (∃ p ex e, planOnly app cluster reads.desired reads.live = .ok p
      ∧ rec.executorFor cluster = some ex
      ∧ (∀ d l, ¬ (reads.desiredAgain = .ok d ∧ reads.liveAgain = .ok l))
      ∧ rec.reconcileAndApplyApp app cluster trigger reads
        = publishApplyResult app cluster p trigger reads.revision [] (.error e))
    ∨ (∃ p ex d l, planOnly app cluster reads.desired reads.live = .ok p
      ∧ rec.executorFor cluster = some ex
      ∧ reads.desiredAgain = .ok d ∧ reads.liveAgain = .ok l
      ∧ rec.reconcileAndApplyApp app cluster trigger reads
        = publishApplyResult app cluster p trigger reads.revision
          (executeWaves ex (groupIntoWaves p d l) d l).1
          (executeWaves ex (groupIntoWaves p d l) d l).2) := by
  unfold Reconciler.reconcileAndApplyApp
  cases hp : planOnly app cluster reads.desired reads.live with
  | error e => exact Or.inl ⟨e, rfl, rfl⟩
  | ok p =>
  cases hx : rec.executorFor cluster with
  | none => exact Or.inr (Or.inl ⟨p, rfl, rfl, rfl⟩)
  | some ex =>
  cases hd : reads.desiredAgain with
  | error e =>
      -- the plan stands, but there is nothing to carry it out with
      exact Or.inr (Or.inr (Or.inl ⟨p, ex, _, rfl, rfl, by simp, rfl⟩))
  | ok d =>
  cases hl : reads.liveAgain with
  | error e => exact Or.inr (Or.inr (Or.inl ⟨p, ex, _, rfl, rfl, by simp, rfl⟩))
  | ok l => exact Or.inr (Or.inr (Or.inr ⟨p, ex, d, l, rfl, rfl, rfl, rfl, rfl⟩))

/-- Whatever became of the waves, the outcome names the app and the revision given. -/
theorem publishApplyResult_published (p : Plan) (revision : Option String) (calls : Trace)
    (result : Except WaveExecError WaveExecReport) :
    (publishApplyResult app cluster p trigger revision calls result).published.app = app
    ∧ (publishApplyResult app cluster p trigger revision calls result).published.revision
      = revision := by
  unfold publishApplyResult
  cases result with
  | ok rep => exact ⟨rfl, rfl⟩
  | error e => exact ⟨rfl, rfl⟩

/-- A pass publishes an outcome for its own app. -/
theorem published_app :
    (rec.reconcileAndApplyApp app cluster trigger reads).published.app = app := by
  rcases reconcile_cases rec app cluster trigger reads with ⟨_, _, heq⟩ | ⟨_, _, _, heq⟩ |
    ⟨_, _, _, _, _, _, heq⟩ | ⟨p, ex, d', l', _, _, _, _, heq⟩
  · rw [heq]; rfl
  · rw [heq]; rfl
  · rw [heq]; exact (publishApplyResult_published _ _ _ _).1
  · rw [heq]; exact (publishApplyResult_published _ _ _ _).1

/-! ## What is handed to the applier -/

/-- **Whatever a pass hands to the applier is a change it planned**, with a body
from the second reads. -/
theorem mem_calls {e : PlanEntry} {m : Option Manifest} {r : Except ApplyError Unit}
    (h : .apply e m r ∈ (rec.reconcileAndApplyApp app cluster trigger reads).calls) :
    ∃ d l d' l', reads.desired = .ok d ∧ reads.live = .ok l
      ∧ reads.desiredAgain = .ok d' ∧ reads.liveAgain = .ok l'
      ∧ (rec.executorFor cluster).isSome = true
      ∧ e ∈ (plan d l).entries ∧ e.action ≠ .noOp ∧ m = manifestFor d' l' e := by
  rcases reconcile_cases rec app cluster trigger reads with ⟨_, _, heq⟩ | ⟨_, _, _, heq⟩ |
    ⟨_, _, _, _, _, _, heq⟩ | ⟨p, ex, d', l', hp, hx, hd', hl', heq⟩
  · rw [heq] at h; exact absurd h List.not_mem_nil
  · rw [heq] at h; exact absurd h List.not_mem_nil
  · rw [heq] at h; exact absurd h List.not_mem_nil
  · obtain ⟨d, l, hd, hl, rfl⟩ := planOnly_ok.mp hp
    rw [heq] at h
    obtain ⟨he, ha, hm⟩ := executeWaves_calls h
    exact ⟨d, l, d', l', hd, hl, hd', hl', by rw [hx]; rfl, he, ha, hm⟩

/-- A pass whose reads succeed, on a cluster that gives no trouble, hands over every
change of its plan. -/
theorem calls_of_compliant {ex : ReconcileExecutor} (hx : rec.executorFor cluster = some ex)
    (hc : Compliant ex) {d l d' l' : List Manifest} (hd : reads.desired = .ok d)
    (hl : reads.live = .ok l) (hd' : reads.desiredAgain = .ok d') (hl' : reads.liveAgain = .ok l')
    {e : PlanEntry} (he : e ∈ (plan d l).entries) (ha : e.action ≠ .noOp) :
    .apply e (manifestFor d' l' e) (.ok ())
      ∈ (rec.reconcileAndApplyApp app cluster trigger reads).calls := by
  obtain ⟨rep, hrep⟩ := hc.executeWaves (groupIntoWaves (plan d l) d' l') d' l'
  have hmem := executeWaves_ok hrep he ha
  have hp : planOnly app cluster reads.desired reads.live = .ok (plan d l) :=
    planOnly_ok.mpr ⟨d, l, hd, hl, rfl⟩
  unfold Reconciler.reconcileAndApplyApp
  rw [hp, hx, hd', hl']
  exact hmem

/-! ## Success -/

/-- Every change of the pass's plan was handed to an applier that accepted it. -/
def Handed (pass : Pass) : Prop :=
  ∃ p, pass.outcome.plan = some p
    ∧ ∀ e ∈ p.entries, e.action ≠ .noOp → ∃ m, .apply e m (.ok ()) ∈ pass.calls

/-- **Success is published only for a plan that was carried out**, or, where the
cluster has no executor, for one that was only made. -/
theorem success_cases
    (h : (rec.reconcileAndApplyApp app cluster trigger reads).published.success = true) :
    ((rec.executorFor cluster).isSome = true
      ∧ Handed (rec.reconcileAndApplyApp app cluster trigger reads))
    ∨ (rec.executorFor cluster = none
      ∧ (rec.reconcileAndApplyApp app cluster trigger reads).calls = []
      ∧ (rec.reconcileAndApplyApp app cluster trigger reads).outcome.plan ≠ none) := by
  rcases reconcile_cases rec app cluster trigger reads with ⟨_, _, heq⟩ | ⟨p, _, hx, heq⟩ |
    ⟨_, _, _, _, _, _, heq⟩ | ⟨p, ex, d', l', _, hx, _, _, heq⟩
  · rw [heq] at h; simp [emitFailure] at h
  · rw [heq]; exact Or.inr ⟨hx, rfl, by simp [emitPlanOnly]⟩
  · rw [heq] at h; simp [publishApplyResult] at h
  · rw [heq] at h ⊢
    cases hr : (executeWaves ex (groupIntoWaves p d' l') d' l').2 with
    | error e => rw [hr] at h; simp [publishApplyResult] at h
    | ok rep =>
        refine Or.inl ⟨by rw [hx]; rfl, p, rfl, ?_⟩
        intro e he ha
        exact ⟨_, executeWaves_ok hr he ha⟩

/-! ## Snapshots -/

/-- The pass applied what it planned from the entry it found, and reported the
revision of that entry. -/
structure Consistent (s : DesiredStore) (app : AppName) (pass : Pass) : Prop where
  /-- Every `Apply` carries a body: the one the plan was computed from. -/
  bodies : ∀ r m res, .apply ⟨r, .apply⟩ m res ∈ pass.calls →
    ∃ entry d, s.lookup app = some entry ∧ lastWithRef entry.manifests r = some d ∧ m = some d
  revision : pass.outcome.plan ≠ none → pass.published.revision = s.getRevision app

/--
No write that matters falls among the reads: the revision is still that of the
entry the plan was computed from and, where the plan is carried out, the second
read still has each manifest whose live body is missing or different.
-/
def SnapshotStable (s : DesiredStore) (app : AppName) (i : Interleaving) (connected : Bool) : Prop :=
  ∀ desired live, s.get app = .ok desired → i.live = .ok live →
    (i.reads s app).revision = s.getRevision app
    ∧ ∀ desired' live', connected = true → (i.reads s app).desiredAgain = .ok desired' →
      i.liveAgain = .ok live' →
      ∀ r d, lastWithRef desired r = some d →
        (∀ l, lastWithRef live r = some l → manifestBodiesEqual d l = false) →
        lastWithRef desired' r = some d

theorem get_ok {s : DesiredStore} {d : List Manifest} :
    s.get app = .ok d ↔ ∃ entry, s.lookup app = some entry ∧ entry.manifests = d := by
  unfold DesiredStore.get
  cases s.lookup app with
  | none => simp
  | some entry => simp

/-- The executor of a cluster that gives no trouble. -/
def compliantExecutor : ReconcileExecutor := ⟨fun _ _ _ => .ok (), alwaysHealthy, fun _ => 0, .default⟩

theorem compliant_compliantExecutor : Compliant compliantExecutor where
  applies _ _ _ := rfl
  healthy _ _ := rfl

/-- A pass that plans publishes the revision it read. -/
theorem published_revision
    (h : (rec.reconcileAndApplyApp app cluster trigger reads).outcome.plan ≠ none) :
    (rec.reconcileAndApplyApp app cluster trigger reads).published.revision = reads.revision := by
  rcases reconcile_cases rec app cluster trigger reads with ⟨_, _, heq⟩ | ⟨_, _, _, heq⟩ |
    ⟨_, _, _, _, _, _, heq⟩ | ⟨p, ex, d', l', _, _, _, _, heq⟩
  · rw [heq] at h; simp [emitFailure] at h
  · rw [heq]; rfl
  · rw [heq]; exact (publishApplyResult_published _ _ _ _).2
  · rw [heq]; exact (publishApplyResult_published _ _ _ _).2

theorem plan_ne_none {d l : List Manifest} (hd : reads.desired = .ok d) (hl : reads.live = .ok l) :
    (rec.reconcileAndApplyApp app cluster trigger reads).outcome.plan ≠ none := by
  have hp : planOnly app cluster reads.desired reads.live = .ok (plan d l) :=
    planOnly_ok.mpr ⟨d, l, hd, hl, rfl⟩
  rcases reconcile_cases rec app cluster trigger reads with ⟨_, hp', _⟩ | ⟨_, _, _, heq⟩ |
    ⟨_, _, _, _, _, _, heq⟩ | ⟨_, _, _, _, _, _, _, _, heq⟩
  · rw [hp] at hp'; simp at hp'
  · rw [heq]; exact Option.some_ne_none _
  · rw [heq]; exact Option.some_ne_none _
  · rw [heq]; exact Option.some_ne_none _

theorem consistent_of_stable {s : DesiredStore} {i : Interleaving}
    (h : SnapshotStable s app i (rec.executorFor cluster).isSome) :
    Consistent s app (rec.reconcileAndApplyApp app cluster trigger (i.reads s app)) where
  bodies := by
    intro r m res hmem
    obtain ⟨d, l, d', l', hd, hl, hd', hl', hx, he, _, hm⟩ := mem_calls hmem
    obtain ⟨entry, hentry, hman⟩ := get_ok.mp hd
    obtain ⟨_, hbody⟩ := h d l hd hl
    -- it was planned because its live body is missing or different, so the second read has it
    obtain ⟨b, hb, hdiff⟩ := apply_mem_plan.mp he
    refine ⟨entry, b, hentry, by rw [hman]; exact hb, ?_⟩
    rw [hm, ← hbody d' l' hx hd' hl' r b hb hdiff]
    rfl
  revision := by
    intro hplan
    rw [published_revision hplan]
    rcases reconcile_cases rec app cluster trigger (i.reads s app) with ⟨_, _, heq⟩ |
      ⟨_, hp, _⟩ | ⟨_, _, _, hp, _⟩ | ⟨_, _, _, _, hp, _⟩
    · rw [heq] at hplan; simp [emitFailure] at hplan
    all_goals
      obtain ⟨d, l, hd, hl, _⟩ := planOnly_ok.mp hp
      exact (h d l hd hl).1

/--
**When a pass is consistent.**

For any placement of writes among the reads of a pass, and whether or not its
cluster has an executor: the pass is consistent, however the applier and the
health checker behave, if and only if no write that matters falls among the
reads.
-/
theorem snapshot_consistent (s : DesiredStore) (app : AppName) (cluster : ClusterName)
    (trigger : String) (i : Interleaving) (connected : Bool) :
    (∀ rec : Reconciler, (rec.executorFor cluster).isSome = connected →
      Consistent s app (rec.reconcileAndApplyApp app cluster trigger (i.reads s app)))
    ↔ SnapshotStable s app i connected := by
  refine ⟨?_, ?_⟩
  · intro h desired live hd hl
    have hreads : (i.reads s app).desired = .ok desired := hd
    have hlive : (i.reads s app).live = .ok live := hl
    -- a reconciler that is connected, or not, as asked, with a well-behaved executor
    let rec₀ : Reconciler := ⟨if connected then some compliantExecutor else none, ∅⟩
    have hrec : (rec₀.executorFor cluster).isSome = connected := by cases connected <;> rfl
    have hcons := h rec₀ hrec
    have hplan : (rec₀.reconcileAndApplyApp app cluster trigger (i.reads s app)).outcome.plan ≠ none :=
      plan_ne_none hreads hlive
    refine ⟨?_, ?_⟩
    · rw [← hcons.revision hplan, published_revision hplan]
    · intro desired' live' hconn hd' hl' r d hd₀ hdiff
      have hr := apply_mem_plan.mpr ⟨d, hd₀, hdiff⟩
      have hx : rec₀.executorFor cluster = some compliantExecutor := by
        simp [rec₀, hconn, Reconciler.executorFor]
      obtain ⟨entry, b, hentry, hb, hm⟩ := hcons.bodies r _ _
        (calls_of_compliant hx compliant_compliantExecutor hreads hlive hd' hl' hr (by simp))
      obtain ⟨entry', hentry', hman⟩ := get_ok.mp hd
      obtain rfl : entry = entry' := Option.some.inj (hentry.symm.trans hentry')
      rw [hman, hd₀] at hb
      obtain rfl : d = b := Option.some.inj hb
      exact hm
  · intro h rec hcase
    subst hcase
    exact consistent_of_stable h

/-- The store at the start of a pass: one config map, rendered from `r1`. -/
def renderedOnce : DesiredStore :=
  DesiredStore.putWithRevision ∅ "shop" [configMap "settings" "v1"] (some "r1")

/-- The app is rendered again, to nothing, right after the pass has planned. -/
def rerenderedAfterPlan : Interleaving where
  beforeRevision := [.put "shop" [] (some "r2")]
  beforeRefetch := []
  live := .ok []
  liveAgain := .ok []

/-- The pass that meets the second rendering, on a cluster that gives no trouble. -/
def overtakenPass : Pass :=
  (Reconciler.new.withExecutor compliantExecutor).reconcileAndApplyApp "shop" "prod" "manual"
    (rerenderedAfterPlan.reads renderedOnce "shop")

/-- **A write between the reads breaks the pass.** The planned apply is handed over
without a body, and the outcome names a revision that was never planned from. -/
theorem overtakenPass_inconsistent :
    (∃ r, .apply ⟨r, .apply⟩ none (.ok ()) ∈ overtakenPass.calls)
    ∧ renderedOnce.getRevision "shop" = some "r1"
    ∧ overtakenPass.published.revision = some "r2"
    ∧ ¬ Consistent renderedOnce "shop" overtakenPass := by
  have hcall : .apply ⟨⟨⟨"", "v1", "ConfigMap"⟩, some "app", "settings"⟩, .apply⟩ none (.ok ())
      ∈ overtakenPass.calls := by
    have hd : (rerenderedAfterPlan.reads renderedOnce "shop").desired
        = .ok [configMap "settings" "v1"] := rfl
    exact calls_of_compliant rfl compliant_compliantExecutor hd rfl rfl rfl (by decide) (by decide)
  refine ⟨⟨_, hcall⟩, by decide, by decide, ?_⟩
  intro h
  obtain ⟨_, d, _, _, hm⟩ := h.bodies _ _ _ hcall
  exact Option.some_ne_none d hm.symm

end SynchrotronCD
