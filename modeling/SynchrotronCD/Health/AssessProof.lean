import SynchrotronCD.Health.Assess

/-!
# When a manifest assesses healthy

Each rule is read off as what it wants of the object (`Tier1.Ready`); three of them ask
first whether the status is about the current spec, the others do not. So what is not
observed assesses healthy exactly where a rule does not ask, or has nothing to wait for
(`never_healthy_unobserved_iff`).
-/

namespace SynchrotronCD.Health

open HealthAssessment

/-! ## Rules -/

/-- The object has a status, which says so. -/
def Reports (body : Value) (P : Value → Prop) : Prop := ∃ status, statusOf body = some status ∧ P status

/-- What the rule of a kind wants of an object, whatever its generation. -/
def Tier1.Ready (body : Value) : Tier1 → Prop
  | .deployment => specFlag body "paused" = false ∧ Reports body fun status =>
      deadlineExceeded status = false ∧ desiredReplicas body ≤ i64Field status "updatedReplicas"
        ∧ i64Field status "replicas" ≤ i64Field status "updatedReplicas"
        ∧ i64Field status "updatedReplicas" ≤ i64Field status "availableReplicas"
  | .statefulSet => Reports body fun status =>
      desiredReplicas body ≤ i64Field status "readyReplicas" ∧ rolling status = false
  | .daemonSet => Reports body fun status =>
      i64Field status "desiredNumberScheduled" ≤ i64Field status "updatedNumberScheduled"
        ∧ i64Field status "desiredNumberScheduled" ≤ i64Field status "numberAvailable"
  | .job => Reports body fun status =>
      conditionIs status "Failed" "True" = false ∧ conditionIs status "Complete" "True" = true
  | .pod => Reports body fun status =>
      phaseOf status = "Succeeded" ∨ (phaseOf status = "Running" ∧ allReady status = true)
  | .service => (specField body "type").bind Value.asStr ≠ some "LoadBalancer" ∨ hasIngress body = true
  | .ingress => hasIngress body = true
  | .persistentVolumeClaim => Reports body fun status => phaseOf status = "Bound"
  | .customResourceDefinition => Reports body fun status =>
      conditionIs status "NamesAccepted" "False" = false
        ∧ conditionIs status "Established" "True" = true
  | .horizontalPodAutoscaler => Reports body fun status =>
      conditionIs status "AbleToScale" "False" = false
        ∧ conditionIs status "ScalingActive" "True" = true

/-- The rule asks first whether the current spec has been observed. -/
def Tier1.checksGeneration : Tier1 → Bool
  | .deployment | .statefulSet | .daemonSet => true
  | _ => false

variable {body : Value}

theorem reports_none {P : Value → Prop} (h : statusOf body = none) : ¬ Reports body P := by
  rintro ⟨status, hs, -⟩
  exact Option.some_ne_none _ (hs.symm.trans h)

theorem reports_some {P : Value → Prop} {status : Value} (h : statusOf body = some status) :
    Reports body P ↔ P status := by
  constructor
  · rintro ⟨status', hs, hP⟩
    obtain rfl := Option.some.inj (h.symm.trans hs)
    exact hP
  · exact fun hP => ⟨status, h, hP⟩

/-- A branch that is not healthy is not taken. -/
theorem guard_healthy {c : Prop} [Decidable c] {a b : HealthAssessment} (h : a.status ≠ .healthy) :
    (if c then a else b).status = .healthy ↔ ¬ c ∧ b.status = .healthy := by
  by_cases hc : c <;> simp [hc, h]

/-- A branch that is healthy is taken, or a later one. -/
theorem ready_healthy {c : Prop} [Decidable c] {b : HealthAssessment} :
    (if c then healthy else b).status = .healthy ↔ c ∨ b.status = .healthy := by
  by_cases hc : c <;> simp [hc, healthy]

theorem assessDeployment_healthy : (assessDeployment body).status = .healthy
    ↔ Tier1.deployment.Ready body ∧ generationDrift body = false := by
  unfold assessDeployment Tier1.Ready
  rw [guard_healthy (by decide), guard_healthy (by decide)]
  cases hs : statusOf body with
  | none => simp [progressing, reports_none hs]
  | some status =>
      dsimp only
      rw [reports_some hs, guard_healthy (by simp [degraded]), guard_healthy (by simp [progressing]),
        guard_healthy (by simp [progressing]), guard_healthy (by simp [progressing])]
      simp only [Bool.not_eq_true, not_lt, gt_iff_lt, healthy]
      tauto

theorem assessStatefulset_healthy : (assessStatefulset body).status = .healthy
    ↔ Tier1.statefulSet.Ready body ∧ generationDrift body = false := by
  unfold assessStatefulset Tier1.Ready
  rw [guard_healthy (by decide)]
  cases hs : statusOf body with
  | none => simp [progressing, reports_none hs]
  | some status =>
      dsimp only
      rw [reports_some hs, guard_healthy (by simp [progressing]),
        guard_healthy (by simp [progressing])]
      simp only [Bool.not_eq_true, not_lt, healthy]
      tauto

theorem assessDaemonset_healthy : (assessDaemonset body).status = .healthy
    ↔ Tier1.daemonSet.Ready body ∧ generationDrift body = false := by
  unfold assessDaemonset Tier1.Ready
  rw [guard_healthy (by decide)]
  cases hs : statusOf body with
  | none => simp [progressing, reports_none hs]
  | some status =>
      dsimp only
      rw [reports_some hs, guard_healthy (by simp [progressing]),
        guard_healthy (by simp [progressing])]
      simp only [Bool.not_eq_true, not_lt, healthy]
      tauto

theorem assessJob_healthy : (assessJob body).status = .healthy ↔ Tier1.job.Ready body := by
  unfold assessJob Tier1.Ready
  cases hs : statusOf body with
  | none => simp [progressing, reports_none hs]
  | some status =>
      dsimp only
      rw [reports_some hs, guard_healthy (by simp [degraded]), ready_healthy,
        guard_healthy (by simp [suspended])]
      simp [progressing]

theorem assessPod_healthy : (assessPod body).status = .healthy ↔ Tier1.pod.Ready body := by
  unfold assessPod Tier1.Ready
  cases hs : statusOf body with
  | none => simp [progressing, reports_none hs]
  | some status =>
      dsimp only
      rw [reports_some hs, ready_healthy, guard_healthy (by simp [degraded]),
        guard_healthy (by simp [progressing])]
      by_cases hr : phaseOf status = "Running"
      · rw [if_pos hr, ready_healthy]
        simp [hr, progressing]
      · rw [if_neg hr]
        simp [hr, unknown]

theorem assessIngress_healthy : (assessIngress body).status = .healthy ↔ hasIngress body = true := by
  unfold assessIngress
  rw [ready_healthy]
  simp [progressing]

theorem assessService_healthy : (assessService body).status = .healthy
    ↔ Tier1.service.Ready body := by
  unfold assessService Tier1.Ready
  rw [ready_healthy, assessIngress_healthy]

theorem assessPvc_healthy : (assessPvc body).status = .healthy
    ↔ Tier1.persistentVolumeClaim.Ready body := by
  unfold assessPvc Tier1.Ready
  cases hs : statusOf body with
  | none => simp [progressing, reports_none hs]
  | some status =>
      dsimp only
      rw [reports_some hs, ready_healthy, guard_healthy (by simp [progressing]),
        guard_healthy (by simp [degraded])]
      simp [unknown]

theorem assessCrd_healthy : (assessCrd body).status = .healthy
    ↔ Tier1.customResourceDefinition.Ready body := by
  unfold assessCrd Tier1.Ready
  cases hs : statusOf body with
  | none => simp [progressing, reports_none hs]
  | some status =>
      dsimp only
      rw [reports_some hs, guard_healthy (by simp [degraded]), ready_healthy]
      simp [progressing]

theorem assessHpa_healthy : (assessHpa body).status = .healthy
    ↔ Tier1.horizontalPodAutoscaler.Ready body := by
  unfold assessHpa Tier1.Ready
  cases hs : statusOf body with
  | none => simp [progressing, reports_none hs]
  | some status =>
      dsimp only
      rw [reports_some hs, guard_healthy (by simp [degraded]), ready_healthy,
        guard_healthy (by simp [degraded])]
      simp [progressing]

/-- What a rule says, and whether it is asked. -/
theorem tier1_healthy (kind : Tier1) : (kind.assess body).status = .healthy
    ↔ kind.Ready body ∧ (kind.checksGeneration = true → generationDrift body = false) := by
  have hasks : ∀ P Q : Prop, P ∧ Q ↔ P ∧ (true = true → Q) := by simp
  have hnot : ∀ P Q : Prop, P ↔ P ∧ (false = true → Q) := by simp
  cases kind with
  | deployment => exact assessDeployment_healthy.trans (hasks _ _)
  | statefulSet => exact assessStatefulset_healthy.trans (hasks _ _)
  | daemonSet => exact assessDaemonset_healthy.trans (hasks _ _)
  | job => exact assessJob_healthy.trans (hnot _ _)
  | pod => exact assessPod_healthy.trans (hnot _ _)
  | service => exact assessService_healthy.trans (hnot _ _)
  | ingress => exact assessIngress_healthy.trans (hnot _ _)
  | persistentVolumeClaim => exact assessPvc_healthy.trans (hnot _ _)
  | customResourceDefinition => exact assessCrd_healthy.trans (hnot _ _)
  | horizontalPodAutoscaler => exact assessHpa_healthy.trans (hnot _ _)

/-! ## Manifests -/

/-- What the manifest has to say to be ready: by the rule for its kind, else by the readiness
condition in its status. -/
def ReportsReady (m : Manifest) : Prop :=
  match Tier1.of m.gvk with
  | some kind => kind.Ready m.body.value
  | none => Reports m.body.value fun status =>
      ∃ cond, readinessCondition status = some cond ∧ conditionStatus cond = some "True"

/-- The manifest is of a kind whose rule asks for the generation. -/
def ChecksGeneration (m : Manifest) : Prop :=
  ∃ kind, Tier1.of m.gvk = some kind ∧ kind.checksGeneration = true

theorem healthFromCondition_healthy {cond : Value} :
    (healthFromCondition cond).status = .healthy ↔ conditionStatus cond = some "True" := by
  unfold healthFromCondition
  dsimp only
  rw [ready_healthy, guard_healthy (by split <;> simp [degraded])]
  cases conditionStatus cond with
  | none => simp [progressing]
  | some s => simp [progressing]

/-- **When a manifest assesses healthy.** -/
theorem assess_healthy (m : Manifest) : (assess m).status = .healthy
    ↔ ReportsReady m ∧ (ChecksGeneration m → generationDrift m.body.value = false) := by
  unfold assess assessTier1 ReportsReady ChecksGeneration
  cases hk : Tier1.of m.gvk with
  | some kind =>
      simp only [Option.map_some, Option.some_or, Option.getD_some, tier1_healthy]
      simp
  | none =>
      unfold assessByConditions Reports
      cases hs : statusOf m.body.value with
      | none => simp [unknown]
      | some status =>
          cases hc : readinessCondition status with
          | none => simp [hc, unknown]
          | some cond => simp [hc, healthFromCondition_healthy]

/-! ## What has not been observed -/

/-- The manifest's generation is not the one that its status is about. -/
def Stale (m : Manifest) : Prop := generation m.body.value ≠ observedGeneration m.body.value

/-- The kinds whose health is what their status says. -/
def StatusDriven (m : Manifest) : Prop :=
  Tier1.of m.gvk ∈ [Tier1.deployment, .statefulSet, .daemonSet, .job, .pod, .persistentVolumeClaim,
    .customResourceDefinition, .horizontalPodAutoscaler].map some

/-- There is nothing in the status. -/
def EmptyStatus (status : Value) : Prop := status.untag = .null ∨ status.untag = .mapping []

/-- The status is missing or empty. -/
def NoStatus (m : Manifest) : Prop := ∀ status, statusOf m.body.value = some status → EmptyStatus status

/-- Nothing is waited for: no replica is asked for, or the status itself says how many are. -/
def WantsNone (m : Manifest) : Prop :=
  Tier1.of m.gvk = some .daemonSet
    ∨ (Tier1.of m.gvk = some .deployment ∧ specFlag m.body.value "paused" = false
      ∧ desiredReplicas m.body.value ≤ 0)
    ∨ (Tier1.of m.gvk = some .statefulSet ∧ desiredReplicas m.body.value ≤ 0)

theorem EmptyStatus.get {status : Value} (h : EmptyStatus status) (key : String) :
    status.get key = none := by
  unfold Value.get
  rcases h with h | h <;> simp [h]

theorem EmptyStatus.i64Field {status : Value} (h : EmptyStatus status) (key : String) :
    i64Field status key = 0 := by
  simp [Health.i64Field, h.get]

theorem EmptyStatus.findCondition {status : Value} (h : EmptyStatus status) (type : String) :
    findCondition status type = none := by
  simp [Health.findCondition, h.get]

/-- With an empty status only a kind that counts can be ready, and only if it wants none. -/
theorem ready_of_emptyStatus {m : Manifest} (hdriven : StatusDriven m) {status : Value}
    (hs : statusOf m.body.value = some status) (he : EmptyStatus status) :
    ReportsReady m ↔ WantsNone m := by
  have hcond : ∀ type value, conditionIs status type value = false := by
    intro type value
    simp [conditionIs, he.findCondition]
  unfold StatusDriven at hdriven
  unfold ReportsReady WantsNone
  cases hk : Tier1.of m.gvk with
  | none => simp [hk] at hdriven
  | some kind =>
      dsimp only
      cases kind with
      | deployment =>
          simp [Tier1.Ready, reports_some hs, he.i64Field, deadlineExceeded, he.findCondition]
      | statefulSet => simp [Tier1.Ready, reports_some hs, he.i64Field, rolling, he.get]
      | daemonSet => simp [Tier1.Ready, reports_some hs, he.i64Field]
      | job => simp [Tier1.Ready, reports_some hs, hcond]
      | pod => simp [Tier1.Ready, reports_some hs, phaseOf, he.get]
      | service => simp [hk] at hdriven
      | ingress => simp [hk] at hdriven
      | persistentVolumeClaim => simp [Tier1.Ready, reports_some hs, phaseOf, he.get]
      | customResourceDefinition => simp [Tier1.Ready, reports_some hs, hcond]
      | horizontalPodAutoscaler => simp [Tier1.Ready, reports_some hs, hcond]

theorem ready_of_status_none {m : Manifest} (hdriven : StatusDriven m)
    (hs : statusOf m.body.value = none) : ¬ ReportsReady m := by
  unfold StatusDriven at hdriven
  unfold ReportsReady
  cases hk : Tier1.of m.gvk with
  | none => simp [hk] at hdriven
  | some kind =>
      dsimp only
      cases kind with
      | service => simp [hk] at hdriven
      | ingress => simp [hk] at hdriven
      | deployment => exact fun h => reports_none hs h.2
      | _ => exact reports_none hs

theorem WantsNone.driven {m : Manifest} (h : WantsNone m) : StatusDriven m ∧ ChecksGeneration m := by
  unfold StatusDriven ChecksGeneration
  rcases h with h | ⟨h, -⟩ | ⟨h, -⟩ <;> exact ⟨by simp [h], _, h, rfl⟩

/-- A generation that is there has to be observed. -/
theorem drift_of_stale {m : Manifest} (h : Stale m) :
    generationDrift m.body.value = false ↔ generation m.body.value = none := by
  unfold Stale at h
  unfold generationDrift
  cases hg : generation m.body.value with
  | none => simp
  | some g =>
      cases ho : observedGeneration m.body.value with
      | none => simp
      | some o =>
          have hne : g ≠ o := fun heq => h (by rw [hg, ho, heq])
          simp [hne]

theorem drift_of_emptyStatus {m : Manifest} {status : Value}
    (hs : statusOf m.body.value = some status) (he : EmptyStatus status) :
    generationDrift m.body.value = false ↔ generation m.body.value = none := by
  have hobserved : observedGeneration m.body.value = none := by
    unfold observedGeneration
    unfold statusOf at hs
    simp [hs, he.get]
  unfold generationDrift
  rw [hobserved]
  cases generation m.body.value <;> simp

/--
**Nothing unobserved assesses healthy**, except where a rule does not look or wants
nothing: a stale status that reports ready, if the rule of the kind does not ask for the
generation or there is none; and an empty status without a generation, if no replica is
wanted.
-/
theorem never_healthy_unobserved_iff (m : Manifest) :
    (Stale m → (assess m).status ≠ .healthy)
      ∧ (StatusDriven m → NoStatus m → (assess m).status ≠ .healthy)
    ↔ (Stale m → ReportsReady m → ChecksGeneration m ∧ generation m.body.value ≠ none)
      ∧ (NoStatus m → statusOf m.body.value ≠ none → generation m.body.value = none →
        ¬ WantsNone m) := by
  refine and_congr ⟨?_, ?_⟩ ⟨?_, ?_⟩
  · intro h hstale hready
    have hnot := mt (assess_healthy m).mpr (h hstale)
    rw [drift_of_stale hstale] at hnot
    by_contra hcon
    exact hnot ⟨hready, fun hc => by_contra fun hg => hcon ⟨hc, hg⟩⟩
  · intro h hstale hhealthy
    obtain ⟨hready, hdrift⟩ := (assess_healthy m).mp hhealthy
    obtain ⟨hc, hg⟩ := h hstale hready
    exact hg ((drift_of_stale hstale).mp (hdrift hc))
  · intro h hno hsome hg hwants
    obtain ⟨status, hs⟩ := Option.ne_none_iff_exists'.mp hsome
    obtain ⟨hdriven, -⟩ := hwants.driven
    refine h hdriven hno ((assess_healthy m).mpr ⟨?_, fun _ => ?_⟩)
    · exact (ready_of_emptyStatus hdriven hs (hno status hs)).mpr hwants
    · exact (drift_of_emptyStatus hs (hno status hs)).mpr hg
  · intro h hdriven hno hhealthy
    obtain ⟨hready, hdrift⟩ := (assess_healthy m).mp hhealthy
    cases hs : statusOf m.body.value with
    | none => exact ready_of_status_none hdriven hs hready
    | some status =>
        have hwants := (ready_of_emptyStatus hdriven hs (hno status hs)).mp hready
        have hg := (drift_of_emptyStatus hs (hno status hs)).mp (hdrift hwants.driven.2)
        exact h hno (by simp [hs]) hg hwants

/-! ## A widget -/

/-- A widget whose controller has seen the generation before the current one. -/
def staleWidget : Manifest :=
  let v : Value := .mapping [(.string "apiVersion", .string "example.com/v1"),
    (.string "kind", .string "Widget"),
    (.string "metadata", .mapping [(.string "name", .string "w"),
      (.string "generation", .number (.posInt 2))]),
    (.string "status", .mapping [(.string "observedGeneration", .number (.posInt 1)),
      (.string "conditions", .sequence [.mapping [(.string "type", .string "Ready"),
        (.string "status", .string "True")]])])]
  let bytes := (@ManifestBody.toVec .ofBits v).getD []
  ⟨⟨"example.com", "v1", "Widget"⟩, "w", none, ⟨bytes, fnv1a64 bytes, v, rfl⟩⟩

/-- **A stale widget assesses healthy**: its condition is about the spec before. -/
theorem staleWidget_healthy : ¬ ∀ m : Manifest, (Stale m → (assess m).status ≠ .healthy)
    ∧ (StatusDriven m → NoStatus m → (assess m).status ≠ .healthy) := by
  intro h
  have hstale : Stale staleWidget := by
    unfold Stale
    decide
  exact (h staleWidget).1 hstale (by decide)

end SynchrotronCD.Health
