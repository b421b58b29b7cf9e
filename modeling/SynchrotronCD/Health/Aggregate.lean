import SynchrotronCD.Health.AssessProof
import SynchrotronCD.Lib.Runs
import SynchrotronCD.Reconcile.WaveTrace

/-!
# App-level health and the readiness gate

The health of several manifests is the worst of theirs, and the message is that of the
last one that is as bad (`first_worst_iff`). The gate of a wave asks for the
resources of the wave and is answered with the health of what the store returns for
them; a resource that is not among it has no say (`gate_seen_iff`).
-/

namespace SynchrotronCD.Health

open Lib

/-! ## Aggregation -/

/-- The order of the codes, from best to worst. -/
def severity : HealthStatusCode → Nat
  | .healthy => 0
  | .progressing => 1
  | .suspended => 2
  | .unknown => 3
  | .missing => 4
  | .degraded => 5

/-- `Iterator::max_by_key`: the last one of those with the greatest key. -/
def maxByKey {α : Type} (key : α → Nat) : List α → Option α
  | [] => none
  | x :: xs => some (xs.foldl (fun best y => if key best ≤ key y then y else best) x)

/-- Per-resource health. -/
structure ResourceHealth where
  resource : ResourceRef
  assessment : HealthAssessment
deriving DecidableEq, Repr

/-- Aggregate health for an app. -/
structure AppHealth where
  status : HealthStatusCode
  /-- The message of the resource that drove the aggregate. -/
  message : Option String
  resources : List ResourceHealth
deriving DecidableEq, Repr

/-- Aggregate live manifests. -/
def aggregate (manifests : List Manifest) : AppHealth :=
  let resources := manifests.map fun m => (⟨ResourceRef.of m, assess m⟩ : ResourceHealth)
  let worst := maxByKey (fun s : HealthStatusCode × Option String => severity s.1)
    (resources.map fun r => (r.assessment.status, r.assessment.message))
  let (status, message) := worst.getD (.healthy, none)
  ⟨status, message, resources⟩

/-! ## The checker -/

/-- What the store returns for resources, after the calls so far. -/
abbrev ManifestStore := Trace → List ResourceRef → List Manifest

/-- Run aggregation once for the given resources. -/
def assessApp (store : ManifestStore) (t : Trace) (resources : List ResourceRef) : AppHealth :=
  aggregate (store t resources)

/-- The checker that resolves references by the store. -/
def appHealthChecker (store : ManifestStore) : HealthChecker :=
  fun t resources => (assessApp store t resources).status

/-! ## The worst status -/

theorem foldl_worst {α : Type} (key : α → Nat) (xs : List α) (x : α) :
    xs.foldl (fun best y => if key best ≤ key y then y else best) x ∈ x :: xs
      ∧ ∀ y ∈ x :: xs, key y ≤ key (xs.foldl (fun best y => if key best ≤ key y then y else best) x) := by
  induction xs generalizing x with
  | nil => simp
  | cons y xs ih =>
      rw [List.foldl_cons]
      obtain ⟨hmem, hle⟩ := ih (if key x ≤ key y then y else x)
      have hx : key x ≤ key (if key x ≤ key y then y else x) := by split <;> omega
      have hy : key y ≤ key (if key x ≤ key y then y else x) := by split <;> omega
      have hworst := hle _ List.mem_cons_self
      refine ⟨?_, ?_⟩
      · rcases List.mem_cons.mp hmem with h | h
        · rw [h]
          split <;> simp
        · simp [h]
      · intro z hz
        rcases List.mem_cons.mp hz with rfl | hz
        · omega
        rcases List.mem_cons.mp hz with rfl | hz
        · omega
        · exact hle z (List.mem_cons_of_mem _ hz)

theorem maxByKey_some {α : Type} {key : α → Nat} {xs : List α} {best : α}
    (h : maxByKey key xs = some best) : best ∈ xs ∧ ∀ y ∈ xs, key y ≤ key best := by
  cases xs with
  | nil => simp [maxByKey] at h
  | cons x xs =>
      obtain rfl := Option.some.inj h
      exact foldl_worst key xs x

theorem maxByKey_none {α : Type} {key : α → Nat} {xs : List α} (h : maxByKey key xs = none) :
    xs = [] := by
  cases xs with
  | nil => rfl
  | cons x xs => simp [maxByKey] at h

theorem severity_eq_zero {s : HealthStatusCode} : severity s = 0 ↔ s = .healthy := by
  cases s <;> simp [severity]

/-- **An app is healthy** if all that is there of it is. -/
theorem aggregate_healthy (ms : List Manifest) :
    (aggregate ms).status = .healthy ↔ ∀ m ∈ ms, (assess m).status = .healthy := by
  unfold aggregate
  dsimp only
  rw [List.map_map]
  cases hworst : maxByKey (fun s : HealthStatusCode × Option String => severity s.1)
      (ms.map ((fun r : ResourceHealth => (r.assessment.status, r.assessment.message))
        ∘ fun m => ⟨ResourceRef.of m, assess m⟩)) with
  | none =>
      have hnil := List.map_eq_nil_iff.mp (maxByKey_none hworst)
      simp [hnil]
  | some best =>
      obtain ⟨hmem, hle⟩ := maxByKey_some hworst
      obtain ⟨m, hm, rfl⟩ := List.mem_map.mp hmem
      rw [Option.getD_some]
      constructor
      · intro hhealthy m' hm'
        have hbest := hle _ (List.mem_map_of_mem hm')
        rw [severity_eq_zero.mpr hhealthy] at hbest
        exact severity_eq_zero.mp (Nat.le_zero.mp hbest)
      · exact fun h => h m hm

/-! ## Whose message -/

/-- The elements with the greatest key. -/
def greatest {α : Type} (key : α → Nat) (xs : List α) : List α :=
  xs.filter fun x => xs.all fun y => key y ≤ key x

theorem mem_greatest {α : Type} {key : α → Nat} {xs : List α} {x : α} :
    x ∈ greatest key xs ↔ x ∈ xs ∧ ∀ y ∈ xs, key y ≤ key x := by
  simp [greatest]

theorem maxByKey_append {α : Type} (key : α → Nat) (xs : List α) (y : α) :
    maxByKey key (xs ++ [y]) =
      some (match maxByKey key xs with
        | some best => if key best ≤ key y then y else best
        | none => y) := by
  cases xs with
  | nil => rfl
  | cons x xs => simp [maxByKey, List.foldl_append]

/-- **The last of the greatest** is the one that is taken. -/
theorem maxByKey_eq_getLast? {α : Type} (key : α → Nat) (xs : List α) :
    maxByKey key xs = (greatest key xs).getLast? := by
  induction xs using List.reverseRecOn with
  | nil => rfl
  | append_singleton xs y ih =>
      rw [maxByKey_append]
      by_cases hy : ∀ x ∈ xs, key x ≤ key y
      · -- the new element is one of the greatest, and the last
        have hlast : (greatest key (xs ++ [y])).getLast? = some y := by
          unfold greatest
          rw [List.filter_append, List.filter_cons_of_pos (by simpa using hy), List.filter_nil,
            List.getLast?_concat]
        rw [hlast]
        cases hbest : maxByKey key xs with
        | none => rfl
        | some best => simp [hy best (maxByKey_some hbest).1]
      · push Not at hy
        obtain ⟨x, hx, hlt⟩ := hy
        have hsame : greatest key (xs ++ [y]) = greatest key xs := by
          unfold greatest
          rw [List.filter_append]
          have hnew : [y].filter (fun z => (xs ++ [y]).all fun w => key w ≤ key z) = [] := by
            have hsmall : ¬ ∀ w ∈ xs, key w ≤ key y := fun h => absurd (h x hx) (by omega)
            simp [hsmall]
          rw [hnew, List.append_nil]
          refine List.filter_congr fun z hz => ?_
          have hold : (∀ w ∈ xs, key w ≤ key z) → key y ≤ key z := fun h =>
            (Nat.le_of_lt hlt).trans (h x hx)
          simpa using hold
        rw [hsame, ← ih]
        cases hbest : maxByKey key xs with
        | none => exact absurd (maxByKey_none hbest) (List.ne_nil_of_mem hx)
        | some best =>
            have hle := (maxByKey_some hbest).2 x hx
            dsimp only
            rw [if_neg (by omega)]

theorem maxByKey_map {α β : Type} (key : β → Nat) (f : α → β) (xs : List α) :
    maxByKey key (xs.map f) = (maxByKey (key ∘ f) xs).map f := by
  induction xs using List.reverseRecOn with
  | nil => rfl
  | append_singleton xs x ih =>
      rw [List.map_append, List.map_singleton, maxByKey_append, maxByKey_append, ih]
      cases maxByKey (key ∘ f) xs with
      | none => rfl
      | some best =>
          dsimp only [Option.map_some, Function.comp_apply]
          split <;> rfl

/-- The manifests that assess worst. -/
def worst (ms : List Manifest) : List Manifest := greatest (fun m => severity (assess m).status) ms

/-- **The aggregate** is the assessment of the last of the worst. -/
theorem aggregate_eq (ms : List Manifest) :
    ((aggregate ms).status, (aggregate ms).message) =
      ((worst ms).getLast?.map fun m => ((assess m).status, (assess m).message)).getD
        (.healthy, none) := by
  unfold aggregate
  dsimp only
  rw [List.map_map, maxByKey_map, maxByKey_eq_getLast?]
  rfl

theorem severity_injective : Function.Injective severity := by
  intro s t h
  cases s <;> cases t <;> simp_all [severity]

theorem aggregate_status_of_mem {ms : List Manifest} {m : Manifest} (h : m ∈ worst ms) :
    (aggregate ms).status = (assess m).status := by
  have hlast := List.getLast?_eq_some_getLast (List.ne_nil_of_mem h)
  have hagg := congrArg Prod.fst (aggregate_eq ms)
  rw [hlast] at hagg
  -- all of the worst have one severity
  obtain ⟨hm, hle⟩ := mem_greatest.mp h
  obtain ⟨hm', hle'⟩ := mem_greatest.mp (List.getLast_mem (List.ne_nil_of_mem h))
  exact hagg.trans (severity_injective (Nat.le_antisymm (hle _ hm') (hle' _ hm)))

theorem exists_worst {ms : List Manifest} (h : ms ≠ []) : ∃ m, m ∈ worst ms := by
  cases hbest : maxByKey (fun m => severity (assess m).status) ms with
  | none => exact absurd (maxByKey_none hbest) h
  | some best => exact ⟨best, mem_greatest.mpr (maxByKey_some hbest)⟩

/-- The status is the worst in the list, in whatever order, and the message is that of
the first resource that has it. -/
structure FirstWorst (ms : List Manifest) : Prop where
  attained : ms ≠ [] → ∃ m ∈ ms, (aggregate ms).status = (assess m).status
  bound : ∀ m ∈ ms, severity (assess m).status ≤ severity (aggregate ms).status
  order : ∀ ms', ms'.Perm ms → (aggregate ms').status = (aggregate ms).status
  message : (aggregate ms).message = (worst ms).head?.bind fun m => (assess m).message

/--
**When the message is that of the first of the worst.**

For every list of resources the status is the worst there is, in whatever order, and the
message is that of the first resource with this status if and only if the last one has
the same message.
-/
theorem first_worst_iff (ms : List Manifest) : FirstWorst ms ↔
    ((worst ms).head?.bind fun m => (assess m).message)
      = (worst ms).getLast?.bind fun m => (assess m).message := by
  have hmessage : (aggregate ms).message = (worst ms).getLast?.bind fun m => (assess m).message := by
    have hagg := congrArg Prod.snd (aggregate_eq ms)
    cases hlast : (worst ms).getLast? with
    | none =>
        rw [hlast] at hagg
        exact hagg
    | some m =>
        rw [hlast] at hagg
        exact hagg
  constructor
  · intro h
    rw [← h.message, hmessage]
  · intro hsame
    refine ⟨fun hne => ?_, fun m hm => ?_, fun ms' hperm => ?_, ?_⟩
    · obtain ⟨m, hm⟩ := exists_worst hne
      exact ⟨m, (mem_greatest.mp hm).1, aggregate_status_of_mem hm⟩
    · obtain ⟨m', hm'⟩ := exists_worst (List.ne_nil_of_mem hm)
      rw [aggregate_status_of_mem hm']
      exact (mem_greatest.mp hm').2 m hm
    · by_cases hne : ms = []
      · rw [hne, List.perm_nil] at hperm
        rw [hne, hperm]
      · obtain ⟨m, hm⟩ := exists_worst hne
        have hm' : m ∈ worst ms' := by
          obtain ⟨hmem, hle⟩ := mem_greatest.mp hm
          exact mem_greatest.mpr
            ⟨hperm.mem_iff.mpr hmem, fun y hy => hle y (hperm.mem_iff.mp hy)⟩
        rw [aggregate_status_of_mem hm, aggregate_status_of_mem hm']
    · rw [hmessage, hsame]

/-- A job and a pod that have both failed. -/
def failedJob : Manifest :=
  ⟨⟨"batch", "v1", "Job"⟩, "migrate", some "prod", (@ManifestBody.fromValue .ofBits
    (.mapping [(.string "status", .mapping [(.string "conditions", .sequence
      [.mapping [(.string "type", .string "Failed"), (.string "status", .string "True")]])])])).get
    rfl⟩

def failedPod : Manifest :=
  ⟨⟨"", "v1", "Pod"⟩, "web", some "prod", (@ManifestBody.fromValue .ofBits
    (.mapping [(.string "status", .mapping [(.string "phase", .string "Failed")])])).get rfl⟩

/-- With both the message is that of the one that comes last. -/
theorem last_failure_is_reported :
    ¬ FirstWorst [failedPod, failedJob]
    ∧ (aggregate [failedPod, failedJob]).message = some "job failed" := by
  have hmessage : (aggregate [failedPod, failedJob]).message = some "job failed" := by decide
  refine ⟨fun h => ?_, hmessage⟩
  rw [h.message] at hmessage
  exact absurd hmessage (by decide)

/-! ## Seen live -/

/-- A manifest of the resource was returned, and it assesses healthy. -/
def SeenHealthy (returned : List Manifest) (r : ResourceRef) : Prop :=
  ∃ m ∈ returned, ResourceRef.of m = r ∧ (assess m).status = .healthy

/-- What was returned speaks for the resources: it has all of them, or one that is not healthy. -/
def SpeaksFor (returned : List Manifest) (resources : List ResourceRef) : Prop :=
  (∀ r ∈ resources, ∃ m ∈ returned, ResourceRef.of m = r)
    ∨ ∃ m ∈ returned, (assess m).status ≠ .healthy

/-- **Healthy means seen** exactly if what is returned speaks for what is asked for. -/
theorem health_seen_iff {store : ManifestStore} {t : Trace} {resources : List ResourceRef} :
    (appHealthChecker store t resources = .healthy →
      ∀ r ∈ resources, SeenHealthy (store t resources) r)
    ↔ SpeaksFor (store t resources) resources := by
  unfold appHealthChecker assessApp
  rw [aggregate_healthy]
  constructor
  · intro h
    by_cases hall : ∀ m ∈ store t resources, (assess m).status = .healthy
    · refine .inl fun r hr => ?_
      obtain ⟨m, hm, hof, -⟩ := h hall r hr
      exact ⟨m, hm, hof⟩
    · push Not at hall
      exact .inr hall
  · rintro (hcover | ⟨m, hm, hsick⟩) hall r hr
    · obtain ⟨m, hm, hof⟩ := hcover r hr
      exact ⟨m, hm, hof, hall m hm⟩
    · exact absurd (hall m hm) hsick

/-! ## Gates -/

/-- Every call in a trace has been answered by the executor's parts, as they were then. -/
def AnsweredBy (ex : ReconcileExecutor) (pre : Trace) : Call → Prop
  | .apply entry manifest result => result = ex.applier pre entry manifest
  | .health resources status => status = ex.health pre resources

section

variable {ex : ReconcileExecutor} (bodyOf : PlanEntry → Option Manifest)

theorem applyAll_answered (wave : Int) (es : List PlanEntry) {t : Trace}
    (h : Along (AnsweredBy ex) t) : Along (AnsweredBy ex) (applyAll ex wave bodyOf t es).1 := by
  induction es generalizing t with
  | nil => exact h
  | cons e es ih =>
      rw [applyAll]
      cases ha : ex.applier t e (bodyOf e) with
      | error source => exact h.snoc ha.symm
      | ok u => exact ih (h.snoc ha.symm)

theorem awaitHealthy_answered (wave : Int) (resources : List ResourceRef) (n : Nat) {t : Trace}
    (h : Along (AnsweredBy ex) t) :
    Along (AnsweredBy ex) (awaitHealthy ex wave resources n t).1 := by
  have hone : Along (AnsweredBy ex) (t ++ [.health resources (ex.health t resources)]) := h.snoc rfl
  induction n generalizing t with
  | zero =>
      rw [awaitHealthy]
      split <;> exact hone
  | succ n ih =>
      rw [awaitHealthy]
      split
      · exact hone
      · exact ih hone (hone.snoc rfl)

theorem executeWave_answered (g : WaveGroup) {t : Trace} (h : Along (AnsweredBy ex) t) :
    Along (AnsweredBy ex) (executeWave ex bodyOf t g).1 := by
  have hchanges := applyAll_answered bodyOf g.wave g.changed h
  rw [WaveGroup.changed] at hchanges
  unfold executeWave
  dsimp only
  split
  · rename_i hrun
    rw [hrun] at hchanges
    exact hchanges
  · rename_i hrun
    rw [hrun] at hchanges
    split
    · exact hchanges
    · exact awaitHealthy_answered _ _ _ hchanges

theorem executeFrom_answered (done : List Int) (gs : List WaveGroup) {t : Trace}
    (h : Along (AnsweredBy ex) t) : Along (AnsweredBy ex) (executeFrom ex bodyOf done t gs).1 := by
  induction gs generalizing done t with
  | nil => exact h
  | cons g gs ih =>
      have hwave := executeWave_answered bodyOf g h
      rw [executeFrom]
      split
      · rename_i hrun
        rw [hrun] at hwave
        exact hwave
      · rename_i hrun
        rw [hrun] at hwave
        exact ih _ hwave

end

/-- After the calls `pre` a gate that asks for these resources opens. -/
def Opened (t pre : Trace) (resources : List ResourceRef) : Prop :=
  ∃ post, t = pre ++ .health resources .healthy :: post

theorem Opened.append {t pre : Trace} {resources : List ResourceRef} (h : Opened t pre resources)
    (before after : Trace) : Opened (before ++ (t ++ after)) (before ++ pre) resources := by
  obtain ⟨post, rfl⟩ := h
  exact ⟨post ++ after, by simp⟩

/-- A wave with changes has passed through its gate. -/
theorem opened_of_passed {bodyOf : PlanEntry → Option Manifest} {gs : List WaveGroup} {t : Trace}
    (h : PassedAll bodyOf gs t) :
    ∀ g ∈ gs, g.changed ≠ [] → ∃ pre, Opened t pre g.awaited := by
  induction h with
  | nil => simp
  | @cons g gs here rest hpass _ ih =>
      intro w hw hchanged
      rcases List.mem_cons.mp hw with rfl | hw
      · cases hpass with
        | unchanged hnone => exact absurd hnone hchanged
        | @opened polls _ _ =>
            exact ⟨accepted bodyOf w.changed ++ polls, rest, by simp⟩
      · obtain ⟨pre, hopen⟩ := ih w hw hchanged
        have happ := hopen.append here []
        rw [List.append_nil] at happ
        exact ⟨_, happ⟩

/-- An executor whose gates ask the checker. -/
def gatedBy (store : ManifestStore) (ex : ReconcileExecutor) : ReconcileExecutor :=
  { ex with health := appHealthChecker store }

/-- What opened a gate was answered by the store. -/
theorem health_of_opened {store : ManifestStore} {ex : ReconcileExecutor} {p : WavePlan}
    {desired live : List Manifest} {pre : Trace} {resources : List ResourceRef}
    (h : Opened (executeWaves (gatedBy store ex) p desired live).1 pre resources) :
    appHealthChecker store pre resources = .healthy := by
  obtain ⟨post, hsplit⟩ := h
  exact (executeFrom_answered (manifestFor desired live) [] p.waves along_nil pre _ post hsplit).symm

/--
**The readiness gate passes with what was seen** exactly if the store's answers speak for
what was asked: so it is for every list of resources, and so for the gates that open in
a run, through which every wave with changes has to pass before a later one is begun.
-/
theorem gate_seen_iff (store : ManifestStore) :
    (∀ t resources, (appHealthChecker store t resources = .healthy →
        ∀ r ∈ resources, SeenHealthy (store t resources) r)
      ↔ SpeaksFor (store t resources) resources)
    ∧ ∀ (ex : ReconcileExecutor) (p : WavePlan) (desired live : List Manifest),
      ((∀ pre resources, Opened (executeWaves (gatedBy store ex) p desired live).1 pre resources →
          ∀ r ∈ resources, SeenHealthy (store pre resources) r)
        ↔ ∀ pre resources, Opened (executeWaves (gatedBy store ex) p desired live).1 pre resources →
          SpeaksFor (store pre resources) resources)
      ∧ (∀ rep, (executeWaves (gatedBy store ex) p desired live).2 = .ok rep →
        ∀ g ∈ p.waves, g.changed ≠ [] →
          ∃ pre, Opened (executeWaves (gatedBy store ex) p desired live).1 pre g.awaited)
      ∧ ∀ pre e m r post,
        (executeWaves (gatedBy store ex) p desired live).1 = pre ++ .apply e m r :: post →
        ∃ earlier g later, p.waves = earlier ++ g :: later ∧ e ∈ g.changed
          ∧ ∀ w ∈ earlier, w.changed ≠ [] → ∃ pre', Opened pre pre' w.awaited := by
  refine ⟨fun t resources => health_seen_iff, fun ex p desired live => ⟨⟨?_, ?_⟩, ?_, ?_⟩⟩
  · exact fun h pre resources hopen => health_seen_iff.mp fun _ => h pre resources hopen
  · exact fun h pre resources hopen =>
      health_seen_iff.mpr (h pre resources hopen) (health_of_opened hopen)
  · intro rep hok
    exact opened_of_passed (executeWaves_passed hok).2
  · intro pre e m r post hsplit
    obtain ⟨earlier, g, later, passed, before, after, hwaves, hg, hpassed, rfl⟩ :=
      executeWaves_reached hsplit
    refine ⟨earlier, g, later, hwaves, by rw [hg]; simp, fun w hw hchanged => ?_⟩
    obtain ⟨pre', hopen⟩ := opened_of_passed hpassed w hw hchanged
    have happ := hopen.append [] (accepted (manifestFor desired live) before)
    exact ⟨pre', happ⟩

/-! ## An empty answer -/

/-- A resource that is not in the cache yet. -/
def unseen : ResourceRef := ⟨⟨"apps", "v1", "Deployment"⟩, some "app", "web"⟩

/-- **The gate passes with a resource that was not seen.** -/
theorem unseen_passes : ¬ ∀ (store : ManifestStore) (t : Trace) (resources : List ResourceRef),
    appHealthChecker store t resources = .healthy →
    ∀ r ∈ resources, SeenHealthy (store t resources) r := by
  intro h
  obtain ⟨m, hm, -⟩ := h (fun _ _ => []) [] [unseen] rfl unseen (by simp)
  exact absurd hm List.not_mem_nil

end SynchrotronCD.Health
