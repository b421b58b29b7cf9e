import SynchrotronCD.Diff.AutoIgnore
import SynchrotronCD.Diff.Equivalent
import SynchrotronCD.Diff.Resolve

/-!
# The smart diff pipeline

Normalize the desired manifest by a dry run, compare it with live, drop what
controllers write, drop what the user ignores, and split the rest by field
ownership.

A controller writes a field and everything below it. The rules for it are globs
of the field itself, and the compare goes on inside two mappings or two lists: a
difference inside the resources of a container is reported below them, where no
glob reaches. `covers_iff` says when the rules do cover what the controllers
write, and no more.
-/

namespace SynchrotronCD

open Lib

inductive DryRunError where
  | server (message : String)
  | transport (message : String)
  | decode (message : String)

/-- The pipeline, with the applier that does the dry run. -/
structure SmartDiffPipeline where
  normalize : Manifest → Except DryRunError Manifest
  listMaps : ListMapKeys
  userRules : IgnoreRules
  ownership : FieldOwnershipFilter

/-! ## Controlled fields -/

/-- Element of a list, by index or by key. -/
def PathSegment.IsElement : PathSegment → Prop
  | .field _ => False
  | .index _ | .keyed _ => True

def replicasPath : ValuePath := [.field "spec", .field "replicas"]

/-- `resources` below `e` below the containers of the pod template. -/
def resourcesPath (e : PathSegment) : ValuePath :=
  [.field "spec", .field "template", .field "spec", .field "containers", e, .field "resources"]

/-- The fields that a kind of controller writes, as wholes. -/
def ControllerKind.Controls : ControllerKind → ValuePath → Prop
  | .hpa, q | .kedaScaledObject, q => q = replicasPath
  | .vpa, q => ∃ e, e.IsElement ∧ q = resourcesPath e

/-- `resources` of an entry of a mapping `containers`. -/
def FieldNameResources (p : ValuePath) : Prop := ∃ name, p = resourcesPath (.field name)

section

variable (cache : ScalerCache) (target : TargetRef)

/-- A field that a scaler cached for the target controls. -/
def ControlledField (q : ValuePath) : Prop :=
  ∃ e ∈ cache.entriesFor target, e.controller.Controls q

/-- At or below a controlled field. -/
def Controlled (p : ValuePath) : Prop := ∃ q, ControlledField cache target q ∧ q <+: p

/-- A VPA is cached for the target. -/
def VpaCached : Prop := ∃ e ∈ cache.entriesFor target, e.controller = .vpa

end

theorem replicas_glob {p : ValuePath} :
    pathGlobMatches "spec.replicas" p = true ↔ p = replicasPath := by
  rw [pathGlobMatches_iff,
    show globSegments "spec.replicas" = ["spec".toList, "replicas".toList] from by decide,
    globMatch_name (by decide)]
  refine ⟨?_, ?_⟩
  · intro hex
    obtain ⟨_, rfl, hspec⟩ := hex
    obtain ⟨_, rfl, hend⟩ := (globMatch_name (by decide)).mp hspec
    obtain rfl := List.forall₂_nil_left_iff.mp hend
    rfl
  · rintro rfl
    exact ⟨_, rfl, (globMatch_name (by decide)).mpr ⟨[], rfl, .nil⟩⟩

theorem resources_glob {p : ValuePath} :
    pathGlobMatches "spec.template.spec.containers.*.resources" p = true ↔
      ∃ e, p = resourcesPath e := by
  have below : ∀ {rest : ValuePath}, GlobMatch ["spec".toList, "containers".toList, ['*'],
      "resources".toList] rest ↔
        ∃ e, rest = [.field "spec", .field "containers", e, .field "resources"] := by
    intro rest
    rw [globMatch_name (by decide)]
    refine ⟨?_, ?_⟩
    · intro hex
      obtain ⟨_, rfl, hspec⟩ := hex
      obtain ⟨_, rfl, hcontainers⟩ := (globMatch_name (by decide)).mp hspec
      obtain ⟨e, _, rfl, hstar⟩ := globMatch_star.mp hcontainers
      obtain ⟨_, rfl, hend⟩ := (globMatch_name (by decide)).mp hstar
      obtain rfl := List.forall₂_nil_left_iff.mp hend
      exact ⟨e, rfl⟩
    · intro hex
      obtain ⟨e, rfl⟩ := hex
      have hres := (globMatch_name (by decide : "resources" ≠ "*")).mpr ⟨[], rfl, .nil⟩
      have hstar := globMatch_star.mpr ⟨e, _, rfl, hres⟩
      exact ⟨_, rfl, (globMatch_name (by decide)).mpr ⟨_, rfl, hstar⟩⟩
  rw [pathGlobMatches_iff, show globSegments "spec.template.spec.containers.*.resources" =
    ["spec".toList, "template".toList, "spec".toList, "containers".toList, ['*'],
      "resources".toList] from by decide, globMatch_name (by decide)]
  refine ⟨?_, ?_⟩
  · intro hex
    obtain ⟨_, rfl, hspec⟩ := hex
    obtain ⟨_, rfl, htemplate⟩ := (globMatch_name (by decide)).mp hspec
    obtain ⟨e, rfl⟩ := below.mp htemplate
    exact ⟨e, rfl⟩
  · intro hex
    obtain ⟨e, rfl⟩ := hex
    exact ⟨_, rfl, (globMatch_name (by decide)).mpr ⟨_, rfl, below.mpr ⟨e, rfl⟩⟩⟩

/-- **The glob of a controller matches its fields, and for a VPA the `resources` of entries of
a mapping `containers` as well.** -/
theorem ignoredPath_matches {k : ControllerKind} {p : ValuePath} :
    pathGlobMatches k.ignoredPath p = true ↔ k.Controls p ∨ k = .vpa ∧ FieldNameResources p := by
  cases k with
  | hpa | kedaScaledObject =>
      refine replicas_glob.trans ?_
      simp [ControllerKind.Controls]
  | vpa =>
      refine resources_glob.trans ?_
      refine ⟨?_, ?_⟩
      · intro hex
        obtain ⟨e, rfl⟩ := hex
        cases e with
        | field name => exact Or.inr ⟨rfl, name, rfl⟩
        | index i => exact Or.inl ⟨.index i, trivial, rfl⟩
        | keyed keys => exact Or.inl ⟨.keyed keys, trivial, rfl⟩
      · intro hor
        rcases hor with ⟨e, -, rfl⟩ | ⟨-, name, rfl⟩
        · exact ⟨e, rfl⟩
        · exact ⟨_, rfl⟩

/-- No controlled field is below another one. -/
theorem ControllerKind.Controls.eq_of_prefix {k k' : ControllerKind} {q q' : ValuePath}
    (h : k.Controls q) (h' : k'.Controls q') (hp : q <+: q') : q = q' := by
  have shape : ∀ {k : ControllerKind} {q : ValuePath}, k.Controls q →
      q = replicasPath ∨ ∃ e, q = resourcesPath e := by
    intro k q h
    cases k with
    | hpa | kedaScaledObject => exact Or.inl h
    | vpa =>
        obtain ⟨e, -, rfl⟩ := h
        exact Or.inr ⟨e, rfl⟩
  rcases shape h with rfl | ⟨e, rfl⟩
  · rcases shape h' with rfl | ⟨e', rfl⟩
    · rfl
    · -- `replicas` is no field of the pod template
      exact absurd hp (by simp [replicasPath, resourcesPath])
  · rcases shape h' with rfl | ⟨e', rfl⟩
    · exact absurd hp.length_le (by simp [replicasPath, resourcesPath])
    · exact hp.eq_of_length rfl

/-- `resources` in a mapping `containers` is not under any controlled field. -/
theorem FieldNameResources.not_controlled {cache : ScalerCache} {target : TargetRef}
    {p : ValuePath} (h : FieldNameResources p) : ¬ Controlled cache target p := by
  intro hex
  obtain ⟨q, ⟨e, -, hq⟩, hp⟩ := hex
  obtain ⟨name, rfl⟩ := h
  cases hk : e.controller with
  | hpa | kedaScaledObject =>
      rw [hk] at hq
      obtain rfl : q = replicasPath := hq
      exact absurd hp (by simp [replicasPath, resourcesPath])
  | vpa =>
      rw [hk] at hq
      obtain ⟨seg, hseg, rfl⟩ := hq
      have heq := hp.eq_of_length rfl
      obtain rfl : seg = .field name := by simpa [resourcesPath] using heq
      exact hseg

section

variable {cache : ScalerCache} {target : TargetRef}

/-- **What the rules drop: changes at controlled fields, and with a VPA those at the `resources`
of entries of a mapping `containers`.** -/
theorem autoIgnore_drops (h : cache.Built) {c : Change} {live : Manifest} :
    (autoIgnoreRulesFor target cache).matches c live = true ↔
      ControlledField cache target c.path ∨
        VpaCached cache target ∧ FieldNameResources c.path := by
  have glob : ∀ e ∈ cache.entriesFor target, (∃ g ∈ e.ignoredPaths,
      pathGlobMatches g c.path = true) ↔
        e.controller.Controls c.path ∨ e.controller = .vpa ∧ FieldNameResources c.path := by
    intro e he
    obtain ⟨-, m, hm⟩ := h.parsed target e he
    rw [parseScaler_paths hm, ← ignoredPath_matches]
    simp
  rw [autoIgnore_matches]
  refine ⟨?_, ?_⟩
  · intro hex
    obtain ⟨e, he, hg⟩ := hex
    rcases (glob e he).mp hg with hc | ⟨hv, hf⟩
    · exact Or.inl ⟨e, he, hc⟩
    · exact Or.inr ⟨⟨e, he, hv⟩, hf⟩
  · intro hor
    rcases hor with ⟨e, he, hc⟩ | ⟨⟨e, he, hv⟩, hf⟩
    · exact ⟨e, he, (glob e he).mpr (Or.inl hc)⟩
    · exact ⟨e, he, (glob e he).mpr (Or.inr ⟨hv, hf⟩)⟩

end

/-! ## The run of the pipeline -/

section

variable [FloatText] [YamlText]

namespace SmartDiffPipeline

/-- Run the pipeline for one pair of manifests. -/
def evaluate (me : SmartDiffPipeline) (desired live : Manifest) (scalerCache : ScalerCache) :
    Except DryRunError FilteredDiff := do
  let normalized ← me.normalize desired
  let raw := diff normalized live me.listMaps
  let target := TargetRef.fromManifest live
  let autoRules := autoIgnoreRulesFor target scalerCache
  let afterAuto := autoRules.apply raw live
  let afterUser := me.userRules.apply afterAuto live
  pure (me.ownership.apply afterUser live)

end SmartDiffPipeline

/-- What is left of the diff behind the auto-ignore rules. -/
def afterAuto (listMaps : ListMapKeys) (cache : ScalerCache) (normalized live : Manifest) : Diff :=
  (autoIgnoreRulesFor (TargetRef.fromManifest live) cache).apply (diff normalized live listMaps) live

section

variable {listMaps : ListMapKeys} {cache : ScalerCache} {desired normalized live : Manifest}

theorem SmartDiffPipeline.evaluate_ok {me : SmartDiffPipeline}
    (h : me.normalize desired = .ok normalized) : me.evaluate desired live cache =
      .ok (me.ownership.apply
        (me.userRules.apply (afterAuto me.listMaps cache normalized live) live) live) := by
  unfold evaluate
  rw [h]
  rfl

/-- The pipelines report no drift exactly if nothing is left behind the auto-ignore rules: what
is left is drift where the user ignores nothing and its first owner is us. -/
theorem no_drift_iff : (∀ pipeline : SmartDiffPipeline, pipeline.listMaps = listMaps →
      pipeline.normalize desired = .ok normalized →
      ∃ out, pipeline.evaluate desired live cache = .ok out ∧ out.drift.changes = []) ↔
    (afterAuto listMaps cache normalized live).changes = [] := by
  refine ⟨?_, ?_⟩
  · intro h
    rw [List.eq_nil_iff_forall_not_mem]
    intro c hc
    let me : FieldOwnershipFilter := ⟨(ownerOf c.path live.body.value).getD ""⟩
    obtain ⟨out, hout, hnil⟩ := h ⟨fun _ => .ok normalized, listMaps, ⟨[]⟩, me⟩ rfl rfl
    rw [SmartDiffPipeline.evaluate_ok rfl] at hout
    obtain rfl := Except.ok.inj hout
    have hdrift : me.isDrift live c = true := by
      unfold FieldOwnershipFilter.isDrift
      cases ho : ownerOf c.path live.body.value with
      | none => rfl
      | some m => simp [me, ho]
    have hmem : c ∈ (me.apply ((⟨[]⟩ : IgnoreRules).apply
        (afterAuto listMaps cache normalized live) live) live).drift.changes := by
      rw [FieldOwnershipFilter.apply_eq_filter]
      exact List.mem_filter.mpr ⟨IgnoreRules.mem_apply.mpr ⟨hc, rfl⟩, hdrift⟩
    rw [show (me.apply _ live).drift.changes = [] from hnil] at hmem
    exact absurd hmem List.not_mem_nil
  · rintro h pipeline rfl hnorm
    refine ⟨_, SmartDiffPipeline.evaluate_ok hnorm, ?_⟩
    rw [FieldOwnershipFilter.apply_eq_filter, List.filter_eq_nil_iff]
    intro c hc
    rw [IgnoreRules.mem_apply, h] at hc
    exact absurd hc.1 List.not_mem_nil

end

/-! ## Covering what controllers write -/

section

variable (listMaps : ListMapKeys) (cache : ScalerCache) (normalized live : Manifest)

/-- The bodies, less what the server manages, agree except inside fields that scalers cached
for the workload control. -/
def OnlyControlled : Prop :=
  AgreeExcept normalized.gvk listMaps (Controlled cache (TargetRef.fromManifest live)) .root
    (stripExcluded normalized.body.value) (stripExcluded live.body.value)

/-- The auto-ignore rules cover what controllers write, and nothing else. -/
structure AutoIgnoreCovers (desired : Manifest) : Prop where
  /-- A difference inside controlled fields only is no drift, whatever the pipeline. -/
  no_drift : OnlyControlled listMaps cache normalized live →
    ∀ pipeline : SmartDiffPipeline, pipeline.listMaps = listMaps →
      pipeline.normalize desired = .ok normalized →
      ∃ out, pipeline.evaluate desired live cache = .ok out ∧ out.drift.changes = []
  /-- The rules keep a change that is not inside a controlled field. -/
  keeps : ∀ c ∈ (diff normalized live listMaps).changes,
    ¬ Controlled cache (TargetRef.fromManifest live) c.path →
    c ∈ ((autoIgnoreRulesFor (TargetRef.fromManifest live) cache).apply
      (diff normalized live listMaps) live).changes

/-- The globs reach every difference that they should, and none that they should not. -/
structure GlobsReach : Prop where
  /-- In bodies that differ inside controlled fields only, two mappings or two lists at a
  controlled field agree. -/
  wholes : OnlyControlled listMaps cache normalized live →
    ∀ q x y, SideBySide normalized.gvk listMaps .root (stripExcluded normalized.body.value)
      (stripExcluded live.body.value) q x y →
      ControlledField cache (TargetRef.fromManifest live) q → sameShape x y = true →
      Congruent normalized.gvk listMaps q x y
  /-- With a VPA, the bodies agree at the `resources` of entries of a mapping `containers`. -/
  elements : VpaCached cache (TargetRef.fromManifest live) →
    AgreeExcept normalized.gvk listMaps (fun p => ¬ FieldNameResources p) .root
      (stripExcluded normalized.body.value) (stripExcluded live.body.value)

end

section

variable {listMaps : ListMapKeys} {cache : ScalerCache} {desired normalized live : Manifest}

theorem onlyControlled_iff : OnlyControlled listMaps cache normalized live ↔
    ∀ c ∈ (diff normalized live listMaps).changes,
      Controlled cache (TargetRef.fromManifest live) c.path :=
  agreeExcept_iff _

theorem mem_afterAuto (h : cache.Built) {c : Change} :
    c ∈ (afterAuto listMaps cache normalized live).changes ↔
      c ∈ (diff normalized live listMaps).changes ∧
        ¬ ControlledField cache (TargetRef.fromManifest live) c.path ∧
        ¬ (VpaCached cache (TargetRef.fromManifest live) ∧ FieldNameResources c.path) := by
  rw [afterAuto, IgnoreRules.mem_apply, ← Bool.not_eq_true, autoIgnore_drops h, not_or]

/-- If every change is at a controlled field, what stands side by side at one has no changes
below it. -/
theorem congruent_at_fields (h : ∀ c ∈ (diff normalized live listMaps).changes,
      ControlledField cache (TargetRef.fromManifest live) c.path) {q : ValuePath} {x y : Value}
    (hside : SideBySide normalized.gvk listMaps .root (stripExcluded normalized.body.value)
      (stripExcluded live.body.value) q x y)
    (hfield : ControlledField cache (TargetRef.fromManifest live) q) (hxy : sameShape x y = true) :
    Congruent normalized.gvk listMaps q x y := by
  rw [congruent_iff, List.eq_nil_iff_forall_not_mem]
  intro c hc
  obtain ⟨e, -, hq⟩ := hfield
  obtain ⟨e', -, hc'⟩ := h c (hside.mem hc)
  have hpath : c.path = q := (hq.eq_of_prefix hc' (prefix_of_mem x hc)).symm
  rw [(own_change hc hpath).1] at hxy
  exact absurd hxy (by simp)

/-- The rules drop every controlled change exactly if no controlled field is compared part by
part with a difference. -/
theorem nothing_left_iff (h : cache.Built) (honly : OnlyControlled listMaps cache normalized live) :
    (afterAuto listMaps cache normalized live).changes = [] ↔
      ∀ q x y, SideBySide normalized.gvk listMaps .root (stripExcluded normalized.body.value)
        (stripExcluded live.body.value) q x y →
        ControlledField cache (TargetRef.fromManifest live) q → sameShape x y = true →
        Congruent normalized.gvk listMaps q x y := by
  have hctl := onlyControlled_iff.mp honly
  refine ⟨?_, ?_⟩
  · intro hnil
    -- a change that is dropped, and under a controlled field, is at one
    have hfields : ∀ c ∈ (diff normalized live listMaps).changes,
        ControlledField cache (TargetRef.fromManifest live) c.path := by
      intro c hraw
      by_contra hno
      have hleft : c ∈ (afterAuto listMaps cache normalized live).changes :=
        (mem_afterAuto h).mpr ⟨hraw, hno, fun hf => hf.2.not_controlled (hctl c hraw)⟩
      rw [hnil] at hleft
      exact absurd hleft List.not_mem_nil
    intro q x y
    exact congruent_at_fields hfields
  · intro hwholes
    rw [List.eq_nil_iff_forall_not_mem]
    intro c hc
    obtain ⟨hraw, hno, -⟩ := (mem_afterAuto h).mp hc
    obtain ⟨q, hq, hp⟩ := hctl c hraw
    have hne : q ≠ c.path := fun he => hno (he ▸ hq)
    obtain ⟨x, y, hside, hxy, hmem⟩ := SideBySide.of_mem _ hraw List.nil_prefix hp hne
    rw [congruent_iff.mp (hwholes q x y hside hq hxy)] at hmem
    exact absurd hmem List.not_mem_nil

/--
**Auto-ignore covers what controllers write, and nothing else, exactly if the
globs reach.**
-/
theorem covers_iff (h : cache.Built) : AutoIgnoreCovers listMaps cache normalized live desired ↔
    GlobsReach listMaps cache normalized live := by
  refine ⟨?_, ?_⟩
  · intro hcov
    refine ⟨?_, ?_⟩
    · intro honly
      exact (nothing_left_iff h honly).mp (no_drift_iff.mp (hcov.no_drift honly))
    · intro hvpa
      refine (agreeExcept_iff _).mpr fun c hc hf => ?_
      -- the rules drop the change, though no controlled field is above it
      have hkept := hcov.keeps c hc hf.not_controlled
      exact ((mem_afterAuto h).mp hkept).2.2 ⟨hvpa, hf⟩
  · intro hreach
    refine ⟨?_, ?_⟩
    · intro honly
      exact no_drift_iff.mpr ((nothing_left_iff h honly).mpr (hreach.wholes honly))
    · intro c hc hno
      refine (mem_afterAuto h).mpr ⟨hc, ?_, ?_⟩
      · exact fun hf => hno ⟨c.path, hf, List.prefix_rfl⟩
      · intro hboth
        obtain ⟨hvpa, hf⟩ := hboth
        exact (agreeExcept_iff _).mp (hreach.elements hvpa) c hc hf

end

end

/-! ## A replica count, and resources one level down -/

/-- A manifest in the namespace `prod` with this `spec`. -/
def prodManifest (gvk : Gvk) (name : String) (spec : Value)
    (h : (@ManifestBody.fromValue .ofBits (.mapping [(.string "spec", spec)])).isSome = true) :
    Manifest :=
  ⟨gvk, name, some "prod", (@ManifestBody.fromValue .ofBits _).get h⟩

/-- A reference to the Deployment `web`. -/
def webRef : Value :=
  .mapping [(.string "apiVersion", .string "apps/v1"), (.string "kind", .string "Deployment"),
    (.string "name", .string "web")]

def webHpa : Manifest :=
  prodManifest ⟨"autoscaling", "v2", "HorizontalPodAutoscaler"⟩ "web-hpa"
    (.mapping [(.string "scaleTargetRef", webRef)]) rfl

def webVpa : Manifest :=
  prodManifest ⟨"autoscaling.k8s.io", "v1", "VerticalPodAutoscaler"⟩ "web-vpa"
    (.mapping [(.string "targetRef", webRef)]) rfl

/-- The cache with the entry of one scaler. -/
def cacheOf (m : Manifest) (h : (parseScaler m).isSome = true) : ScalerCache :=
  ScalerCache.new.insert ((parseScaler m).get h)

theorem cacheOf_built {m : Manifest} {h : (parseScaler m).isSome = true} : (cacheOf m h).Built :=
  .insert .new (Option.some_get h).symm

theorem mem_cacheOf {m : Manifest} {h : (parseScaler m).isSome = true} {target : TargetRef}
    {e : ScalerEntry} (he : e ∈ (cacheOf m h).entriesFor target) : e = (parseScaler m).get h := by
  rcases ScalerCache.mem_entriesFor_insert he with hnew | ⟨heq, -⟩
  · exact absurd hnew List.not_mem_nil
  · exact heq

/-- The Deployment `web` with a replica count. -/
def webReplicas (n : UInt64) : Manifest :=
  prodManifest ⟨"apps", "v1", "Deployment"⟩ "web"
    (.mapping [(.string "replicas", .number (.posInt n))]) rfl

/-- An HPA has scaled the workload. -/
theorem covers_replicas : @AutoIgnoreCovers .ofBits .sample .defaults (cacheOf webHpa (by decide))
    (webReplicas 1) (webReplicas 5) (webReplicas 1) := by
  have hfields : ∀ c ∈ (@diff .ofBits .sample (webReplicas 1) (webReplicas 5) .defaults).changes,
      ControlledField (cacheOf webHpa (by decide)) (TargetRef.fromManifest (webReplicas 5))
        c.path := by
    have hpaths : ∀ c ∈ (@diff .ofBits .sample (webReplicas 1) (webReplicas 5) .defaults).changes,
        c.path = replicasPath := by decide
    intro c hc
    rw [hpaths c hc]
    exact ⟨_, List.mem_singleton_self _, rfl⟩
  refine (@covers_iff .ofBits .sample _ _ _ _ _ cacheOf_built).mpr
    (@GlobsReach.mk .ofBits .sample _ _ _ _ ?_ ?_)
  · intro _ q x y
    exact @congruent_at_fields .ofBits .sample _ _ _ _ hfields q x y
  · intro hex
    obtain ⟨e, he, hv⟩ := hex
    rw [mem_cacheOf he] at hv
    exact absurd hv (by decide)

/-- The Deployment `web` with one container, and a CPU request for it. -/
def webRequests (cpu : String) : Manifest :=
  prodManifest ⟨"apps", "v1", "Deployment"⟩ "web"
    (.mapping [(.string "template", .mapping [(.string "spec", .mapping [(.string "containers",
      .sequence [.mapping [(.string "name", .string "app"), (.string "resources",
        .mapping [(.string "requests", .mapping [(.string "cpu", .string cpu)])])]])])])]) rfl

/-- The same with a mapping for the list of containers, and its `resources` or not. -/
def webMapping (fields : List (Value × Value))
    (h : (@ManifestBody.fromValue .ofBits (.mapping [(.string "spec", .mapping [(.string "template",
      .mapping [(.string "spec", .mapping [(.string "containers",
        .mapping [(.string "app", .mapping fields)])])])])])).isSome = true) : Manifest :=
  prodManifest ⟨"apps", "v1", "Deployment"⟩ "web" _ h

/-- A pipeline whose applier returns what it is given. -/
def identityPipeline : SmartDiffPipeline := ⟨.ok, .defaults, ⟨[]⟩, ⟨"synchrotron-cd"⟩⟩

/-- With a VPA, a CPU request that it has changed is drift: the change is reported two levels
below `resources`. And where `containers` is a mapping, the change of `resources` is dropped. -/
theorem requests_are_drift :
    (cacheOf webVpa (by decide)).Built ∧
    ((@SmartDiffPipeline.evaluate .ofBits .sample identityPipeline (webRequests "1")
      (webRequests "2") (cacheOf webVpa (by decide))).map fun out => out.drift.changes.map
        Change.path) = .ok [resourcesPath (.keyed [("name", "app")]) ++
          [.field "requests", .field "cpu"]] ∧
    ¬ @AutoIgnoreCovers .ofBits .sample .defaults (cacheOf webVpa (by decide))
      (webRequests "1") (webRequests "2") (webRequests "1") ∧
    ¬ @AutoIgnoreCovers .ofBits .sample .defaults (cacheOf webVpa (by decide))
      (webMapping [] rfl) (webMapping [(.string "resources", .mapping [])] rfl)
      (webMapping [] rfl) := by
  refine ⟨cacheOf_built, rfl, ?_, ?_⟩
  · intro hboth
    obtain ⟨hdrift, -⟩ := hboth
    have hbelow : ∀ c ∈ (@diff .ofBits .sample (webRequests "1") (webRequests "2")
        .defaults).changes, resourcesPath (.keyed [("name", "app")]) <+: c.path := by decide
    have honly := (@onlyControlled_iff .ofBits .sample .defaults (cacheOf webVpa (by decide))
      (webRequests "1") (webRequests "2")).mpr fun c hc =>
        ⟨_, ⟨_, List.mem_singleton_self _, .keyed [("name", "app")], trivial, rfl⟩, hbelow c hc⟩
    have hnil := (@no_drift_iff .ofBits .sample _ _ _ _ _).mp (hdrift honly)
    exact absurd (congrArg List.length hnil) (by decide)
  · intro hboth
    obtain ⟨-, hkeeps⟩ := hboth
    have hpaths : ∀ c ∈ (@diff .ofBits .sample (webMapping [] rfl)
        (webMapping [(.string "resources", .mapping [])] rfl) .defaults).changes,
        c.path = resourcesPath (.field "app") := by decide
    have hne : (@diff .ofBits .sample (webMapping [] rfl)
        (webMapping [(.string "resources", .mapping [])] rfl) .defaults).changes ≠ [] :=
      fun hnil => absurd (congrArg List.length hnil) (by decide)
    obtain ⟨c, hc⟩ := List.exists_mem_of_ne_nil _ hne
    have hf : FieldNameResources c.path := ⟨_, hpaths c hc⟩
    have hkept := hkeeps c hc hf.not_controlled
    exact ((@mem_afterAuto .ofBits .sample _ _ _ _ cacheOf_built _).mp hkept).2.2
      ⟨⟨_, List.mem_singleton_self _, rfl⟩, hf⟩

end SynchrotronCD
