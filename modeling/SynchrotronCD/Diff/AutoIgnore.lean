import SynchrotronCD.Diff.Ignore

/-!
# Controller-aware auto-ignore

Some controllers write fields of the objects we manage. Their manifests are
parsed into entries: which workload a controller is pointed at, and which paths
it may write there. The cache holds the entries by workload, and the rules for a
workload are those of its entries.

The only entries ever put into a cache are parsed ones (`ScalerCache.Built`).
Every entry found under a workload then names that workload, and carries the
paths of its kind of controller (`ScalerCache.Built.parsed`).
-/

namespace SynchrotronCD

open Lib

/-- Identity of a workload that a controller targets. -/
structure TargetRef where
  gvk : Gvk
  «namespace» : Option String
  name : String
deriving DecidableEq

def TargetRef.fromManifest (m : Manifest) : TargetRef := ⟨m.gvk, m.namespace, m.name⟩

inductive ControllerKind where
  | hpa
  | vpa
  | kedaScaledObject
deriving DecidableEq

/-- One controller's claim on a target's fields. -/
structure ScalerEntry where
  controller : ControllerKind
  target : TargetRef
  /-- Globs of what the controller may write. -/
  ignoredPaths : List String

/-! ## Parsing -/

/-- Read `apiVersion`, `kind` and `name` at `path`; the namespace is the controller's own. -/
def parseScaleTargetRef (body : Value) (path : List String) (defaultNamespace : Option String) :
    Option TargetRef := do
  let cur ← path.foldlM Value.get body
  let apiVersion ← (cur.get "apiVersion").bind Value.asStr
  let kind ← (cur.get "kind").bind Value.asStr
  let name ← (cur.get "name").bind Value.asStr
  some ⟨Gvk.parse apiVersion kind, defaultNamespace, name⟩

def parseHpa (m : Manifest) : Option ScalerEntry :=
  (parseScaleTargetRef m.body.value ["spec", "scaleTargetRef"] m.namespace).map fun target =>
    ⟨.hpa, target, ["spec.replicas"]⟩

/-- A VPA whose `updateMode` is `Off` only recommends; it is skipped. -/
def parseVpa (m : Manifest) : Option ScalerEntry :=
  let updateMode := (((m.body.value.get "spec").bind fun s => s.get "updatePolicy").bind
    fun u => u.get "updateMode").bind Value.asStr
  if updateMode = some "Off" then none
  else
    (parseScaleTargetRef m.body.value ["spec", "targetRef"] m.namespace).map fun target =>
      ⟨.vpa, target, ["spec.template.spec.containers.*.resources"]⟩

def parseKeda (m : Manifest) : Option ScalerEntry :=
  (parseScaleTargetRef m.body.value ["spec", "scaleTargetRef"] m.namespace).map fun target =>
    ⟨.kedaScaledObject, target, ["spec.replicas"]⟩

/-- The entry of a manifest of one of the supported controller kinds. -/
def parseScaler (m : Manifest) : Option ScalerEntry :=
  match m.gvk.group, m.gvk.kind with
  | "autoscaling", "HorizontalPodAutoscaler" => parseHpa m
  | "autoscaling.k8s.io", "VerticalPodAutoscaler" => parseVpa m
  | "keda.sh", "ScaledObject" => parseKeda m
  | _, _ => none

/-- What a kind of controller may write. -/
def ControllerKind.ignoredPath : ControllerKind → String
  | .hpa | .kedaScaledObject => "spec.replicas"
  | .vpa => "spec.template.spec.containers.*.resources"

/-- A parsed entry has the one path of its kind. -/
theorem parseScaler_paths {m : Manifest} {e : ScalerEntry} (h : parseScaler m = some e) :
    e.ignoredPaths = [e.controller.ignoredPath] := by
  unfold parseScaler at h
  split at h
  · obtain ⟨target, -, rfl⟩ := Option.map_eq_some_iff.mp h
    rfl
  · unfold parseVpa at h
    dsimp only at h
    split at h
    · exact absurd h (by simp)
    · obtain ⟨target, -, rfl⟩ := Option.map_eq_some_iff.mp h
      rfl
  · obtain ⟨target, -, rfl⟩ := Option.map_eq_some_iff.mp h
    rfl
  · exact absurd h (by simp)

/-! ## The cache -/

/-- Entries by target. A workload may have several controllers. -/
structure ScalerCache where
  byTarget : HashMap TargetRef (List ScalerEntry)

namespace ScalerCache

def new : ScalerCache := ⟨∅⟩

def entriesFor (me : ScalerCache) (target : TargetRef) : List ScalerEntry :=
  (me.byTarget.lookup target).getD []

def insert (me : ScalerCache) (e : ScalerEntry) : ScalerCache :=
  ⟨me.byTarget.insert e.target (me.entriesFor e.target ++ [e])⟩

/-- Replace the contents. -/
def replaceWith (_me : ScalerCache) (entries : List ScalerEntry) : ScalerCache :=
  entries.foldl insert new

/-- The caches that come about: every entry is one of a scaler manifest. -/
inductive Built : ScalerCache → Prop
  | new : Built new
  | insert {me : ScalerCache} {m : Manifest} {e : ScalerEntry} (built : Built me)
      (parsed : parseScaler m = some e) : Built (me.insert e)
  | replaceWith {me : ScalerCache} {entries : List ScalerEntry} (built : Built me)
      (parsed : ∀ e ∈ entries, ∃ m, parseScaler m = some e) : Built (me.replaceWith entries)

theorem mem_entriesFor_insert {me : ScalerCache} {e e' : ScalerEntry} {target : TargetRef}
    (h : e' ∈ (me.insert e).entriesFor target) :
    e' ∈ me.entriesFor target ∨ e' = e ∧ target = e.target := by
  unfold entriesFor insert at h
  by_cases ht : target = e.target
  · subst ht
    rw [AList.lookup_insert, Option.getD_some, List.mem_append, List.mem_singleton] at h
    rcases h with h | rfl
    · exact Or.inl h
    · exact Or.inr ⟨rfl, rfl⟩
  · rw [AList.lookup_insert_ne ht] at h
    exact Or.inl h

/-- The entries under a target name it, and are those of scaler manifests. -/
def Parsed (me : ScalerCache) : Prop :=
  ∀ target, ∀ e ∈ me.entriesFor target, e.target = target ∧ ∃ m, parseScaler m = some e

theorem parsed_new : Parsed new := by
  intro target e he
  exact absurd he List.not_mem_nil

theorem Parsed.insert {me : ScalerCache} {e : ScalerEntry} (h : me.Parsed)
    (he : ∃ m, parseScaler m = some e) : (me.insert e).Parsed := by
  intro target e' hm
  rcases mem_entriesFor_insert hm with hm | ⟨rfl, rfl⟩
  · exact h target e' hm
  · exact ⟨rfl, he⟩

theorem Parsed.foldl {entries : List ScalerEntry} : ∀ {me : ScalerCache}, me.Parsed →
    (∀ e ∈ entries, ∃ m, parseScaler m = some e) → (entries.foldl ScalerCache.insert me).Parsed := by
  induction entries with
  | nil => intro me h _; exact h
  | cons e entries ih =>
      intro me h he
      exact ih (h.insert (he e List.mem_cons_self)) fun e' hm => he e' (List.mem_cons_of_mem _ hm)

/-- **The entries found under a workload are those of scalers pointed at it.** -/
theorem Built.parsed {me : ScalerCache} (h : me.Built) : me.Parsed := by
  induction h with
  | new => exact parsed_new
  | insert _ parsed ih => exact ih.insert ⟨_, parsed⟩
  | replaceWith _ parsed _ => exact parsed_new.foldl parsed

end ScalerCache

/-! ## The rules for a workload -/

/-- The rules of every controller that is pointed at the workload. -/
def autoIgnoreRulesFor (target : TargetRef) (cache : ScalerCache) : IgnoreRules :=
  let entries := cache.entriesFor target
  if entries.isEmpty then ⟨[]⟩
  else ⟨entries.flatMap fun e => e.ignoredPaths.map .pathGlob⟩

/-- **A change is ignored exactly if a controller pointed at the workload may write its path.** -/
theorem autoIgnore_matches {target : TargetRef} {cache : ScalerCache} {c : Change}
    {live : Manifest} : (autoIgnoreRulesFor target cache).matches c live = true ↔
      ∃ e ∈ cache.entriesFor target, ∃ g ∈ e.ignoredPaths, pathGlobMatches g c.path = true := by
  have hrules : (autoIgnoreRulesFor target cache).rules =
      (cache.entriesFor target).flatMap fun e => e.ignoredPaths.map .pathGlob := by
    unfold autoIgnoreRulesFor
    cases he : cache.entriesFor target <;> rfl
  rw [IgnoreRules.matches_eq_true, hrules]
  refine ⟨?_, ?_⟩
  · intro hex
    obtain ⟨rule, hr, hm⟩ := hex
    obtain ⟨e, he, hr⟩ := List.mem_flatMap.mp hr
    obtain ⟨g, hg, rfl⟩ := List.mem_map.mp hr
    exact ⟨e, he, g, hg, hm⟩
  · intro hex
    obtain ⟨e, he, g, hg, hm⟩ := hex
    exact ⟨.pathGlob g, List.mem_flatMap.mpr ⟨e, he, List.mem_map_of_mem hg⟩, hm⟩

end SynchrotronCD
