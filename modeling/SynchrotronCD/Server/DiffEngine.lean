import SynchrotronCD.Diff.Equivalent
import SynchrotronCD.Plugins.RoundTrip
import SynchrotronCD.Reconcile.PlanSpec
import SynchrotronCD.Reconcile.Reconcile

/-!
# The diff endpoint

The server's answer to what a sync would do has two layers. The planner says which
resources would be applied or deleted, and for those that are on both sides the
structural differ says which fields differ.

The layers compare differently. The planner compares whole bodies, by the hash of
their texts and then by value; the differ leaves out what the server manages and goes
by keys, not by order. They agree on a resource unless its bodies differ only in what
the differ does not look at, or have one text and are different values
(`planner_differ_agree_iff`).
-/

namespace SynchrotronCD

open Lib

/-! ## Rendering -/

/-- A member put into `serde_json`'s map: in key order, in place of one with its key. -/
def insertMember (k : String) (v : Value.Doc) : List (String × Value.Doc) → List (String × Value.Doc)
  | [] => [(k, v)]
  | (k', v') :: rest =>
    if k = k' then (k, v) :: rest
    else if k < k' then (k, v) :: (k', v') :: rest
    else (k', v') :: insertMember k v rest

mutual

/-- A document as a `serde_json::Value`: its objects are maps. -/
def toMaps : Value.Doc → Value.Doc
  | .arr xs => .arr (elemsToMaps xs)
  | .obj kvs => .obj (membersToMap kvs [])
  | v => v

def elemsToMaps : List Value.Doc → List Value.Doc
  | [] => []
  | x :: xs => toMaps x :: elemsToMaps xs

def membersToMap : List (String × Value.Doc) → List (String × Value.Doc) → List (String × Value.Doc)
  | [], map => map
  | (k, v) :: kvs, map => membersToMap kvs (insertMember k (toMaps v) map)

end

/-- One segment of a path; a field behind the first segment is set off by a dot. -/
def PathSegment.display (first : Bool) : PathSegment → String
  | .field name => if first then name else "." ++ name
  | .index i => "[" ++ toString i ++ "]"
  | .keyed keys => "[" ++ ",".intercalate (keys.map fun k => k.1 ++ "=" ++ k.2) ++ "]"

/-- `Display` for paths. -/
def ValuePath.display : ValuePath → String
  | [] => "."
  | seg :: rest => seg.display true ++ String.join (rest.map (PathSegment.display false))

/-- One leaf-level change inside a resource body. -/
structure FieldChange where
  op : String
  path : String
  desired : Option Value.Doc
  live : Option Value.Doc

/-- Per-resource diff entry. -/
structure DiffEntry where
  group : String
  version : String
  kind : String
  «namespace» : Option String
  name : String
  /-- `"apply"`, `"delete"` or `"noop"`. -/
  action : String
  changes : List FieldChange

def DiffEntry.ref (e : DiffEntry) : ResourceRef := ⟨⟨e.group, e.version, e.kind⟩, e.namespace, e.name⟩

def actionStr : PlannedAction → String
  | .apply => "apply"
  | .delete => "delete"
  | .noOp => "noop"

theorem actionStr_eq_apply {a : PlannedAction} : actionStr a = "apply" ↔ a = .apply := by
  cases a <;> simp [actionStr]

inductive DiffEngineError where
  | appNotInCache (app : AppName)
  | clusterNotAvailable (cluster : ClusterName)
  | desiredFetch (reason : String)
  | liveFetch (reason : String)
deriving DecidableEq, Repr

/-- The first manifest of a reference. -/
def findManifest (set : List Manifest) (r : ResourceRef) : Option Manifest :=
  set.find? fun m => m.gvk = r.gvk ∧ m.namespace = r.namespace ∧ m.name = r.name

/-- The planner and the differ over the reconciler's two sources. -/
structure PlannerDiffEngine where
  desired : AppName → Except SourceError (List Manifest)
  live : AppName → ClusterName → Except SourceError (List Manifest)
  listMaps : ListMapKeys

/-- The plan's entry for a reference that stands once on each side. -/
theorem action_of_pair {desired live : List Manifest} (hd : (desired.map ResourceRef.of).Nodup)
    (hl : (live.map ResourceRef.of).Nodup) {d l : Manifest} (hdm : d ∈ desired) (hlm : l ∈ live)
    (href : ResourceRef.of l = ResourceRef.of d) {entry : PlanEntry}
    (hres : entry.resource = ResourceRef.of d) :
    entry ∈ (plan desired live).entries ↔
      entry.action = if manifestBodiesEqual d l then .noOp else .apply := by
  have hlast : lastOf desired (ResourceRef.of d) = some d :=
    (lastOf_eq_some_iff hd).mpr ⟨hdm, rfl⟩
  have hlast' : lastOf live (ResourceRef.of d) = some l :=
    (lastOf_eq_some_iff hl).mpr ⟨hlm, href⟩
  rw [mem_plan_iff_intended, hres, intendedAction, hlast, hlast']
  dsimp only
  rw [← apply_ite some, Option.some.injEq, eq_comm]

section

variable [FloatText]

def yamlToJson (v : Value) : Option Value.Doc := v.toJson.map toMaps

def renderChanges (changes : List Change) : List FieldChange :=
  changes.map fun
    | .added path desired => ⟨"added", path.display, yamlToJson desired, none⟩
    | .removed path live => ⟨"removed", path.display, none, yamlToJson live⟩
    | .modified path desired live =>
      ⟨"modified", path.display, yamlToJson desired, yamlToJson live⟩

variable [YamlText]

/-- The entry for one entry of the plan. A create has no live side to compare with. -/
def diffEntry (desired live : List Manifest) (listMaps : ListMapKeys) (entry : PlanEntry) :
    DiffEntry where
  group := entry.resource.gvk.group
  version := entry.resource.gvk.version
  kind := entry.resource.gvk.kind
  «namespace» := entry.resource.namespace
  name := entry.resource.name
  action := actionStr entry.action
  changes := match entry.action with
    | .apply =>
      match findManifest desired entry.resource, findManifest live entry.resource with
      | some d, some l => renderChanges (diff d l listMaps).changes
      | _, _ => []
    | .delete | .noOp => []

def PlannerDiffEngine.compute (engine : PlannerDiffEngine) (app : AppName) (cluster : ClusterName) :
    Except DiffEngineError (List DiffEntry) :=
  match engine.desired app with
  | .error .notFound => .error (.appNotInCache app)
  | .error (.unavailable reason) => .error (.desiredFetch reason)
  | .ok desired =>
    match engine.live app cluster with
    | .error .notFound => .error (.clusterNotAvailable cluster)
    | .error (.unavailable reason) => .error (.liveFetch reason)
    | .ok live => .ok ((plan desired live).entries.map (diffEntry desired live engine.listMaps))

/-! ## Where the layers agree -/

/-- The entry says `apply` exactly if the differ has a change to report. -/
def LayersAgree (listMaps : ListMapKeys) (e : DiffEntry) (d l : Manifest) : Prop :=
  e.action = "apply" ↔ (diff d l listMaps).changes ≠ []

/-- The bodies are unequal, and the compare sees no difference: it is in fields the server
manages, in the order of keys, or in the order of a list-map. -/
def UnequalUnseen (listMaps : ListMapKeys) (d l : Manifest) : Prop :=
  manifestBodiesEqual d l = false ∧ Congruent d.gvk listMaps .root (stripExcluded d.body.value)
    (stripExcluded l.body.value)

/-- The bodies are equal by their texts, or by their hash and values, and the compare sees a
difference. -/
def EqualButApart (listMaps : ListMapKeys) (d l : Manifest) : Prop :=
  manifestBodiesEqual d l = true ∧ ¬Congruent d.gvk listMaps .root (stripExcluded d.body.value)
    (stripExcluded l.body.value)

theorem ref_diffEntry (desired live : List Manifest) (listMaps : ListMapKeys) (entry : PlanEntry) :
    (diffEntry desired live listMaps entry).ref = entry.resource := rfl

theorem changes_eq_nil {d l : Manifest} {listMaps : ListMapKeys} :
    (diff d l listMaps).changes = [] ↔ Congruent d.gvk listMaps .root
      (stripExcluded d.body.value) (stripExcluded l.body.value) := by
  rw [congruent_iff]
  rfl

/-- On a pair of manifests, the layers agree unless the pair is of one of the two kinds. -/
theorem layersAgree_iff {listMaps : ListMapKeys} {e : DiffEntry} {d l : Manifest}
    (he : e.action = "apply" ↔ manifestBodiesEqual d l = false) :
    LayersAgree listMaps e d l ↔ ¬UnequalUnseen listMaps d l ∧ ¬EqualButApart listMaps d l := by
  rw [LayersAgree, he, ne_eq, changes_eq_nil, UnequalUnseen, EqualButApart]
  cases manifestBodiesEqual d l <;> simp

/--
**When the planner and the differ agree.**

For desired and live manifests without a repeated reference: every entry computed for a
resource on both sides says `apply` exactly if the differ reports a change, if and only if
no resource has bodies that are unequal with no difference to be seen, or equal with one.
-/
theorem planner_differ_agree_iff (engine : PlannerDiffEngine) (app : AppName)
    (cluster : ClusterName) {desired live : List Manifest} (hdesired : engine.desired app = .ok desired)
    (hlive : engine.live app cluster = .ok live) (hd : (desired.map ResourceRef.of).Nodup)
    (hl : (live.map ResourceRef.of).Nodup) :
    (∃ entries, engine.compute app cluster = .ok entries ∧
      ∀ e ∈ entries, ∀ d ∈ desired, ∀ l ∈ live, ResourceRef.of d = e.ref → ResourceRef.of l = e.ref →
        LayersAgree engine.listMaps e d l) ↔
      ∀ d ∈ desired, ∀ l ∈ live, ResourceRef.of l = ResourceRef.of d →
        ¬UnequalUnseen engine.listMaps d l ∧ ¬EqualButApart engine.listMaps d l := by
  have hcompute : engine.compute app cluster
      = .ok ((plan desired live).entries.map (diffEntry desired live engine.listMaps)) := by
    simp only [PlannerDiffEngine.compute, hdesired, hlive]
  have haction : ∀ d ∈ desired, ∀ l ∈ live, ResourceRef.of l = ResourceRef.of d →
      ∀ entry ∈ (plan desired live).entries, entry.resource = ResourceRef.of d →
        ((diffEntry desired live engine.listMaps entry).action = "apply" ↔
          manifestBodiesEqual d l = false) := by
    intro d hdm l hlm href entry hentry hres
    have hact := (action_of_pair hd hl hdm hlm href hres).mp hentry
    refine actionStr_eq_apply.trans ?_
    rw [hact]
    cases manifestBodiesEqual d l <;> simp
  rw [hcompute]
  refine ⟨?_, fun h => ⟨_, rfl, ?_⟩⟩
  · rintro ⟨entries, hok, h⟩ d hdm l hlm href
    obtain rfl := Except.ok.inj hok
    -- the plan has an entry for the pair
    have hmem : ⟨ResourceRef.of d, if manifestBodiesEqual d l then .noOp else .apply⟩
        ∈ (plan desired live).entries := (action_of_pair hd hl hdm hlm href rfl).mpr rfl
    have hagree := h _ (List.mem_map_of_mem hmem) d hdm l hlm rfl href
    exact (layersAgree_iff (haction d hdm l hlm href _ hmem rfl)).mp hagree
  · intro e he d hdm l hlm hde hle
    obtain ⟨entry, hentry, rfl⟩ := List.mem_map.mp he
    rw [ref_diffEntry] at hde hle
    have href : ResourceRef.of l = ResourceRef.of d := hle.trans hde.symm
    exact (layersAgree_iff (haction d hdm l hlm href entry hentry hde.symm)).mpr
      (h d hdm l hlm href)

/-- Bodies that were built from values JSON can express, and have one text, are not apart. -/
theorem congruent_of_text {listMaps : ListMapKeys} {d l : Manifest}
    (hd : ManifestBody.fromValue d.body.value = some d.body)
    (hl : ManifestBody.fromValue l.body.value = some l.body)
    (hcd : d.body.value.jsonCompatible = true) (hcl : l.body.value.jsonCompatible = true)
    (htext : d.body.bytes = l.body.bytes) :
    ¬EqualButApart listMaps d l := by
  rintro ⟨-, hnot⟩
  have hdv := (ManifestBody.fromValue_spec hd).1
  have hlv := (ManifestBody.fromValue_spec hl).1
  have hvalue : d.body.value = l.body.value :=
    ManifestBody.toVec_inj hcd hcl (by rw [hdv, hlv, htext])
  rw [← hvalue] at hnot
  exact hnot (Congruent.refl (Value.stringKeyed_of_compatible _ hcd).plain.strip)

end

/-- The body of a config map, as it is in git. -/
def cacheInGit : Value :=
  .mapping [(.string "apiVersion", .string "v1"), (.string "kind", .string "ConfigMap"),
    (.string "metadata", .mapping [(.string "name", .string "cache")])]

/-- The same as the API server returns it. -/
def cacheInCluster : Value :=
  .mapping [(.string "apiVersion", .string "v1"), (.string "kind", .string "ConfigMap"),
    (.string "metadata", .mapping [(.string "name", .string "cache"),
      (.string "resourceVersion", .string "1")])]

/-- The config map with one of the bodies. -/
def cacheWith (v : Value) : Manifest :=
  let bytes := (@ManifestBody.toVec .ofBits v).getD []
  ⟨⟨"", "v1", "ConfigMap"⟩, "cache", none, ⟨bytes, fnv1a64 bytes, v, rfl⟩⟩

theorem ref_cacheWith (v : Value) :
    ResourceRef.of (cacheWith v) = ⟨⟨"", "v1", "ConfigMap"⟩, none, "cache"⟩ := rfl

/-- A config map with one setting. -/
def settingsWith (mode : String) : Manifest :=
  let v : Value := .mapping [(.string "apiVersion", .string "v1"), (.string "kind", .string "ConfigMap"),
    (.string "metadata", .mapping [(.string "name", .string "settings")]),
    (.string "data", .mapping [(.string "mode", .string mode)])]
  let bytes := (@ManifestBody.toVec .ofBits v).getD []
  ⟨⟨"", "v1", "ConfigMap"⟩, "settings", none, ⟨bytes, fnv1a64 bytes, v, rfl⟩⟩

theorem ref_settingsWith (mode : String) :
    ResourceRef.of (settingsWith mode) = ⟨⟨"", "v1", "ConfigMap"⟩, none, "settings"⟩ := rfl

/-- One config map is as in git, the other is not. -/
theorem planner_differ_agree_iff_settings :
    let desired := [cacheWith cacheInGit, settingsWith "fast"]
    let live := [settingsWith "slow", cacheWith cacheInGit]
    let engine : PlannerDiffEngine := ⟨fun _ => .ok desired, fun _ _ => .ok live, .new⟩
    (∃ entries, @PlannerDiffEngine.compute .ofBits .sample engine "app" "prod" = .ok entries
      ∧ ∀ e ∈ entries, ∀ d ∈ desired, ∀ l ∈ live,
        ResourceRef.of d = e.ref → ResourceRef.of l = e.ref →
          @LayersAgree .ofBits .sample .new e d l) ↔
      ∀ d ∈ desired, ∀ l ∈ live, ResourceRef.of l = ResourceRef.of d →
        ¬@UnequalUnseen .ofBits .sample .new d l ∧ ¬@EqualButApart .ofBits .sample .new d l := by
  intro desired live engine
  have hne : ResourceRef.of (cacheWith cacheInGit) ≠ ResourceRef.of (settingsWith "fast") := by
    rw [ref_cacheWith, ref_settingsWith]
    decide
  have hne' : ResourceRef.of (settingsWith "slow") ≠ ResourceRef.of (cacheWith cacheInGit) := by
    rw [ref_cacheWith, ref_settingsWith]
    decide
  exact @planner_differ_agree_iff .ofBits .sample engine "app" "prod" desired live rfl rfl
    (List.nodup_cons.mpr ⟨by simpa using hne, List.nodup_singleton _⟩)
    (List.nodup_cons.mpr ⟨by simpa using hne', List.nodup_singleton _⟩)

/-- A live config map with nothing but a resource version more than the one in git: the planner
applies it, and the differ has nothing to report. -/
theorem planner_differ_resourceVersion :
    ¬∃ entries, @PlannerDiffEngine.compute .ofBits .sample
        ⟨fun _ => .ok [cacheWith cacheInGit], fun _ _ => .ok [cacheWith cacheInCluster], .new⟩ "app"
          "prod" = .ok entries
      ∧ ∀ e ∈ entries, ∀ d ∈ [cacheWith cacheInGit], ∀ l ∈ [cacheWith cacheInCluster],
        ResourceRef.of d = e.ref → ResourceRef.of l = e.ref →
          @LayersAgree .ofBits .sample .new e d l := by
  rintro ⟨entries, hok, h⟩
  obtain rfl := Except.ok.inj hok
  have hbodies : manifestBodiesEqual (cacheWith cacheInGit) (cacheWith cacheInCluster) = false := by
    decide +kernel
  have hone : ∀ v, ([cacheWith v].map ResourceRef.of).Nodup := fun v => List.nodup_singleton _
  have href : ResourceRef.of (cacheWith cacheInCluster) = ResourceRef.of (cacheWith cacheInGit) := by
    rw [ref_cacheWith, ref_cacheWith]
  have hentry : ⟨ResourceRef.of (cacheWith cacheInGit), .apply⟩ ∈
      (plan [cacheWith cacheInGit] [cacheWith cacheInCluster]).entries := by
    rw [action_of_pair (hone _) (hone _) (List.mem_singleton_self _) (List.mem_singleton_self _)
      href rfl, hbodies]
    rfl
  have hagree := h _ (List.mem_map_of_mem hentry) _ (List.mem_singleton_self _) _
    (List.mem_singleton_self _) rfl href
  have hsame : @Congruent .ofBits .sample ⟨"", "v1", "ConfigMap"⟩ .new .root
      (stripExcluded cacheInGit) (stripExcluded cacheInCluster) := by
    have hstrip : stripExcluded cacheInCluster = stripExcluded cacheInGit := by rfl
    have hplain : cacheInGit.Plain :=
      (Value.stringKeyed_of_compatible cacheInGit (by decide)).plain
    rw [hstrip]
    exact @Congruent.refl .ofBits .sample _ _ _ _ hplain.strip
  exact hagree.mp rfl ((@changes_eq_nil .ofBits .sample _ _ _).mpr hsame)

end SynchrotronCD
