import SynchrotronCD.Kube.HookRunner
import SynchrotronCD.Lib.Columns
import SynchrotronCD.Plugins.Helm
import SynchrotronCD.Plugins.Kustomize
import SynchrotronCD.Server.Pipeline

/-!
# Plugin parameters on their way to a plugin

An application gives its plugin names with values, both texts. The server makes an
object of them, with a string for each value, and the plugin deserialises its own
parameters from that object. A field that is a flag, a list or a map cannot be
deserialised from a string, so it can only have its default (`expressible_iff`).
-/

namespace SynchrotronCD

open Lib
open Db (PluginParam PluginRef)

/-! ## Deserialising a struct -/

namespace Serde

/-- A field with `#[serde(default)]`. -/
def field {α : Type} (default : α) (decode : Value.Doc → Option α) (d : Value.Doc) (key : String) :
    Option α :=
  match d.get key with
  | none => some default
  | some v => decode v

def required {α : Type} (decode : Value.Doc → Option α) (d : Value.Doc) (key : String) : Option α :=
  (d.get key).bind decode

/-- `Option<String>`. -/
def optionalString : Value.Doc → Option (Option String)
  | .null => some none
  | .str s => some (some s)
  | .bool _ | .num _ | .arr _ | .obj _ => none

/-- `Vec<String>`. -/
def strings : Value.Doc → Option (List String)
  | .arr xs => xs.mapM Value.Doc.asStr
  | .null | .bool _ | .num _ | .str _ | .obj _ => none

/-- `BTreeMap<String, String>`, from an object that is sorted by its keys. -/
def stringMap : Value.Doc → Option (List (String × String))
  | .obj kvs => kvs.mapM fun kv => (Value.Doc.asStr kv.2).map (Prod.mk kv.1)
  | .null | .bool _ | .num _ | .str _ | .arr _ => none

def bool : Value.Doc → Option Bool
  | .bool b => some b
  | .null | .num _ | .str _ | .arr _ | .obj _ => none

end Serde

open Serde

/-- `RenderParams` of the Helm plugin, from an object; a field it does not know is ignored. -/
def Helm.RenderParams.ofObject (d : Value.Doc) : Option Helm.RenderParams := do
  let releaseName ← required Value.Doc.asStr d "release_name"
  let chartPath ← field none optionalString d "chart_path"
  let releaseNamespace ← field none optionalString d "namespace"
  let valuesFiles ← field [] strings d "values_files"
  let setValues ← field [] stringMap d "set_values"
  let dependencyUpdate ← field false bool d "dependency_update"
  return ⟨releaseName, chartPath, releaseNamespace, valuesFiles, setValues, dependencyUpdate⟩

/-- `RenderParams` of the Kustomize plugin, from an object. -/
def Kustomize.RenderParams.ofObject (d : Value.Doc) : Option Kustomize.RenderParams := do
  let path ← field none optionalString d "path"
  let allowRemoteBases ← field false bool d "allow_remote_bases"
  let remoteBaseAllowlist ← field [] strings d "remote_base_allowlist"
  let enableHelm ← field false bool d "enable_helm"
  return ⟨path, allowRemoteBases, remoteBaseAllowlist, enableHelm⟩

/-! ## The object the server builds -/

namespace Db.Pipeline

theorem get_insertMember (key : String) (v : Value.Doc) (kvs : List (String × Value.Doc))
    (k : String) : Value.Doc.get (.obj (insertMember key v kvs)) k
      = (if key = k then some v else none).or (Value.Doc.get (.obj kvs) k) := by
  unfold Value.Doc.get
  induction kvs with
  | nil =>
      by_cases h : key = k
      · simp [insertMember, h]
      · simp [insertMember, h, Ne.symm h]
  | cons p kvs ih =>
      obtain ⟨k', x⟩ := p
      by_cases h : key = k
      · subst h
        rw [if_pos rfl] at ih ⊢
        by_cases hk : key = k'
        · simp [insertMember, hk]
        · by_cases hlt : key < k'
          · simp [insertMember, hk, hlt]
          · simpa [insertMember, hk, hlt] using ih
      · rw [if_neg h] at ih ⊢
        by_cases hk : key = k'
        · subst hk
          simp [insertMember, Ne.symm h]
        · by_cases hlt : key < k'
          · simp [insertMember, hk, hlt, Ne.symm h]
          · by_cases hkk : k = k'
            · simp [insertMember, hk, hlt, hkk]
            · simpa [insertMember, hk, hlt, hkk] using ih

/-- The value that a parameter gives to a name. -/
def paramNamed (key : String) (kv : PluginParam) : Option Value.Doc :=
  if kv.name = key then some (.str kv.value) else none

/-- **The object has the last value of each name, as a string.** -/
theorem get_pluginParams (p : PluginRef) (key : String) :
    (pluginParams (some p)).get key = lastWrite (paramNamed key) p.parameters := by
  have hcolumn := @exec_optionColumn _ _ _ (fun map kv => insertMember kv.name (.str kv.value) map)
    (fun map => Value.Doc.get (.obj map) key) (paramNamed key)
    (fun map kv => get_insertMember kv.name (.str kv.value) map key) [] p.parameters
  exact hcolumn.trans Option.or_none

/-- So every member is a string. -/
theorem get_pluginParams_eq_str {p : PluginRef} {key : String} {v : Value.Doc}
    (h : (pluginParams (some p)).get key = some v) : ∃ s, v = .str s := by
  rw [get_pluginParams] at h
  obtain ⟨kv, -, hkv⟩ := List.mem_filterMap.mp (List.mem_of_getLast? h)
  unfold paramNamed at hkv
  split at hkv
  · exact ⟨kv.value, (Option.some.inj hkv).symm⟩
  · cases hkv

/-- A field that is not deserialised from a string has its default. -/
theorem eq_default_of_field {α : Type} {p : PluginRef} {default x : α}
    {decode : Value.Doc → Option α} {key : String} (hstr : ∀ s, decode (.str s) = none)
    (h : field default decode (pluginParams (some p)) key = some x) : x = default := by
  unfold field at h
  cases hget : (pluginParams (some p)).get key with
  | none =>
      rw [hget] at h
      exact (Option.some.inj h).symm
  | some v =>
      rw [hget] at h
      obtain ⟨s, rfl⟩ := get_pluginParams_eq_str hget
      dsimp only at h
      rw [hstr] at h
      cases h

/-! ## What can be expressed -/

/-- Some parameters of a plugin reference are deserialised to this. -/
def Expressible {α : Type} (ofObject : Value.Doc → Option α) (p : α) : Prop :=
  ∃ parameters : List PluginParam, ∀ name,
    ofObject (pluginParams (some ⟨name, parameters⟩)) = some p

theorem helm_expressible_iff (p : Helm.RenderParams) :
    Expressible Helm.RenderParams.ofObject p ↔
      p.valuesFiles = [] ∧ p.setValues = [] ∧ p.dependencyUpdate = false := by
  constructor
  · rintro ⟨parameters, h⟩
    have h := h ""
    unfold Helm.RenderParams.ofObject at h
    simp only [Option.bind_eq_bind, Option.bind_eq_some_iff] at h
    obtain ⟨releaseName, -, chartPath, -, ns, -, valuesFiles, hvalues, setValues, hset, update, hupdate,
      hp⟩ := h
    obtain rfl := Option.some.inj hp
    exact ⟨eq_default_of_field (fun _ => rfl) hvalues, eq_default_of_field (fun _ => rfl) hset,
      eq_default_of_field (fun _ => rfl) hupdate⟩
  · intro h
    obtain ⟨releaseName, chartPath, ns, valuesFiles, setValues, update⟩ := p
    obtain ⟨rfl, rfl, rfl⟩ := h
    refine ⟨⟨"release_name", releaseName⟩ ::
      ((chartPath.map (PluginParam.mk "chart_path")).toList
        ++ (ns.map (PluginParam.mk "namespace")).toList), fun name => ?_⟩
    unfold Helm.RenderParams.ofObject field required
    simp only [get_pluginParams]
    cases chartPath with
    | none => cases ns <;> rfl
    | some path => cases ns <;> rfl

theorem kustomize_expressible_iff (p : Kustomize.RenderParams) :
    Expressible Kustomize.RenderParams.ofObject p ↔
      p.allowRemoteBases = false ∧ p.remoteBaseAllowlist = [] ∧ p.enableHelm = false := by
  constructor
  · rintro ⟨parameters, h⟩
    have h := h ""
    unfold Kustomize.RenderParams.ofObject at h
    simp only [Option.bind_eq_bind, Option.bind_eq_some_iff] at h
    obtain ⟨path, -, remote, hremote, allowlist, hallow, helm, hhelm, hp⟩ := h
    obtain rfl := Option.some.inj hp
    exact ⟨eq_default_of_field (fun _ => rfl) hremote, eq_default_of_field (fun _ => rfl) hallow,
      eq_default_of_field (fun _ => rfl) hhelm⟩
  · intro h
    obtain ⟨path, remote, allowlist, helm⟩ := p
    obtain ⟨rfl, rfl, rfl⟩ := h
    refine ⟨(path.map (PluginParam.mk "path")).toList, fun name => ?_⟩
    unfold Kustomize.RenderParams.ofObject field
    simp only [get_pluginParams]
    cases path <;> rfl

/--
**What parameters can express: the fields that are texts.**

Of the Helm plugin, no values files, no overrides and no forced dependency update;
of the Kustomize plugin, no remote bases, no allowlist and no charts.
-/
theorem expressible_iff (p : Helm.RenderParams) (q : Kustomize.RenderParams) :
    (Expressible Helm.RenderParams.ofObject p ↔
      p.valuesFiles = [] ∧ p.setValues = [] ∧ p.dependencyUpdate = false) ∧
    (Expressible Kustomize.RenderParams.ofObject q ↔
      q.allowRemoteBases = false ∧ q.remoteBaseAllowlist = [] ∧ q.enableHelm = false) :=
  ⟨helm_expressible_iff p, kustomize_expressible_iff q⟩

/-- A release with a values file of its own. -/
def withValuesFile : Helm.RenderParams := ⟨"shop", none, none, ["values-prod.yaml"], [], false⟩

/-- No parameters choose a values file. -/
theorem values_file_not_expressible :
    ¬ ∀ p : Helm.RenderParams, Expressible Helm.RenderParams.ofObject p := by
  intro h
  obtain ⟨hvalues, -⟩ := (helm_expressible_iff withValuesFile).mp (h withValuesFile)
  cases hvalues

end Db.Pipeline

end SynchrotronCD
