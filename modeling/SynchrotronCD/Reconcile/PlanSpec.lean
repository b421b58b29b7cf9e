import SynchrotronCD.Lib.Sorting
import SynchrotronCD.Reconcile.PlanProof

/-!
# What a plan is for

The planner's answer for one reference depends on the last manifest that either
side has for it (`intendedAction`). A plan is that answer for each reference of the
two sides, once, in the order of the sort key. So it does not depend on the order
of the manifests either, as long as no two of one side have the same reference.

A reference has the API version in it, and an object in the cluster has none. When a
manifest's version changes, the object is applied under the new reference and deleted
under the old one (`delete_shared_object_iff`).
-/

namespace SynchrotronCD

open Lib

/-! ## One reference -/

/-- The last manifest in a list that has reference `r`. -/
def lastOf (ms : List Manifest) (r : ResourceRef) : Option Manifest :=
  ms.reverse.find? fun m => ResourceRef.of m = r

/-- What is to be done about a reference; `none` if neither side has it. -/
def intendedAction (desired live : List Manifest) (r : ResourceRef) : Option PlannedAction :=
  match lastOf desired r, lastOf live r with
  | some d, some l => if manifestBodiesEqual d l then some .noOp else some .apply
  | some _, none => some .apply
  | none, some _ => some .delete
  | none, none => none

/-- An index holds the last manifest with each reference. -/
theorem lastWithRef_eq_lastOf (ms : List Manifest) (r : ResourceRef) :
    lastWithRef ms r = lastOf ms r := by
  unfold lastWithRef indexByRef lastOf
  rw [lookup_foldl_insert ResourceRef.of (fun m => m) ms r]
  exact congrFun Option.map_id _

theorem lastOf_isSome_iff {ms : List Manifest} {r : ResourceRef} :
    (lastOf ms r).isSome = true ↔ r ∈ ms.map ResourceRef.of := by
  simp [lastOf]

/-- The entries of a plan are the intended actions. -/
theorem mem_plan_iff_intended {desired live : List Manifest} {e : PlanEntry} :
    e ∈ (plan desired live).entries ↔
      intendedAction desired live e.resource = some e.action := by
  rw [mem_plan, lastWithRef_eq_lastOf, lastWithRef_eq_lastOf, intendedAction]
  cases lastOf desired e.resource with
  | none => cases lastOf live e.resource <;> simp [eq_comm]
  | some d =>
      cases lastOf live e.resource with
      | none => simp [actionFor, eq_comm (a := e.action)]
      | some l =>
          cases h : manifestBodiesEqual d l with
          | true => simp [actionFor, h, eq_comm (a := e.action)]
          | false => simp [actionFor, h, eq_comm (a := e.action)]

theorem intendedAction_isSome_iff {desired live : List Manifest} {r : ResourceRef} :
    (intendedAction desired live r).isSome = true ↔
      r ∈ desired.map ResourceRef.of ∨ r ∈ live.map ResourceRef.of := by
  rw [← lastOf_isSome_iff, ← lastOf_isSome_iff, intendedAction]
  cases lastOf desired r with
  | none => cases lastOf live r <;> simp
  | some d =>
      cases lastOf live r with
      | none => simp
      | some l => by_cases h : manifestBodiesEqual d l = true <;> simp [h]

/-- There is an entry for what is on either side. -/
theorem mem_plan_resources {desired live : List Manifest} {r : ResourceRef} :
    r ∈ (plan desired live).entries.map PlanEntry.resource ↔
      r ∈ desired.map ResourceRef.of ∨ r ∈ live.map ResourceRef.of := by
  rw [← intendedAction_isSome_iff, Option.isSome_iff_exists, List.mem_map]
  refine ⟨?_, ?_⟩
  · rintro ⟨e, he, rfl⟩
    exact ⟨e.action, mem_plan_iff_intended.mp he⟩
  · rintro ⟨a, ha⟩
    exact ⟨⟨r, a⟩, mem_plan_iff_intended.mpr ha, rfl⟩

theorem lastOf_some {ms : List Manifest} {r : ResourceRef} {m : Manifest}
    (h : lastOf ms r = some m) : m ∈ ms ∧ ResourceRef.of m = r :=
  ⟨by simpa using List.mem_of_find?_eq_some h, by simpa using List.find?_some h⟩

/-- With distinct references a manifest is the last one with its own. -/
theorem lastOf_eq_some_iff {ms : List Manifest} (hnd : (ms.map ResourceRef.of).Nodup)
    {r : ResourceRef} {m : Manifest} :
    lastOf ms r = some m ↔ m ∈ ms ∧ ResourceRef.of m = r := by
  refine ⟨lastOf_some, ?_⟩
  rintro ⟨hm, rfl⟩
  have hsome : (lastOf ms (ResourceRef.of m)).isSome = true :=
    lastOf_isSome_iff.mpr (List.mem_map_of_mem hm)
  obtain ⟨m', hm'⟩ := Option.isSome_iff_exists.mp hsome
  obtain ⟨hmem, href⟩ := lastOf_some hm'
  rw [hm', List.inj_on_of_nodup_map hnd hmem hm href]

/-- With distinct references the order of the manifests does not matter. -/
theorem lastOf_perm {ms ms' : List Manifest} (hp : ms'.Perm ms)
    (hnd : (ms.map ResourceRef.of).Nodup) : lastOf ms' = lastOf ms := by
  have hnd' : (ms'.map ResourceRef.of).Nodup := (hp.map _).nodup_iff.mpr hnd
  funext r
  refine Option.ext fun m => ?_
  rw [lastOf_eq_some_iff hnd', lastOf_eq_some_iff hnd, hp.mem_iff]

/-! ## The order -/

instance : Std.TransCmp ResourceRef.compareSortKey := by
  unfold ResourceRef.compareSortKey
  infer_instance

/-- The sort key is the whole of a reference. -/
theorem ResourceRef.compareSortKey_eq {a b : ResourceRef} :
    a.compareSortKey b = .eq ↔ a = b := by
  obtain ⟨⟨g, v, k⟩, ns, n⟩ := a
  obtain ⟨⟨g', v', k'⟩, ns', n'⟩ := b
  simp [compareSortKey, compareLex_eq_eq, compareOn, and_assoc]

/-- Entries are compared by their references. -/
def PlanEntry.compareByRef (a b : PlanEntry) : Ordering := a.resource.compareSortKey b.resource

instance : Std.TransCmp PlanEntry.compareByRef := transCmp_on PlanEntry.resource

/-- An index has each reference once, and what is dropped is not desired. -/
theorem plan_unsorted_nodup (desired live : List Manifest) :
    ((indexByRef desired).entries.map (fun d =>
        (⟨d.1, actionFor d.2 ((indexByRef live).lookup d.1)⟩ : PlanEntry))
      ++ ((indexByRef live).keys.filter fun r => r ∉ indexByRef desired).map
        fun r => (⟨r, .delete⟩ : PlanEntry)).map PlanEntry.resource |>.Nodup := by
  rw [List.map_append, List.map_map, List.map_map]
  have hkept : (indexByRef desired).entries.map (PlanEntry.resource ∘ fun d =>
      ⟨d.1, actionFor d.2 ((indexByRef live).lookup d.1)⟩) = (indexByRef desired).keys := rfl
  have hdropped : (PlanEntry.resource ∘ fun r => ⟨r, .delete⟩) = id := rfl
  rw [hkept, hdropped, List.map_id, List.nodup_append]
  refine ⟨(indexByRef desired).keys_nodup, (indexByRef live).keys_nodup.filter _, ?_⟩
  intro r hr s hs heq
  subst heq
  have hnot : r ∉ indexByRef desired := by simpa using (List.mem_filter.mp hs).2
  exact hnot hr

/-- **Plans are strictly ascending in the sort key.** -/
theorem plan_ascending (desired live : List Manifest) :
    (plan desired live).entries.Pairwise
      fun a b => a.resource.compareSortKey b.resource = .lt := by
  refine @pairwise_lt_sort _ PlanEntry.compareByRef _ _ ?_
  refine (List.pairwise_map.mp (plan_unsorted_nodup desired live)).imp fun hne heq => ?_
  exact hne (ResourceRef.compareSortKey_eq.mp heq)

theorem plan_resources_nodup (desired live : List Manifest) :
    ((plan desired live).entries.map PlanEntry.resource).Nodup := by
  refine List.pairwise_map.mpr ((plan_ascending desired live).imp fun {a b} hlt heq => ?_)
  rw [ResourceRef.compareSortKey_eq.mpr heq] at hlt
  exact absurd hlt (by decide)

/-- Whatever order the maps were gone through in, the sorted entries are the plan. -/
theorem plan_unique {desired live : List Manifest} {es : List PlanEntry}
    (hsorted : es.Pairwise fun a b => a.resource.compareSortKey b.resource = .lt)
    (hmem : ∀ e, e ∈ es ↔ intendedAction desired live e.resource = some e.action) :
    es = (plan desired live).entries := by
  refine @eq_of_mem_iff _ PlanEntry.compareByRef _ _ _ hsorted (plan_ascending desired live) ?_
  intro e
  rw [hmem, mem_plan_iff_intended]

theorem plan_congr {desired desired' live live' : List Manifest}
    (hd : lastOf desired' = lastOf desired) (hl : lastOf live' = lastOf live) :
    plan desired' live' = plan desired live := by
  have h : (plan desired' live').entries = (plan desired live).entries := by
    refine plan_unique (plan_ascending desired' live') fun e => ?_
    rw [mem_plan_iff_intended]
    simp only [intendedAction, hd, hl]
  cases h' : plan desired' live'
  cases h'' : plan desired live
  rw [h', h''] at h
  exact congrArg Plan.mk h

/--
**What a plan is.**

One entry for each reference of the two sides and no other, with the action intended
for it, in the order of the sort key; and the same plan for any order of the manifests
of a side that has no reference twice.
-/
theorem plan_correct (desired live : List Manifest) :
    (∀ r, ((plan desired live).entries.filter (·.resource = r)).length
      = if r ∈ desired.map ResourceRef.of ∨ r ∈ live.map ResourceRef.of then 1 else 0)
    ∧ (∀ e ∈ (plan desired live).entries,
      intendedAction desired live e.resource = some e.action)
    ∧ (plan desired live).entries.Pairwise
      (fun a b => a.resource.compareSortKey b.resource = .lt)
    ∧ (∀ desired', desired'.Perm desired → (desired.map ResourceRef.of).Nodup →
      plan desired' live = plan desired live)
    ∧ (∀ live', live'.Perm live → (live.map ResourceRef.of).Nodup →
      plan desired live' = plan desired live) := by
  refine ⟨fun r => ?_, fun e => mem_plan_iff_intended.mp, plan_ascending desired live, ?_, ?_⟩
  · have hcount : ((plan desired live).entries.filter (·.resource = r)).length
        = ((plan desired live).entries.map PlanEntry.resource).count r := by
      rw [List.count_eq_length_filter, List.filter_map, List.length_map]
      congr 1
    rw [hcount, (plan_resources_nodup desired live).count]
    exact if_congr mem_plan_resources rfl rfl
  · intro desired' hp hnd
    exact plan_congr (lastOf_perm hp hnd) rfl
  · intro live' hp hnd
    exact plan_congr rfl (lastOf_perm hp hnd)

/-! ## One object under two versions -/

/-- Two references to one object of the cluster, which is known there by group, kind, namespace
and name. -/
def ResourceRef.SameObject (a b : ResourceRef) : Prop :=
  a.gvk.group = b.gvk.group ∧ a.gvk.kind = b.gvk.kind ∧ a.namespace = b.namespace ∧ a.name = b.name

theorem ResourceRef.SameObject.eq_iff {a b : ResourceRef} (h : a.SameObject b) :
    a = b ↔ a.gvk.version = b.gvk.version := by
  obtain ⟨⟨g, v, k⟩, ns, n⟩ := a
  obtain ⟨⟨g', v', k'⟩, ns', n'⟩ := b
  obtain ⟨hg, hk, hns, hn⟩ := h
  dsimp only at hg hk hns hn ⊢
  simp [hg, hk, hns, hn]

/--
**When an object that is desired is deleted.**

The reference of a desired manifest is never deleted. A reference to the object of a
desired manifest is deleted exactly if it is live and none of the desired manifests for
the object has its version.
-/
theorem delete_shared_object_iff (desired live : List Manifest) (r : ResourceRef) :
    (r ∈ desired.map ResourceRef.of → ⟨r, .delete⟩ ∉ (plan desired live).entries)
    ∧ ((⟨r, .delete⟩ ∈ (plan desired live).entries
        ∧ ∃ d ∈ desired, (ResourceRef.of d).SameObject r) ↔
      (∃ l ∈ live, ResourceRef.of l = r)
        ∧ (∃ d ∈ desired, (ResourceRef.of d).SameObject r)
        ∧ ∀ d ∈ desired, (ResourceRef.of d).SameObject r → d.gvk.version ≠ r.gvk.version) := by
  rw [delete_mem_plan]
  refine ⟨?_, ?_⟩
  · rintro hr ⟨hnot, -⟩
    obtain ⟨d, hd, hdr⟩ := List.mem_map.mp hr
    exact hnot d hd hdr
  · constructor
    · rintro ⟨⟨hnot, hlive⟩, hshared⟩
      exact ⟨hlive, hshared, fun d hd hs hv => hnot d hd (hs.eq_iff.mpr hv)⟩
    · rintro ⟨hlive, hshared, hversions⟩
      refine ⟨⟨fun d hd hdr => ?_, hlive⟩, hshared⟩
      have hsame : (ResourceRef.of d).SameObject r := hdr ▸ ⟨rfl, rfl, rfl, rfl⟩
      exact hversions d hd hsame (hsame.eq_iff.mp hdr)

/-- A deployment `web` of one of the API versions. -/
def deployment (version : String) : Manifest :=
  let v : Value := .mapping [(.string "apiVersion", .string ("apps/" ++ version)),
    (.string "kind", .string "Deployment"),
    (.string "metadata", .mapping [(.string "name", .string "web")])]
  let bytes := (@ManifestBody.toVec .ofBits v).getD []
  ⟨⟨"apps", version, "Deployment"⟩, "web", none, ⟨bytes, fnv1a64 bytes, v, rfl⟩⟩

/-- The manifest of a deployment goes from `apps/v1beta1` to `apps/v1`: the deployment is
deleted. -/
theorem upgraded_deployment_deleted :
    ¬∀ (desired live : List Manifest) (d l : Manifest), d ∈ desired → l ∈ live →
      (ResourceRef.of d).SameObject (ResourceRef.of l) →
      ⟨ResourceRef.of l, .delete⟩ ∉ (plan desired live).entries := by
  intro h
  refine h [deployment "v1"] [deployment "v1beta1"] _ _ (List.mem_singleton_self _)
    (List.mem_singleton_self _) ⟨rfl, rfl, rfl, rfl⟩ (delete_mem_plan.mpr ⟨fun d hd hdl => ?_, ?_⟩)
  · obtain rfl := List.mem_singleton.mp hd
    have hversion : (deployment "v1").gvk.version = (deployment "v1beta1").gvk.version :=
      congrArg (fun r : ResourceRef => r.gvk.version) hdl
    exact absurd hversion (by decide)
  · exact ⟨_, List.mem_singleton_self _, rfl⟩

end SynchrotronCD
