import Mathlib.Data.List.Induction
import SynchrotronCD.Kube.LiveStore
import SynchrotronCD.Reconcile.PlanProof

/-!
# What each event does to each slot

`slot_applied`, `slot_deleted` and `slot_restarted` give every app's slot after
an event in terms of the slots before it. Whatever is said later about runs of
events follows from these.
-/

namespace SynchrotronCD

open Lib

theorem sameResource_iff {a b : Manifest} :
    sameResource a b = true ↔ ResourceRef.of a = ResourceRef.of b := by
  simp [sameResource, ResourceRef.of, and_assoc]

/-- The references in a slot. -/
def refsOf (ms : List Manifest) : List ResourceRef := ms.map ResourceRef.of

/-- A reference is live in a slot exactly if a lookup by reference finds it. -/
theorem mem_refsOf {ms : List Manifest} {r : ResourceRef} :
    r ∈ refsOf ms ↔ ∃ m ∈ ms, ResourceRef.of m = r := List.mem_map

/-- The slot without a resource. -/
def without (ms : List Manifest) (m : Manifest) : List Manifest :=
  ms.filter fun x => !sameResource x m

theorem mem_without {ms : List Manifest} {m x : Manifest} :
    x ∈ without ms m ↔ x ∈ ms ∧ ResourceRef.of x ≠ ResourceRef.of m := by
  rw [without, List.mem_filter, Bool.not_eq_true', ← Bool.not_eq_true, sameResource_iff]

theorem nodup_without {ms : List Manifest} (m : Manifest) (h : (refsOf ms).Nodup) :
    (refsOf (without ms m)).Nodup :=
  (List.filter_sublist.map ResourceRef.of).nodup h

theorem nodup_without_append {ms : List Manifest} (m : Manifest) (h : (refsOf ms).Nodup) :
    (refsOf (without ms m ++ [m])).Nodup := by
  unfold refsOf
  rw [List.map_append, List.map_singleton, ← List.concat_eq_append, List.nodup_concat]
  refine ⟨fun hm => ?_, nodup_without m h⟩
  obtain ⟨x, hx, hxm⟩ := List.mem_map.mp hm
  exact (mem_without.mp hx).2 hxm

namespace LiveStoreUpdater

variable {u : LiveStoreUpdater} {s : LiveStore} {o : DynamicObject} {a app : AppName} {m : Manifest}

section

variable [FloatText]

/-! ## Parsing -/

theorem parse_some (h : u.parse o = some (app, m)) :
    u.labelOf o = some app ∧ ResourceRef.of m = o.ref := by
  unfold parse at h
  unfold labelOf
  cases hl : o.labels with
  | none => rw [hl] at h; simp at h
  | some labels =>
  cases ha : labels.lookup u.label with
  | none => rw [hl] at h; simp [ha] at h
  | some app' =>
      obtain ⟨b, hb⟩ := ManifestBody.fromValue_ofJson o.json
      rw [hl] at h
      simp only [Option.bind_eq_bind, Option.bind_some, ha, hb, Option.pure_def, Option.some.injEq,
        Prod.mk.injEq] at h
      obtain ⟨rfl, rfl⟩ := h
      exact ⟨by simp [ha], rfl⟩

/-- **Every labelled object is parsed.** -/
theorem parse_of_labelOf (h : u.labelOf o = some app) : ∃ m, u.parse o = some (app, m) := by
  unfold labelOf at h
  obtain ⟨labels, hl, ha⟩ := Option.bind_eq_some_iff.mp h
  obtain ⟨b, hb⟩ := ManifestBody.fromValue_ofJson o.json
  refine ⟨⟨o.gvk, o.name.getD "", o.namespace, b⟩, ?_⟩
  unfold parse
  rw [hl]
  simp [ha, hb]

end

/-! ## Slots under the three writes -/

theorem slot_insert (s : LiveStore) (c : ClusterName) (apps : HashMap AppName (List Manifest))
    (a : AppName) : LiveStore.slot (s.insert c apps) c a = (apps.lookup a).getD [] := by
  simp [LiveStore.slot]

/-- A cluster that was just registered has nothing for any app. -/
theorem slot_registerCluster (c : ClusterName) (a : AppName) :
    (LiveStore.registerCluster ∅ c).slot c a = [] := by
  unfold LiveStore.registerCluster
  rw [if_neg (AList.notMem_empty c), slot_insert]
  rfl

theorem slot_upsertOne (u : LiveStoreUpdater) (s : LiveStore) (app : AppName) (m : Manifest)
    (a : AppName) : (u.upsertOne s app m).slot u.cluster a
      = if a = app then without (s.slot u.cluster a) m ++ [m] else s.slot u.cluster a := by
  unfold upsertOne
  rw [slot_insert]
  by_cases ha : a = app
  · subst ha
    simp [LiveStore.slot, without]
  · rw [AList.lookup_insert_ne ha, if_neg ha]
    rfl

theorem slot_removeOne (u : LiveStoreUpdater) (s : LiveStore) (app : AppName) (m : Manifest)
    (a : AppName) : (u.removeOne s app m).slot u.cluster a
      = if a = app then without (s.slot u.cluster a) m else s.slot u.cluster a := by
  unfold removeOne
  cases hc : s.lookup u.cluster with
  | none => simp [LiveStore.slot, hc, without]
  | some apps =>
  cases happ : apps.lookup app with
  | none =>
      by_cases ha : a = app
      · subst ha; simp [LiveStore.slot, hc, happ, without]
      · simp [ha, LiveStore.slot, hc, happ]
  | some existing =>
      dsimp only
      rw [happ]
      dsimp only
      rw [slot_insert]
      by_cases ha : a = app
      · subst ha; simp [LiveStore.slot, hc, happ, without]
      · rw [AList.lookup_insert_ne ha, if_neg ha]
        simp [LiveStore.slot, hc]

section

variable [FloatText]

/-- The manifest of an object, if it is labelled with `a`. -/
def parsedFor (u : LiveStoreUpdater) (a : AppName) (o : DynamicObject) : Option Manifest :=
  (u.parse o).bind fun p => if p.1 = a then some p.2 else none

theorem parsedFor_eq_some : u.parsedFor a o = some m ↔ u.parse o = some (a, m) := by
  unfold parsedFor
  cases u.parse o with
  | none => simp
  | some p =>
      obtain ⟨app, m'⟩ := p
      by_cases ha : app = a <;> simp [ha]

/-- An object that has no manifest for `a` is not labelled with it. -/
theorem labelOf_ne (h : u.parsedFor a o = none) : u.labelOf o ≠ some a := by
  intro hl
  obtain ⟨m, hm⟩ := parse_of_labelOf hl
  rw [parsedFor_eq_some.mpr hm] at h
  simp at h

theorem lookup_bucket (u : LiveStoreUpdater) (os : List DynamicObject) (a : AppName) :
    ((u.bucket os).lookup a).getD [] = os.filterMap (u.parsedFor a) := by
  induction os using List.reverseRecOn with
  | nil => rfl
  | append_singleton os o ih =>
      rw [List.filterMap_append, ← ih]
      cases hp : u.parse o with
      | none =>
          have hstep : u.bucket (os ++ [o]) = u.bucket os := by simp [bucket, hp]
          simp [hstep, parsedFor, hp]
      | some p =>
          obtain ⟨app, m⟩ := p
          have hstep : u.bucket (os ++ [o])
              = (u.bucket os).insert app (((u.bucket os).lookup app).getD [] ++ [m]) := by
            simp [bucket, hp]
          rw [hstep]
          -- the object joins the end of its own app's bucket and no other
          by_cases ha : a = app
          · subst ha; simp [parsedFor, hp]
          · have ha' : ¬ app = a := fun h => ha h.symm
            simp [parsedFor, hp, ha', AList.lookup_insert_ne ha]

/-! ## Slots under the three events -/

theorem slot_applied (u : LiveStoreUpdater) (s : LiveStore) (o : DynamicObject) (a : AppName) :
    (u.handleEvent s (.applied o)).1.slot u.cluster a
      = match u.parsedFor a o with
        | some m => without (s.slot u.cluster a) m ++ [m]
        | none => s.slot u.cluster a := by
  rw [handleEvent]
  unfold parsedFor
  cases hp : u.parse o with
  | none => rfl
  | some p =>
      obtain ⟨app, m⟩ := p
      dsimp only
      rw [slot_upsertOne]
      by_cases ha : a = app
      · subst ha; simp
      · have ha' : ¬ app = a := fun h => ha h.symm
        simp [ha, ha']

theorem slot_deleted (u : LiveStoreUpdater) (s : LiveStore) (o : DynamicObject) (a : AppName) :
    (u.handleEvent s (.deleted o)).1.slot u.cluster a
      = match u.parsedFor a o with
        | some m => without (s.slot u.cluster a) m
        | none => s.slot u.cluster a := by
  rw [handleEvent]
  unfold parsedFor
  cases hp : u.parse o with
  | none => rfl
  | some p =>
      obtain ⟨app, m⟩ := p
      dsimp only
      rw [slot_removeOne]
      by_cases ha : a = app
      · subst ha; simp
      · have ha' : ¬ app = a := fun h => ha h.symm
        simp [ha, ha']

/-- **A restart leaves nothing but its own objects**, whatever was in the cluster before. -/
theorem slot_restarted (u : LiveStoreUpdater) (s : LiveStore) (os : List DynamicObject)
    (a : AppName) : (u.handleEvent s (.restarted os)).1.slot u.cluster a
      = os.filterMap (u.parsedFor a) := by
  show LiveStore.slot (s.insert u.cluster (u.bucket os)) u.cluster a = _
  rw [slot_insert, lookup_bucket]

/-! ## References under the three events -/

theorem mem_refsOf_applied (u : LiveStoreUpdater) (s : LiveStore) (o : DynamicObject) (a : AppName)
    (r : ResourceRef) : r ∈ refsOf ((u.handleEvent s (.applied o)).1.slot u.cluster a)
      ↔ r ∈ refsOf (s.slot u.cluster a) ∨ (u.labelOf o = some a ∧ r = o.ref) := by
  rw [slot_applied]
  cases hp : u.parsedFor a o with
  | none => simp [labelOf_ne hp]
  | some m =>
      obtain ⟨hl, hr⟩ := parse_some (parsedFor_eq_some.mp hp)
      simp only [mem_refsOf, List.mem_append, List.mem_singleton, mem_without, hl, true_and]
      refine ⟨?_, ?_⟩
      · intro h
        rcases h with ⟨x, ⟨hx, _⟩ | rfl, rfl⟩
        · exact Or.inl ⟨x, hx, rfl⟩
        · exact Or.inr hr
      · intro h
        rcases h with ⟨x, hx, rfl⟩ | rfl
        · by_cases hxr : ResourceRef.of x = ResourceRef.of m
          · exact ⟨m, Or.inr rfl, hxr.symm⟩
          · exact ⟨x, Or.inl ⟨hx, hxr⟩, rfl⟩
        · exact ⟨m, Or.inr rfl, hr⟩

theorem mem_refsOf_deleted (u : LiveStoreUpdater) (s : LiveStore) (o : DynamicObject) (a : AppName)
    (r : ResourceRef) : r ∈ refsOf ((u.handleEvent s (.deleted o)).1.slot u.cluster a)
      ↔ r ∈ refsOf (s.slot u.cluster a) ∧ ¬ (u.labelOf o = some a ∧ r = o.ref) := by
  rw [slot_deleted]
  cases hp : u.parsedFor a o with
  | none => simp [labelOf_ne hp]
  | some m =>
      obtain ⟨hl, hr⟩ := parse_some (parsedFor_eq_some.mp hp)
      simp only [mem_refsOf, mem_without, hl, true_and]
      refine ⟨?_, ?_⟩
      · intro hm
        obtain ⟨x, ⟨hx, hxr⟩, rfl⟩ := hm
        exact ⟨⟨x, hx, rfl⟩, fun h => hxr (h.trans hr.symm)⟩
      · intro hm
        obtain ⟨⟨x, hx, rfl⟩, hne⟩ := hm
        exact ⟨x, ⟨hx, fun h => hne (h.trans hr)⟩, rfl⟩

theorem mem_refsOf_restarted (u : LiveStoreUpdater) (s : LiveStore) (os : List DynamicObject)
    (a : AppName) (r : ResourceRef) :
    r ∈ refsOf ((u.handleEvent s (.restarted os)).1.slot u.cluster a)
      ↔ ∃ o ∈ os, u.labelOf o = some a ∧ o.ref = r := by
  rw [slot_restarted]
  simp only [mem_refsOf, List.mem_filterMap, parsedFor_eq_some]
  refine ⟨?_, ?_⟩
  · intro h
    obtain ⟨m, ⟨o, ho, hp⟩, rfl⟩ := h
    obtain ⟨hl, hr⟩ := parse_some hp
    exact ⟨o, ho, hl, hr.symm⟩
  · intro h
    obtain ⟨o, ho, hl, rfl⟩ := h
    obtain ⟨m, hm⟩ := parse_of_labelOf hl
    exact ⟨m, ⟨o, ho, hm⟩, (parse_some hm).2⟩

/-- The manifests of distinct objects have distinct references. -/
theorem nodup_parsedFor (u : LiveStoreUpdater) (a : AppName) {os : List DynamicObject}
    (h : (os.map DynamicObject.ref).Nodup) : (refsOf (os.filterMap (u.parsedFor a))).Nodup := by
  induction os with
  | nil => simp [refsOf]
  | cons o os ih =>
      rw [List.map_cons, List.nodup_cons] at h
      rw [List.filterMap_cons]
      split
      · exact ih h.2
      · rename_i m hm
        unfold refsOf
        rw [List.map_cons, List.nodup_cons]
        refine ⟨?_, ih h.2⟩
        intro hmem
        obtain ⟨x, hx, hxr⟩ := List.mem_map.mp hmem
        obtain ⟨o', ho', hx'⟩ := List.mem_filterMap.mp hx
        have h1 := (parse_some (parsedFor_eq_some.mp hm)).2
        have h2 := (parse_some (parsedFor_eq_some.mp hx')).2
        exact h.1 (List.mem_map.mpr ⟨o', ho', by rw [← h2, hxr, h1]⟩)

end

end LiveStoreUpdater

end SynchrotronCD
