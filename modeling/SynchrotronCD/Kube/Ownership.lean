import SynchrotronCD.Kube.LiveStoreProof
import SynchrotronCD.Lib.Runs

/-!
# Who owns a live object

An object belongs to the app its label names, and the label may change. The ghost
`lastLabel` remembers what the last event said about each object; ownership is
single when every slot holds exactly the objects it names.

An upsert or a removal looks only into the slot of the *new* label. So what an
event about one object must not do is move it away from an app that owns it:
`KeepsOwner`. Restarts re-bucket everything and are always in order.
-/

namespace SynchrotronCD

open Lib

namespace Ownership

/-- The store, and what the last event said about each object. -/
structure State where
  store : LiveStore
  /-- Proof-only: the app the last event labelled the object with. -/
  lastLabel : ResourceRef → Option AppName

def State.new (u : LiveStoreUpdater) : State :=
  ⟨LiveStore.registerCluster ∅ u.cluster, fun _ => none⟩

/-- What is last known of an object after an event. A deleted object, and one a
restart does not list, is no one's. -/
def relabel (u : LiveStoreUpdater) (last : ResourceRef → Option AppName) :
    InformerEvent → ResourceRef → Option AppName
  | .applied o => Function.update last o.ref (u.labelOf o)
  | .deleted o => Function.update last o.ref none
  | .restarted os => fun r => (os.find? fun o => o.ref = r).bind u.labelOf

variable {u : LiveStoreUpdater} {s : State}

/-- An event about one object finds it unowned, or owned by the app it now names. -/
def KeepsOwner (u : LiveStoreUpdater) (s : State) : InformerEvent → Prop
  | .applied o | .deleted o => s.lastLabel o.ref = none ∨ s.lastLabel o.ref = u.labelOf o
  | .restarted _ => True

/-- A restart lists no object twice. -/
def ListsOnce : InformerEvent → Prop
  | .restarted os => (os.map DynamicObject.ref).Nodup
  | _ => True

/-- Every object is in the slot of the app it was last labelled with and in no other,
and no plan deletes an object of another app. -/
structure Owned (u : LiveStoreUpdater) (s : State) : Prop where
  single : ∀ app r, r ∈ refsOf (s.store.slot u.cluster app) ↔ s.lastLabel r = some app
  deletes : ∀ app desired r, ⟨r, .delete⟩ ∈ (plan desired (s.store.slot u.cluster app)).entries →
    s.lastLabel r = some app

/-- A plan deletes only what is live in its app's slot. -/
theorem mem_refsOf_of_delete {desired live : List Manifest} {r : ResourceRef}
    (h : ⟨r, .delete⟩ ∈ (plan desired live).entries) : r ∈ refsOf live :=
  mem_refsOf.mpr (delete_mem_plan.mp h).2

theorem owned_of_single
    (h : ∀ app r, r ∈ refsOf (s.store.slot u.cluster app) ↔ s.lastLabel r = some app) :
    Owned u s := ⟨h, fun app _ r hd => (h app r).mp (mem_refsOf_of_delete hd)⟩

section

variable [FloatText]

def step (u : LiveStoreUpdater) (s : State) (e : InformerEvent) : State where
  store := (u.handleEvent s.store e).1
  lastLabel := relabel u s.lastLabel e

theorem owned_applied (h : Owned u s) (o : DynamicObject) :
    Owned u (step u s (.applied o)) ↔ KeepsOwner u s (.applied o) := by
  refine ⟨?_, ?_⟩
  · intro h'
    -- the owner before the event still has the object, so it must be the owner after it
    cases hlast : s.lastLabel o.ref with
    | none => exact Or.inl hlast
    | some a =>
        have hin : o.ref ∈ refsOf ((step u s (.applied o)).store.slot u.cluster a) :=
          (u.mem_refsOf_applied s.store o a o.ref).mpr (Or.inl ((h.single a o.ref).mpr hlast))
        have hnow := (h'.single a o.ref).mp hin
        simp only [step, relabel, Function.update_self] at hnow
        exact Or.inr (hlast.trans hnow.symm)
  · intro hk
    refine owned_of_single fun app r => ?_
    refine Iff.trans (u.mem_refsOf_applied s.store o app r) ?_
    rw [h.single]
    by_cases hr : r = o.ref
    · subst hr
      simp only [step, relabel, Function.update_self, and_true]
      rcases hk with hk | hk
      · simp [hk]
      · rw [hk, or_self]
    · simp only [step, relabel, Function.update_of_ne hr, hr, and_false, or_false]

theorem owned_deleted (h : Owned u s) (o : DynamicObject) :
    Owned u (step u s (.deleted o)) ↔ KeepsOwner u s (.deleted o) := by
  refine ⟨?_, ?_⟩
  · intro h'
    -- no one owns a deleted object, so its owner must have been cleaned up
    cases hlast : s.lastLabel o.ref with
    | none => exact Or.inl hlast
    | some a =>
        right
        by_contra hne
        have hin : o.ref ∈ refsOf ((step u s (.deleted o)).store.slot u.cluster a) :=
          (u.mem_refsOf_deleted s.store o a o.ref).mpr
            ⟨(h.single a o.ref).mpr hlast, fun hl => hne (hlast.trans hl.1.symm)⟩
        have hnow := (h'.single a o.ref).mp hin
        simp [step, relabel] at hnow
  · intro hk
    refine owned_of_single fun app r => ?_
    refine Iff.trans (u.mem_refsOf_deleted s.store o app r) ?_
    rw [h.single]
    by_cases hr : r = o.ref
    · subst hr
      simp only [step, relabel, Function.update_self, and_true, reduceCtorEq, iff_false]
      intro hm
      obtain ⟨hlast, hne⟩ := hm
      rcases hk with hk | hk
      · rw [hk] at hlast; simp at hlast
      · exact hne (hk.symm.trans hlast)
    · simp only [step, relabel, Function.update_of_ne hr, hr, and_false, not_false_eq_true, and_true]

theorem owned_restarted (s : State) {os : List DynamicObject}
    (hos : (os.map DynamicObject.ref).Nodup) : Owned u (step u s (.restarted os)) := by
  refine owned_of_single fun app r => ?_
  refine Iff.trans (u.mem_refsOf_restarted s.store os app r) ?_
  show _ ↔ (os.find? fun o => o.ref = r).bind u.labelOf = some app
  refine ⟨?_, ?_⟩
  · intro hm
    obtain ⟨o, ho, hl, rfl⟩ := hm
    -- the object is listed once, so it is the one that is found
    obtain ⟨o', ho'⟩ : ∃ o', (os.find? fun x => x.ref = o.ref) = some o' := by
      rw [← Option.isSome_iff_exists, List.find?_isSome]
      exact ⟨o, ho, by simp⟩
    have hmem := List.mem_of_find?_eq_some ho'
    have href : o'.ref = o.ref := by simpa using List.find?_some ho'
    have heq : o' = o := List.inj_on_of_nodup_map hos hmem ho href
    rw [ho', heq]
    exact hl
  · intro h
    obtain ⟨o, ho, hl⟩ := Option.bind_eq_some_iff.mp h
    exact ⟨o, List.mem_of_find?_eq_some ho, hl, by simpa using List.find?_some ho⟩

theorem owned_step (h : Owned u s) {e : InformerEvent} (he : ListsOnce e) :
    Owned u (step u s e) ↔ KeepsOwner u s e := by
  cases e with
  | applied o => exact owned_applied h o
  | deleted o => exact owned_deleted h o
  | restarted os => exact iff_of_true (owned_restarted s he) trivial

omit [FloatText] in
theorem owned_new (u : LiveStoreUpdater) : Owned u (State.new u) := by
  refine owned_of_single fun app r => ?_
  have hslot : (State.new u).store.slot u.cluster app = [] :=
    LiveStoreUpdater.slot_registerCluster u.cluster app
  rw [hslot]
  simp [refsOf, State.new]

/--
**When ownership is single.**

For any sequence of events of an informer, labels changing as they may: after
every event each object is in the slot of the app its last event named, in no
other, and no plan deletes it for another app, if and only if no event about a
single object takes it from an app that owned it without naming that app.
-/
theorem owned_iff (u : LiveStoreUpdater) (run : List InformerEvent) (hrun : ∀ e ∈ run, ListsOnce e) :
    Always (step u) (Owned u) (State.new u) run ↔ Each (step u) (KeepsOwner u) (State.new u) run :=
  always_iff_each (I := fun _ => True) (P := Owned u) (C := KeepsOwner u) (A := ListsOnce)
    (fun _ _ _ _ => trivial) (fun _ _ _ h he => owned_step h he) trivial (owned_new u) hrun

end

/-- A config map of one app is seen, and then deleted as such. -/
def comeAndGo : List InformerEvent :=
  [.restarted [.sample "ConfigMap" "settings" (some "shop")],
    .deleted (.sample "ConfigMap" "settings" (some "shop"))]

theorem comeAndGo_owned :
    Always (@step .ofBits (.new "prod")) (Owned (.new "prod")) (State.new (.new "prod")) comeAndGo
      ↔ Each (@step .ofBits (.new "prod")) (KeepsOwner (.new "prod")) (State.new (.new "prod"))
        comeAndGo :=
  @owned_iff .ofBits (.new "prod") comeAndGo (by
    intro e he
    rcases List.mem_pair.mp he with rfl | rfl
    · simp [ListsOnce]
    · trivial)

/-- The same config map is seen with the label of one app, then with another's. -/
def relabelled : List InformerEvent :=
  [.applied (.sample "ConfigMap" "settings" (some "shop")),
    .applied (.sample "ConfigMap" "settings" (some "web"))]

/-- **An object that moves to another app stays with the first one too**, which then
plans to delete it. -/
theorem relabelled_owned_twice :
    (exec (@step .ofBits (.new "prod")) (State.new (.new "prod")) relabelled).lastLabel
        (DynamicObject.sample "ConfigMap" "settings" (some "web")).ref = some "web"
    ∧ ⟨(DynamicObject.sample "ConfigMap" "settings" (some "web")).ref, .delete⟩
      ∈ (plan [] ((exec (@step .ofBits (.new "prod")) (State.new (.new "prod"))
        relabelled).store.slot "prod" "shop")).entries
    ∧ ¬ Owned (.new "prod") (exec (@step .ofBits (.new "prod")) (State.new (.new "prod"))
        relabelled) := by
  have hlast : (exec (@step .ofBits (.new "prod")) (State.new (.new "prod")) relabelled).lastLabel
      (DynamicObject.sample "ConfigMap" "settings" (some "web")).ref = some "web" := by
    simp only [relabelled, exec_cons, exec_nil, step, relabel, Function.update_self]
    rfl
  have hdel : ⟨(DynamicObject.sample "ConfigMap" "settings" (some "web")).ref, .delete⟩
      ∈ (plan [] ((exec (@step .ofBits (.new "prod")) (State.new (.new "prod"))
        relabelled).store.slot "prod" "shop")).entries := by
    refine delete_mem_plan.mpr ⟨by simp, mem_refsOf.mp ?_⟩
    refine (@LiveStoreUpdater.mem_refsOf_applied .ofBits _ _ _ _ _).mpr (Or.inl ?_)
    exact (@LiveStoreUpdater.mem_refsOf_applied .ofBits _ _ _ _ _).mpr (Or.inr ⟨rfl, rfl⟩)
  refine ⟨hlast, hdel, fun h => ?_⟩
  have := h.deletes "shop" [] _ hdel
  rw [hlast] at this
  exact absurd this (by decide)

end Ownership

end SynchrotronCD
