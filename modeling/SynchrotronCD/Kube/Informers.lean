import Mathlib.Logic.Function.Basic
import SynchrotronCD.Kube.LiveStoreProof
import SynchrotronCD.Lib.Runs

/-!
# Informers sharing the live store

Any number of informers, one per watched kind, feed one store through updaters
that all write to the same cluster. What each informer holds is its own affair;
the store is meant to hold the union.

Applied and deleted objects keep that up (`faithful_applied`,
`faithful_deleted`). A restart rewrites the whole cluster from the list of one
kind, so it does exactly if no other informer holds anything of any app
(`faithful_restarted`). `faithful_iff` puts this together for whole runs.
-/

namespace SynchrotronCD

open Lib

/-- The objects an event carries. -/
def InformerEvent.objects : InformerEvent → List DynamicObject
  | .applied o => [o]
  | .deleted o => [o]
  | .restarted os => os

/-- What an informer holds after an event, given what it held. -/
def hold (os : List DynamicObject) : InformerEvent → List DynamicObject
  | .applied o => os.filter (fun x => x.ref ≠ o.ref) ++ [o]
  | .deleted o => os.filter (fun x => x.ref ≠ o.ref)
  | .restarted new => new

namespace Informers

/-- The shared store, and what each of `k` informers holds. -/
structure State (k : Nat) where
  store : LiveStore
  held : Fin k → List DynamicObject

/-- At start-up the cluster is registered and nothing has been reported. -/
def State.new (k : Nat) (u : LiveStoreUpdater) : State k :=
  ⟨LiveStore.registerCluster ∅ u.cluster, fun _ => []⟩

variable {k : Nat} {u : LiveStoreUpdater} {gvk : Fin k → Gvk}
  {label : ResourceRef → Option AppName}

/-- An event is possible for an informer: its objects are of the informer's kind,
each is labelled as it always is, and none is listed twice. -/
structure WellFormed (u : LiveStoreUpdater) (gvk : Fin k → Gvk)
    (label : ResourceRef → Option AppName) (i : Fin k) (os : List DynamicObject) : Prop where
  kind : ∀ o ∈ os, o.gvk = gvk i
  labelled : ∀ o ∈ os, u.labelOf o = label o.ref
  once : (os.map DynamicObject.ref).Nodup

section

variable [FloatText]

/-- One informer emits an event, and its updater handles it. -/
def step (u : LiveStoreUpdater) (s : State k) (e : Fin k × InformerEvent) : State k where
  store := (u.handleEvent s.store e.2).1
  held := Function.update s.held e.1 (hold (s.held e.1) e.2)

/-- Every slot is the union of what the informers hold with that label, nothing twice. -/
structure Faithful (u : LiveStoreUpdater) (s : State k) : Prop where
  union : ∀ app m, m ∈ s.store.slot u.cluster app
    ↔ ∃ i, ∃ o ∈ s.held i, u.parse o = some (app, m)
  once : ∀ app, (refsOf (s.store.slot u.cluster app)).Nodup

/-- A restart comes while no other informer holds an object of an app. -/
def RestartsAlone (u : LiveStoreUpdater) (s : State k) (e : Fin k × InformerEvent) : Prop :=
  match e.2 with
  | .restarted _ => ∀ j, j ≠ e.1 → ∀ o ∈ s.held j, u.labelOf o = none
  | _ => True

/-- What every informer holds is well formed. -/
def Inv (u : LiveStoreUpdater) (gvk : Fin k → Gvk) (label : ResourceRef → Option AppName)
    (s : State k) : Prop :=
  ∀ i, WellFormed u gvk label i (s.held i)

omit [FloatText] in
theorem wellFormed_hold {i : Fin k} {os : List DynamicObject} {ev : InformerEvent}
    (h : WellFormed u gvk label i os) (he : WellFormed u gvk label i ev.objects) :
    WellFormed u gvk label i (hold os ev) := by
  have hfilter : ∀ o : DynamicObject,
      WellFormed u gvk label i (os.filter fun x => x.ref ≠ o.ref) := fun o =>
    { kind := fun x hx => h.kind x (List.mem_of_mem_filter hx)
      labelled := fun x hx => h.labelled x (List.mem_of_mem_filter hx)
      once := (List.filter_sublist.map _).nodup h.once }
  cases ev with
  | restarted new => exact he
  | deleted o => exact hfilter o
  | applied o =>
      refine ⟨fun x hx => ?_, fun x hx => ?_, ?_⟩
      · rcases List.mem_append.mp hx with hx | hx
        · exact (hfilter o).kind x hx
        · exact he.kind x hx
      · rcases List.mem_append.mp hx with hx | hx
        · exact (hfilter o).labelled x hx
        · exact he.labelled x hx
      · rw [hold, List.map_append, List.map_singleton, ← List.concat_eq_append, List.nodup_concat]
        refine ⟨fun hm => ?_, (hfilter o).once⟩
        obtain ⟨x, hx, hxo⟩ := List.mem_map.mp hm
        exact of_decide_eq_true (List.mem_filter.mp hx).2 hxo

theorem inv_step {s : State k} {e : Fin k × InformerEvent} (h : Inv u gvk label s)
    (he : WellFormed u gvk label e.1 e.2.objects) : Inv u gvk label (step u s e) := by
  intro i
  by_cases hi : i = e.1
  · subst hi
    simp only [step, Function.update_self]
    exact wellFormed_hold (h e.1) he
  · simp only [step, Function.update_of_ne hi]
    exact h i

omit [FloatText] in
/-- Objects of two informers are never one resource. -/
theorem ref_ne {s : State k} (hgvk : Function.Injective gvk) (h : Inv u gvk label s) {i j : Fin k}
    (hij : j ≠ i) {o o' : DynamicObject} (ho : o.gvk = gvk i) (ho' : o' ∈ s.held j) :
    o'.ref ≠ o.ref := by
  intro heq
  have hkind : o'.gvk = o.gvk := congrArg ResourceRef.gvk heq
  rw [(h j).kind o' ho', ho] at hkind
  exact hij (hgvk hkind)

/-- What is left of the union once the resource of `o` is taken out of its informer. -/
theorem exists_held_filter {s : State k} (hgvk : Function.Injective gvk) (h : Inv u gvk label s)
    {i : Fin k} {o : DynamicObject} (ho : o.gvk = gvk i) (app : AppName) (m : Manifest) :
    (∃ j, ∃ o' ∈ Function.update s.held i ((s.held i).filter fun x => x.ref ≠ o.ref) j,
        u.parse o' = some (app, m))
      ↔ (∃ j, ∃ o' ∈ s.held j, u.parse o' = some (app, m)) ∧ ResourceRef.of m ≠ o.ref := by
  refine ⟨?_, ?_⟩
  · intro hm
    obtain ⟨j, o', ho', hp⟩ := hm
    rw [(LiveStoreUpdater.parse_some hp).2]
    by_cases hj : j = i
    · subst hj
      rw [Function.update_self, List.mem_filter] at ho'
      exact ⟨⟨j, o', ho'.1, hp⟩, by simpa using ho'.2⟩
    · rw [Function.update_of_ne hj] at ho'
      exact ⟨⟨j, o', ho', hp⟩, ref_ne hgvk h hj ho ho'⟩
  · intro hm
    obtain ⟨⟨j, o', ho', hp⟩, hr⟩ := hm
    rw [(LiveStoreUpdater.parse_some hp).2] at hr
    refine ⟨j, o', ?_, hp⟩
    by_cases hj : j = i
    · subst hj
      rw [Function.update_self, List.mem_filter]
      exact ⟨ho', by simpa using hr⟩
    · rw [Function.update_of_ne hj]
      exact ho'

/-- An object that is not of this app is not in this app's slot, since it never was. -/
theorem ref_ne_of_other {s : State k} (h : Inv u gvk label s)
    (hf : Faithful u s) {i : Fin k} {o : DynamicObject} (ho : WellFormed u gvk label i [o])
    {app : AppName} (hp : u.parsedFor app o = none) {m : Manifest}
    (hm : m ∈ s.store.slot u.cluster app) : ResourceRef.of m ≠ o.ref := by
  obtain ⟨j, o', ho', hp'⟩ := (hf.union app m).mp hm
  obtain ⟨hl', hr'⟩ := LiveStoreUpdater.parse_some hp'
  rw [hr']
  intro heq
  -- the label of a resource does not change, so `o` would be of this app too
  have hl : u.labelOf o = some app := by
    rw [ho.labelled o (by simp), ← heq, ← (h j).labelled o' ho']
    exact hl'
  exact LiveStoreUpdater.labelOf_ne hp hl

/-! ## The three events -/

theorem faithful_deleted {s : State k} (hgvk : Function.Injective gvk) (h : Inv u gvk label s)
    (hf : Faithful u s) {i : Fin k} {o : DynamicObject} (ho : WellFormed u gvk label i [o]) :
    Faithful u (step u s (i, .deleted o)) where
  union := by
    intro app m
    have hrest := exists_held_filter hgvk h (ho.kind o (by simp)) app m
    show m ∈ (u.handleEvent s.store (.deleted o)).1.slot u.cluster app ↔ _
    refine Iff.trans ?_ hrest.symm
    rw [LiveStoreUpdater.slot_deleted, ← hf.union]
    cases hp : u.parsedFor app o with
    | none => exact ⟨fun hm => ⟨hm, ref_ne_of_other h hf ho hp hm⟩, And.left⟩
    | some m₀ =>
        have hr := (LiveStoreUpdater.parse_some (LiveStoreUpdater.parsedFor_eq_some.mp hp)).2
        dsimp only
        rw [mem_without, hr]
  once := by
    intro app
    show (refsOf ((u.handleEvent s.store (.deleted o)).1.slot u.cluster app)).Nodup
    rw [LiveStoreUpdater.slot_deleted]
    cases u.parsedFor app o with
    | none => exact hf.once app
    | some m₀ => exact nodup_without m₀ (hf.once app)

theorem faithful_applied {s : State k} (hgvk : Function.Injective gvk) (h : Inv u gvk label s)
    (hf : Faithful u s) {i : Fin k} {o : DynamicObject} (ho : WellFormed u gvk label i [o]) :
    Faithful u (step u s (i, .applied o)) where
  union := by
    intro app m
    have hrest := exists_held_filter hgvk h (ho.kind o (by simp)) app m
    -- the union afterwards: the rest of what was there, and the object if it is of this app
    have hnew : (∃ j, ∃ o' ∈ (step u s (i, .applied o)).held j, u.parse o' = some (app, m))
        ↔ (m ∈ s.store.slot u.cluster app ∧ ResourceRef.of m ≠ o.ref)
          ∨ u.parse o = some (app, m) := by
      rw [hf.union, ← hrest]
      refine ⟨?_, ?_⟩
      · intro hx
        obtain ⟨j, o', ho', hp⟩ := hx
        by_cases hj : j = i
        · subst hj
          simp only [step, hold, Function.update_self, List.mem_append] at ho'
          rcases ho' with ho' | ho'
          · exact Or.inl ⟨j, o', by rw [Function.update_self]; exact ho', hp⟩
          · rw [List.mem_singleton] at ho'
            subst ho'
            exact Or.inr hp
        · simp only [step, Function.update_of_ne hj] at ho'
          exact Or.inl ⟨j, o', by rw [Function.update_of_ne hj]; exact ho', hp⟩
      · intro hx
        rcases hx with ⟨j, o', ho', hp⟩ | hp
        · refine ⟨j, o', ?_, hp⟩
          by_cases hj : j = i
          · subst hj
            rw [Function.update_self] at ho'
            simp only [step, hold, Function.update_self, List.mem_append]
            exact Or.inl ho'
          · rw [Function.update_of_ne hj] at ho'
            simp only [step, Function.update_of_ne hj]
            exact ho'
        · exact ⟨i, o, by simp [step, hold], hp⟩
    rw [hnew]
    show m ∈ (u.handleEvent s.store (.applied o)).1.slot u.cluster app ↔ _
    rw [LiveStoreUpdater.slot_applied, ← LiveStoreUpdater.parsedFor_eq_some]
    cases hp : u.parsedFor app o with
    | none =>
        simp only [reduceCtorEq, or_false]
        exact ⟨fun hm => ⟨hm, ref_ne_of_other h hf ho hp hm⟩, And.left⟩
    | some m₀ =>
        have hr := (LiveStoreUpdater.parse_some (LiveStoreUpdater.parsedFor_eq_some.mp hp)).2
        dsimp only
        rw [List.mem_append, mem_without, hr, List.mem_singleton, Option.some.injEq, eq_comm]
  once := by
    intro app
    show (refsOf ((u.handleEvent s.store (.applied o)).1.slot u.cluster app)).Nodup
    rw [LiveStoreUpdater.slot_applied]
    cases u.parsedFor app o with
    | none => exact hf.once app
    | some m₀ => exact nodup_without_append m₀ (hf.once app)

/-- **A restart of one kind is faithful exactly if there is nothing of any other.** -/
theorem faithful_restarted {s : State k} (hgvk : Function.Injective gvk) (h : Inv u gvk label s)
    {i : Fin k} {os : List DynamicObject} (hos : WellFormed u gvk label i os) :
    Faithful u (step u s (i, .restarted os)) ↔ RestartsAlone u s (i, .restarted os) := by
  have hslot : ∀ app m, m ∈ (step u s (i, .restarted os)).store.slot u.cluster app
      ↔ ∃ o ∈ os, u.parse o = some (app, m) := by
    intro app m
    show m ∈ (u.handleEvent s.store (.restarted os)).1.slot u.cluster app ↔ _
    rw [LiveStoreUpdater.slot_restarted, List.mem_filterMap]
    simp only [LiveStoreUpdater.parsedFor_eq_some]
  refine ⟨?_, ?_⟩
  · intro hf j hj o ho
    by_contra hne
    obtain ⟨app, happ⟩ := Option.ne_none_iff_exists'.mp hne
    obtain ⟨m, hm⟩ := LiveStoreUpdater.parse_of_labelOf happ
    -- `o` is in the union, so it would have to come from the restart's own list
    have hin : m ∈ (step u s (i, .restarted os)).store.slot u.cluster app :=
      (hf.union app m).mpr ⟨j, o, by simpa [step, Function.update_of_ne hj] using ho, hm⟩
    obtain ⟨o', ho', hm'⟩ := (hslot app m).mp hin
    have hr : o.ref = o'.ref := by
      rw [← (LiveStoreUpdater.parse_some hm).2, ← (LiveStoreUpdater.parse_some hm').2]
    exact ref_ne hgvk h hj (hos.kind o' ho') ho hr
  · intro halone
    refine ⟨?_, ?_⟩
    · intro app m
      rw [hslot]
      refine ⟨?_, ?_⟩
      · intro hx
        obtain ⟨o, ho, hp⟩ := hx
        exact ⟨i, o, by simpa [step, hold] using ho, hp⟩
      · intro hx
        obtain ⟨j, o, ho, hp⟩ := hx
        by_cases hj : j = i
        · subst hj
          exact ⟨o, by simpa [step, hold] using ho, hp⟩
        · simp only [step, Function.update_of_ne hj] at ho
          have := (LiveStoreUpdater.parse_some hp).1
          rw [halone j hj o ho] at this
          simp at this
    · intro app
      show (refsOf ((u.handleEvent s.store (.restarted os)).1.slot u.cluster app)).Nodup
      rw [LiveStoreUpdater.slot_restarted]
      exact LiveStoreUpdater.nodup_parsedFor u app hos.once

/-! ## Every run -/

theorem faithful_step {s : State k} (hgvk : Function.Injective gvk) (h : Inv u gvk label s)
    (hf : Faithful u s) {e : Fin k × InformerEvent} (he : WellFormed u gvk label e.1 e.2.objects) :
    Faithful u (step u s e) ↔ RestartsAlone u s e := by
  obtain ⟨i, ev⟩ := e
  cases ev with
  | applied o => exact iff_of_true (faithful_applied hgvk h hf he) trivial
  | deleted o => exact iff_of_true (faithful_deleted hgvk h hf he) trivial
  | restarted os => exact faithful_restarted hgvk h he

omit [FloatText] in
theorem inv_new (k : Nat) (u : LiveStoreUpdater) (gvk : Fin k → Gvk)
    (label : ResourceRef → Option AppName) : Inv u gvk label (State.new k u) := by
  intro i
  exact ⟨by simp [State.new], by simp [State.new], by simp [State.new]⟩

theorem faithful_new (k : Nat) (u : LiveStoreUpdater) : Faithful u (State.new k u) := by
  have hslot : ∀ app, (State.new k u).store.slot u.cluster app = [] :=
    LiveStoreUpdater.slot_registerCluster u.cluster
  refine ⟨fun app m => ?_, fun app => ?_⟩
  · rw [hslot]; simp [State.new]
  · rw [hslot]; simp [refsOf]

/--
**When the live store is faithful.**

For any number of informers of distinct kinds and any interleaving of their
events, in which no object's label ever changes: after every event every slot is
the union of what the informers hold with that label, if and only if every
restart comes while no other informer holds an object of an app.
-/
theorem faithful_iff (u : LiveStoreUpdater) (gvk : Fin k → Gvk) (hgvk : Function.Injective gvk)
    (label : ResourceRef → Option AppName) (run : List (Fin k × InformerEvent))
    (hrun : ∀ e ∈ run, WellFormed u gvk label e.1 e.2.objects) :
    Always (step u) (Faithful u) (State.new k u) run
      ↔ Each (step u) (RestartsAlone u) (State.new k u) run :=
  always_iff_each (I := Inv u gvk label)
    (A := fun e : Fin k × InformerEvent => WellFormed u gvk label e.1 e.2.objects)
    (fun _ _ h he => inv_step h he) (fun _ _ h hf he => faithful_step hgvk h hf he)
    (inv_new k u gvk label) (faithful_new k u) hrun

end

/-- One informer for config maps, one for secrets. -/
def twoKinds (i : Fin 2) : Gvk := if i = 0 then ⟨"", "v1", "ConfigMap"⟩ else ⟨"", "v1", "Secret"⟩

theorem twoKinds_injective : Function.Injective twoKinds := by
  intro i j
  revert i j
  decide

/-- A config map and a secret of one app are reported. -/
def applyBoth : List (Fin 2 × InformerEvent) :=
  [(0, .applied (.sample "ConfigMap" "settings" (some "shop"))),
    (1, .applied (.sample "Secret" "token" (some "shop")))]

theorem applyBoth_faithful :
    Always (@step 2 .ofBits (.new "prod")) (@Faithful 2 .ofBits (.new "prod"))
        (State.new 2 (.new "prod")) applyBoth
      ↔ Each (@step 2 .ofBits (.new "prod")) (RestartsAlone (.new "prod"))
        (State.new 2 (.new "prod")) applyBoth :=
  @faithful_iff 2 .ofBits (.new "prod") twoKinds twoKinds_injective (fun _ => some "shop") applyBoth
    (by
      intro e he
      rcases List.mem_pair.mp he with rfl | rfl
      all_goals exact ⟨by simpa [InformerEvent.objects] using by decide,
        by simpa [InformerEvent.objects] using by decide, by simp [InformerEvent.objects]⟩)

/-- Both informers start, one after the other; only the first kind has an object. -/
def startBoth : List (Fin 2 × InformerEvent) :=
  [(0, .restarted [.sample "ConfigMap" "settings" (some "shop")]), (1, .restarted [])]

/-- **The second informer's start wipes out what the first one reported.** -/
theorem startBoth_unfaithful :
    (exec (@step 2 .ofBits (.new "prod")) (State.new 2 (.new "prod")) startBoth).held 0
        = [.sample "ConfigMap" "settings" (some "shop")]
    ∧ (exec (@step 2 .ofBits (.new "prod")) (State.new 2 (.new "prod")) startBoth).store.slot
        "prod" "shop" = []
    ∧ ¬ @Faithful 2 .ofBits (.new "prod")
        (exec (@step 2 .ofBits (.new "prod")) (State.new 2 (.new "prod")) startBoth) := by
  refine ⟨rfl, rfl, ?_⟩
  intro h
  obtain ⟨m, hm⟩ := @LiveStoreUpdater.parse_of_labelOf (.new "prod")
    (.sample "ConfigMap" "settings" (some "shop")) "shop" .ofBits rfl
  have hin := (@Faithful.union 2 .ofBits _ _ h "shop" m).mpr ⟨0, _, List.mem_singleton.mpr rfl, hm⟩
  exact absurd hin List.not_mem_nil

end Informers

end SynchrotronCD
