import SynchrotronCD.Kube.Prune
import SynchrotronCD.Reconcile.WaveGroups

/-!
# The order of a teardown

Resources come up wave by wave, and within a wave by the priority of their kinds. They
should go down the other way round in both respects. Each of the two delete paths
reverses one of them.

The prune sweep takes the highest wave first, and within a wave goes by the names
of things: the order of the kinds is that of their groups, versions and spellings.
The waves of a plan take the deletes of a wave by descending priority, and the waves
themselves in the order in which they came up.
-/

namespace SynchrotronCD.Kube

open Lib

/-- The reverse of bring-up: later waves before earlier ones, and within a wave higher
priorities before lower ones. -/
def TeardownOrdered {α : Type} (wave : α → Int) (kind : α → String) (xs : List α) : Prop :=
  xs.Pairwise fun a b => wave b ≤ wave a ∧
    (wave a = wave b → applyPriority (kind b) ≤ applyPriority (kind a))

/-! ## The prune sweep -/

instance : Std.TransCmp comparePruneOrder :=
  have : Std.TransCmp fun a b : OwnedResource => compareOn OwnedResource.wave b a :=
    @transCmp_flip _ (compareOn OwnedResource.wave) _
  have : Std.TransCmp fun a b : OwnedResource => a.ref.compareSortKey b.ref :=
    transCmp_on OwnedResource.ref
  inferInstanceAs (Std.TransCmp (compareLex
    (fun a b : OwnedResource => compareOn OwnedResource.wave b a)
    fun a b => a.ref.compareSortKey b.ref))

theorem comparePruneOrder_isLE {a b : OwnedResource} (h : LeBy comparePruneOrder a b) :
    b.wave ≤ a.wave ∧ (a.wave = b.wave → LeBy ResourceRef.compareSortKey a.ref b.ref) := by
  obtain ⟨hwave, hkey⟩ := Ordering.isLE_then_iff_and.mp h
  refine ⟨Int.isLE_compare.mp hwave, fun heq => hkey.resolve_left ?_⟩
  simp [heq]

/-- A recorded resource that is not exempt and no longer desired. -/
def OwnedResource.ToGo (desired : List Manifest) (r : OwnedResource) : Prop :=
  r.pruneDisabled = false ∧ r.ref ∉ desired.map ResourceRef.of

/-- Of two resources to go that are of one wave and whose kinds differ in priority, the one with
the higher priority has the lower sort key. -/
def SortKeysDescend (owned : List OwnedResource) (desired : List Manifest) : Prop :=
  ∀ a ∈ owned, ∀ b ∈ owned, a.ToGo desired → b.ToGo desired → a.wave = b.wave →
    applyPriority a.gvk.kind < applyPriority b.gvk.kind → b.ref.compareSortKey a.ref = .lt

theorem computePruneSet_teardownOrdered (owned : List OwnedResource) (desired : List Manifest) :
    TeardownOrdered OwnedResource.wave (·.gvk.kind) (computePruneSet owned desired) ↔
      SortKeysDescend owned desired := by
  have hsorted : (computePruneSet owned desired).Pairwise (LeBy comparePruneOrder) :=
    pairwise_sort _
  refine ⟨fun h a ha b hb hago hbgo hwave hprio => ?_, fun h => ?_⟩
  · have hne : a ≠ b := by
      rintro rfl
      exact absurd hprio (lt_irrefl _)
    rcases related_of_mem (h.and hsorted) (mem_computePruneSet.mpr ⟨ha, hago⟩)
      (mem_computePruneSet.mpr ⟨hb, hbgo⟩) hne with ⟨hab, -⟩ | ⟨-, hba⟩
    · exact absurd (hab.2 hwave) (Nat.not_le.mpr hprio)
    · -- the priorities differ, so the kinds do, and the keys are not equal
      have hkey : b.ref.compareSortKey a.ref ≠ .eq := by
        intro heq
        have hkind := congrArg (·.gvk.kind) (ResourceRef.compareSortKey_eq.mp heq)
        rw [show b.gvk.kind = a.gvk.kind from hkind] at hprio
        exact absurd hprio (lt_irrefl _)
      have hle := (comparePruneOrder_isLE hba).2 hwave.symm
      exact (Ordering.isLE_iff_eq_lt_or_eq_eq.mp hle).resolve_right hkey
  · refine List.Pairwise.imp_of_mem (fun {a b} ha hb hle => ?_) hsorted
    obtain ⟨hwave, hkey⟩ := comparePruneOrder_isLE hle
    refine ⟨hwave, fun heq => ?_⟩
    obtain ⟨haowned, hago⟩ := mem_computePruneSet.mp ha
    obtain ⟨hbowned, hbgo⟩ := mem_computePruneSet.mp hb
    by_contra hlt
    have hba := h a haowned b hbowned hago hbgo heq (Nat.not_le.mp hlt)
    exact absurd (Std.OrientedCmp.gt_of_lt hba) (Ordering.isLE_iff_ne_gt.mp (hkey heq))

/-! ## The waves of a plan -/

/-- A plan that deletes these resources and does nothing else. -/
def deleteOnly (rs : List ResourceRef) : Plan := ⟨rs.map fun r => ⟨r, .delete⟩⟩

/-- The deletes are handed to the applier in the order of a teardown, whatever becomes of them. -/
def WavesTearDown (rs : List ResourceRef) (desired live : List Manifest) : Prop :=
  ∀ ex, TeardownOrdered (fun e => groupWave desired live e.resource) (·.resource.gvk.kind)
    (appliedEntries
      (executeWaves ex (groupIntoWaves (deleteOnly rs) desired live) desired live).1)

/-- Nothing is ever refused, and everything is healthy. -/
def agreeable : ReconcileExecutor where
  applier _ _ _ := .ok ()
  health _ _ := .healthy
  pollsBeforeDeadline _ := 0
  config := .default

theorem compliant_agreeable : Compliant agreeable := ⟨fun _ _ _ => rfl, fun _ _ => rfl⟩

theorem mem_changedOf_deleteOnly {rs : List ResourceRef} {desired live : List Manifest}
    {e : PlanEntry} : e ∈ changedOf (groupIntoWaves (deleteOnly rs) desired live).waves ↔
      e.resource ∈ rs ∧ e.action = .delete := by
  rw [mem_changedOf_group]
  obtain ⟨r, a⟩ := e
  simp only [deleteOnly, List.mem_map, PlanEntry.mk.injEq]
  refine ⟨?_, ?_⟩
  · rintro ⟨⟨r', hr, rfl, rfl⟩, -⟩
    exact ⟨hr, rfl⟩
  · rintro ⟨hr, rfl⟩
    exact ⟨⟨r, hr, rfl, rfl⟩, by decide⟩

/-- The waves of a plan go up. -/
theorem changedOf_ascending (p : Plan) (desired live : List Manifest) :
    (changedOf (groupIntoWaves p desired live).waves).Pairwise fun a b =>
      groupWave desired live a.resource ≤ groupWave desired live b.resource := by
  refine changedOf_pairwise p desired live (fun g hg => ?_) fun a b hlt => le_of_lt hlt
  refine List.pairwise_of_forall_mem_list fun a ha b hb => ?_
  rw [← wave_of_mem_changed p desired live hg ha, ← wave_of_mem_changed p desired live hg hb]

/-- Within one wave the priorities of the deletes go down. -/
theorem changedOf_deleteOnly_descending {rs : List ResourceRef} {desired live : List Manifest} :
    (changedOf (groupIntoWaves (deleteOnly rs) desired live).waves).Pairwise fun a b =>
      groupWave desired live a.resource = groupWave desired live b.resource →
        applyPriority b.resource.gvk.kind ≤ applyPriority a.resource.gvk.kind := by
  refine changedOf_pairwise _ desired live (fun g hg => ?_) fun a b hlt heq =>
    absurd heq (ne_of_lt hlt)
  have hordered : KindOrdered g.changed :=
    (groupIntoWaves_kindOrdered _ desired live hg).sublist List.filter_sublist
  refine hordered.imp_of_mem fun {a b} ha _ hkinds _ => (hkinds.1 ?_).2
  exact (mem_changedOf_deleteOnly.mp (List.mem_flatMap.mpr ⟨g, hg, ha⟩)).2

theorem wavesTearDown_iff (rs : List ResourceRef) (desired live : List Manifest) :
    WavesTearDown rs desired live ↔
      ∀ a ∈ rs, ∀ b ∈ rs, groupWave desired live a = groupWave desired live b := by
  have hasc := changedOf_ascending (deleteOnly rs) desired live
  refine ⟨fun h a ha b hb => ?_, fun h ex => ?_⟩
  · obtain ⟨rep, hok⟩ := compliant_agreeable.executeWaves
      (groupIntoWaves (deleteOnly rs) desired live) desired live
    have hall := h agreeable
    rw [appliedEntries_passed (executeWaves_passed hok).2] at hall
    by_cases hab : a = b
    · rw [hab]
    · have hne : (⟨a, .delete⟩ : PlanEntry) ≠ ⟨b, .delete⟩ := fun heq => hab (PlanEntry.mk.inj heq).1
      rcases related_of_mem (hall.and hasc) (mem_changedOf_deleteOnly.mpr ⟨ha, rfl⟩)
        (mem_changedOf_deleteOnly.mpr ⟨hb, rfl⟩) hne with ⟨hdown, hup⟩ | ⟨hdown, hup⟩
      · exact le_antisymm hup hdown.1
      · exact le_antisymm hdown.1 hup
  · refine List.Pairwise.sublist (appliedEntries_initial _ desired live).sublist ?_
    refine changedOf_deleteOnly_descending.imp_of_mem fun {a b} ha hb hprio => ⟨?_, hprio⟩
    exact le_of_eq (h _ (mem_changedOf_deleteOnly.mp hb).1 _ (mem_changedOf_deleteOnly.mp ha).1)

/--
**When a teardown is the reverse of bring-up.**

For every set of resources to go: the prune sweep takes them in the order of a teardown
if and only if within each wave the sort keys happen to run against the priorities, and
the waves of a plan that only deletes do, whatever executor carries it out, if and only if all
the deletes are in one wave.
-/
theorem teardown_ordered_iff (owned : List OwnedResource) (rs : List ResourceRef)
    (desired live : List Manifest) :
    (TeardownOrdered OwnedResource.wave (·.gvk.kind) (computePruneSet owned desired) ↔
      SortKeysDescend owned desired) ∧
    (WavesTearDown rs desired live ↔
      ∀ a ∈ rs, ∀ b ∈ rs, groupWave desired live a = groupWave desired live b) :=
  ⟨computePruneSet_teardownOrdered owned desired, wavesTearDown_iff rs desired live⟩

/-- The config map goes before the deployment that mounts it, and wave 1 before wave 2. -/
theorem teardown_out_of_order :
    ¬TeardownOrdered OwnedResource.wave (·.gvk.kind) (computePruneSet
      [⟨⟨"", "v1", "ConfigMap"⟩, some "app", "web", 0, false⟩,
        ⟨⟨"apps", "v1", "Deployment"⟩, some "app", "web", 0, false⟩] []) ∧
    ¬WavesTearDown [.of (configMapIn "base" "1"), .of (configMapIn "top" "2")] []
      [configMapIn "base" "1", configMapIn "top" "2"] := by
  refine ⟨?_, ?_⟩
  · rw [computePruneSet_teardownOrdered]
    intro h
    have hlt := h ⟨⟨"", "v1", "ConfigMap"⟩, some "app", "web", 0, false⟩ (by simp)
      ⟨⟨"apps", "v1", "Deployment"⟩, some "app", "web", 0, false⟩ (by simp)
      ⟨rfl, by simp⟩ ⟨rfl, by simp⟩ rfl (by decide)
    exact absurd hlt (by decide)
  · rw [wavesTearDown_iff]
    intro h
    have heq := h (.of (configMapIn "base" "1")) (by simp) (.of (configMapIn "top" "2")) (by simp)
    rw [groupWave_eq, groupWave_eq] at heq
    have hbase : firstOf [configMapIn "base" "1", configMapIn "top" "2"]
        (.of (configMapIn "base" "1")) = some (configMapIn "base" "1") :=
      List.find?_cons_of_pos (decide_eq_true rfl)
    have htop : firstOf [configMapIn "base" "1", configMapIn "top" "2"]
        (.of (configMapIn "top" "2")) = some (configMapIn "top" "2") := by
      rw [firstOf, List.find?_cons_of_neg]
      · exact List.find?_cons_of_pos (decide_eq_true rfl)
      · rw [ref_configMapIn, ref_configMapIn]
        decide
    rw [hbase, htop] at heq
    have hwaves : waveOf (configMapIn "base" "1") ≠ waveOf (configMapIn "top" "2") := by
      decide +kernel
    exact hwaves heq

end SynchrotronCD.Kube
