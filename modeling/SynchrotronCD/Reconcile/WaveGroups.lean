import Mathlib.Data.List.Perm.Basic
import SynchrotronCD.Reconcile.PlanSpec
import SynchrotronCD.Reconcile.WaveTrace

/-!
# The groups of a plan

Grouping splits a plan into its entries by wave: nothing is lost, the waves ascend,
and within one the entries stand in the order of their kinds (`groupIntoWaves_perm`,
`groupIntoWaves_ascending`, `groupIntoWaves_kindOrdered`).

The wave of an entry is read off a manifest, and the body handed over later is read
off a manifest too. For an apply both take the last desired one. For a delete they
differ: grouping takes the desired manifest if there is one, and otherwise the *first*
live one, and execution the *last* live one.
-/

namespace SynchrotronCD

open Lib

/-! ## The order within a wave -/

/-- Deletes are ordered by what is highest first, so they are compared by the negated priority. -/
def PlanEntry.orderedPriority (e : PlanEntry) : Int :=
  if e.action = .delete then -(applyPriority e.resource.gvk.kind : Int)
  else applyPriority e.resource.gvk.kind

/-- The order of a wave as one of keys. -/
def compareByKeys : PlanEntry → PlanEntry → Ordering :=
  compareLex (compareOn fun e => actionClass e.action) <|
    compareLex (compareOn PlanEntry.orderedPriority) <|
      compareLex (compareOn (·.resource.gvk.kind)) <|
        compareLex (compareOn (·.resource.namespace)) <| compareOn (·.resource.name)

theorem compare_neg (m n : Nat) : compare (-(m : Int)) (-(n : Int)) = compare n m := by
  simp only [compare, compareOfLessAndEq]
  grind

theorem compare_natCast (m n : Nat) : compare (m : Int) (n : Int) = compare m n := by
  simp only [compare, compareOfLessAndEq]
  grind

theorem compareWithinWave_eq : compareWithinWave = compareByKeys := by
  funext a b
  unfold compareWithinWave compareByKeys compareLex compareOn PlanEntry.orderedPriority
  dsimp only
  by_cases ha : a.action = .delete
  · by_cases hb : b.action = .delete
    · simp only [ha, hb, if_true, compare_neg]
    · -- the classes differ, so the rest does not count
      have hclass : actionClass b.action = 0 := by cases h : b.action <;> simp_all [actionClass]
      rw [ha, hclass]
      rfl
  · by_cases hb : b.action = .delete
    · have hclass : actionClass a.action = 0 := by cases h : a.action <;> simp_all [actionClass]
      rw [hb, hclass]
      rfl
    · simp only [ha, hb, if_false, compare_natCast]

instance : Std.TransCmp compareWithinWave := by
  rw [compareWithinWave_eq]
  unfold compareByKeys
  infer_instance

/-- Applies and no-ops by ascending priority, then deletes by descending priority. -/
def KindOrdered (es : List PlanEntry) : Prop :=
  es.Pairwise fun a b =>
    (a.action = .delete → b.action = .delete ∧
      applyPriority b.resource.gvk.kind ≤ applyPriority a.resource.gvk.kind)
    ∧ (a.action ≠ .delete → b.action ≠ .delete →
      applyPriority a.resource.gvk.kind ≤ applyPriority b.resource.gvk.kind)

theorem sortWithinWave_kindOrdered (es : List PlanEntry) : KindOrdered (sortWithinWave es) := by
  refine (@pairwise_sort _ compareWithinWave _ es).imp fun {a b} hle => ?_
  rw [compareWithinWave_eq] at hle
  have hkeys := Ordering.isLE_then_iff_and.mp hle
  have hclass : actionClass a.action ≤ actionClass b.action := Nat.isLE_compare.mp hkeys.1
  have hprio : actionClass a.action = actionClass b.action →
      a.orderedPriority ≤ b.orderedPriority := by
    intro heq
    have hthen := hkeys.2.resolve_left (by simp [compareOn, heq])
    exact Int.isLE_compare.mp (Ordering.isLE_then_iff_and.mp hthen).1
  refine ⟨fun ha => ?_, fun ha hb => ?_⟩
  · have hb : b.action = .delete := by
      rw [ha] at hclass
      cases h : b.action <;> simp_all [actionClass]
    have := hprio (by rw [ha, hb])
    simp only [PlanEntry.orderedPriority, ha, hb, if_true] at this
    exact ⟨hb, by omega⟩
  · have heq : actionClass a.action = actionClass b.action := by
      have hrest : ∀ x : PlannedAction, x ≠ .delete → actionClass x = 0 := by
        intro x hx
        cases x with
        | delete => exact absurd rfl hx
        | apply | noOp => rfl
      rw [hrest _ ha, hrest _ hb]
    have := hprio heq
    simp only [PlanEntry.orderedPriority, ha, hb, if_false] at this
    omega

/-! ## The groups -/

section

variable (p : Plan) (desired live : List Manifest)

/-- The wave a reference is put into. -/
def groupWave (r : ResourceRef) : Int :=
  (((manifestByRef desired live).lookup r).map waveOf).getD DEFAULT_WAVE

/-- A group is made of the entries of its wave. -/
theorem entries_of_mem_groups {g : WaveGroup} (hg : g ∈ (groupIntoWaves p desired live).waves) :
    g.entries = sortWithinWave
      (p.entries.filter fun e => groupWave desired live e.resource = g.wave) := by
  obtain ⟨⟨w, es⟩, hw, rfl⟩ := List.mem_map.mp ((List.mem_insertionSort _).mp hg)
  exact congrArg sortWithinWave (lookup_byWave_some (AList.mem_lookup_iff.mpr hw))

theorem wave_of_mem_groups {g : WaveGroup} (hg : g ∈ (groupIntoWaves p desired live).waves)
    {e : PlanEntry} (he : e ∈ g.entries) : g.wave = groupWave desired live e.resource := by
  rw [entries_of_mem_groups p desired live hg] at he
  have hmem := (List.mem_insertionSort _).mp he
  simpa using Eq.symm (of_decide_eq_true (List.mem_filter.mp hmem).2)

/-- **The groups together hold every entry of the plan once.** -/
theorem groupIntoWaves_perm :
    ((groupIntoWaves p desired live).waves.flatMap WaveGroup.entries).Perm p.entries := by
  let groups := byWave (groupWave desired live) p.entries
  have hsorted : ((groupIntoWaves p desired live).waves.flatMap WaveGroup.entries).Perm
      ((groups.entries.map fun w => (⟨w.1, sortWithinWave w.2⟩ : WaveGroup)).flatMap
        WaveGroup.entries) := (List.perm_insertionSort _ _).flatMap_right _
  have hunsorted : ((groups.entries.map fun w => (⟨w.1, sortWithinWave w.2⟩ : WaveGroup)).flatMap
      WaveGroup.entries).Perm (groups.entries.flatMap fun w => w.2) := by
    rw [List.flatMap_map]
    exact List.Perm.flatMap_left _ fun w _ => List.perm_insertionSort _ _
  have hfilter : (groups.entries.flatMap fun w => w.2) = groups.keys.flatMap fun w =>
      p.entries.filter fun e => groupWave desired live e.resource = w := by
    have hkeys : groups.keys = groups.entries.map Sigma.fst := rfl
    rw [hkeys, List.flatMap_map]
    exact List.flatMap_congr fun w hw => lookup_byWave_some (AList.mem_lookup_iff.mpr hw)
  have hcover : ∀ e ∈ p.entries, groupWave desired live e.resource ∈ groups.keys := by
    intro e he
    have hmem : e ∈ p.entries.filter fun x =>
        groupWave desired live x.resource = groupWave desired live e.resource :=
      List.mem_filter.mpr ⟨he, by simp⟩
    refine AList.mem_keys.mp (AList.lookup_isSome.mp ?_)
    rw [lookup_byWave, if_neg (List.ne_nil_of_mem hmem)]
    rfl
  refine (hsorted.trans hunsorted).trans ?_
  rw [hfilter]
  exact perm_flatMap_filter (fun e : PlanEntry => groupWave desired live e.resource) groups.keys_nodup hcover

theorem groupIntoWaves_kindOrdered {g : WaveGroup}
    (hg : g ∈ (groupIntoWaves p desired live).waves) : KindOrdered g.entries := by
  rw [entries_of_mem_groups p desired live hg]
  exact sortWithinWave_kindOrdered _

theorem wave_of_mem_changed {g : WaveGroup} (hg : g ∈ (groupIntoWaves p desired live).waves)
    {e : PlanEntry} (he : e ∈ g.changed) : g.wave = groupWave desired live e.resource :=
  wave_of_mem_groups p desired live hg (List.mem_filter.mp he).1

/-- What holds of the changes of each wave, and of every two changes of which the second is in a
later wave, holds of the changes in the order in which they are handed over. -/
theorem changedOf_pairwise {R : PlanEntry → PlanEntry → Prop}
    (hwithin : ∀ g ∈ (groupIntoWaves p desired live).waves, g.changed.Pairwise R)
    (hacross : ∀ a b, groupWave desired live a.resource < groupWave desired live b.resource →
      R a b) : (changedOf (groupIntoWaves p desired live).waves).Pairwise R := by
  refine List.pairwise_flatMap.mpr ⟨hwithin, ?_⟩
  refine (groupIntoWaves_ascending p desired live).imp_of_mem fun {g g'} hg hg' hlt a ha b hb => ?_
  rw [wave_of_mem_changed p desired live hg ha, wave_of_mem_changed p desired live hg' hb] at hlt
  exact hacross a b hlt

end

/-! ## Which manifest -/

/-- The first manifest in a list that has reference `r`. -/
def firstOf (ms : List Manifest) (r : ResourceRef) : Option Manifest :=
  ms.find? fun m => ResourceRef.of m = r

theorem firstOf_isSome_iff {ms : List Manifest} {r : ResourceRef} :
    (firstOf ms r).isSome = true ↔ r ∈ ms.map ResourceRef.of := by
  simp [firstOf]

/-- Grouping takes the last desired manifest, and without one the first live one. -/
theorem manifestByRef_lookup (desired live : List Manifest) (r : ResourceRef) :
    (manifestByRef desired live).lookup r = (lastOf desired r).or (firstOf live r) := by
  unfold manifestByRef
  rw [lookup_foldl_orInsert ResourceRef.of (fun m => m) live (indexByRef desired) r,
    ← lastWithRef_eq_lastOf]
  exact congrArg _ (congrFun Option.map_id _)

theorem groupWave_eq (desired live : List Manifest) (r : ResourceRef) : groupWave desired live r
    = (((lastOf desired r).or (firstOf live r)).map waveOf).getD DEFAULT_WAVE := by
  rw [groupWave, manifestByRef_lookup]

/-- Execution takes the last desired manifest for an apply and the last live one for a delete. -/
theorem manifestFor_eq (desired live : List Manifest) (e : PlanEntry) :
    manifestFor desired live e = match e.action with
      | .apply => lastOf desired e.resource
      | .delete => lastOf live e.resource
      | .noOp => none := by
  rw [← lastWithRef_eq_lastOf, ← lastWithRef_eq_lastOf]
  rfl

/-- For every delete, the last live manifest is of the wave of the last desired one, or where
there is none of the first live one. -/
def DeletesReadAlike (p : Plan) (desired live : List Manifest) : Prop :=
  ∀ e ∈ p.entries, e.action = .delete → ∀ l, lastOf live e.resource = some l →
    ((lastOf desired e.resource).or (firstOf live e.resource)).map waveOf = some (waveOf l)

/-- The groups are the plan, in order, each entry in the wave of the manifest used for it. -/
structure FaithfulGroups (p : Plan) (desired live : List Manifest) (groups : List WaveGroup) :
    Prop where
  once : (groups.flatMap WaveGroup.entries).Perm p.entries
  ascending : groups.Pairwise fun a b => a.wave < b.wave
  ordered : ∀ g ∈ groups, KindOrdered g.entries
  waves : ∀ g ∈ groups, ∀ e ∈ g.entries, ∀ m, manifestFor desired live e = some m →
    g.wave = waveOf m

/--
**When a plan is grouped by the manifests that are used.**

For every plan and all manifests the groups are the plan split by wave, in order. Each
entry is in the wave of the manifest that is handed over for it if and only if, for
every delete, the two choices among several manifests with its reference agree on the
wave.
-/
theorem groupIntoWaves_faithful_iff (p : Plan) (desired live : List Manifest) :
    FaithfulGroups p desired live (groupIntoWaves p desired live).waves ↔
      DeletesReadAlike p desired live := by
  refine ⟨fun h e he hdel l hl => ?_, fun h => ⟨groupIntoWaves_perm p desired live,
    groupIntoWaves_ascending p desired live,
    fun g hg => groupIntoWaves_kindOrdered p desired live hg, ?_⟩⟩
  · obtain ⟨g, hg, heg⟩ := mem_groupIntoWaves.mpr he
    have hused : manifestFor desired live e = some l := by rw [manifestFor_eq, hdel]; exact hl
    have hwave := h.waves g hg e heg l hused
    rw [wave_of_mem_groups p desired live hg heg, groupWave_eq] at hwave
    -- a live manifest with the reference is there, so one was found for grouping
    have hsome : ((lastOf desired e.resource).or (firstOf live e.resource)).isSome = true := by
      have hlive : e.resource ∈ live.map ResourceRef.of :=
        lastOf_isSome_iff.mp (by rw [hl]; rfl)
      rw [Option.isSome_or, firstOf_isSome_iff.mpr hlive, Bool.or_true]
    obtain ⟨m, hm⟩ := Option.isSome_iff_exists.mp hsome
    rw [hm] at hwave ⊢
    exact congrArg some hwave
  · intro g hg e heg m hm
    rw [wave_of_mem_groups p desired live hg heg, groupWave_eq]
    have he : e ∈ p.entries := mem_groupIntoWaves.mp ⟨g, hg, heg⟩
    rw [manifestFor_eq] at hm
    cases hact : e.action with
    | apply =>
        rw [hact] at hm
        rw [show lastOf desired e.resource = some m from hm]
        rfl
    | delete =>
        rw [hact] at hm
        rw [h e he hact m hm]
        rfl
    | noOp => simp [hact] at hm

/-- A config map in namespace `app` with a wave annotation. -/
def configMapIn (name wave : String) : Manifest :=
  let v : Value := .mapping [(.string "apiVersion", .string "v1"),
    (.string "kind", .string "ConfigMap"),
    (.string "metadata", .mapping [(.string "name", .string name),
      (.string "namespace", .string "app"),
      (.string "annotations", .mapping [(.string SYNCHROTRON_WAVE_ANNOTATION, .string wave)])])]
  let bytes := (@ManifestBody.toVec .ofBits v).getD []
  ⟨⟨"", "v1", "ConfigMap"⟩, name, some "app", ⟨bytes, fnv1a64 bytes, v, rfl⟩⟩

theorem ref_configMapIn (name wave : String) :
    ResourceRef.of (configMapIn name wave) = ⟨⟨"", "v1", "ConfigMap"⟩, some "app", name⟩ := rfl

/-- The config map `cache`. -/
def inWave (wave : String) : Manifest := configMapIn "cache" wave

theorem ref_inWave (wave : String) :
    ResourceRef.of (inWave wave) = ⟨⟨"", "v1", "ConfigMap"⟩, some "app", "cache"⟩ := rfl

/-- Two live manifests with one reference: deleted in the wave of the first, with the body of
the last. -/
theorem groupIntoWaves_other_manifest :
    ¬FaithfulGroups (plan [] [inWave "1", inWave "2"]) [] [inWave "1", inWave "2"]
      (groupIntoWaves (plan [] [inWave "1", inWave "2"]) [] [inWave "1", inWave "2"]).waves := by
  intro h
  have href : ResourceRef.of (inWave "1") = ResourceRef.of (inWave "2") := by
    rw [ref_inWave, ref_inWave]
  have hdelete : ⟨ResourceRef.of (inWave "1"), .delete⟩ ∈
      (plan [] [inWave "1", inWave "2"]).entries :=
    delete_mem_plan.mpr ⟨by simp, inWave "1", by simp, rfl⟩
  obtain ⟨g, hg, heg⟩ := mem_groupIntoWaves.mpr hdelete
  have hlast : lastOf [inWave "1", inWave "2"] (ResourceRef.of (inWave "1"))
      = some (inWave "2") := List.find?_cons_of_pos (decide_eq_true href.symm)
  have hused := h.waves g hg _ heg (inWave "2") (by rw [manifestFor_eq]; exact hlast)
  have hgrouped : g.wave = waveOf (inWave "1") := by
    rw [wave_of_mem_groups _ _ _ hg heg, groupWave_eq]
    have hfirst : firstOf [inWave "1", inWave "2"] (ResourceRef.of (inWave "1"))
        = some (inWave "1") := List.find?_cons_of_pos (decide_eq_true rfl)
    rw [hfirst]
    rfl
  have hwaves : waveOf (inWave "1") ≠ waveOf (inWave "2") := by decide +kernel
  exact hwaves (hgrouped.symm.trans hused)

end SynchrotronCD
