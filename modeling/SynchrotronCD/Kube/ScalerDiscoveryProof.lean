import Mathlib.Data.List.Perm.Basic
import SynchrotronCD.Kube.ScalerDiscovery

/-!
# The scaler cache converges when no stale copy is written last

A cache is what its last writer made of the entries it had copied, so it indexes
the sources exactly if those entries still are the values of the sources. While
some task is under way nothing is claimed; a task becomes idle by writing, and
the last to do so decides. `scalerCache_converges_iff` says this of whole runs.

Folding an event that asks for no rebuild leaves the values as they were, up to
their order, so an idle state stays converged.
-/

namespace SynchrotronCD

open Lib

namespace ScalerCache

theorem entriesFor_insert (me : ScalerCache) (e : ScalerEntry) (target : TargetRef) :
    (me.insert e).entriesFor target
      = me.entriesFor target ++ [e].filter (fun x => x.target = target) := by
  unfold entriesFor insert
  by_cases ht : target = e.target
  · subst ht
    simp [entriesFor]
  · rw [AList.lookup_insert_ne ht]
    have hne : ¬ e.target = target := fun h => ht h.symm
    simp [hne]

theorem entriesFor_foldl (entries : List ScalerEntry) (target : TargetRef) :
    ∀ me : ScalerCache, (entries.foldl insert me).entriesFor target
      = me.entriesFor target ++ entries.filter (fun x => x.target = target) := by
  induction entries with
  | nil => intro me; simp
  | cons e entries ih =>
      intro me
      rw [List.foldl_cons, ih, entriesFor_insert, List.append_assoc, ← List.filter_append]
      rfl

/-- A cache written from some entries has each under its target, in their order. -/
theorem entriesFor_replaceWith (me : ScalerCache) (entries : List ScalerEntry)
    (target : TargetRef) : (me.replaceWith entries).entriesFor target
      = entries.filter (fun x => x.target = target) := by
  unfold replaceWith
  rw [entriesFor_foldl]
  rfl

theorem mem_foldl (entries : List ScalerEntry) (target : TargetRef) : ∀ me : ScalerCache,
    target ∈ (entries.foldl insert me).byTarget
      ↔ target ∈ me.byTarget ∨ ∃ e ∈ entries, e.target = target := by
  induction entries with
  | nil => intro me; simp
  | cons e entries ih =>
      intro me
      rw [List.foldl_cons, ih]
      show target ∈ AList.insert e.target _ me.byTarget ∨ _ ↔ _
      rw [AList.mem_insert]
      simp only [List.mem_cons, exists_eq_or_imp]
      refine ⟨?_, ?_⟩
      · intro h
        rcases h with (h | h) | h
        · exact Or.inr (Or.inl h.symm)
        · exact Or.inl h
        · exact Or.inr (Or.inr h)
      · intro h
        rcases h with h | h | h
        · exact Or.inl (Or.inr h)
        · exact Or.inl (Or.inl h.symm)
        · exact Or.inr h

theorem mem_replaceWith (me : ScalerCache) (entries : List ScalerEntry) (target : TargetRef) :
    target ∈ (me.replaceWith entries).byTarget ↔ ∃ e ∈ entries, e.target = target := by
  unfold replaceWith
  rw [mem_foldl]
  exact or_iff_right (AList.notMem_empty target)

end ScalerCache

namespace ScalerDiscovery

/-! ## The index -/

/-- **A cache indexes the sources exactly if it was written from their values.** -/
theorem indexOf_replaceWith {me : ScalerCache} {entries : List ScalerEntry} {sources : Sources} :
    IndexOf (me.replaceWith entries) sources ↔ entries.Perm sources.values := by
  refine ⟨?_, ?_⟩
  · intro h
    rw [List.perm_iff_count]
    intro e
    -- an entry is counted under its own target
    have hcount := (h.entries e.target).count_eq e
    rw [ScalerCache.entriesFor_replaceWith, List.count_filter (by simp),
      List.count_filter (by simp)] at hcount
    exact hcount
  · intro h
    refine ⟨?_, ?_⟩
    · intro target
      rw [ScalerCache.entriesFor_replaceWith]
      exact h.filter _
    · intro target
      rw [ScalerCache.mem_replaceWith]
      simp only [h.mem_iff]

theorem IndexOf.of_perm {cache : ScalerCache} {s t : Sources} (h : IndexOf cache s)
    (hp : s.values.Perm t.values) : IndexOf cache t := by
  refine ⟨fun target => (h.entries target).trans (hp.filter _), fun target => ?_⟩
  rw [h.targets target]
  simp only [hp.mem_iff]

theorem indexOf_new : IndexOf .new ∅ := by
  refine ⟨fun target => List.Perm.refl _, fun target => ?_⟩
  refine ⟨fun h => absurd h (AList.notMem_empty target), ?_⟩
  intro hex
  obtain ⟨e, he, -⟩ := hex
  exact absurd he List.not_mem_nil

/-! ## Idle states -/

/-- A state in which some task has been set to something else than idle. -/
theorem not_idle_update {s : State} {controller : ControllerKind} {task : Task}
    (h : task ≠ .idle) {sources : Sources} {cache : ScalerCache} :
    ¬ (State.mk sources cache (Function.update s.tasks controller task)).Idle := by
  intro hidle
  have hself := hidle controller
  rw [show (State.mk sources cache (Function.update s.tasks controller task)).tasks controller
    = task from Function.update_self ..] at hself
  exact h hself

/-- A state is idle after a task's write exactly if all the others were. -/
theorem idle_update_iff {s : State} {controller : ControllerKind} {sources : Sources}
    {cache : ScalerCache} :
    (State.mk sources cache (Function.update s.tasks controller .idle)).Idle
      ↔ ∀ other, other ≠ controller → s.tasks other = .idle := by
  refine ⟨?_, ?_⟩
  · intro h other ho
    rw [← h other]
    exact (Function.update_of_ne ho ..).symm
  · intro h other
    by_cases ho : other = controller
    · subst ho
      exact Function.update_self ..
    · exact (Function.update_of_ne ho ..).trans (h other ho)

/-! ## Folding an event -/

theorem Sources.values_insert_of_lookup {s : Sources} {key : SourceKey} {entry : ScalerEntry}
    (h : s.lookup key = some entry) : (Sources.values (s.insert key entry)).Perm s.values := by
  refine List.Perm.map _ ?_
  refine List.lookup_ext (s.insert key entry).nodupKeys s.nodupKeys ?_
  intro k v
  show v ∈ (s.insert key entry).lookup k ↔ v ∈ s.lookup k
  by_cases hk : k = key
  · subst hk
    rw [AList.lookup_insert, h]
  · rw [AList.lookup_insert_ne hk]

theorem Sources.values_erase_of_lookup {s : Sources} {key : SourceKey}
    (h : s.lookup key = none) : Sources.values (s.erase key) = s.values := by
  have hkey : key ∉ s.keys := AList.lookup_eq_none.mp h
  show (List.kerase key s.entries).map Sigma.snd = s.entries.map Sigma.snd
  rw [List.kerase_of_notMem_keys hkey]

theorem lookup_retainOthers {controller : ControllerKind} {key : SourceKey}
    (hk : key.controller ≠ controller) (s : Sources) :
    (s.retainOthers controller).lookup key = s.lookup key := by
  refine Option.ext fun v => ?_
  show v ∈ (s.retainOthers controller).lookup key ↔ v ∈ s.lookup key
  rw [AList.mem_lookup_iff, AList.mem_lookup_iff]
  show ⟨key, v⟩ ∈ s.entries.filter _ ↔ _
  rw [List.mem_filter]
  simp [hk]

section

variable [FloatText]

/-- An event that asks for no rebuild leaves the values as they were. -/
theorem fold_unchanged {controller : ControllerKind} {s : Sources} {e : InformerEvent}
    (h : (fold controller s e).2 = false) : (fold controller s e).1.values.Perm s.values := by
  cases e with
  | restarted os => exact absurd h (by simp [fold])
  | applied o =>
      cases hk : sourceKeyOf o controller with
      | none => simp only [fold, hk]; exact List.Perm.refl _
      | some key =>
      cases he : entryOf o with
      | none =>
          simp only [fold, hk, he, Option.isSome_eq_false_iff, Option.isNone_iff_eq_none] at h ⊢
          rw [Sources.values_erase_of_lookup h]
      | some entry =>
          simp only [fold, hk, he, decide_eq_false_iff_not, not_not] at h ⊢
          exact Sources.values_insert_of_lookup h
  | deleted o =>
      cases hk : sourceKeyOf o controller with
      | none => simp only [fold, hk]; exact List.Perm.refl _
      | some key =>
          simp only [fold, hk, Option.isSome_eq_false_iff, Option.isNone_iff_eq_none] at h ⊢
          rw [Sources.values_erase_of_lookup h]

theorem lookup_insertSource {controller : ControllerKind} {key : SourceKey}
    (hk : key.controller ≠ controller) (s : Sources) (o : DynamicObject) :
    (insertSource controller s o).lookup key = s.lookup key := by
  unfold insertSource
  cases hs : sourceKeyOf o controller with
  | none => rfl
  | some k =>
  cases entryOf o with
  | none => rfl
  | some entry =>
      obtain ⟨name, -, rfl⟩ := Option.map_eq_some_iff.mp hs
      exact AList.lookup_insert_ne fun h => hk (by rw [h])

/-- **A relist replaces the sources of its own kind of controller only.** -/
theorem lookup_fold_restarted {controller : ControllerKind} {key : SourceKey}
    (hk : key.controller ≠ controller) (s : Sources) (os : List DynamicObject) :
    (fold controller s (.restarted os)).1.lookup key = s.lookup key := by
  show (os.foldl (insertSource controller) (s.retainOthers controller)).lookup key = s.lookup key
  rw [← lookup_retainOthers hk s]
  generalize s.retainOthers controller = t
  induction os generalizing t with
  | nil => rfl
  | cons o os ih => rw [List.foldl_cons, ih, lookup_insertSource hk]

/-! ## Steps and runs -/

theorem step_consume {s : State} {controller : ControllerKind} (e : InformerEvent)
    (h : s.tasks controller = .idle) : step s (.consume controller e)
      = ⟨(fold controller s.sources e).1, s.cache, if (fold controller s.sources e).2 = true
          then Function.update s.tasks controller .rebuilding else s.tasks⟩ := by
  simp only [step, h]

theorem step_consume_busy {s : State} {controller : ControllerKind} (e : InformerEvent)
    (h : s.tasks controller ≠ .idle) : step s (.consume controller e) = s := by
  cases ht : s.tasks controller with
  | idle => exact absurd ht h
  | rebuilding => simp only [step, ht]
  | writing entries => simp only [step, ht]

theorem step_write {s : State} {controller : ControllerKind} {entries : List ScalerEntry}
    (h : s.tasks controller = .writing entries) : step s (.write controller)
      = ⟨s.sources, s.cache.replaceWith entries, Function.update s.tasks controller .idle⟩ := by
  simp only [step, h]

theorem step_write_other {s : State} {controller : ControllerKind}
    (h : ∀ entries, s.tasks controller ≠ .writing entries) : step s (.write controller) = s := by
  cases ht : s.tasks controller with
  | idle => simp only [step, ht]
  | rebuilding => simp only [step, ht]
  | writing entries => exact absurd ht (h entries)

/-- Copying the values touches neither the sources nor the cache, and leaves a task busy. -/
theorem step_snapshot (s : State) (controller : ControllerKind) (entries : List ScalerEntry) :
    step s (.snapshot controller entries) = s
      ∨ step s (.snapshot controller entries)
        = ⟨s.sources, s.cache, Function.update s.tasks controller (.writing entries)⟩ := by
  unfold step
  dsimp only
  split
  · split
    · exact Or.inr rfl
    · exact Or.inl rfl
  · exact Or.inl rfl

theorem keepsOthers (s : State) (e : Event) : KeepsOthers s e := by
  cases e with
  | snapshot controller entries => exact trivial
  | write controller => exact trivial
  | consume controller e =>
  cases e with
  | applied o => exact trivial
  | deleted o => exact trivial
  | restarted os =>
      intro key hk
      by_cases hidle : s.tasks controller = .idle
      · rw [step_consume _ hidle]
        exact lookup_fold_restarted hk s.sources os
      · rw [step_consume_busy _ hidle]

/-- Folding an event keeps a converged state converged. -/
theorem Converged.consume {s : State} (h : Converged s) (controller : ControllerKind)
    (e : InformerEvent) : Converged (step s (.consume controller e)) := by
  by_cases hidle : s.tasks controller = .idle
  · rw [step_consume e hidle]
    cases hc : (fold controller s.sources e).2 with
    | true =>
        rw [if_pos rfl]
        intro hnone
        exact absurd hnone (not_idle_update (by simp))
    | false =>
        rw [if_neg (by simp)]
        intro hnone
        exact (h hnone).of_perm (fold_unchanged hc).symm
  · rw [step_consume_busy e hidle]
    exact h

/-- A write leaves a converged state exactly if it is not the last one and stale. -/
theorem converged_write {s : State} (h : Converged s) (controller : ControllerKind) :
    Converged (step s (.write controller)) ↔ Fresh s (.write controller) := by
  by_cases hw : ∃ entries, s.tasks controller = .writing entries
  · obtain ⟨entries, hw⟩ := hw
    rw [step_write hw]
    unfold Converged
    rw [idle_update_iff, indexOf_replaceWith]
    refine ⟨?_, ?_⟩
    · intro hconv copied hcopied hothers
      rw [hw] at hcopied
      obtain rfl := Task.writing.inj hcopied
      exact hconv hothers
    · intro hfresh hothers
      exact hfresh entries hw hothers
  · have hno : ∀ entries, s.tasks controller ≠ .writing entries := fun entries he => hw ⟨entries, he⟩
    rw [step_write_other hno]
    exact ⟨fun _ entries he => absurd he (hno entries), fun _ => h⟩

theorem converged_step {s : State} {e : Event} (h : Converged s) :
    Converged (step s e) ↔ Fresh s e := by
  cases e with
  | consume controller e => exact ⟨fun _ => trivial, fun _ => h.consume controller e⟩
  | write controller => exact converged_write h controller
  | snapshot controller entries =>
      refine ⟨fun _ => trivial, fun _ => ?_⟩
      rcases step_snapshot s controller entries with heq | heq
      · rw [heq]
        exact h
      · rw [heq]
        intro hnone
        exact absurd hnone (not_idle_update (by simp))

/--
**The cache converges exactly in the runs that write no stale copy last.**

Whenever all tasks are idle the cache is the index of the sources, and a relist of one
kind of controller leaves the sources of the others in place, if and only if no write
leaves all tasks idle with entries copied before the sources last changed.
-/
theorem scalerCache_converges_iff (es : List Event) :
    (Always step Converged State.new es ∧ Each step KeepsOthers State.new es)
      ↔ Each step Fresh State.new es := by
  have hiff : Always step Converged State.new es ↔ Each step Fresh State.new es :=
    always_iff_each (I := fun _ => True) (A := fun _ => True) (fun _ _ _ _ => trivial)
      (fun _ _ _ h _ => converged_step h) trivial (fun _ => indexOf_new) (fun _ _ => trivial)
  rw [← hiff]
  exact and_iff_left fun pre e _ => keepsOthers _ e

end

/-- An autoscaler in namespace `app`; `field` is where it names the deployment it targets. -/
def scaler (group kind name field deployment : String) : DynamicObject where
  types := some ⟨group, kind⟩
  name := some name
  «namespace» := some "app"
  labels := none
  json := .obj [("spec", .obj [(field, .obj [("apiVersion", .str "apps/v1"),
    ("kind", .str "Deployment"), ("name", .str deployment)])])]

/-- The entry of a horizontal autoscaler for `web`. -/
def webEntry : ScalerEntry :=
  ⟨.hpa, ⟨⟨"apps", "v1", "Deployment"⟩, some "app", "web"⟩, ["spec.replicas"]⟩

/-- The entry of a vertical autoscaler for `worker`. -/
def workerEntry : ScalerEntry :=
  ⟨.vpa, ⟨⟨"apps", "v1", "Deployment"⟩, some "app", "worker"⟩,
    ["spec.template.spec.containers.*.resources"]⟩

/-- The HPA task copies the sources; then the VPA task folds its event, copies and writes;
then the HPA task writes what it had copied. -/
def overtaken : List Event :=
  [.consume .hpa (.applied (scaler "autoscaling/v2" "HorizontalPodAutoscaler" "web"
      "scaleTargetRef" "web")),
    .snapshot .hpa [webEntry],
    .consume .vpa (.applied (scaler "autoscaling.k8s.io/v1" "VerticalPodAutoscaler" "worker"
      "targetRef" "worker")),
    .snapshot .vpa [workerEntry, webEntry], .write .vpa, .write .hpa]

/-- **An older copy written last stays.** All tasks are idle, the vertical autoscaler is among
the sources, and the cache does not know it. -/
theorem overtaken_stale : ¬ ∀ es, Always (@step .ofBits) Converged State.new es
    ∧ Each (@step .ofBits) (@KeepsOthers .ofBits) State.new es := by
  intro h
  have hconv := (h overtaken).1.final
  have hidle : (exec (@step .ofBits) State.new overtaken).Idle := by
    intro controller
    cases controller <;> decide
  have hmiss : workerEntry.target ∉ (exec (@step .ofBits) State.new overtaken).cache.byTarget := by
    decide
  refine hmiss (((hconv hidle).targets workerEntry.target).mpr ⟨workerEntry, ?_, rfl⟩)
  decide

end ScalerDiscovery

end SynchrotronCD
