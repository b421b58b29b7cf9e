import SynchrotronCD.Reconcile.Wave

/-!
# What carrying out a plan does

Two facts about `executeWaves`, for an executor that may behave in any way.
Nothing but the changes of the plan is handed to the applier, each with the body
the indexes hold for it (`executeWaves_calls`). And a run that reports success
has handed over every one of them and had it accepted (`executeWaves_ok`).

Grouping neither loses nor invents an entry (`mem_groupIntoWaves`), so both are
stated in terms of the plan itself.
-/

namespace SynchrotronCD

open Lib

/-! ## Grouping -/

/-- A wave holds the entries of its number, in the order of the plan. -/
theorem lookup_byWave (waveFor : ResourceRef → Int) (entries : List PlanEntry) (w : Int) :
    (byWave waveFor entries).lookup w
      = if entries.filter (fun e => waveFor e.resource = w) = [] then none
        else some (entries.filter fun e => waveFor e.resource = w) :=
  lookup_foldl_push (fun e : PlanEntry => waveFor e.resource) entries w

theorem lookup_byWave_some {waveFor : ResourceRef → Int} {entries : List PlanEntry} {w : Int}
    {es : List PlanEntry} (h : (byWave waveFor entries).lookup w = some es) :
    es = entries.filter (fun e => waveFor e.resource = w) := by
  rw [lookup_byWave] at h
  split at h
  · simp at h
  · exact (Option.some.inj h).symm

theorem mem_byWave (waveFor : ResourceRef → Int) (entries : List PlanEntry) (e : PlanEntry) :
    (∃ w es, (byWave waveFor entries).lookup w = some es ∧ e ∈ es) ↔ e ∈ entries := by
  refine ⟨?_, fun he => ?_⟩
  · rintro ⟨w, es, hes, he⟩
    rw [lookup_byWave_some hes] at he
    exact (List.mem_filter.mp he).1
  · have hmem : e ∈ entries.filter fun x => waveFor x.resource = waveFor e.resource :=
      List.mem_filter.mpr ⟨he, by simp⟩
    refine ⟨waveFor e.resource, _, ?_, hmem⟩
    rw [lookup_byWave, if_neg (List.ne_nil_of_mem hmem)]

/-- **Grouping neither loses nor invents an entry.** -/
theorem mem_groupIntoWaves {p : Plan} {desired live : List Manifest} {e : PlanEntry} :
    (∃ g ∈ (groupIntoWaves p desired live).waves, e ∈ g.entries) ↔ e ∈ p.entries := by
  unfold groupIntoWaves
  rw [← mem_byWave (fun r => (((manifestByRef desired live).lookup r).map waveOf).getD DEFAULT_WAVE)]
  simp only [List.mem_insertionSort, List.mem_map]
  refine ⟨?_, ?_⟩
  · intro h
    obtain ⟨g, ⟨⟨w, es⟩, hw, rfl⟩, he⟩ := h
    exact ⟨w, es, AList.mem_lookup_iff.mpr hw, by
      simpa [sortWithinWave, List.mem_insertionSort] using he⟩
  · intro h
    obtain ⟨w, es, hw, he⟩ := h
    exact ⟨_, ⟨⟨w, es⟩, AList.mem_lookup_iff.mp hw, rfl⟩, by
      simpa [sortWithinWave, List.mem_insertionSort] using he⟩

/-! ## Traces -/

/-- `t'` continues `t` with calls that all satisfy `P`. -/
def Continues (P : Call → Prop) (t t' : Trace) : Prop := ∃ new, t' = t ++ new ∧ ∀ c ∈ new, P c

theorem Continues.refl {P : Call → Prop} {t : Trace} : Continues P t t := ⟨[], by simp, by simp⟩

theorem Continues.one {P : Call → Prop} {t : Trace} {c : Call} (h : P c) :
    Continues P t (t ++ [c]) :=
  ⟨[c], rfl, by simpa using h⟩

theorem Continues.trans {P : Call → Prop} {t u v : Trace} (h1 : Continues P t u)
    (h2 : Continues P u v) : Continues P t v := by
  obtain ⟨n1, rfl, hn1⟩ := h1
  obtain ⟨n2, rfl, hn2⟩ := h2
  refine ⟨n1 ++ n2, by rw [List.append_assoc], ?_⟩
  intro c hc
  rcases List.mem_append.mp hc with hc | hc
  · exact hn1 c hc
  · exact hn2 c hc

theorem Continues.mem {P : Call → Prop} {t t' : Trace} (h : Continues P t t') {c : Call}
    (hc : c ∈ t) : c ∈ t' := by
  obtain ⟨new, rfl, _⟩ := h
  exact List.mem_append_left _ hc

/-- A call a plan with entries `es` may make: a poll, or one of the entries with its body. -/
def CallFor (bodyOf : PlanEntry → Option Manifest) (es : List PlanEntry) : Call → Prop
  | .apply e m _ => e ∈ es ∧ m = bodyOf e
  | .health _ _ => True

theorem CallFor.mono {bodyOf : PlanEntry → Option Manifest} {es fs : List PlanEntry}
    (hsub : ∀ e ∈ es, e ∈ fs) {c : Call} (h : CallFor bodyOf es c) : CallFor bodyOf fs c := by
  cases c with
  | apply e m r => exact ⟨hsub e h.1, h.2⟩
  | health rs st => trivial

theorem Continues.mono {bodyOf : PlanEntry → Option Manifest} {es fs : List PlanEntry}
    (hsub : ∀ e ∈ es, e ∈ fs) {t t' : Trace} (h : Continues (CallFor bodyOf es) t t') :
    Continues (CallFor bodyOf fs) t t' := by
  obtain ⟨new, ht, hn⟩ := h
  exact ⟨new, ht, fun c hc => (hn c hc).mono hsub⟩

variable (ex : ReconcileExecutor) (bodyOf : PlanEntry → Option Manifest)

/-! ## Applying -/

theorem applyAll_calls (wave : Int) (es : List PlanEntry) (t : Trace) :
    Continues (CallFor bodyOf es) t (applyAll ex wave bodyOf t es).1 := by
  induction es generalizing t with
  | nil => exact Continues.refl
  | cons e es ih =>
      have hone : ∀ r, Continues (CallFor bodyOf (e :: es)) t (t ++ [.apply e (bodyOf e) r]) :=
        fun r => Continues.one ⟨List.mem_cons_self, rfl⟩
      rw [applyAll]
      split
      · exact hone _
      · exact (hone _).trans ((ih _).mono fun _ h => List.mem_cons_of_mem _ h)

theorem applyAll_ok (wave : Int) (es : List PlanEntry) (t : Trace)
    (h : (applyAll ex wave bodyOf t es).2 = .ok ()) :
    ∀ e ∈ es, .apply e (bodyOf e) (.ok ()) ∈ (applyAll ex wave bodyOf t es).1 := by
  induction es generalizing t with
  | nil => simp
  | cons e es ih =>
      rw [applyAll] at h ⊢
      split at h
      · simp at h
      · intro x hx
        rcases List.mem_cons.mp hx with rfl | hx
        · exact (applyAll_calls ex bodyOf wave es _).mem (by simp)
        · exact ih _ h x hx

/-! ## The readiness gate -/

theorem awaitHealthy_calls (wave : Int) (rs : List ResourceRef) (es : List PlanEntry) (n : Nat)
    (t : Trace) : Continues (CallFor bodyOf es) t (awaitHealthy ex wave rs n t).1 := by
  induction n generalizing t with
  | zero =>
      rw [awaitHealthy]
      split <;> exact Continues.one trivial
  | succ n ih =>
      rw [awaitHealthy]
      split
      · exact Continues.one trivial
      · exact (Continues.one trivial).trans (ih _)

/-! ## Waves -/

/-- The changes of a wave. -/
def WaveGroup.changed (g : WaveGroup) : List PlanEntry := g.entries.filter (fun e => e.action ≠ .noOp)

theorem executeWave_calls (t : Trace) (g : WaveGroup) :
    Continues (CallFor bodyOf g.changed) t (executeWave ex bodyOf t g).1 := by
  have h := applyAll_calls ex bodyOf g.wave g.changed t
  unfold executeWave
  dsimp only
  split
  · rename_i heq; rw [WaveGroup.changed, heq] at h; exact h
  · rename_i heq
    rw [WaveGroup.changed, heq] at h
    split
    · exact h
    · exact h.trans (awaitHealthy_calls ex bodyOf _ _ _ _ _)

theorem executeWave_ok (t : Trace) (g : WaveGroup) (h : (executeWave ex bodyOf t g).2 = .ok ()) :
    ∀ e ∈ g.changed, .apply e (bodyOf e) (.ok ()) ∈ (executeWave ex bodyOf t g).1 := by
  have ha := applyAll_ok ex bodyOf g.wave g.changed t
  unfold executeWave at h ⊢
  dsimp only at h ⊢
  split at h
  · simp at h
  · rename_i heq
    rw [WaveGroup.changed, heq] at ha
    intro e he
    have hmem := ha rfl e he
    split
    · exact hmem
    · exact (awaitHealthy_calls ex bodyOf _ _ [] _ _).mem hmem

/-- The changes of all waves. -/
def changedOf (gs : List WaveGroup) : List PlanEntry := gs.flatMap WaveGroup.changed

theorem executeFrom_calls (done : List Int) (gs : List WaveGroup) (t : Trace) :
    Continues (CallFor bodyOf (changedOf gs)) t (executeFrom ex bodyOf done t gs).1 := by
  induction gs generalizing done t with
  | nil => exact Continues.refl
  | cons g gs ih =>
      have hwave := executeWave_calls ex bodyOf t g
      have hhere : Continues (CallFor bodyOf (changedOf (g :: gs))) t
          (executeWave ex bodyOf t g).1 :=
        hwave.mono fun e he => by simp [changedOf, he]
      rw [executeFrom]
      split
      · rename_i heq; rw [heq] at hhere; exact hhere
      · rename_i heq
        rw [heq] at hhere
        refine hhere.trans ((ih _ _).mono ?_)
        intro e he
        simp only [changedOf, List.flatMap_cons, List.mem_append]
        exact Or.inr he

theorem executeFrom_ok (done : List Int) (gs : List WaveGroup) (t : Trace) {rep : WaveExecReport}
    (h : (executeFrom ex bodyOf done t gs).2 = .ok rep) :
    ∀ e ∈ changedOf gs, .apply e (bodyOf e) (.ok ()) ∈ (executeFrom ex bodyOf done t gs).1 := by
  induction gs generalizing done t with
  | nil => simp [changedOf]
  | cons g gs ih =>
      have hwave := executeWave_ok ex bodyOf t g
      rw [executeFrom] at h ⊢
      split at h
      · simp at h
      · rename_i heq
        rw [heq] at hwave
        intro e he
        simp only [changedOf, List.flatMap_cons, List.mem_append] at he
        rcases he with he | he
        · exact (executeFrom_calls ex bodyOf _ _ _).mem (hwave rfl e he)
        · exact ih _ _ h e he

/-! ## Whole plans -/

variable {ex}

theorem mem_changedOf_group {p : Plan} {desired live : List Manifest} {e : PlanEntry} :
    e ∈ changedOf (groupIntoWaves p desired live).waves ↔ e ∈ p.entries ∧ e.action ≠ .noOp := by
  rw [← @mem_groupIntoWaves p desired live e]
  simp only [changedOf, WaveGroup.changed, List.mem_flatMap, List.mem_filter, decide_eq_true_eq]
  refine ⟨?_, ?_⟩
  · rintro ⟨g, hg, he, ha⟩; exact ⟨⟨g, hg, he⟩, ha⟩
  · rintro ⟨⟨g, hg, he⟩, ha⟩; exact ⟨g, hg, he, ha⟩

/-- **Only the plan's changes are handed to the applier**, each with its own body. -/
theorem executeWaves_calls {p : Plan} {desired live : List Manifest} {e : PlanEntry}
    {m : Option Manifest} {r : Except ApplyError Unit}
    (h : .apply e m r ∈ (executeWaves ex (groupIntoWaves p desired live) desired live).1) :
    e ∈ p.entries ∧ e.action ≠ .noOp ∧ m = manifestFor desired live e := by
  obtain ⟨new, ht, hnew⟩ := executeFrom_calls ex (manifestFor desired live) []
    (groupIntoWaves p desired live).waves []
  rw [executeWaves, ht, List.nil_append] at h
  obtain ⟨he, hm⟩ := hnew _ h
  obtain ⟨he, ha⟩ := mem_changedOf_group.mp he
  exact ⟨he, ha, hm⟩

/-- **A successful run has had every change of the plan accepted.** -/
theorem executeWaves_ok {p : Plan} {desired live : List Manifest} {rep : WaveExecReport}
    (h : (executeWaves ex (groupIntoWaves p desired live) desired live).2 = .ok rep) {e : PlanEntry}
    (he : e ∈ p.entries) (ha : e.action ≠ .noOp) :
    .apply e (manifestFor desired live e) (.ok ())
      ∈ (executeWaves ex (groupIntoWaves p desired live) desired live).1 :=
  executeFrom_ok ex _ _ _ _ h e (mem_changedOf_group.mpr ⟨he, ha⟩)

/-! ## A cluster that gives no trouble -/

/-- An executor whose applier accepts some entries, and whose checker sees no fault. -/
structure Complies (ex : ReconcileExecutor) (es : List PlanEntry) : Prop where
  applies : ∀ t, ∀ e ∈ es, ex.applier t e (bodyOf e) = .ok ()
  healthy : ∀ t rs, ex.health t rs = .healthy

theorem Complies.mono {es fs : List PlanEntry} (h : Complies bodyOf ex fs) (hsub : ∀ e ∈ es, e ∈ fs) :
    Complies bodyOf ex es := ⟨fun t e he => h.applies t e (hsub e he), h.healthy⟩

theorem Complies.applyAll {es : List PlanEntry} (h : Complies bodyOf ex es) (wave : Int)
    (t : Trace) : (applyAll ex wave bodyOf t es).2 = .ok () := by
  induction es generalizing t with
  | nil => rfl
  | cons e es ih =>
      rw [SynchrotronCD.applyAll, h.applies t e List.mem_cons_self]
      exact ih (h.mono bodyOf fun _ hx => List.mem_cons_of_mem _ hx) _

theorem Complies.executeWave {g : WaveGroup} (h : Complies bodyOf ex g.changed) (t : Trace) :
    (executeWave ex bodyOf t g).2 = .ok () := by
  have ha := h.applyAll bodyOf g.wave t
  unfold SynchrotronCD.executeWave
  dsimp only
  split
  · rename_i heq; rw [WaveGroup.changed, heq] at ha; simp at ha
  · split
    · rfl
    · rw [awaitHealthy.eq_def]
      simp [h.healthy]

theorem Complies.executeFrom {gs : List WaveGroup} (h : Complies bodyOf ex (changedOf gs))
    (done : List Int) (t : Trace) : ∃ rep, (executeFrom ex bodyOf done t gs).2 = .ok rep := by
  induction gs generalizing done t with
  | nil => exact ⟨_, rfl⟩
  | cons g gs ih =>
      have hw := (h.mono bodyOf (fun e he => by simp [changedOf, he])).executeWave bodyOf (g := g) t
      rw [SynchrotronCD.executeFrom]
      split
      · rename_i heq; rw [heq] at hw; simp at hw
      · refine ih (h.mono bodyOf fun e he => ?_) _ _
        rw [changedOf, List.flatMap_cons, List.mem_append]
        exact Or.inr he

/-- **Where every change of the plan is accepted**, the run reports success. -/
theorem Complies.executeWaves {p : Plan} {desired live : List Manifest}
    (h : Complies (manifestFor desired live) ex (p.entries.filter fun e => e.action ≠ .noOp)) :
    ∃ rep, (executeWaves ex (groupIntoWaves p desired live) desired live).2 = .ok rep := by
  refine Complies.executeFrom _ (h.mono _ fun e he => ?_) [] []
  simpa [List.mem_filter] using mem_changedOf_group.mp he

/-- An executor whose applier accepts everything and whose checker sees no fault. -/
structure Compliant (ex : ReconcileExecutor) : Prop where
  applies : ∀ t e m, ex.applier t e m = .ok ()
  healthy : ∀ t rs, ex.health t rs = .healthy

theorem Compliant.executeWaves (h : Compliant ex) (p : WavePlan) (desired live : List Manifest) :
    ∃ rep, (executeWaves ex p desired live).2 = .ok rep :=
  Complies.executeFrom _ ⟨fun t e _ => h.applies t e _, h.healthy⟩ [] []

end SynchrotronCD
