import SynchrotronCD.Reconcile.WaveProof

/-!
# The shape of an execution

`WaveProof` says which calls a run makes. This module says in what order. The
calls of one wave are a segment: its changes, one after the other, then the
polls of its gate. A wave either **passed**, and its segment ends with the gate
reporting healthy, or it **stopped** the run, and its segment ends with the call
that failed. The trace of a run is the segments of the waves that passed, in the
order of the plan, followed by at most one that stopped.

The induction over the waves is done once for each way a run can end
(`executeFrom_passed`, `executeFrom_stopped`); what a run does and does not do
is then read off the shape.
-/

namespace SynchrotronCD

open Lib

/-! ## Segments -/

/-- The resources a wave waits for. -/
def WaveGroup.awaited (g : WaveGroup) : List ResourceRef := g.changed.map PlanEntry.resource

/-- The calls in which these entries were accepted, one each. -/
def accepted (bodyOf : PlanEntry → Option Manifest) (es : List PlanEntry) : Trace :=
  es.map fun e => .apply e (bodyOf e) (.ok ())

/-- Polls of a gate that stays shut. -/
def Shut (g : WaveGroup) (polls : Trace) : Prop :=
  ∀ c ∈ polls, ∃ st, st ≠ .healthy ∧ c = .health g.awaited st

/-- The calls of a wave that went through. -/
inductive Passed (bodyOf : PlanEntry → Option Manifest) (g : WaveGroup) : Trace → Prop where
  /-- Nothing to change, nothing to wait for. -/
  | unchanged : g.changed = [] → Passed bodyOf g []
  /-- Every change was accepted, and after the last of them the gate opened. -/
  | opened {polls : Trace} : g.changed ≠ [] → Shut g polls →
      Passed bodyOf g (accepted bodyOf g.changed ++ polls ++ [.health g.awaited .healthy])

/-- The calls of a wave at which the run stopped, and the error it stopped with. -/
inductive Stopped (bodyOf : PlanEntry → Option Manifest) (timeout : Nat) (g : WaveGroup) :
    Trace → WaveExecError → Prop where
  /-- A change was refused. -/
  | refused {before after : List PlanEntry} {e : PlanEntry} {source : ApplyError} :
      g.changed = before ++ e :: after →
      Stopped bodyOf timeout g (accepted bodyOf before ++ [.apply e (bodyOf e) (.error source)])
        (.applyFailed g.wave e.resource source)
  /-- Every change was accepted, and the gate never opened. -/
  | timedOut {polls : Trace} {st : HealthStatusCode} : g.changed ≠ [] → Shut g polls →
      st ≠ .healthy →
      Stopped bodyOf timeout g (accepted bodyOf g.changed ++ polls ++ [.health g.awaited st])
        (.waveTimeout g.wave timeout st)

/-- The calls of waves that all went through, one segment after the other. -/
inductive PassedAll (bodyOf : PlanEntry → Option Manifest) : List WaveGroup → Trace → Prop where
  | nil : PassedAll bodyOf [] []
  | cons {g : WaveGroup} {gs : List WaveGroup} {here rest : Trace} :
      Passed bodyOf g here → PassedAll bodyOf gs rest → PassedAll bodyOf (g :: gs) (here ++ rest)

/-- The wave an error names. -/
def WaveExecError.wave : WaveExecError → Int
  | .applyFailed w _ _ => w
  | .waveTimeout w _ _ => w

/-- The entries handed to the applier, in order. -/
def appliedEntries (t : Trace) : List PlanEntry :=
  t.filterMap fun c =>
    match c with
    | .apply e _ _ => some e
    | .health _ _ => none

variable {ex : ReconcileExecutor} {bodyOf : PlanEntry → Option Manifest}

/-! ## What one wave does -/

theorem applyAll_shape (wave : Int) (es : List PlanEntry) (t : Trace) :
    applyAll ex wave bodyOf t es = (t ++ accepted bodyOf es, .ok ()) ∨
    ∃ before e after source, es = before ++ e :: after ∧
      applyAll ex wave bodyOf t es
        = (t ++ (accepted bodyOf before ++ [.apply e (bodyOf e) (.error source)]),
          .error (.applyFailed wave e.resource source)) := by
  induction es generalizing t with
  | nil => exact Or.inl (by simp [applyAll, accepted])
  | cons e es ih =>
      rw [applyAll]
      cases ha : ex.applier t e (bodyOf e) with
      | error source => exact Or.inr ⟨[], e, es, source, rfl, by simp [accepted]⟩
      | ok u =>
          rcases ih (t ++ [.apply e (bodyOf e) (.ok ())]) with h | ⟨before, f, after, source, h, h'⟩
          · exact Or.inl (by simpa [accepted] using h)
          · refine Or.inr ⟨e :: before, f, after, source, by rw [h]; rfl, ?_⟩
            simpa [accepted] using h'

theorem awaitHealthy_shape (g : WaveGroup) (n : Nat) (t : Trace) :
    ∃ polls, Shut g polls ∧
      (awaitHealthy ex g.wave g.awaited n t
          = (t ++ (polls ++ [.health g.awaited .healthy]), .ok ()) ∨
        ∃ st, st ≠ .healthy ∧ awaitHealthy ex g.wave g.awaited n t
          = (t ++ (polls ++ [.health g.awaited st]),
            .error (.waveTimeout g.wave ex.config.perWaveTimeout st))) := by
  have hnone : Shut g [] := by intro c hc; simp at hc
  induction n generalizing t with
  | zero =>
      rw [awaitHealthy]
      by_cases hst : ex.health t g.awaited = .healthy
      · exact ⟨[], hnone, Or.inl (by simp [hst])⟩
      · exact ⟨[], hnone, Or.inr ⟨_, hst, by simp [hst]⟩⟩
  | succ n ih =>
      rw [awaitHealthy]
      by_cases hst : ex.health t g.awaited = .healthy
      · exact ⟨[], hnone, Or.inl (by simp [hst])⟩
      · -- one more poll that found the wave unhealthy
        obtain ⟨polls, hshut, h⟩ := ih (t ++ [.health g.awaited (ex.health t g.awaited)])
        refine ⟨.health g.awaited (ex.health t g.awaited) :: polls, ?_, ?_⟩
        · intro c hc
          rcases List.mem_cons.mp hc with rfl | hc
          · exact ⟨_, hst, rfl⟩
          · exact hshut c hc
        · simpa [hst] using h

/-- A wave whose changes were accepted goes on to its readiness gate. -/
theorem executeWave_of_accepted {t t' : Trace} {g : WaveGroup}
    (h : applyAll ex g.wave bodyOf t g.changed = (t', .ok ())) :
    executeWave ex bodyOf t g = if g.changed.isEmpty then (t', .ok ())
      else awaitHealthy ex g.wave g.awaited (ex.pollsBeforeDeadline t') t' := by
  rw [WaveGroup.changed] at h
  unfold executeWave
  dsimp only
  rw [h]
  rfl

/-- A wave with a change that was refused stops there. -/
theorem executeWave_of_refused {t t' : Trace} {g : WaveGroup} {err : WaveExecError}
    (h : applyAll ex g.wave bodyOf t g.changed = (t', .error err)) :
    executeWave ex bodyOf t g = (t', .error err) := by
  rw [WaveGroup.changed] at h
  unfold executeWave
  dsimp only
  rw [h]

/-- **A wave passes or stops the run**, and its segment shows which. -/
theorem executeWave_shape (t : Trace) (g : WaveGroup) :
    (∃ here, Passed bodyOf g here ∧ executeWave ex bodyOf t g = (t ++ here, .ok ())) ∨
    ∃ here err, Stopped bodyOf ex.config.perWaveTimeout g here err ∧
      executeWave ex bodyOf t g = (t ++ here, .error err) := by
  rcases @applyAll_shape ex bodyOf g.wave g.changed t with
    h | ⟨before, e, after, source, hes, h⟩
  · rw [executeWave_of_accepted h]
    by_cases hemp : g.changed = []
    · exact Or.inl ⟨[], Passed.unchanged hemp, by simp [hemp, accepted]⟩
    · obtain ⟨polls, hshut, hgate⟩ := @awaitHealthy_shape ex g
        (ex.pollsBeforeDeadline (t ++ accepted bodyOf g.changed)) (t ++ accepted bodyOf g.changed)
      have hne : g.changed.isEmpty = false := by simpa using hemp
      rcases hgate with hgate | ⟨st, hst, hgate⟩
      · refine Or.inl ⟨_, Passed.opened hemp hshut, ?_⟩
        simp [hne, hgate]
      · refine Or.inr ⟨_, _, Stopped.timedOut hemp hshut hst, ?_⟩
        simp [hne, hgate]
  · exact Or.inr ⟨_, _, Stopped.refused hes, executeWave_of_refused h⟩

/-! ## What a run does -/

/-- A run that succeeds consists of the segments of all its waves. -/
theorem executeFrom_passed {gs : List WaveGroup} {done : List Int} {t : Trace}
    {rep : WaveExecReport} (h : (executeFrom ex bodyOf done t gs).2 = .ok rep) :
    rep.completedWaves = done ++ gs.map WaveGroup.wave ∧
      ∃ passed, PassedAll bodyOf gs passed ∧ (executeFrom ex bodyOf done t gs).1 = t ++ passed := by
  induction gs generalizing done t with
  | nil =>
      have hrep : (⟨done⟩ : WaveExecReport) = rep := by simpa [executeFrom] using h
      exact ⟨by simp [← hrep], [], PassedAll.nil, by simp [executeFrom]⟩
  | cons g gs ih =>
      rw [executeFrom] at h ⊢
      rcases @executeWave_shape ex bodyOf t g with
        ⟨here, hpass, hw⟩ | ⟨here, err, hstop, hw⟩
      · rw [hw] at h ⊢
        obtain ⟨hrep, passed, hall, htrace⟩ := ih h
        refine ⟨by rw [hrep]; simp, here ++ passed, PassedAll.cons hpass hall, ?_⟩
        rw [htrace, List.append_assoc]
      · rw [hw] at h; simp at h

/-- A run that fails consists of the segments of the waves that passed and of the one that
stopped it. -/
theorem executeFrom_stopped {gs : List WaveGroup} {done : List Int} {t : Trace}
    {err : WaveExecError} (h : (executeFrom ex bodyOf done t gs).2 = .error err) :
    ∃ before g after passed here, gs = before ++ g :: after ∧ PassedAll bodyOf before passed ∧
      Stopped bodyOf ex.config.perWaveTimeout g here err ∧
      (executeFrom ex bodyOf done t gs).1 = t ++ (passed ++ here) := by
  induction gs generalizing done t with
  | nil => simp [executeFrom] at h
  | cons g gs ih =>
      rw [executeFrom] at h ⊢
      rcases @executeWave_shape ex bodyOf t g with
        ⟨here, hpass, hw⟩ | ⟨here, err', hstop, hw⟩
      · rw [hw] at h ⊢
        obtain ⟨before, g', after, passed, last, hgs, hall, hstop, htrace⟩ := ih h
        refine ⟨g :: before, g', after, here ++ passed, last, by rw [hgs]; rfl,
          PassedAll.cons hpass hall, hstop, ?_⟩
        rw [htrace]
        simp only [List.append_assoc]
      · rw [hw] at h ⊢
        obtain rfl : err' = err := by simpa using h
        exact ⟨[], g, gs, [], here, rfl, PassedAll.nil, hstop, rfl⟩

/-! ## Where an applier call stands -/

/-- The applier is called for `e` after the calls `pre`: `e` is a change of some wave of the plan,
all earlier waves have passed, so have the earlier changes of its own, and nothing else happened. -/
def Reached (bodyOf : PlanEntry → Option Manifest) (waves : List WaveGroup) (e : PlanEntry)
    (pre : Trace) : Prop :=
  ∃ earlier g later passed before after, waves = earlier ++ g :: later ∧
    g.changed = before ++ e :: after ∧ PassedAll bodyOf earlier passed ∧
    pre = passed ++ accepted bodyOf before

/-- The run ended with `err` at some wave of the plan, which `err` names: the earlier waves have
passed, and the call that failed is the last of all. -/
def HaltedAt (bodyOf : PlanEntry → Option Manifest) (timeout : Nat) (waves : List WaveGroup)
    (t : Trace) (err : WaveExecError) : Prop :=
  ∃ earlier g later passed here, waves = earlier ++ g :: later ∧ err.wave = g.wave ∧
    PassedAll bodyOf earlier passed ∧ Stopped bodyOf timeout g here err ∧ t = passed ++ here

theorem not_apply_of_shut {g : WaveGroup} {polls : Trace} (h : Shut g polls) {e : PlanEntry}
    {m : Option Manifest} {r : Except ApplyError Unit} : .apply e m r ∉ polls := by
  intro hmem
  obtain ⟨st, _, heq⟩ := h _ hmem
  exact Call.noConfusion heq

/-- An applier call among accepted changes is one of them, and the ones before it precede it. -/
theorem accepted_split {es : List PlanEntry} {pre post : Trace} {e : PlanEntry}
    {m : Option Manifest} {r : Except ApplyError Unit}
    (h : accepted bodyOf es = pre ++ .apply e m r :: post) :
    ∃ before after, es = before ++ e :: after ∧ pre = accepted bodyOf before := by
  unfold accepted at h
  obtain ⟨before, rest, rfl, hpre, hrest⟩ := List.map_eq_append_iff.mp h
  obtain ⟨x, after, rfl, hx, -⟩ := List.map_eq_cons_iff.mp hrest
  injection hx with hxe
  subst hxe
  exact ⟨before, after, rfl, hpre.symm⟩

/-- An applier call in front of calls that are none stands in the first part. -/
theorem split_left {xs ys pre post : Trace} {c : Call} (h : xs ++ ys = pre ++ c :: post)
    (hc : c ∉ ys) : ∃ mid, xs = pre ++ c :: mid := by
  rcases List.append_eq_append_iff.mp h with ⟨as, hpre, hys⟩ | ⟨bs, hxs, hbs⟩
  · exact absurd (by rw [hys]; simp) hc
  · cases bs with
    | nil =>
        rw [List.nil_append] at hbs
        exact absurd (by rw [← hbs]; simp) hc
    | cons b bs =>
        rw [List.cons_append] at hbs
        obtain ⟨rfl, -⟩ := List.cons.inj hbs
        exact ⟨bs, hxs⟩

theorem passed_split {g : WaveGroup} {here pre post : Trace} {e : PlanEntry} {m : Option Manifest}
    {r : Except ApplyError Unit} (h : Passed bodyOf g here)
    (hsplit : here = pre ++ .apply e m r :: post) :
    ∃ before after, g.changed = before ++ e :: after ∧ pre = accepted bodyOf before := by
  cases h with
  | unchanged => simp at hsplit
  | @opened polls _ hshut =>
      rw [List.append_assoc] at hsplit
      obtain ⟨mid, hmid⟩ := split_left hsplit (by simp [not_apply_of_shut hshut])
      exact accepted_split hmid

theorem stopped_split {timeout : Nat} {g : WaveGroup} {here pre post : Trace} {e : PlanEntry}
    {m : Option Manifest} {r : Except ApplyError Unit} {err : WaveExecError}
    (h : Stopped bodyOf timeout g here err) (hsplit : here = pre ++ .apply e m r :: post) :
    ∃ before after, g.changed = before ++ e :: after ∧ pre = accepted bodyOf before := by
  cases h with
  | @refused done rest x source hes =>
      rcases List.eq_nil_or_concat post with rfl | ⟨post, c, rfl⟩
      · -- the refused call itself
        obtain ⟨hpre, hlast⟩ := List.append_inj' hsplit rfl
        injection hlast with hcall
        injection hcall with hxe
        exact ⟨done, rest, by rw [hes, hxe], hpre.symm⟩
      · have hsnoc : pre ++ .apply e m r :: (post ++ [c]) = (pre ++ .apply e m r :: post) ++ [c] := by
          simp
        rw [List.concat_eq_append, hsnoc] at hsplit
        obtain ⟨hdone, -⟩ := List.append_inj' hsplit rfl
        obtain ⟨before, after, rfl, hpre⟩ := accepted_split hdone
        exact ⟨before, after ++ x :: rest, by rw [hes]; simp, hpre⟩
  | @timedOut polls st _ hshut _ =>
      rw [List.append_assoc] at hsplit
      obtain ⟨mid, hmid⟩ := split_left hsplit (by simp [not_apply_of_shut hshut])
      exact accepted_split hmid

theorem Reached.behind {g : WaveGroup} {gs : List WaveGroup} {here pre : Trace} {e : PlanEntry}
    (hpass : Passed bodyOf g here) (h : Reached bodyOf gs e pre) :
    Reached bodyOf (g :: gs) e (here ++ pre) := by
  obtain ⟨earlier, w, later, passed, before, after, hgs, hw, hall, hpre⟩ := h
  refine ⟨g :: earlier, w, later, here ++ passed, before, after, by rw [hgs]; rfl, hw,
    PassedAll.cons hpass hall, ?_⟩
  rw [hpre, List.append_assoc]

/-- Wherever a run that may still be stopped in `rest` calls the applier, the gates before are
open. The induction is on the waves that passed. -/
theorem reached_of_split {earlier later : List WaveGroup} {passed rest pre post : Trace}
    {e : PlanEntry} {m : Option Manifest} {r : Except ApplyError Unit}
    (hall : PassedAll bodyOf earlier passed)
    (hrest : ∀ pre, rest = pre ++ .apply e m r :: post → Reached bodyOf later e pre)
    (hsplit : passed ++ rest = pre ++ .apply e m r :: post) :
    Reached bodyOf (earlier ++ later) e pre := by
  induction hall generalizing pre with
  | nil => exact hrest pre hsplit
  | @cons g gs here passed hpass hall ih =>
      rw [List.append_assoc] at hsplit
      rcases List.append_eq_append_iff.mp hsplit with ⟨as, hpre, has⟩ | ⟨bs, hhere, hbs⟩
      · -- behind the segment of `g`
        rw [hpre]
        exact (ih has).behind hpass
      · cases bs with
        | nil =>
            -- right at its end
            rw [List.append_nil] at hhere
            rw [List.nil_append] at hbs
            rw [← hhere, ← List.append_nil here]
            exact (ih hbs.symm).behind hpass
        | cons b bs =>
            -- within it
            rw [List.cons_append] at hbs
            obtain ⟨rfl, -⟩ := List.cons.inj hbs
            obtain ⟨before, after, hg, hpre⟩ := passed_split hpass hhere
            exact ⟨[], g, gs ++ later, [], before, after, rfl, hg, PassedAll.nil, hpre⟩

theorem appliedEntries_append (t u : Trace) :
    appliedEntries (t ++ u) = appliedEntries t ++ appliedEntries u := by
  simp [appliedEntries, List.filterMap_append]

theorem appliedEntries_accepted (es : List PlanEntry) :
    appliedEntries (accepted bodyOf es) = es := by
  simp [appliedEntries, accepted, List.filterMap_map]

theorem appliedEntries_shut {g : WaveGroup} {polls : Trace} (h : Shut g polls) :
    appliedEntries polls = [] := by
  unfold appliedEntries
  rw [List.filterMap_eq_nil_iff]
  intro c hc
  obtain ⟨st, _, rfl⟩ := h c hc
  rfl

/-- Waves that passed had each of their changes handed over once, in order. -/
theorem appliedEntries_passed {gs : List WaveGroup} {t : Trace} (h : PassedAll bodyOf gs t) :
    appliedEntries t = changedOf gs := by
  induction h with
  | nil => rfl
  | @cons g gs here rest hpass _ ih =>
      rw [appliedEntries_append, ih]
      have hhere : appliedEntries here = g.changed := by
        cases hpass with
        | unchanged hemp => rw [hemp]; rfl
        | opened _ hshut =>
            rw [appliedEntries_append, appliedEntries_append, appliedEntries_accepted,
              appliedEntries_shut hshut]
            simp [appliedEntries]
      rw [hhere]
      rfl

/-- Until it is stopped, a run hands over the changes in the order of the waves. -/
theorem appliedEntries_initial (p : WavePlan) (desired live : List Manifest) :
    appliedEntries (executeWaves ex p desired live).1 <+: changedOf p.waves := by
  rw [executeWaves]
  cases hres : (executeFrom ex (manifestFor desired live) [] [] p.waves).2 with
  | ok rep =>
      obtain ⟨-, passed, hall, htrace⟩ := executeFrom_passed hres
      refine ⟨[], ?_⟩
      rw [List.append_nil, htrace, List.nil_append, appliedEntries_passed hall]
  | error err =>
      obtain ⟨before, g, after, passed, here, hgs, hall, hstop, htrace⟩ := executeFrom_stopped hres
      have hhere : appliedEntries here <+: g.changed := by
        cases hstop with
        | refused hes =>
            rw [appliedEntries_append, appliedEntries_accepted, hes]
            exact List.prefix_append_right_inj _ |>.mpr (List.cons_prefix_cons.mpr ⟨rfl, List.nil_prefix⟩)
        | timedOut _ hshut _ =>
            rw [appliedEntries_append, appliedEntries_append, appliedEntries_accepted,
              appliedEntries_shut hshut]
            simp [appliedEntries]
      rw [htrace, List.nil_append, appliedEntries_append, appliedEntries_passed hall, hgs, changedOf,
        changedOf, List.flatMap_append, List.flatMap_cons]
      exact List.prefix_append_right_inj _ |>.mpr (hhere.trans (List.prefix_append _ _))

/-- The waves of a grouped plan ascend strictly, so the earlier waves are those of lower number. -/
theorem groupIntoWaves_ascending (p : Plan) (desired live : List Manifest) :
    (groupIntoWaves p desired live).waves.Pairwise (fun a b => a.wave < b.wave) := by
  unfold groupIntoWaves
  dsimp only
  generalize hw : (byWave _ p.entries) = waves
  generalize hgs : waves.entries.map (fun w => (⟨w.1, sortWithinWave w.2⟩ : WaveGroup)) = gs
  have hdistinct : (gs.map WaveGroup.wave).Nodup := by
    rw [← hgs, List.map_map]
    exact waves.nodupKeys
  have hle := gs.pairwise_insertionSort (fun a b => a.wave ≤ b.wave)
  have hne : (gs.insertionSort (fun a b => a.wave ≤ b.wave)).Pairwise
      (fun a b => a.wave ≠ b.wave) := by
    rw [← List.pairwise_map, ← List.nodup_iff_pairwise_ne]
    exact ((gs.perm_insertionSort _).map _).nodup_iff.mpr hdistinct
  refine (hle.and hne).imp ?_
  intro a b h
  exact lt_of_le_of_ne h.1 h.2

/-- A run that succeeds has passed all its waves. -/
theorem executeWaves_passed {p : WavePlan} {desired live : List Manifest} {rep : WaveExecReport}
    (h : (executeWaves ex p desired live).2 = .ok rep) :
    rep.completedWaves = p.waves.map WaveGroup.wave ∧
      PassedAll (manifestFor desired live) p.waves (executeWaves ex p desired live).1 := by
  obtain ⟨hrep, passed, hall, htrace⟩ := executeFrom_passed h
  rw [executeWaves, htrace]
  exact ⟨by simpa using hrep, by simpa using hall⟩

/-- The applier is only called behind the gates of all earlier waves. -/
theorem executeWaves_reached {p : WavePlan} {desired live : List Manifest} {pre post : Trace}
    {e : PlanEntry} {m : Option Manifest} {r : Except ApplyError Unit}
    (hsplit : (executeWaves ex p desired live).1 = pre ++ .apply e m r :: post) :
    Reached (manifestFor desired live) p.waves e pre := by
  cases hres : (executeWaves ex p desired live).2 with
  | ok rep =>
      obtain ⟨-, hall⟩ := executeWaves_passed hres
      have hwaves : p.waves = p.waves ++ [] := (List.append_nil _).symm
      rw [hwaves]
      rw [← List.append_nil (executeWaves ex p desired live).1] at hsplit
      refine reached_of_split hall ?_ hsplit
      intro pre' h
      simp at h
  | error err =>
      obtain ⟨earlier, g, later, passed, here, hgs, hall, hstop, htrace⟩ := executeFrom_stopped hres
      rw [executeWaves, htrace, List.nil_append] at hsplit
      rw [hgs]
      refine reached_of_split hall ?_ hsplit
      intro pre' h
      obtain ⟨before, after, hg, hpre⟩ := stopped_split hstop h
      exact ⟨[], g, later, [], before, after, rfl, hg, PassedAll.nil, hpre⟩

/-! ## The theorem -/

/--
**Every wave is gated, and everything is applied once.**

For every plan and every executor: the applier is called for a change only behind
the open gates of all earlier waves; a run that fails ends with the call that
failed and names its wave; and a run that succeeds has passed all its waves, so it
handed over every change exactly once, no NoOp, and reports the plan's waves in
the plan's order.
-/
theorem executeWaves_gated (ex : ReconcileExecutor) (p : WavePlan) (desired live : List Manifest) :
    (∀ pre e m r post, (executeWaves ex p desired live).1 = pre ++ .apply e m r :: post →
      Reached (manifestFor desired live) p.waves e pre) ∧
    (∀ err, (executeWaves ex p desired live).2 = .error err →
      HaltedAt (manifestFor desired live) ex.config.perWaveTimeout p.waves
        (executeWaves ex p desired live).1 err) ∧
    (∀ rep, (executeWaves ex p desired live).2 = .ok rep →
      PassedAll (manifestFor desired live) p.waves (executeWaves ex p desired live).1 ∧
      appliedEntries (executeWaves ex p desired live).1 = changedOf p.waves ∧
      rep.completedWaves = p.waves.map WaveGroup.wave) := by
  refine ⟨fun pre e m r post => executeWaves_reached, ?_, ?_⟩
  · intro err h
    obtain ⟨earlier, g, later, passed, here, hgs, hall, hstop, htrace⟩ := executeFrom_stopped h
    have hnamed : err.wave = g.wave := by cases hstop <;> rfl
    refine ⟨earlier, g, later, passed, here, hgs, hnamed, hall, hstop, ?_⟩
    rw [executeWaves, htrace, List.nil_append]
  · intro rep h
    obtain ⟨hrep, hall⟩ := executeWaves_passed h
    exact ⟨hall, appliedEntries_passed hall, hrep⟩

end SynchrotronCD
