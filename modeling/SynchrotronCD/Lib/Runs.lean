import Mathlib.Data.List.Induction

/-!
# Runs of a deterministic machine

A machine is a function `step : σ → ε → σ`: the scheduler's choices, and
anything else the environment decides, are in the event. An interleaving of
several actors is then nothing but a list of events, and a statement about
every interleaving is one about every list.

Two kinds of statement are made about runs. `Always P` says a property of states
holds at the start and after every event. `Each C` says a condition on *(state,
event)* holds whenever an event arrives. `always_iff_each` is the bridge between
them: where one step keeps `P` exactly when it meets `C`, a whole run keeps `P`
exactly when all its steps meet `C`.
-/

namespace Lib

variable {σ ε : Type*} {step : σ → ε → σ}

/-- The state a run ends in. -/
def exec (step : σ → ε → σ) (s : σ) (es : List ε) : σ := es.foldl step s

@[simp] theorem exec_nil (s : σ) : exec step s [] = s := rfl

@[simp] theorem exec_cons (s : σ) (e : ε) (es : List ε) :
    exec step s (e :: es) = exec step (step s e) es := rfl

@[simp] theorem exec_append (s : σ) (es fs : List ε) :
    exec step s (es ++ fs) = exec step (exec step s es) fs := by
  simp [exec, List.foldl_append]

theorem exec_snoc (s : σ) (es : List ε) (e : ε) :
    exec step s (es ++ [e]) = step (exec step s es) e := by simp

/-- `P` holds at the start of the run and after every one of its events. -/
def Always (step : σ → ε → σ) (P : σ → Prop) (s : σ) (es : List ε) : Prop :=
  ∀ pre, pre <+: es → P (exec step s pre)

/-- Every event of the run finds a state in which `C` holds of it. -/
def Each (step : σ → ε → σ) (C : σ → ε → Prop) (s : σ) (es : List ε) : Prop :=
  ∀ pre e, pre ++ [e] <+: es → C (exec step s pre) e

theorem Always.final {P : σ → Prop} {s : σ} {es : List ε} (h : Always step P s es) :
    P (exec step s es) := h es (List.prefix_refl es)

/-- Every prefix of a run whose steps meet `C` is such a run. -/
theorem Each.of_prefix {C : σ → ε → Prop} {s : σ} {es fs : List ε}
    (h : Each step C s es) (hp : fs <+: es) : Each step C s fs :=
  fun pre e hpe => h pre e (hpe.trans hp)

theorem each_nil {C : σ → ε → Prop} {s : σ} : Each step C s [] := by
  intro pre e h
  exact absurd (List.prefix_nil.mp h) (by simp)

/-- A run meets `C` step by step: the part before the last event, then that event. -/
theorem each_snoc {C : σ → ε → Prop} {s : σ} {es : List ε} {e : ε} :
    Each step C s (es ++ [e]) ↔ Each step C s es ∧ C (exec step s es) e := by
  refine ⟨?_, ?_⟩
  · intro h
    exact ⟨h.of_prefix (List.prefix_append _ _), h es e (List.prefix_refl _)⟩
  · intro hm pre f hp
    obtain ⟨h, he⟩ := hm
    rcases List.prefix_concat_iff.mp hp with heq | hp'
    · obtain ⟨rfl, hf⟩ := List.append_inj' heq rfl
      obtain rfl : f = e := List.singleton_inj.mp hf
      exact he
    · exact h pre f hp'

/-- The same from the front: the first event, then the rest from where it leads. -/
theorem each_cons {C : σ → ε → Prop} {s : σ} {e : ε} {es : List ε} :
    Each step C s (e :: es) ↔ C s e ∧ Each step C (step s e) es := by
  refine ⟨?_, ?_⟩
  · intro h
    refine ⟨h [] e ⟨es, rfl⟩, fun pre f hp => ?_⟩
    obtain ⟨tl, rfl⟩ := hp
    exact h (e :: pre) f ⟨tl, by simp⟩
  · intro hm pre f hp
    obtain ⟨he, h⟩ := hm
    cases pre with
    | nil =>
        obtain ⟨tl, heq⟩ := hp
        obtain ⟨rfl, -⟩ := List.cons.inj heq
        exact he
    | cons g pre =>
        obtain ⟨tl, heq⟩ := hp
        obtain ⟨rfl, rfl⟩ := List.cons.inj heq
        exact h pre f ⟨tl, rfl⟩

/-- A run is continued by events that meet `C` in any state. -/
theorem Each.append_of_forall {C : σ → ε → Prop} {s : σ} {es fs : List ε} (h : Each step C s es)
    (hf : ∀ t e, e ∈ fs → C t e) : Each step C s (es ++ fs) := by
  induction fs using List.reverseRecOn with
  | nil => rwa [List.append_nil]
  | append_singleton fs e ih =>
      rw [← List.append_assoc, each_snoc]
      exact ⟨ih fun t x hx => hf t x (List.mem_append_left _ hx), hf _ e (by simp)⟩

/-! ## The invariant rules -/

/-- **The invariant rule, under a condition on the steps.** -/
theorem exec_inv_of_each {P : σ → Prop} {C : σ → ε → Prop}
    (hstep : ∀ s e, P s → C s e → P (step s e)) {s : σ} (hs : P s) :
    ∀ {es : List ε}, Each step C s es → P (exec step s es) := by
  intro es
  induction es using List.reverseRecOn with
  | nil => intro _; exact hs
  | append_singleton es e ih =>
      intro h
      obtain ⟨h1, h2⟩ := each_snoc.mp h
      rw [exec_snoc]
      exact hstep _ _ (ih h1) h2

/-- **The invariant rule.** What holds initially and is kept by every step holds
at the end of every run. -/
theorem exec_inv {P : σ → Prop} (hstep : ∀ s e, P s → P (step s e)) {s : σ} (hs : P s)
    (es : List ε) : P (exec step s es) :=
  exec_inv_of_each (C := fun _ _ => True) (fun s e h _ => hstep s e h) hs (fun _ _ _ => trivial)

/-- The invariant rule when only some events are possible. -/
theorem exec_inv_of_mem {P : σ → Prop} {A : ε → Prop}
    (hstep : ∀ s e, P s → A e → P (step s e)) {s : σ} (hs : P s) {es : List ε}
    (hes : ∀ e ∈ es, A e) : P (exec step s es) :=
  exec_inv_of_each (C := fun _ e => A e) hstep hs
    (fun pre e hp => hes e (hp.subset (by simp)))

/--
**A property is kept by exactly the runs whose steps are good.**

`I` is an invariant of all runs; in a state where `I` and `P` hold, an event `e`
leads to a state with `P` if and only if `C` holds of it. Then `P` holds all
along a run if and only if every step of the run meets `C`.
-/
theorem always_iff_each {I P : σ → Prop} {C : σ → ε → Prop} {A : ε → Prop}
    (hI : ∀ s e, I s → A e → I (step s e))
    (hP : ∀ s e, I s → P s → A e → (P (step s e) ↔ C s e))
    {s : σ} (hI0 : I s) (hP0 : P s) {es : List ε} (hes : ∀ e ∈ es, A e) :
    Always step P s es ↔ Each step C s es := by
  have hIpre : ∀ pre, pre <+: es → I (exec step s pre) := fun pre hp =>
    exec_inv_of_mem hI hI0 (fun e he => hes e (hp.subset he))
  refine ⟨?_, ?_⟩
  · intro h pre e hp
    have hpre : pre <+: es := (List.prefix_append _ _).trans hp
    have hnext : P (step (exec step s pre) e) := by
      have := h _ hp
      rwa [exec_snoc] at this
    exact (hP _ e (hIpre pre hpre) (h pre hpre) (hes e (hp.subset (by simp)))).mp hnext
  · intro h pre
    induction pre using List.reverseRecOn with
    | nil => intro _; exact hP0
    | append_singleton pre e ih =>
        intro hp
        have hpre : pre <+: es := (List.prefix_append _ _).trans hp
        rw [exec_snoc]
        exact (hP _ e (hIpre pre hpre) (ih hpre) (hes e (hp.subset (by simp)))).mpr (h pre e hp)

/-! ## Histories -/

/-- Every entry of a history stands in the relation `P` to the entries before it. -/
def Along (P : List ε → ε → Prop) (es : List ε) : Prop :=
  ∀ pre e post, es = pre ++ e :: post → P pre e

theorem along_nil {P : List ε → ε → Prop} : Along P [] := by
  intro pre e post h
  simp at h

/-- A history is extended by entries that stand in `P` to all that precedes them. -/
theorem Along.append {P : List ε → ε → Prop} {es fs : List ε} (h : Along P es)
    (hf : ∀ pre e post, fs = pre ++ e :: post → P (es ++ pre) e) : Along P (es ++ fs) := by
  intro pre e post heq
  rcases List.append_eq_append_iff.mp heq with ⟨mid, hpre, hfs⟩ | ⟨mid, hes, hrest⟩
  · rw [hpre]
    exact hf mid e post hfs
  · cases mid with
    | nil =>
        -- the entry is the first of the new ones
        rw [List.append_nil] at hes
        have := hf [] e post hrest.symm
        rwa [List.append_nil, hes] at this
    | cons x mid =>
        obtain ⟨rfl, -⟩ := List.cons.inj hrest
        exact h pre e mid hes

theorem Along.snoc {P : List ε → ε → Prop} {es : List ε} {e : ε} (h : Along P es) (he : P es e) :
    Along P (es ++ [e]) := by
  refine h.append ?_
  intro pre f post heq
  cases pre with
  | nil =>
      obtain ⟨rfl, -⟩ := List.cons.inj heq
      rw [List.append_nil]
      exact he
  | cons x pre => simp at heq

theorem along_snoc {P : List ε → ε → Prop} {es : List ε} {e : ε} :
    Along P (es ++ [e]) ↔ Along P es ∧ P es e := by
  refine ⟨fun h => ⟨fun pre f post heq => ?_, h es e [] rfl⟩, fun h => h.1.snoc h.2⟩
  exact h pre f (post ++ [e]) (by rw [heq, List.append_assoc, List.cons_append])

end Lib
