import SynchrotronCD.Lib.Runs

/-!
# Leading-edge throttles

A throttle lets an event of a key through unless an earlier one of its key was let
through too recently. `Throttled` says so of a history, with nothing but what was let
through to go by: a throttle may keep whatever it likes, and forget whatever it likes,
as long as its history is one.

The history is determined by the events that arrive (`Throttled.eq_of_arrivals`).
-/

namespace Lib

/-- An event of a key, and whether it was let through. -/
structure Arrival (K T : Type*) where
  key : K
  time : T
  admitted : Bool
deriving DecidableEq, Repr

variable {K T : Type*}

/-- An event that was let through keeps out those of its key that come too soon after it. -/
def Arrival.KeepsOut (soon : T → T → Prop) (p : Arrival K T) (key : K) (time : T) : Prop :=
  p.admitted = true ∧ p.key = key ∧ soon p.time time

/-- An event is let through exactly if no earlier one keeps it out. -/
def Throttled (soon : T → T → Prop) (log : List (Arrival K T)) : Prop :=
  Along (fun pre e => e.admitted = true ↔ ∀ p ∈ pre, ¬ p.KeepsOut soon e.key e.time) log

variable {soon : T → T → Prop} {log log' : List (Arrival K T)}

theorem throttled_nil : Throttled soon ([] : List (Arrival K T)) := along_nil

theorem throttled_snoc {e : Arrival K T} : Throttled soon (log ++ [e]) ↔
    Throttled soon log ∧ (e.admitted = true ↔ ∀ p ∈ log, ¬ p.KeepsOut soon e.key e.time) :=
  along_snoc

/-- No two events of a key that are let through are too close to each other. -/
theorem Throttled.apart (h : Throttled soon log) : log.Pairwise fun p e =>
    p.admitted = true → e.admitted = true → p.key = e.key → ¬ soon p.time e.time := by
  induction log using List.reverseRecOn with
  | nil => exact List.Pairwise.nil
  | append_singleton log e ih =>
      obtain ⟨hlog, he⟩ := throttled_snoc.mp h
      rw [List.pairwise_append]
      refine ⟨ih hlog, List.pairwise_singleton _ _, ?_⟩
      intro p hp e' he' hpa hea hkey hsoon
      obtain rfl := List.mem_singleton.mp he'
      exact he.mp hea p hp ⟨hpa, hkey, hsoon⟩

/-- An event that is not let through is kept out by an earlier one. -/
theorem Throttled.rejected (h : Throttled soon log) :
    Along (fun pre e => e.admitted = false → ∃ p ∈ pre, p.KeepsOut soon e.key e.time) log := by
  intro pre e post heq hea
  by_contra hnone
  have hadmitted := (h pre e post heq).mpr fun p hp hkeeps => hnone ⟨p, hp, hkeeps⟩
  rw [hea] at hadmitted
  exact Bool.noConfusion hadmitted

/-- Two throttles let the same events through. -/
theorem Throttled.eq_of_arrivals (h : Throttled soon log) (h' : Throttled soon log')
    (heq : log.map (fun e => (e.key, e.time)) = log'.map fun e => (e.key, e.time)) : log = log' := by
  induction log using List.reverseRecOn generalizing log' with
  | nil => exact (List.map_eq_nil_iff.mp heq.symm).symm
  | append_singleton log e ih =>
      cases log' using List.reverseRecOn with
      | nil => simp at heq
      | append_singleton log' e' =>
          rw [List.map_append, List.map_append] at heq
          obtain ⟨hinit, hlast⟩ := List.append_inj' heq rfl
          obtain ⟨hlog, he⟩ := throttled_snoc.mp h
          obtain ⟨hlog', he'⟩ := throttled_snoc.mp h'
          obtain rfl := ih hlog hlog' hinit
          obtain ⟨key, time, admitted⟩ := e
          obtain ⟨key', time', admitted'⟩ := e'
          obtain ⟨rfl, rfl⟩ := Prod.mk.inj (List.singleton_inj.mp hlast)
          obtain rfl : admitted = admitted' := Bool.eq_iff_iff.mpr (he.trans he'.symm)
          rfl

end Lib
