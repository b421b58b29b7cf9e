import SynchrotronCD.Lib.Assoc
import SynchrotronCD.Lib.Durations
import SynchrotronCD.Lib.Throttle

/-!
# The event coalescer

Per key, the coalescer remembers when an event was last let through, and holds back
those that follow within a window. A sweep forgets the keys whose window is over.

A forgotten key is one whose next event would be let through anyway: whenever sweeps
happen, the coalescer is a throttle of what arrives (`throttled_run`).
-/

namespace SynchrotronCD

open Lib

structure Coalescer (K : Type) [DecidableEq K] where
  window : Duration
  last : HashMap K Instant

variable {K : Type} [DecidableEq K]

namespace Coalescer

def new (window : Duration) : Coalescer K := ⟨window, ∅⟩

/-- An event that came less than a window ago. -/
def within (window : Duration) (prev now : Instant) : Bool :=
  decide (now.durationSince prev < window)

/-- Whether the caller should forward the event. -/
def admitAt (c : Coalescer K) (key : K) (now : Instant) : Coalescer K × Bool :=
  match c.last.lookup key with
  | some prev =>
    if within c.window prev now then (c, false)
    else ({ c with last := c.last.insert key now }, true)
  | none => ({ c with last := c.last.insert key now }, true)

def trackedKeys (c : Coalescer K) : Nat := c.last.entries.length

/-- Forget all keys whose window has elapsed. -/
def sweep (c : Coalescer K) (now : Instant) : Coalescer K × Nat :=
  let last := c.last.retain fun t => within c.window t now
  ({ c with last }, c.trackedKeys - last.entries.length)

theorem within_iff {window : Duration} {prev now : Instant} :
    within window prev now = true ↔ now.durationSince prev < window := decide_eq_true_iff

theorem admitAt_window (c : Coalescer K) (key : K) (now : Instant) :
    (c.admitAt key now).1.window = c.window := by
  unfold admitAt
  split
  · split <;> rfl
  · rfl

/-- An event is held back if its key is remembered from within the window. -/
theorem admitAt_eq_false {c : Coalescer K} {key : K} {now : Instant} :
    (c.admitAt key now).2 = false ↔
      ∃ prev, c.last.lookup key = some prev ∧ within c.window prev now = true := by
  unfold admitAt
  cases c.last.lookup key with
  | none => simp
  | some prev => by_cases h : within c.window prev now = true <;> simp [h]

/-- What is remembered after an event. -/
theorem lookup_admitAt (c : Coalescer K) (key : K) (now : Instant) (k : K) :
    (c.admitAt key now).1.last.lookup k
      = if (c.admitAt key now).2 = true ∧ k = key then some now else c.last.lookup k := by
  have hinsert : (c.last.insert key now).lookup k = if k = key then some now else c.last.lookup k := by
    by_cases hk : k = key
    · rw [if_pos hk, hk, AList.lookup_insert]
    · rw [if_neg hk, AList.lookup_insert_ne hk]
  unfold admitAt
  cases c.last.lookup key with
  | none => simp [hinsert]
  | some prev => by_cases h : within c.window prev now = true <;> simp [h, hinsert]

/-! ## Runs -/

inductive Call (K : Type) where
  | admitAt (key : K) (now : Instant)
  | sweep (now : Instant)
deriving DecidableEq, Repr

namespace Call

def now : Call K → Instant
  | .admitAt _ now | .sweep now => now

def isAdmit : Call K → Bool
  | .admitAt _ _ => true
  | .sweep _ => false

/-- The event that is offered. -/
def arrival : Call K → Option (K × Instant)
  | .admitAt key now => some (key, now)
  | .sweep _ => none

omit [DecidableEq K] in
theorem filterMap_arrival_filter (calls : List (Call K)) :
    (calls.filter isAdmit).filterMap arrival = calls.filterMap arrival := by
  rw [List.filterMap_filter]
  refine List.filterMap_congr fun call _ => ?_
  cases call <;> rfl

end Call

/-- The coalescer, and the events that have been offered to it. -/
structure State (K : Type) [DecidableEq K] where
  coalescer : Coalescer K
  log : List (Arrival K Instant)

def State.new (window : Duration) : State K := ⟨.new window, []⟩

def step (s : State K) : Call K → State K
  | .admitAt key now =>
    let (coalescer, admitted) := s.coalescer.admitAt key now
    ⟨coalescer, s.log ++ [⟨key, now, admitted⟩]⟩
  | .sweep now => { s with coalescer := (s.coalescer.sweep now).1 }

/-- The results of the calls to `admit_at`, in order. -/
def results (window : Duration) (calls : List (Call K)) : List (Arrival K Instant) :=
  (exec step (State.new window) calls).log

/-- The calls are made one after the other. -/
def InOrder (calls : List (Call K)) : Prop := calls.Pairwise fun a b => a.now ≤ b.now

def Soon (window : Duration) (prev now : Instant) : Prop := now.durationSince prev < window

/-- What the coalescer remembers at a time, of the events offered up to then. -/
structure Inv (window : Duration) (s : State K) (now : Instant) : Prop where
  kept : s.coalescer.window = window
  past : ∀ p ∈ s.log, p.time ≤ now
  /-- What is remembered was let through. -/
  known : ∀ k t, s.coalescer.last.lookup k = some t →
    ∃ p ∈ s.log, p.admitted = true ∧ p.key = k ∧ p.time = t
  /-- What was let through is remembered, or its window is over. -/
  covered : ∀ p ∈ s.log, p.admitted = true →
    (∃ t, s.coalescer.last.lookup p.key = some t ∧ p.time ≤ t)
      ∨ window ≤ now.durationSince p.time
  throttled : Throttled (Soon window) s.log

variable {window : Duration} {s : State K} {now : Instant}

theorem inv_new (window : Duration) (now : Instant) : Inv window (State.new window : State K) now where
  kept := rfl
  past := fun _ hp => absurd hp List.not_mem_nil
  known := by
    intro k t ht
    rw [show (State.new window : State K).coalescer.last = ∅ from rfl, AList.lookup_empty] at ht
    cases ht
  covered := fun _ hp => absurd hp List.not_mem_nil
  throttled := throttled_nil

/-- Nothing is lost as time goes by. -/
theorem Inv.later (h : Inv window s now) {later : Instant} (hle : now ≤ later) :
    Inv window s later where
  kept := h.kept
  past := fun p hp => Instant.le_trans (h.past p hp) hle
  known := h.known
  covered := fun p hp hpa => (h.covered p hp hpa).imp_right fun hover =>
    Nat.le_trans hover (Instant.durationSince_mono hle (Instant.le_refl _))
  throttled := h.throttled

/-- **An event is let through exactly if no earlier one keeps it out.** -/
theorem Inv.admits_iff (h : Inv window s now) (key : K) :
    (s.coalescer.admitAt key now).2 = true ↔
      ∀ p ∈ s.log, ¬ p.KeepsOut (Soon window) key now := by
  constructor
  · rintro hadmitted p hp ⟨hpa, rfl, hsoon⟩
    rcases h.covered p hp hpa with ⟨t, ht, hle⟩ | hover
    · have hlt : now.durationSince t < window :=
        Duration.lt_of_le_of_lt (Instant.durationSince_mono (Instant.le_refl _) hle) hsoon
      have hheld : (s.coalescer.admitAt p.key now).2 = false :=
        admitAt_eq_false.mpr ⟨t, ht, within_iff.mpr (h.kept.symm ▸ hlt)⟩
      rw [hadmitted] at hheld
      exact Bool.noConfusion hheld
    · exact Duration.not_lt.mpr hover hsoon
  · intro hnone
    cases hadmitted : (s.coalescer.admitAt key now).2 with
    | true => rfl
    | false =>
        obtain ⟨prev, hprev, hwithin⟩ := admitAt_eq_false.mp hadmitted
        obtain ⟨p, hp, hpa, hkey, rfl⟩ := h.known key prev hprev
        rw [h.kept, within_iff] at hwithin
        exact absurd ⟨hpa, hkey, hwithin⟩ (hnone p hp)

theorem inv_admitAt (h : Inv window s now) (key : K) : Inv window (step s (.admitAt key now)) now where
  kept := (admitAt_window _ _ _).trans h.kept
  past := by
    intro p hp
    rcases List.mem_append.mp hp with hp | hp
    · exact h.past p hp
    · obtain rfl := List.mem_singleton.mp hp
      exact Instant.le_refl _
  known := by
    intro k t ht
    show ∃ p ∈ s.log ++ [_], _
    rw [show (step s (.admitAt key now)).coalescer = (s.coalescer.admitAt key now).1 from rfl,
      lookup_admitAt] at ht
    split at ht
    · rename_i hk
      obtain rfl := Option.some.inj ht
      exact ⟨_, List.mem_append_right _ (List.mem_singleton_self _), hk.1, hk.2.symm, rfl⟩
    · obtain ⟨p, hp, hrest⟩ := h.known k t ht
      exact ⟨p, List.mem_append_left _ hp, hrest⟩
  covered := by
    intro p hp hpa
    rw [show (step s (.admitAt key now)).coalescer = (s.coalescer.admitAt key now).1 from rfl,
      lookup_admitAt]
    split
    · -- the event that was let through is the latest of its key
      refine Or.inl ⟨now, rfl, ?_⟩
      rcases List.mem_append.mp hp with hp | hp
      · exact h.past p hp
      · obtain rfl := List.mem_singleton.mp hp
        exact Instant.le_refl _
    · rename_i hk
      rcases List.mem_append.mp hp with hp | hp
      · exact h.covered p hp hpa
      · obtain rfl := List.mem_singleton.mp hp
        exact absurd ⟨hpa, rfl⟩ hk
  throttled := throttled_snoc.mpr ⟨h.throttled, h.admits_iff key⟩

theorem inv_sweep (h : Inv window s now) : Inv window (step s (.sweep now)) now where
  kept := h.kept
  past := h.past
  known := by
    intro k t ht
    refine h.known k t ?_
    have hretained : (s.coalescer.last.lookup k).filter (fun t => within s.coalescer.window t now)
        = some t := (lookup_retain _ _ _).symm.trans ht
    exact (Option.filter_eq_some_iff.mp hretained).1
  covered := by
    intro p hp hpa
    show (∃ t, (s.coalescer.last.retain _).lookup p.key = some t ∧ _) ∨ _
    rcases h.covered p hp hpa with ⟨t, ht, hle⟩ | hover
    · by_cases hwithin : within s.coalescer.window t now = true
      · exact Or.inl ⟨t, by rw [lookup_retain, ht, Option.filter_some, if_pos hwithin], hle⟩
      · -- a key is forgotten when its window is over
        rw [within_iff, h.kept, Duration.not_lt] at hwithin
        exact Or.inr (Nat.le_trans hwithin (Instant.durationSince_mono (Instant.le_refl _) hle))
    · exact Or.inr hover
  throttled := h.throttled

theorem inv_step (h : Inv window s now) {call : Call K} (hle : now ≤ call.now) :
    Inv window (step s call) call.now := by
  cases call with
  | admitAt key t => exact inv_admitAt (h.later hle) key
  | sweep t => exact inv_sweep (h.later hle)

theorem inv_run {calls : List (Call K)} (h : InOrder calls) (hle : ∀ call ∈ calls, call.now ≤ now) :
    Inv window (exec step (State.new window) calls) now := by
  induction calls using List.reverseRecOn generalizing now with
  | nil => exact inv_new window now
  | append_singleton calls call ih =>
      obtain ⟨hcalls, -, hbefore⟩ := List.pairwise_append.mp h
      rw [exec_snoc]
      have hinv := ih hcalls fun c hc => hbefore c hc call (List.mem_singleton_self _)
      exact (inv_step hinv (Instant.le_refl _)).later
        (hle call (List.mem_append_right _ (List.mem_singleton_self _)))

/-- **Whenever sweeps happen, the coalescer is a throttle.** -/
theorem throttled_run {calls : List (Call K)} (h : InOrder calls) :
    Throttled (Soon window) (results window calls) := by
  cases calls using List.reverseRecOn with
  | nil => exact throttled_nil
  | append_singleton calls call =>
      have hlast : ∀ c ∈ calls ++ [call], c.now ≤ call.now := by
        intro c hc
        rcases List.mem_append.mp hc with hc | hc
        · exact (List.pairwise_append.mp h).2.2 c hc call (List.mem_singleton_self _)
        · rw [List.mem_singleton.mp hc]
          exact Instant.le_refl _
      exact (inv_run h hlast).throttled

/-- The results are those of the calls to `admit_at`. -/
theorem results_arrivals (window : Duration) (calls : List (Call K)) :
    (results window calls).map (fun e => (e.key, e.time)) = calls.filterMap Call.arrival := by
  induction calls using List.reverseRecOn with
  | nil => rfl
  | append_singleton calls call ih =>
      unfold results at ih ⊢
      rw [exec_snoc, List.filterMap_append, ← ih]
      cases call with
      | admitAt key t => exact List.map_append
      | sweep t => exact (List.append_nil _).symm

theorem results_inOrder (window : Duration) {calls : List (Call K)} (h : InOrder calls) :
    (results window calls).Pairwise fun p e => p.time ≤ e.time := by
  have harrivals : (calls.filterMap Call.arrival).Pairwise fun p e => p.2 ≤ e.2 := by
    refine List.Pairwise.filterMap Call.arrival ?_ h
    intro a b hle p hp e he
    cases a with
    | sweep t => cases hp
    | admitAt key t =>
        cases b with
        | sweep t' => cases he
        | admitAt key' t' =>
            obtain rfl := Option.some.inj hp
            obtain rfl := Option.some.inj he
            exact hle
  rw [← results_arrivals window, List.pairwise_map] at harrivals
  exact harrivals

/-- **The coalescer.** Events of one key that are let through are a window apart, an event that is
held back follows one that was let through within the window, and sweeps change no result. -/
theorem results_spec (window : Duration) {calls : List (Call K)} (h : InOrder calls) :
    ((results window calls).Pairwise fun p e =>
        p.admitted = true → e.admitted = true → p.key = e.key →
          p.time ≤ e.time ∧ window ≤ e.time.durationSince p.time)
      ∧ Along (fun pre e => e.admitted = false → ∃ p ∈ pre, p.admitted = true ∧ p.key = e.key ∧
          p.time ≤ e.time ∧ e.time.durationSince p.time < window) (results window calls)
      ∧ ∀ calls', InOrder calls' →
          calls'.filter Call.isAdmit = calls.filter Call.isAdmit →
          results window calls' = results window calls := by
  have hthrottled : Throttled (Soon window) (results window calls) := throttled_run h
  have htimes := results_inOrder window h
  refine ⟨?_, ?_, ?_⟩
  · refine (htimes.and hthrottled.apart).imp ?_
    rintro p e ⟨hle, hapart⟩ hpa hea hkey
    exact ⟨hle, Duration.not_lt.mp (hapart hpa hea hkey)⟩
  · intro pre e post heq hea
    obtain ⟨p, hp, hpa, hkey, hsoon⟩ := hthrottled.rejected pre e post heq hea
    rw [heq] at htimes
    have hle := (List.pairwise_append.mp htimes).2.2 p hp e List.mem_cons_self
    exact ⟨p, hp, hpa, hkey, hle, hsoon⟩
  · intro calls' h' heq
    refine (throttled_run h').eq_of_arrivals hthrottled ?_
    rw [results_arrivals, results_arrivals, ← Call.filterMap_arrival_filter, heq,
      Call.filterMap_arrival_filter]

/-- Two pushes in a row and a third one later, with a sweep before it. -/
def pushes : List (Call String) :=
  [.admitAt "main" ⟨0, by decide, by decide⟩,
    .admitAt "main" ⟨10000000, by decide, by decide⟩,
    .sweep ⟨2500000000, by decide, by decide⟩,
    .admitAt "main" ⟨3000000000, by decide, by decide⟩]

theorem inOrder_pushes : InOrder pushes := by
  unfold InOrder
  decide

theorem pushes_results : (results (.fromSecs 2) pushes).map (·.admitted) = [true, false, true]
    ∧ results (.fromSecs 2) (pushes.filter Call.isAdmit) = results (.fromSecs 2) pushes :=
  ⟨by decide, (results_spec (.fromSecs 2) inOrder_pushes).2.2 _
    (inOrder_pushes.filter _) (by decide)⟩

end Coalescer

end SynchrotronCD
