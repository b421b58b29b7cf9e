import SynchrotronCD.Lib.Durations
import SynchrotronCD.Lib.Runs

/-!
# The health monitor

A loop probes a cluster and sleeps. While the probes succeed, it sleeps for an
interval; after a failure, for a backoff that starts with the initial one and is
doubled, up to a cap, with each further failure. At each so many failures in a row it
reconnects.

The configuration is not validated. Only a first backoff above the cap is out of
bounds (`bounded_iff_initial`).
-/

namespace SynchrotronCD

open Lib

/-- Observed reachability of a cluster's API server. -/
inductive HealthState where
  /-- Before the first probe completes. -/
  | unknown
  | up
  | down (consecutiveFailures : UInt32) (lastError : String)
deriving DecidableEq, Repr

/-- The failures in a row, none unless the cluster is down. -/
def HealthState.failures : HealthState → UInt32
  | .down consecutiveFailures _ => consecutiveFailures
  | .unknown | .up => 0

namespace HealthMonitor

structure HealthConfig where
  interval : Duration
  probeTimeout : Duration
  reconnectAfter : UInt32
  initialBackoff : Duration
  maxBackoff : Duration
deriving DecidableEq, Repr

structure Tracker where
  state : HealthState
  config : HealthConfig
  backoff : Duration
deriving DecidableEq, Repr

/-- `saturating_add(1)`. -/
def saturatingSucc (n : UInt32) : UInt32 := if n = 4294967295 then n else n + 1

namespace Tracker

def new (config : HealthConfig) : Tracker := ⟨.unknown, config, .ZERO⟩

def recordSuccess (t : Tracker) : Tracker := { t with backoff := .ZERO, state := .up }

def recordFailure (t : Tracker) (error : String) : Tracker :=
  { t with
    backoff :=
      if t.backoff.isZero then t.config.initialBackoff
      else min (t.backoff.saturatingMul 2) t.config.maxBackoff
    state := .down (saturatingSucc t.state.failures) error }

/-- Duration to sleep before the next probe. -/
def sleepDuration (t : Tracker) : Duration :=
  match t.state with
  | .down _ _ => t.backoff
  | .unknown | .up => t.config.interval

def shouldReconnect (t : Tracker) : Bool :=
  match t.state with
  | .down consecutiveFailures _ =>
    consecutiveFailures > 0 && t.config.reconnectAfter > 0
      && consecutiveFailures % t.config.reconnectAfter == 0
  | .unknown | .up => false

end Tracker

/-- How a probe ends. -/
inductive Outcome where
  | ok
  | err (e : String)
  | timedOut
deriving DecidableEq, Repr

def Outcome.failed : Outcome → Bool
  | .ok => false
  | .err _ | .timedOut => true

/-- What the loop does after a probe: the state it sends, whether it reconnects, and how long it
sleeps. -/
structure Cycle where
  state : HealthState
  reconnect : Bool
  sleep : Duration
deriving DecidableEq, Repr

section

-- how a duration is printed
variable (debug : Duration → String)

/-- The outcome of a probe is recorded. -/
def record (t : Tracker) : Outcome → Tracker
  | .ok => t.recordSuccess
  | .err e => t.recordFailure e
  | .timedOut => t.recordFailure ("probe timed out after " ++ debug t.config.probeTimeout)

def Tracker.cycle (t : Tracker) : Cycle := ⟨t.state, t.shouldReconnect, t.sleepDuration⟩

/-- `run_loop`, over the probes. -/
def runLoop (t : Tracker) : List Outcome → List Cycle
  | [] => []
  | o :: os => (record debug t o).cycle :: runLoop (record debug t o) os

/-- The cycle after a probe is that of the tracker then. -/
theorem runLoop_getElem? (t : Tracker) (os : List Outcome) (i : Nat) : (runLoop debug t os)[i]? =
    os[i]?.map fun _ => (exec (record debug) t (os.take (i + 1))).cycle := by
  induction os generalizing t i with
  | nil => rfl
  | cons o os ih =>
      cases i with
      | zero => rfl
      | succ i => exact ih (record debug t o) i

/-- The failures since the last success. -/
def failuresSince (os : List Outcome) : Nat := (os.reverse.takeWhile Outcome.failed).length

theorem failuresSince_snoc (os : List Outcome) (o : Outcome) :
    failuresSince (os ++ [o]) = if o.failed then failuresSince os + 1 else 0 := by
  unfold failuresSince
  rw [List.reverse_append, List.reverse_singleton, List.singleton_append, List.takeWhile_cons]
  split <;> rfl

/-- What the tracker holds after these probes. -/
structure Tracks (config : HealthConfig) (os : List Outcome) (t : Tracker) : Prop where
  kept : t.config = config
  failures : t.state.failures.toNat = min (failuresSince os) 4294967295
  down : 0 < failuresSince os → ∃ n e, t.state = .down n e
  idle : failuresSince os = 0 → t.backoff = .ZERO
  first : failuresSince os = 1 → t.backoff = config.initialBackoff
  backoff : config.initialBackoff ≤ config.maxBackoff → ∀ n, failuresSince os = n + 1 →
    t.backoff.nanos = doubled config.initialBackoff.nanos config.maxBackoff.nanos n

theorem saturatingSucc_toNat (n : UInt32) :
    (saturatingSucc n).toNat = min (n.toNat + 1) 4294967295 := by
  unfold saturatingSucc
  have hlt := n.toNat_lt
  split
  · rename_i h
    rw [h]
    rfl
  · rename_i h
    have hne : n.toNat ≠ 4294967295 := fun heq => h (UInt32.toNat_inj.mp heq)
    rw [UInt32.toNat_add, UInt32.toNat_one]
    omega

theorem Tracks.success {config : HealthConfig} {os : List Outcome} {t : Tracker}
    (h : Tracks config os t) : Tracks config (os ++ [.ok]) t.recordSuccess := by
  have hnone : failuresSince (os ++ [.ok]) = 0 := failuresSince_snoc os .ok
  refine ⟨h.kept, ?_, ?_, fun _ => rfl, ?_, ?_⟩
  · rw [hnone]
    rfl
  · rw [hnone]
    exact fun hlt => absurd hlt (Nat.lt_irrefl 0)
  · rw [hnone]
    exact fun heq => nomatch heq
  · rw [hnone]
    exact fun _ n heq => nomatch heq

/-- A failure doubles the backoff, if there is one. -/
theorem Tracks.failure {config : HealthConfig} {os : List Outcome} {t : Tracker}
    (h : Tracks config os t) {o : Outcome} (ho : o.failed = true) (e : String) :
    Tracks config (os ++ [o]) (t.recordFailure e) := by
  have hsnoc : failuresSince (os ++ [o]) = failuresSince os + 1 := by
    rw [failuresSince_snoc, if_pos ho]
  refine ⟨h.kept, ?_, fun _ => ⟨_, _, rfl⟩, ?_, ?_, ?_⟩
  · show (saturatingSucc t.state.failures).toNat = _
    rw [saturatingSucc_toNat, h.failures, hsnoc]
    omega
  · rw [hsnoc]
    exact fun heq => nomatch heq
  · intro heq
    show (if t.backoff.isZero then t.config.initialBackoff else _) = _
    rw [h.idle (by omega), h.kept]
    rfl
  · intro hle n heq
    obtain rfl : failuresSince os = n := by omega
    show Duration.nanos (if t.backoff.isZero then t.config.initialBackoff else _) = _
    rw [h.kept]
    cases hn : failuresSince os with
    | zero =>
        rw [h.idle hn]
        rfl
    | succ m =>
        have hb := h.backoff hle m hn
        split
        · -- the initial backoff is nothing, too: it is no longer than what it was doubled to
          rename_i hzero
          have hinit : config.initialBackoff.nanos = 0 := by
            have hle' := doubled_mono hle (Nat.zero_le m)
            rw [← hb, Duration.nanos_of_isZero hzero] at hle'
            exact Nat.le_zero.mp hle'
          rw [hinit, doubled_zero]
        · rw [Duration.nanos_min, Duration.nanos_saturatingMul, hb, doubled]
          have := Duration.nanos_le_max config.maxBackoff
          omega

theorem tracks_after (config : HealthConfig) (os : List Outcome) :
    Tracks config os (exec (record debug) (.new config) os) := by
  induction os using List.reverseRecOn with
  | nil =>
      exact ⟨rfl, rfl, fun h => absurd h (Nat.lt_irrefl 0), fun _ => rfl, nofun, nofun⟩
  | append_singleton os o ih =>
      rw [exec_snoc]
      cases o with
      | ok => exact ih.success
      | err e => exact ih.failure rfl e
      | timedOut => exact ih.failure rfl _

/-- The sleeps after failures are capped and do not fall, the failures are counted, and a
reconnect is due at the multiples of `reconnect_after`. -/
structure Bounded (config : HealthConfig) (os : List Outcome) : Prop where
  capped : ∀ (i : Nat) (c : Cycle), (runLoop debug (.new config) os)[i]? = some c →
    0 < failuresSince (os.take (i + 1)) → c.sleep ≤ config.maxBackoff
  rising : ∀ (i : Nat) (c c' : Cycle), (runLoop debug (.new config) os)[i]? = some c →
    (runLoop debug (.new config) os)[i + 1]? = some c' → 0 < failuresSince (os.take (i + 1)) →
    0 < failuresSince (os.take (i + 1 + 1)) → c.sleep ≤ c'.sleep
  counted : ∀ (i : Nat) (c : Cycle), (runLoop debug (.new config) os)[i]? = some c →
    c.state.failures.toNat = min (failuresSince (os.take (i + 1))) 4294967295
  due : ∀ (i : Nat) (c : Cycle), (runLoop debug (.new config) os)[i]? = some c →
    (c.reconnect = true ↔
      0 < c.state.failures.toNat ∧ config.reconnectAfter.toNat ∣ c.state.failures.toNat)

variable {debug}

theorem cycle_eq {config : HealthConfig} {os : List Outcome} {i : Nat} {c : Cycle}
    (h : (runLoop debug (.new config) os)[i]? = some c) :
    ∃ t, Tracks config (os.take (i + 1)) t ∧ c = t.cycle ∧ i < os.length := by
  rw [runLoop_getElem?, Option.map_eq_some_iff] at h
  obtain ⟨o, ho, rfl⟩ := h
  exact ⟨_, tracks_after debug config _, rfl, (List.getElem?_eq_some_iff.mp ho).1⟩

theorem Tracks.sleep {config : HealthConfig} {os : List Outcome} {t : Tracker}
    (h : Tracks config os t) (hfailed : 0 < failuresSince os) : t.cycle.sleep = t.backoff := by
  obtain ⟨n, e, hdown⟩ := h.down hfailed
  show t.sleepDuration = _
  unfold Tracker.sleepDuration
  rw [hdown]

/-- A reconnect is due at the multiples, zero aside. -/
theorem Tracks.reconnect {config : HealthConfig} {os : List Outcome} {t : Tracker}
    (h : Tracks config os t) : t.cycle.reconnect = true ↔
      0 < t.state.failures.toNat ∧ config.reconnectAfter.toNat ∣ t.state.failures.toNat := by
  show t.shouldReconnect = true ↔ _
  unfold Tracker.shouldReconnect HealthState.failures
  rw [h.kept]
  cases t.state with
  | unknown => simp
  | up => simp
  | down n e =>
      dsimp only
      rw [Bool.and_eq_true, Bool.and_eq_true, decide_eq_true_eq, decide_eq_true_eq, beq_iff_eq,
        gt_iff_lt, gt_iff_lt, UInt32.lt_iff_toNat_lt, UInt32.lt_iff_toNat_lt, ← UInt32.toNat_inj,
        UInt32.toNat_mod, UInt32.toNat_zero, ← Nat.dvd_iff_mod_eq_zero]
      refine ⟨fun h => ⟨h.1.1, h.2⟩, fun h => ⟨⟨h.1, Nat.pos_of_ne_zero fun hzero => ?_⟩, h.2⟩⟩
      have hdvd := h.2
      rw [hzero, Nat.zero_dvd] at hdvd
      exact absurd h.1 (by rw [hdvd]; exact Nat.lt_irrefl 0)

theorem failuresSince_of_none {os : List Outcome} (h : ∀ o ∈ os, o.failed = false) :
    failuresSince os = 0 := by
  induction os using List.reverseRecOn with
  | nil => rfl
  | append_singleton os o ih =>
      rw [failuresSince_snoc, if_neg]
      rw [h o (by simp)]
      simp

/-- The first failure of all. -/
theorem exists_first_failure {os : List Outcome} (h : ¬ ∀ o ∈ os, o.failed = false) :
    ∃ i, i < os.length ∧ failuresSince (os.take (i + 1)) = 1 := by
  have hlt : os.findIdx Outcome.failed < os.length := by
    simpa [List.findIdx_lt_length] using h
  refine ⟨_, hlt, ?_⟩
  rw [List.take_succ_eq_append_getElem hlt, failuresSince_snoc, if_pos List.findIdx_getElem,
    failuresSince_of_none]
  intro o ho
  obtain ⟨j, hj, rfl⟩ := List.mem_iff_getElem.mp ho
  rw [List.length_take] at hj
  rw [List.getElem_take]
  simpa using List.not_of_lt_findIdx (p := Outcome.failed) (by omega : j < os.findIdx Outcome.failed)

/-- The first wait after a success is the initial one, whatever the cap. -/
theorem bounded_iff_initial {config : HealthConfig} {os : List Outcome} : Bounded debug config os ↔
    config.initialBackoff ≤ config.maxBackoff ∨ ∀ o ∈ os, o.failed = false := by
  constructor
  · intro h
    by_contra hnot
    obtain ⟨hover, hfailed⟩ := not_or.mp hnot
    obtain ⟨i, hi, hfirst⟩ := exists_first_failure hfailed
    have htracks := tracks_after debug config (os.take (i + 1))
    have hcycle : (runLoop debug (.new config) os)[i]? = some _ :=
      (runLoop_getElem? debug _ os i).trans (by rw [List.getElem?_eq_getElem hi]; rfl)
    have hcapped := h.capped i _ hcycle (by omega)
    rw [htracks.sleep (by omega), htracks.first hfirst] at hcapped
    exact hover hcapped
  · intro h
    refine ⟨fun i c hc hpos => ?_, fun i c c' hc hc' hpos hpos' => ?_, fun i c hc => ?_, fun i c hc => ?_⟩
    · obtain ⟨t, ht, rfl, -⟩ := cycle_eq hc
      rcases h with hle | hnone
      · obtain ⟨n, hn⟩ := Nat.exists_eq_add_one.mpr hpos
        rw [ht.sleep hpos, Duration.le_def, ht.backoff hle n hn]
        exact doubled_le hle n
      · rw [failuresSince_of_none fun o ho => hnone o (List.mem_of_mem_take ho)] at hpos
        exact absurd hpos (Nat.lt_irrefl 0)
    · obtain ⟨t, ht, rfl, -⟩ := cycle_eq hc
      obtain ⟨t', ht', rfl, hi⟩ := cycle_eq hc'
      rcases h with hle | hnone
      · obtain ⟨n, hn⟩ := Nat.exists_eq_add_one.mpr hpos
        have hn' : failuresSince (os.take (i + 1 + 1)) = n + 1 + 1 := by
          rw [List.take_succ_eq_append_getElem hi, failuresSince_snoc] at hpos' ⊢
          split at hpos'
          · rename_i ho
            rw [if_pos ho, hn]
          · exact absurd hpos' (Nat.lt_irrefl 0)
        rw [ht.sleep hpos, ht'.sleep hpos', Duration.le_def, ht.backoff hle n hn,
          ht'.backoff hle (n + 1) hn']
        exact doubled_le_succ hle n
      · rw [failuresSince_of_none fun o ho => hnone o (List.mem_of_mem_take ho)] at hpos
        exact absurd hpos (Nat.lt_irrefl 0)
    · obtain ⟨t, ht, rfl, -⟩ := cycle_eq hc
      exact ht.failures
    · obtain ⟨t, ht, rfl, -⟩ := cycle_eq hc
      exact ht.reconnect

end

end HealthMonitor

end SynchrotronCD
