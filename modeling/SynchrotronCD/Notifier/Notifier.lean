import SynchrotronCD.Lib.Attempts
import SynchrotronCD.Lib.Durations

/-!
# Delivering a notification

A payload is sent to the webhook of an app until it is accepted or rejected, with a
bounded number of attempts, and four counters tell how deliveries end.

A delivery counts as sent or as failed, its retries are counted, and the counters agree
with the requests, unless the configuration allows no attempt at all: nothing is
counted then (`accounted_iff`).
-/

namespace SynchrotronCD.Notifier

open Lib

/-- Per-app webhook configuration. -/
structure NotificationConfig where
  url : String
  hmacSecret : Option (List UInt8)
  maxAttempts : UInt32
deriving DecidableEq, Repr

namespace NotificationConfig

def new (url : String) : NotificationConfig := ⟨url, none, 4⟩

def withHmac (c : NotificationConfig) (secret : List UInt8) : NotificationConfig :=
  { c with hmacSecret := some secret }

def withMaxAttempts (c : NotificationConfig) (n : UInt32) : NotificationConfig :=
  { c with maxAttempts := max n 1 }

/-- The builder does not make a configuration without attempts. -/
theorem withMaxAttempts_ne_zero (c : NotificationConfig) (n : UInt32) :
    (c.withMaxAttempts n).maxAttempts ≠ 0 := by
  show (if n ≤ 1 then 1 else n) ≠ 0
  split
  · decide
  · rename_i hgt
    rintro rfl
    exact hgt (by decide)

end NotificationConfig

structure NotifierMetrics where
  sent : UInt64
  failed : UInt64
  retries : UInt64
  dropped4xx : UInt64
deriving DecidableEq, Repr

structure Request where
  url : String
  headers : List (String × String)
  body : List UInt8
deriving DecidableEq, Repr

/-- What becomes of a request. -/
inductive Answer where
  | status (code : UInt16)
  | failed (error : String)
deriving DecidableEq, Repr

def isSuccess (code : UInt16) : Bool := 200 ≤ code && code < 300

def isClientError (code : UInt16) : Bool := 400 ≤ code && code < 500

/-- A delivery under way: the counters, the requests sent and the sleeps between them. -/
structure Delivery where
  metrics : NotifierMetrics
  delay : Duration
  requests : List Request
  sleeps : List Duration
deriving DecidableEq, Repr

section

-- the HMAC of a body, in hexadecimal digits
variable (sign : List UInt8 → List UInt8 → String)

/-- The request, which is the same in every attempt. -/
def request (cfg : NotificationConfig) (body : List UInt8) : Request :=
  let signature := match cfg.hmacSecret with
    | some secret => [("X-Synchrotron-Signature", "sha256=" ++ sign secret body)]
    | none => []
  ⟨cfg.url, ("content-type", "application/json") :: signature, body⟩

/-- After an answer that can be retried: give up, or sleep and go on. -/
def retryOrGiveUp (cfg : NotificationConfig) (attempt : Nat) (d : Delivery) : Flow Delivery Delivery :=
  if attempt = cfg.maxAttempts.toNat then
    .ret { d with metrics := { d.metrics with failed := d.metrics.failed + 1 } }
  else
    .next { d with
      metrics := { d.metrics with retries := d.metrics.retries + 1 }
      delay := d.delay.saturatingMul 2
      sleeps := d.sleeps ++ [d.delay] }

/-- One attempt. -/
def attemptOnce (cfg : NotificationConfig) (body : List UInt8) (answer : Nat → Answer) (attempt : Nat)
    (d : Delivery) : Flow Delivery Delivery :=
  let d := { d with requests := d.requests ++ [request sign cfg body] }
  match answer attempt with
  | .status code =>
    if isSuccess code then
      .ret { d with metrics := { d.metrics with sent := d.metrics.sent + 1 } }
    else if isClientError code then
      .ret { d with metrics := { d.metrics with
        dropped4xx := d.metrics.dropped4xx + 1
        failed := d.metrics.failed + 1 } }
    else retryOrGiveUp cfg attempt d
  | .failed _ => retryOrGiveUp cfg attempt d

/-- `Notifier::deliver`. -/
def deliver (cfg : NotificationConfig) (backoffBase : Duration) (body : List UInt8)
    (answer : Nat → Answer) (metrics : NotifierMetrics) : Delivery :=
  match forRange (attemptOnce sign cfg body answer) 1 cfg.maxAttempts.toNat
    ⟨metrics, backoffBase, [], []⟩ with
  | .next d => d
  | .ret d => d

/-! ## Accounting -/

/-- The receiver has accepted or rejected the payload. -/
def Answer.Final : Answer → Prop
  | .status code => isSuccess code = true ∨ isClientError code = true
  | .failed _ => False

instance (a : Answer) : Decidable a.Final := by
  unfold Answer.Final
  cases a <;> infer_instance

/-- What a delivery does, and what the counters say of it. -/
structure Accounted (cfg : NotificationConfig) (answer : Nat → Answer) (before : NotifierMetrics)
    (d : Delivery) : Prop where
  bounded : d.requests.length ≤ cfg.maxAttempts.toNat
  /-- No request follows an answer that is final. -/
  stops : ∀ attempt, 1 ≤ attempt → attempt < d.requests.length → ¬ (answer attempt).Final
  /-- Attempts are given up only after the last. -/
  persists : d.requests.length < cfg.maxAttempts.toNat → (answer d.requests.length).Final
  one : (d.metrics.sent = before.sent + 1 ∧ d.metrics.failed = before.failed) ∨
    (d.metrics.sent = before.sent ∧ d.metrics.failed = before.failed + 1)
  retries : d.metrics.retries = before.retries + UInt64.ofNat (d.requests.length - 1)
  dropped : d.metrics.dropped4xx = before.dropped4xx ∨
    (d.metrics.dropped4xx = before.dropped4xx + 1 ∧
      ∃ code, answer d.requests.length = .status code ∧ isClientError code = true)

variable {sign}

/-- A delivery that has gone on to an attempt: every request before has been retried. -/
structure AtAttempt (before : NotifierMetrics) (attempt : Nat) (d : Delivery) : Prop where
  requests : d.requests.length = attempt - 1
  metrics : d.metrics =
    { before with retries := before.retries + UInt64.ofNat (attempt - 1) }

/-- A delivery that has ended with an attempt. -/
structure EndedAt (answer : Nat → Answer) (before : NotifierMetrics) (attempt : Nat)
    (d : Delivery) : Prop where
  requests : d.requests.length = attempt
  one : (d.metrics.sent = before.sent + 1 ∧ d.metrics.failed = before.failed) ∨
    (d.metrics.sent = before.sent ∧ d.metrics.failed = before.failed + 1)
  retries : d.metrics.retries = before.retries + UInt64.ofNat (attempt - 1)
  dropped : d.metrics.dropped4xx = before.dropped4xx ∨
    (d.metrics.dropped4xx = before.dropped4xx + 1 ∧
      ∃ code, answer attempt = .status code ∧ isClientError code = true)

/-- The attempts that end the delivery. -/
def endsDelivery (cfg : NotificationConfig) (answer : Nat → Answer) (attempt : Nat) : Bool :=
  decide (answer attempt).Final || attempt = cfg.maxAttempts.toNat

theorem endsDelivery_eq_false {cfg : NotificationConfig} {answer : Nat → Answer} {attempt : Nat} :
    endsDelivery cfg answer attempt = false ↔
      ¬ (answer attempt).Final ∧ attempt ≠ cfg.maxAttempts.toNat := by
  unfold endsDelivery
  simp

theorem ofNat_succ_pred {attempt : Nat} (h : 1 ≤ attempt) (n : UInt64) :
    n + UInt64.ofNat (attempt - 1) + 1 = n + UInt64.ofNat (attempt + 1 - 1) := by
  obtain ⟨k, rfl⟩ : ∃ k, attempt = k + 1 := ⟨attempt - 1, by omega⟩
  rw [Nat.add_sub_cancel, Nat.add_sub_cancel, UInt64.ofNat_add, UInt64.add_assoc]
  rfl

variable {cfg : NotificationConfig} {body : List UInt8} {answer : Nat → Answer}
  {before : NotifierMetrics} {attempt : Nat} {d : Delivery}

/-- An answer that is not final leads to a retry, or to giving up. -/
theorem attemptOnce_of_not_final (h : ¬ (answer attempt).Final) :
    attemptOnce sign cfg body answer attempt d =
      retryOrGiveUp cfg attempt { d with requests := d.requests ++ [request sign cfg body] } := by
  unfold attemptOnce
  cases hanswer : answer attempt with
  | failed e => rfl
  | status code =>
      rw [hanswer] at h
      obtain ⟨hsuccess, hclient⟩ := not_or.mp h
      dsimp only
      rw [if_neg hsuccess, if_neg hclient]

theorem attemptOnce_next (hpos : 1 ≤ attempt) (hends : endsDelivery cfg answer attempt = false)
    (h : AtAttempt before attempt d) : ∃ d', attemptOnce sign cfg body answer attempt d = .next d' ∧
      AtAttempt before (attempt + 1) d' := by
  obtain ⟨hfinal, hlast⟩ := endsDelivery_eq_false.mp hends
  rw [attemptOnce_of_not_final hfinal]
  unfold retryOrGiveUp
  rw [if_neg hlast]
  refine ⟨_, rfl, ?_, ?_⟩
  · rw [List.length_append, h.requests, List.length_singleton]
    omega
  · dsimp only
    rw [h.metrics, ← ofNat_succ_pred hpos]

theorem attemptOnce_ret (hpos : 1 ≤ attempt) (hends : endsDelivery cfg answer attempt = true)
    (h : AtAttempt before attempt d) : ∃ d', attemptOnce sign cfg body answer attempt d = .ret d' ∧
      EndedAt answer before attempt d' := by
  have hrequests : (d.requests ++ [request sign cfg body]).length = attempt := by
    rw [List.length_append, h.requests, List.length_singleton]
    omega
  by_cases hfinal : (answer attempt).Final
  · unfold attemptOnce
    cases hanswer : answer attempt with
    | failed e =>
        rw [hanswer] at hfinal
        exact hfinal.elim
    | status code =>
        rw [hanswer] at hfinal
        dsimp only
        split
        · have hmetrics := h.metrics
          exact ⟨_, rfl, hrequests, .inl ⟨by rw [hmetrics], by rw [hmetrics]⟩, by rw [hmetrics],
            .inl (by rw [hmetrics])⟩
        · rename_i hsuccess
          have hclient : isClientError code = true := hfinal.resolve_left hsuccess
          rw [if_pos hclient]
          have hmetrics := h.metrics
          exact ⟨_, rfl, hrequests, .inr ⟨by rw [hmetrics], by rw [hmetrics]⟩, by rw [hmetrics],
            .inr ⟨by rw [hmetrics], code, hanswer, hclient⟩⟩
  · have hlast : attempt = cfg.maxAttempts.toNat := by
      unfold endsDelivery at hends
      simpa [hfinal] using hends
    rw [attemptOnce_of_not_final hfinal]
    unfold retryOrGiveUp
    rw [if_pos hlast]
    have hmetrics := h.metrics
    exact ⟨_, rfl, hrequests, .inr ⟨by rw [hmetrics], by rw [hmetrics]⟩, by rw [hmetrics],
      .inl (by rw [hmetrics])⟩

/--
**A delivery is accounted for exactly if it may try at all.**

Without attempts nothing is sent and nothing counted.
-/
theorem accounted_iff (sign : List UInt8 → List UInt8 → String) (cfg : NotificationConfig)
    (backoffBase : Duration) (body : List UInt8) (answer : Nat → Answer) (before : NotifierMetrics) :
    Accounted cfg answer before (deliver sign cfg backoffBase body answer before) ↔
      cfg.maxAttempts ≠ 0 := by
  have hloop := @forRange_rule _ _ (attemptOnce sign cfg body answer) (endsDelivery cfg answer)
    (AtAttempt before) (EndedAt answer before) 1 cfg.maxAttempts.toNat ⟨before, backoffBase, [], []⟩
    (fun i d hpos _ hends hd => attemptOnce_next hpos hends hd)
    (fun i d hpos _ hends hd => attemptOnce_ret hpos hends hd) ⟨rfl, by simp⟩
  unfold deliver
  rcases hloop with ⟨i, d, hfirst, hd, hend⟩ | ⟨d, hfirst, hd, hat⟩
  · obtain ⟨hi, hrange, hbefore⟩ := firstEnd_eq_some.mp hfirst
    rw [hd]
    -- attempt `i` ended the loop, so there was one
    have hne : cfg.maxAttempts ≠ 0 := by
      rintro hzero
      rw [hzero] at hrange
      exact absurd hrange (by simp; omega)
    have hsent : d.requests.length = i := hend.requests
    refine ⟨fun _ => hne, fun _ => {
      bounded := ?_
      stops := fun attempt hpos hlt => ?_
      persists := fun hlt => ?_
      one := hend.one
      retries := ?_
      dropped := ?_ }⟩
    · show d.requests.length ≤ cfg.maxAttempts.toNat
      omega
    · rw [hsent] at hlt
      exact (endsDelivery_eq_false.mp (hbefore attempt hpos hlt)).1
    · rw [hsent] at hlt ⊢
      unfold endsDelivery at hi
      simpa [Nat.ne_of_lt hlt] using hi
    · rw [hsent]
      exact hend.retries
    · rw [hsent]
      exact hend.dropped
  · -- no attempt ends the loop, so there is none: the last one would
    have hzero : cfg.maxAttempts.toNat = 0 := by
      by_contra hpos
      have hlast := firstEnd_eq_none.mp hfirst cfg.maxAttempts.toNat (by omega) (by omega)
      exact (endsDelivery_eq_false.mp hlast).2 rfl
    rw [hd]
    refine ⟨fun h => ?_, fun hne => absurd (UInt32.toNat_inj.mp hzero) hne⟩
    have hone := h.one
    dsimp only at hone
    rw [hat.metrics] at hone
    rcases hone with ⟨hsent, -⟩ | ⟨-, hfailed⟩
    · exact absurd hsent (by simp)
    · exact absurd hfailed (by simp)

end

/-! ### Without attempts -/

/-- A delivery that may not try is neither sent nor failed. -/
theorem no_attempt_uncounted :
    (deliver (fun _ _ => "") ⟨"http://hook", none, 0⟩ .ZERO [] (fun _ => .status 200)
        ⟨0, 0, 0, 0⟩).metrics = ⟨0, 0, 0, 0⟩ ∧
      ¬ Accounted ⟨"http://hook", none, 0⟩ (fun _ => .status 200) ⟨0, 0, 0, 0⟩
        (deliver (fun _ _ => "") ⟨"http://hook", none, 0⟩ .ZERO [] (fun _ => .status 200)
          ⟨0, 0, 0, 0⟩) := by
  refine ⟨by decide, fun h => ?_⟩
  exact absurd h.one (by decide)

end SynchrotronCD.Notifier
