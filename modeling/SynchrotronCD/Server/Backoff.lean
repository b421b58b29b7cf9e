import SynchrotronCD.Kube.HealthMonitor
import SynchrotronCD.Plugins.Sidecar

/-!
# Backing off

Two loops of the server wait longer after each failure, up to a cap: the health
monitor and the connection to a sidecar.
-/

namespace SynchrotronCD

open Lib

/--
**Both backoffs are bounded, if they start within their bounds and can be doubled.**

The monitor sleeps at most for its cap, and never shorter than after the failure
before, exactly if the initial backoff is not above the cap or no probe fails. The
connector makes no more attempts than it may, waits at most for its cap and does not
panic exactly if the endpoint is none, or if there is an attempt and, as far as it has
to wait, the first wait is not above the cap and the last can be doubled.
-/
theorem backoffs_bounded_iff (debug : Duration → String) :
    (∀ (config : HealthMonitor.HealthConfig) (os : List HealthMonitor.Outcome),
      HealthMonitor.Bounded debug config os ↔
        config.initialBackoff ≤ config.maxBackoff ∨ ∀ o ∈ os, o.failed = false) ∧
    ∀ (E S C : Type) (name endpoint : String) (retry : Sidecar.RetryConfig)
      (peer : Sidecar.Peer E S C),
      Sidecar.Bounded retry (Sidecar.connect name endpoint retry peer) ↔
        peer.endpoint ≠ .ok () ∨
          (0 < retry.maxAttempts.toNat ∧
            (Sidecar.failuresBefore peer (retry.maxAttempts.toNat - 1) = 0 ∨
              (retry.initialBackoff ≤ retry.maxBackoff ∧
                min (retry.initialBackoff.nanos *
                    2 ^ (Sidecar.failuresBefore peer (retry.maxAttempts.toNat - 1) - 1))
                  retry.maxBackoff.nanos * 2 ≤ Duration.MAX.nanos))) :=
  ⟨fun _ _ => HealthMonitor.bounded_iff_initial,
    fun _ _ _ name endpoint retry peer => Sidecar.bounded_iff_doubled name endpoint retry peer⟩

/-- A monitor whose first backoff is above its cap. -/
def eagerConfig : HealthMonitor.HealthConfig :=
  ⟨.fromSecs 15, .fromSecs 5, 5, .fromSecs 120, .fromSecs 60⟩

/-- A sidecar that refuses connections. -/
def refusing : Sidecar.Peer String String Unit :=
  ⟨.ok (), fun _ => .error "connection refused", fun _ => .error "unreachable"⟩

/-- The first failure puts the monitor to sleep for longer than its cap, and longer than the
second. The connector panics if it may not try, and if a wait cannot be doubled. -/
theorem unvalidated_backoffs :
    (HealthMonitor.runLoop (fun _ => "") (.new eagerConfig) [.err "refused", .err "refused"]).map
        HealthMonitor.Cycle.sleep = [.fromSecs 120, .fromSecs 60] ∧
      ¬ HealthMonitor.Bounded (fun _ => "") eagerConfig [.err "refused"] ∧
      (Sidecar.connect "charts" "http://charts:50051" ⟨0, .ZERO, .ZERO⟩ refusing).outcome
        = .panicked ∧
      (Sidecar.connect "charts" "http://charts:50051" ⟨2, .MAX, .MAX⟩ refusing).outcome
        = .panicked := by
  refine ⟨by decide, fun h => ?_, by decide, by decide⟩
  have hcapped := h.capped 0 _ rfl (by decide)
  exact absurd hcapped (by decide)

end SynchrotronCD
