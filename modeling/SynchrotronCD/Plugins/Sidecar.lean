import SynchrotronCD.Lib.Attempts
import SynchrotronCD.Lib.Durations

/-!
# Connecting to a sidecar

The connection is tried a bounded number of times, with a wait between two attempts
that is doubled up to a cap; a connected sidecar is asked for its version.

The configuration is not validated: with no attempts there is no error to return, the
first wait can be above the cap, and a wait can be too long to be doubled. Those are
the calls that wait too long or panic (`bounded_iff_doubled`).
-/

namespace SynchrotronCD.Sidecar

open Lib

def PROTOCOL_VERSION : UInt32 := 1

structure RetryConfig where
  maxAttempts : UInt32
  initialBackoff : Duration
  maxBackoff : Duration
deriving DecidableEq, Repr

structure VersionInfo where
  pluginVersion : String
  protocolVersion : UInt32
deriving DecidableEq, Repr

/-- The transport's errors and the status of a call are those of the gRPC library. -/
inductive SidecarError (E S : Type) where
  | invalidEndpoint (name endpoint : String) (source : E)
  | connect (name : String) (attempts : UInt32) (source : E)
  | rpc (name rpc : String) (status : S)
  | protocolVersion (name : String) (host plugin : UInt32)
deriving DecidableEq, Repr

/-- How a call of `connect` ends; a connected sidecar is the channel it has. -/
inductive Connected (E S C : Type) where
  | ok (name : String) (channel : C)
  | err (e : SidecarError E S)
  | panicked
deriving DecidableEq, Repr

/-- What a call did: its end, the attempts it made and the waits between them. -/
structure Call (E S C : Type) where
  outcome : Connected E S C
  attempts : Nat
  waits : List Duration
deriving DecidableEq, Repr

/-- The loop's variables, with the attempts and the waits so far. -/
structure Connecting (E : Type) where
  delay : Duration
  lastErr : Option E
  attempts : Nat
  waits : List Duration
deriving DecidableEq, Repr

/-- What a connect meets: whether the endpoint is one, what each attempt gives, and what the
plugin answers to the version call. -/
structure Peer (E S C : Type) where
  endpoint : Except E Unit
  connect : Nat → Except E C
  version : C → Except S VersionInfo

section

variable {E S C : Type}

def handshake (name : String) (peer : Peer E S C) (channel : C) :
    Except (SidecarError E S) VersionInfo :=
  match peer.version channel with
  | .error status => .error (.rpc name "Version" status)
  | .ok resp =>
    if resp.protocolVersion ≠ PROTOCOL_VERSION then
      .error (.protocolVersion name PROTOCOL_VERSION resp.protocolVersion)
    else .ok resp

/-- One attempt. -/
def attemptOnce (name : String) (retry : RetryConfig) (peer : Peer E S C) (attempt : Nat)
    (st : Connecting E) : Flow (Connecting E) (Call E S C) :=
  match peer.connect attempt with
  | .ok channel =>
    let outcome := match handshake name peer channel with
      | .ok _ => .ok name channel
      | .error e => .err e
    .ret ⟨outcome, st.attempts + 1, st.waits⟩
  | .error e =>
    let st := { st with lastErr := some e, attempts := st.attempts + 1 }
    if attempt < retry.maxAttempts.toNat then
      let waits := st.waits ++ [st.delay]
      match st.delay.checkedMul 2 with
      | none => .ret ⟨.panicked, st.attempts, waits⟩
      | some twice => .next { st with delay := min twice retry.maxBackoff, waits }
    else .next st

/-- `Sidecar::connect`. -/
def connect (name endpoint : String) (retry : RetryConfig) (peer : Peer E S C) : Call E S C :=
  match peer.endpoint with
  | .error source => ⟨.err (.invalidEndpoint name endpoint source), 0, []⟩
  | .ok () =>
    match forRange (attemptOnce name retry peer) 1 retry.maxAttempts.toNat
      ⟨retry.initialBackoff, none, 0, []⟩ with
    | .ret call => call
    | .next st =>
      match st.lastErr with
      | some source => ⟨.err (.connect name retry.maxAttempts source), st.attempts, st.waits⟩
      | none => ⟨.panicked, st.attempts, st.waits⟩

/-! ### The attempts -/

/-- The wait after so many. -/
def RetryConfig.wait (retry : RetryConfig) (n : Nat) : Nat :=
  doubled retry.initialBackoff.nanos retry.maxBackoff.nanos n

/-- The attempts that fail before one that connects, of the first `n`. -/
def failuresBefore (peer : Peer E S C) (n : Nat) : Nat :=
  match firstEnd (fun attempt => (peer.connect attempt).isOk) 1 n with
  | some i => i - 1
  | none => n

/-- An attempt that ends the loop connects, or has waited for a time that cannot be doubled. -/
def endsLoop (retry : RetryConfig) (peer : Peer E S C) (attempt : Nat) : Bool :=
  (peer.connect attempt).isOk ||
    (attempt < retry.maxAttempts.toNat && Duration.MAX.nanos < retry.wait (attempt - 1) * 2)

/-- The loop at an attempt: the waits so far were doubled. -/
structure AtAttempt (retry : RetryConfig) (attempt : Nat) (st : Connecting E) : Prop where
  delay : attempt ≤ retry.maxAttempts.toNat → st.delay.nanos = retry.wait (attempt - 1)
  attempts : st.attempts = attempt - 1
  waits : st.waits.map Duration.nanos =
    (List.range (min (attempt - 1) (retry.maxAttempts.toNat - 1))).map retry.wait
  lastErr : st.lastErr.isSome = true ↔ 1 < attempt

/-- An attempt that fails, and whose wait can be doubled. -/
theorem attemptOnce_next {name : String} {retry : RetryConfig} {peer : Peer E S C} {attempt : Nat}
    {st : Connecting E} (hpos : 1 ≤ attempt) (hle : attempt ≤ retry.maxAttempts.toNat)
    (hends : endsLoop retry peer attempt = false) (h : AtAttempt retry attempt st) :
    ∃ st', attemptOnce name retry peer attempt st = .next st' ∧
      AtAttempt retry (attempt + 1) st' := by
  obtain ⟨n, rfl⟩ : ∃ n, attempt = n + 1 := ⟨attempt - 1, by omega⟩
  unfold endsLoop at hends
  obtain ⟨hfails, hwait⟩ := Bool.or_eq_false_iff.mp hends
  unfold attemptOnce
  cases hconnect : peer.connect (n + 1) with
  | ok channel => rw [hconnect] at hfails; cases hfails
  | error e =>
      dsimp only
      split
      · rename_i hlt
        have hdouble : retry.wait n * 2 ≤ Duration.MAX.nanos := by
          simpa [hlt] using hwait
        cases hmul : st.delay.checkedMul 2 with
        | none =>
            rw [Duration.checkedMul_eq_none, h.delay hle] at hmul
            exact absurd hdouble (Nat.not_le.mpr hmul)
        | some twice =>
            have htwice := Duration.checkedMul_eq_some.mp hmul
            rw [h.delay hle] at htwice
            refine ⟨_, rfl, fun _ => ?_, congrArg (· + 1) h.attempts, ?_, by simp⟩
            · rw [Duration.nanos_min, htwice]
              rfl
            · rw [List.map_append, h.waits, show min (n + 1 + 1 - 1) (retry.maxAttempts.toNat - 1) = n + 1
                by omega, show min (n + 1 - 1) (retry.maxAttempts.toNat - 1) = n by omega,
                List.range_succ, List.map_append, List.map_singleton, List.map_singleton, h.delay hle]
              rfl
      · rename_i hlast
        refine ⟨_, rfl, fun hle' => absurd hle' (by omega), congrArg (· + 1) h.attempts, ?_, by simp⟩
        rw [h.waits]
        congr 2
        omega

/-- An attempt that ends the loop. -/
theorem attemptOnce_ret {name : String} {retry : RetryConfig} {peer : Peer E S C} {attempt : Nat}
    {st : Connecting E} (hpos : 1 ≤ attempt) (hle : attempt ≤ retry.maxAttempts.toNat)
    (hends : endsLoop retry peer attempt = true) (h : AtAttempt retry attempt st) :
    ∃ call, attemptOnce name retry peer attempt st = .ret call ∧ call.attempts = attempt ∧
      ((peer.connect attempt).isOk = true ∧ call.outcome ≠ .panicked ∧
          call.waits.map Duration.nanos = (List.range (attempt - 1)).map retry.wait ∨
        (peer.connect attempt).isOk = false ∧ attempt < retry.maxAttempts.toNat ∧
          Duration.MAX.nanos < retry.wait (attempt - 1) * 2 ∧ call.outcome = .panicked) := by
  have hattempts : st.attempts + 1 = attempt := by rw [h.attempts]; omega
  unfold endsLoop at hends
  unfold attemptOnce
  cases hconnect : peer.connect attempt with
  | ok channel =>
      refine ⟨_, rfl, hattempts, .inl ⟨rfl, ?_, ?_⟩⟩
      · dsimp only
        cases handshake name peer channel with
        | ok _ => nofun
        | error e => nofun
      · rw [h.waits]
        congr 2
        omega
  | error e =>
      rw [hconnect] at hends
      obtain ⟨hlt, hover⟩ : attempt < retry.maxAttempts.toNat ∧
          Duration.MAX.nanos < retry.wait (attempt - 1) * 2 := by
        simpa [Except.isOk, Except.toBool] using hends
      have hmul : st.delay.checkedMul 2 = none := by
        rw [Duration.checkedMul_eq_none, h.delay hle]
        exact hover
      dsimp only
      rw [if_pos hlt, hmul]
      exact ⟨_, rfl, hattempts, .inr ⟨rfl, hlt, hover, rfl⟩⟩

theorem endsLoop_eq_false {retry : RetryConfig} {peer : Peer E S C} {attempt : Nat} :
    endsLoop retry peer attempt = false ↔ (peer.connect attempt).isOk = false ∧
      (attempt < retry.maxAttempts.toNat → retry.wait (attempt - 1) * 2 ≤ Duration.MAX.nanos) := by
  unfold endsLoop
  rw [Bool.or_eq_false_iff]
  refine and_congr_right fun _ => ?_
  by_cases hlt : attempt < retry.maxAttempts.toNat <;> simp [hlt]

/-- The attempts before the first that connects. -/
theorem failuresBefore_of_first {peer : Peer E S C} {n attempt : Nat} (hpos : 1 ≤ attempt)
    (hle : attempt ≤ n + 1) (hbefore : ∀ j, 1 ≤ j → j < attempt → (peer.connect j).isOk = false)
    (hends : (peer.connect attempt).isOk = true ∨ attempt = n + 1) :
    failuresBefore peer n = attempt - 1 := by
  unfold failuresBefore
  cases hfirst : firstEnd (fun attempt => (peer.connect attempt).isOk) 1 n with
  | none =>
      have hnone := firstEnd_eq_none.mp hfirst
      rcases hends with hok | rfl
      · by_cases hlt : attempt < 1 + n
        · rw [hnone attempt hpos hlt] at hok
          cases hok
        · dsimp only
          omega
      · rfl
  | some i =>
      obtain ⟨hi, hrange, hfails⟩ := firstEnd_eq_some.mp hfirst
      have hge : ¬ i < attempt := fun hlt => by
        rw [hbefore i hrange.1 hlt] at hi
        cases hi
      have hle' : ¬ attempt < i := fun hlt => by
        rcases hends with hok | rfl
        · rw [hfails attempt hpos hlt] at hok
          cases hok
        · omega
      dsimp only
      omega

/-- Failures go on at least to here. -/
theorem le_failuresBefore {peer : Peer E S C} {n attempt : Nat} (hle : attempt ≤ n)
    (hfails : ∀ j, 1 ≤ j → j ≤ attempt → (peer.connect j).isOk = false) :
    attempt ≤ failuresBefore peer n := by
  unfold failuresBefore
  cases hfirst : firstEnd (fun attempt => (peer.connect attempt).isOk) 1 n with
  | none => exact hle
  | some i =>
      obtain ⟨hi, hrange, -⟩ := firstEnd_eq_some.mp hfirst
      have hgt : ¬ i ≤ attempt := fun hle' => by
        rw [hfails i hrange.1 hle'] at hi
        cases hi
      dsimp only
      omega

/-- A call that panics if it makes no attempt, or has waited for a time that cannot be doubled, and
else waits after each failure but that of the last possible attempt. -/
structure Waits (retry : RetryConfig) (peer : Peer E S C) (call : Call E S C) : Prop where
  attempts : call.attempts ≤ retry.maxAttempts.toNat
  panics : call.outcome = .panicked ↔ retry.maxAttempts.toNat = 0 ∨
    ∃ j < failuresBefore peer (retry.maxAttempts.toNat - 1), Duration.MAX.nanos < retry.wait j * 2
  waits : call.outcome ≠ .panicked → call.waits.map Duration.nanos
    = (List.range (failuresBefore peer (retry.maxAttempts.toNat - 1))).map retry.wait

/-- The waits before attempts that do not end the loop could be doubled. -/
theorem not_overflow_of_before {retry : RetryConfig} {peer : Peer E S C} {attempt : Nat}
    (hle : attempt ≤ retry.maxAttempts.toNat)
    (hbefore : ∀ j, 1 ≤ j → j < attempt → endsLoop retry peer j = false) :
    ¬ ∃ j < attempt - 1, Duration.MAX.nanos < retry.wait j * 2 := by
  rintro ⟨j, hj, hover⟩
  have hdouble := (endsLoop_eq_false.mp (hbefore (j + 1) (by omega) (by omega))).2 (by omega)
  exact absurd hover (Nat.not_lt.mpr hdouble)

/-- The call returns after an attempt, without a panic: one that connects, or the last. -/
theorem waits_of_returns {retry : RetryConfig} {peer : Peer E S C} {call : Call E S C} {attempt : Nat}
    (hpos : 1 ≤ attempt) (hle : attempt ≤ retry.maxAttempts.toNat)
    (hbefore : ∀ j, 1 ≤ j → j < attempt → endsLoop retry peer j = false)
    (hends : (peer.connect attempt).isOk = true ∨ attempt = retry.maxAttempts.toNat)
    (hattempts : call.attempts = attempt) (hreturns : call.outcome ≠ .panicked)
    (hwaits : call.waits.map Duration.nanos = (List.range (attempt - 1)).map retry.wait) :
    Waits retry peer call := by
  have hcount : failuresBefore peer (retry.maxAttempts.toNat - 1) = attempt - 1 :=
    failuresBefore_of_first hpos (by omega)
      (fun j hj hji => (endsLoop_eq_false.mp (hbefore j hj hji)).1) (hends.imp_right (by omega))
  refine ⟨by omega, ⟨fun h => absurd h hreturns, ?_⟩, fun _ => hcount.symm ▸ hwaits⟩
  rintro (hzero | hover)
  · omega
  · rw [hcount] at hover
    exact absurd hover (not_overflow_of_before hle hbefore)

/-- The call panics after an attempt that fails. -/
theorem waits_of_overflow {retry : RetryConfig} {peer : Peer E S C} {call : Call E S C} {attempt : Nat}
    (hpos : 1 ≤ attempt) (hlt : attempt < retry.maxAttempts.toNat)
    (hbefore : ∀ j, 1 ≤ j → j < attempt → endsLoop retry peer j = false)
    (hfails : (peer.connect attempt).isOk = false)
    (hover : Duration.MAX.nanos < retry.wait (attempt - 1) * 2)
    (hattempts : call.attempts = attempt) (hpanics : call.outcome = .panicked) :
    Waits retry peer call := by
  have hle : attempt ≤ failuresBefore peer (retry.maxAttempts.toNat - 1) := by
    refine le_failuresBefore (by omega) fun j hj hji => ?_
    rcases Nat.lt_or_eq_of_le hji with hlt' | rfl
    · exact (endsLoop_eq_false.mp (hbefore j hj hlt')).1
    · exact hfails
  exact ⟨by omega, ⟨fun _ => .inr ⟨attempt - 1, by omega, hover⟩, fun _ => hpanics⟩,
    fun h => absurd hpanics h⟩

/-- **A call of `connect`**, to an endpoint that is one. -/
theorem connect_waits (name endpoint : String) (retry : RetryConfig) (peer : Peer E S C)
    (hendpoint : peer.endpoint = .ok ()) : Waits retry peer (connect name endpoint retry peer) := by
  have hinit : AtAttempt (E := E) retry 1 ⟨retry.initialBackoff, none, 0, []⟩ :=
    ⟨fun _ => rfl, rfl, rfl, by simp⟩
  have hloop := @forRange_rule _ _ (attemptOnce name retry peer) (endsLoop retry peer) _ _ _
    retry.maxAttempts.toNat _
    (fun i st hpos hlt hends hst => attemptOnce_next hpos (by omega) hends hst)
    (fun i st hpos hlt hends hst => attemptOnce_ret hpos (by omega) hends hst) hinit
  unfold connect
  rw [hendpoint]
  dsimp only
  rcases hloop with ⟨i, call, hfirst, hcall, hattempts, hend⟩ | ⟨st, hfirst, hst, hat⟩
  · obtain ⟨-, hrange, hbefore⟩ := firstEnd_eq_some.mp hfirst
    rw [hcall]
    rcases hend with ⟨hok, hreturns, hwaits⟩ | ⟨hfails, hlt, hover, hpanics⟩
    · exact waits_of_returns hrange.1 (by omega) hbefore (.inl hok) hattempts hreturns hwaits
    · exact waits_of_overflow hrange.1 hlt hbefore hfails hover hattempts hpanics
  · have hbefore := firstEnd_eq_none.mp hfirst
    have hattempts : st.attempts = retry.maxAttempts.toNat := by simp [hat.attempts]
    have hlast := hat.lastErr
    rw [hst]
    dsimp only
    cases hsource : st.lastErr with
    | none =>
        -- no attempt was made
        rw [hsource] at hlast
        have hzero : retry.maxAttempts.toNat = 0 := by simpa using hlast
        exact ⟨Nat.le_of_eq hattempts, ⟨fun _ => .inl hzero, fun _ => rfl⟩, fun h => absurd rfl h⟩
    | some source =>
        rw [hsource] at hlast
        have hpos : 0 < retry.maxAttempts.toNat := by simpa using hlast
        refine waits_of_returns hpos (Nat.le_refl _) (fun j hj hji => hbefore j hj (by omega))
          (.inr rfl) hattempts nofun ?_
        rw [hat.waits]
        congr 2
        omega

/-- Few enough attempts, waits below the cap, and no panic. -/
structure Bounded (retry : RetryConfig) (call : Call E S C) : Prop where
  attempts : call.attempts ≤ retry.maxAttempts.toNat
  waits : ∀ w ∈ call.waits, w ≤ retry.maxBackoff
  returns : call.outcome ≠ .panicked

/-- Waits that are doubled up to the cap stay there and can be doubled, if the first does and the
last can. -/
theorem waits_iff (retry : RetryConfig) (k : Nat) :
    (∀ j < k, retry.wait j ≤ retry.maxBackoff.nanos ∧ retry.wait j * 2 ≤ Duration.MAX.nanos) ↔
      k = 0 ∨ (retry.initialBackoff ≤ retry.maxBackoff ∧
        min (retry.initialBackoff.nanos * 2 ^ (k - 1)) retry.maxBackoff.nanos * 2
          ≤ Duration.MAX.nanos) := by
  cases k with
  | zero => exact ⟨fun _ => .inl rfl, fun _ j hj => absurd hj (Nat.not_lt_zero j)⟩
  | succ k =>
      constructor
      · intro h
        have hle : retry.initialBackoff ≤ retry.maxBackoff := (h 0 (Nat.succ_pos k)).1
        refine .inr ⟨hle, ?_⟩
        have hlast := (h k (Nat.lt_succ_self k)).2
        rwa [RetryConfig.wait, doubled_eq hle] at hlast
      · rintro (hzero | ⟨hle, hlast⟩)
        · cases hzero
        · intro j hj
          refine ⟨doubled_le hle j, ?_⟩
          have hmono : retry.wait j ≤ retry.wait k := doubled_mono hle (Nat.le_of_lt_succ hj)
          have hk : retry.wait k * 2 ≤ Duration.MAX.nanos := by
            rw [RetryConfig.wait, doubled_eq hle]
            exact hlast
          omega

/-- **The waits of a call are bounded** if the endpoint is none, or if an attempt is made and the
waits start below the cap and can be doubled. -/
theorem bounded_iff_doubled (name endpoint : String) (retry : RetryConfig) (peer : Peer E S C) :
    Bounded retry (connect name endpoint retry peer) ↔ peer.endpoint ≠ .ok () ∨
      (0 < retry.maxAttempts.toNat ∧
        (failuresBefore peer (retry.maxAttempts.toNat - 1) = 0 ∨
          (retry.initialBackoff ≤ retry.maxBackoff ∧
            min (retry.initialBackoff.nanos *
                2 ^ (failuresBefore peer (retry.maxAttempts.toNat - 1) - 1)) retry.maxBackoff.nanos * 2
              ≤ Duration.MAX.nanos))) := by
  by_cases hendpoint : peer.endpoint = .ok ()
  · obtain ⟨hattempts, hpanics, hwaits⟩ := connect_waits name endpoint retry peer hendpoint
    rw [← waits_iff]
    constructor
    · intro h
      have hreturns := mt hpanics.mpr h.returns
      rw [not_or, not_exists] at hreturns
      refine .inr ⟨Nat.pos_of_ne_zero hreturns.1, fun j hj => ⟨?_, ?_⟩⟩
      · have hmem : retry.wait j ∈ (connect name endpoint retry peer).waits.map Duration.nanos := by
          rw [hwaits h.returns]
          exact List.mem_map_of_mem (List.mem_range.mpr hj)
        obtain ⟨w, hw, hwj⟩ := List.mem_map.mp hmem
        exact hwj ▸ h.waits w hw
      · exact Nat.not_lt.mp fun hover => hreturns.2 j ⟨hj, hover⟩
    · rintro (hnot | ⟨hpos, hall⟩)
      · exact absurd hendpoint hnot
      · have hreturns : (connect name endpoint retry peer).outcome ≠ .panicked := by
          rw [Ne, hpanics]
          rintro (hzero | ⟨j, hj, hover⟩)
          · omega
          · exact absurd (hall j hj).2 (Nat.not_le.mpr hover)
        refine ⟨hattempts, fun w hw => ?_, hreturns⟩
        have hmem := List.mem_map_of_mem (f := Duration.nanos) hw
        rw [hwaits hreturns] at hmem
        obtain ⟨j, hj, hwj⟩ := List.mem_map.mp hmem
        rw [Duration.le_def, ← hwj]
        exact (hall j (List.mem_range.mp hj)).1
  · refine ⟨fun _ => .inl hendpoint, fun _ => ?_⟩
    unfold connect
    cases h : peer.endpoint with
    | ok u => exact absurd h hendpoint
    | error source => exact ⟨Nat.zero_le _, nofun, nofun⟩

end

end SynchrotronCD.Sidecar
