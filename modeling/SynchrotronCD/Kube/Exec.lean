import SynchrotronCD.Lib.Durations
import SynchrotronCD.Lib.Renewal
import SynchrotronCD.Lib.Utf8Lossy

/-!
# Credentials from a plugin

A kubeconfig can name a program that prints a token. A cache runs it, checks what it
prints, and keeps the token until shortly before it expires; a token that says nothing
of its expiry is never served again.

A fresh token is served, and the program is not run; any other call runs it once, as the
configuration says, and the token it hands out was printed by that run (`execTokens_sound`).
-/

namespace SynchrotronCD.Exec

open Lib

structure ExecPluginConfig where
  command : String
  args : List String
  env : List (String × String)
  apiVersion : String
deriving DecidableEq, Repr

structure ExecCredentialStatus where
  token : String
  expirationTimestamp : Option SystemTime
deriving DecidableEq, Repr

structure ExecCredential where
  apiVersion : String
  kind : String
  status : ExecCredentialStatus
deriving DecidableEq, Repr

def ExecCredentialStatus.isFresh (s : ExecCredentialStatus) (now : SystemTime)
    (refreshBefore : Duration) : Bool :=
  match s.expirationTimestamp with
  | some exp =>
    match exp.checkedSub refreshBefore with
    | some deadline => now < deadline
    | none => false
  | none => false

/-! ## The plugin -/

/-- How a program is run; nothing is written to its standard input. -/
structure Command where
  program : String
  args : List String
  /-- What is set beside the environment of the host. -/
  envs : List (String × String)
deriving DecidableEq, Repr

def ExecPluginConfig.invocation (cfg : ExecPluginConfig) : Command := ⟨cfg.command, cfg.args, cfg.env⟩

/-- What a run of a command gives: an exit status, if it did not succeed, and what it printed. -/
structure Output where
  failure : Option String
  stdout : ByteArray
  stderr : ByteArray

/-- A spawned command, or the error of the spawn. -/
abbrev Spawned := Except String Output

section

-- how a text is quoted, and the error of bytes that are no text
variable (debug : String → String) (utf8Error : ByteArray → String)

/-- `tokio_command_runner`, where `run` says what becomes of a command: the command that was run,
and what comes of it. -/
def commandRunner (cfg : ExecPluginConfig) (run : Command → Spawned) :
    Command × Except String String :=
  let command := cfg.invocation
  (command, match run command with
  | .error e => .error ("failed to spawn " ++ debug cfg.command ++ ": " ++ e)
  | .ok output =>
    match output.failure with
    | some status =>
      let snippet := String.ofList ((lossy output.stderr.toList).take 512)
      .error (cfg.command ++ " exited with " ++ status ++ ": " ++ snippet)
    | none =>
      match String.fromUTF8? output.stdout with
      | some stdout => .ok stdout
      | none =>
        .error ("plugin " ++ cfg.command ++ " produced non-UTF-8 stdout: " ++ utf8Error output.stdout))

/-! ## The cache -/

/-- What does not change: `ExecCredentialCache` without its status, and how JSON is read. -/
structure ExecCredentialCache where
  cfg : ExecPluginConfig
  refreshBefore : Duration
  fromStr : String → Except String ExecCredential

/-- A call, and what becomes of a command that is run for it. -/
structure Call where
  now : SystemTime
  run : Command → Spawned

/-- What a call returns, the commands it runs, and what it leaves. -/
structure Got where
  result : Except String String
  ran : List Command
  current : Option ExecCredentialStatus

/-- `token_at`, which holds the lock from here to its end. -/
def tokenAt (cache : ExecCredentialCache) (current : Option ExecCredentialStatus) (call : Call) : Got :=
  match current.filter (·.isFresh call.now cache.refreshBefore) with
  | some status => ⟨.ok status.token, [], current⟩
  | none =>
    let (command, stdout) := commandRunner debug utf8Error cache.cfg call.run
    match stdout with
    | .error e => ⟨.error e, [command], current⟩
    | .ok stdout =>
      match cache.fromStr stdout with
      | .error e =>
        ⟨.error ("plugin " ++ cache.cfg.command ++ " returned malformed ExecCredential JSON: " ++ e),
          [command], current⟩
      | .ok cred =>
        if cred.kind ≠ "ExecCredential" then
          ⟨.error ("expected kind=ExecCredential, got " ++ debug cred.kind), [command], current⟩
        else if cred.status.token.isEmpty then
          ⟨.error "plugin returned empty token", [command], current⟩
        else ⟨.ok cred.status.token, [command], some cred.status⟩

/-- What the cache holds after these calls. -/
def after (cache : ExecCredentialCache) (calls : List Call) : Option ExecCredentialStatus :=
  exec (fun current call => (tokenAt debug utf8Error cache current call).current) none calls

/-! ## Runs -/

/-- Run as configured, the plugin succeeded and printed a credential with this status. -/
structure Printed (cache : ExecCredentialCache) (status : ExecCredentialStatus) (call : Call) : Prop where
  succeeds : ∃ output stdout, call.run cache.cfg.invocation = .ok output ∧ output.failure = none ∧
    String.fromUTF8? output.stdout = some stdout ∧
    ∃ version, cache.fromStr stdout = .ok ⟨version, "ExecCredential", status⟩
  nonempty : status.token ≠ ""

/-- The cache as a value that is renewed: a call runs the plugin. -/
def renewal (cache : ExecCredentialCache) : Renewal ExecCredentialStatus Call String where
  fresh status call := status.isFresh call.now cache.refreshBefore
  renew call :=
    let got := tokenAt debug utf8Error cache none call
    match got.result, got.current with
    | .error e, _ => .error e
    | .ok _, some status => .ok status
    | .ok _, none => .error ""

variable {debug utf8Error}

theorem tokenAt_served {cache : ExecCredentialCache} {call : Call} {status : ExecCredentialStatus}
    (hfresh : status.isFresh call.now cache.refreshBefore = true) :
    tokenAt debug utf8Error cache (some status) call = ⟨.ok status.token, [], some status⟩ := by
  unfold tokenAt
  rw [Option.filter_some, if_pos hfresh]

/-- A call with nothing in the cache fails, or takes what the plugin printed. -/
theorem tokenAt_none (cache : ExecCredentialCache) (call : Call) :
    (∃ e, tokenAt debug utf8Error cache none call = ⟨.error e, [cache.cfg.invocation], none⟩) ∨
      ∃ status, tokenAt debug utf8Error cache none call
          = ⟨.ok status.token, [cache.cfg.invocation], some status⟩ ∧
        Printed cache status call := by
  unfold tokenAt commandRunner
  rw [Option.filter_none]
  dsimp only
  cases hrun : call.run cache.cfg.invocation with
  | error e => exact .inl ⟨_, rfl⟩
  | ok output =>
      cases hfailure : output.failure with
      | some status =>
          simp only [hfailure]
          exact .inl ⟨_, rfl⟩
      | none =>
          simp only [hfailure]
          cases hutf8 : String.fromUTF8? output.stdout with
          | none => exact .inl ⟨_, rfl⟩
          | some stdout =>
              dsimp only
              cases hjson : cache.fromStr stdout with
              | error e => exact .inl ⟨_, rfl⟩
              | ok cred =>
                  obtain ⟨version, kind, status⟩ := cred
                  dsimp only
                  by_cases hkind : kind = "ExecCredential"
                  · subst hkind
                    rw [if_neg (by simp)]
                    by_cases hempty : status.token.isEmpty = true
                    · rw [if_pos hempty]
                      exact .inl ⟨_, rfl⟩
                    · rw [if_neg hempty]
                      refine .inr ⟨status, rfl, ⟨output, stdout, hrun, hfailure, hutf8, version, hjson⟩, ?_⟩
                      simpa using hempty
                  · rw [if_pos hkind]
                    exact .inl ⟨_, rfl⟩

/-- A call that is not served does what a call with nothing in the cache does, except that a
failure leaves what was there. -/
theorem tokenAt_stale {cache : ExecCredentialCache} {current : Option ExecCredentialStatus} {call : Call}
    (hstale : ∀ s ∈ current, s.isFresh call.now cache.refreshBefore = false) :
    tokenAt debug utf8Error cache current call =
      match (tokenAt debug utf8Error cache none call).result with
      | .error e => ⟨.error e, [cache.cfg.invocation], current⟩
      | .ok token =>
        ⟨.ok token, [cache.cfg.invocation], (tokenAt debug utf8Error cache none call).current⟩ := by
  have hfilter : current.filter (·.isFresh call.now cache.refreshBefore) = none :=
    Option.filter_eq_none_iff.mpr fun s hs => by simp [hstale s hs]
  unfold tokenAt
  rw [hfilter, Option.filter_none]
  dsimp only
  have hcommand : (commandRunner debug utf8Error cache.cfg call.run).1 = cache.cfg.invocation := rfl
  rw [hcommand]
  cases (commandRunner debug utf8Error cache.cfg call.run).2 with
  | error e => rfl
  | ok stdout =>
      dsimp only
      cases cache.fromStr stdout with
      | error e => rfl
      | ok cred =>
          dsimp only
          split
          · rfl
          · split <;> rfl

theorem printed_of_renew {cache : ExecCredentialCache} {call : Call} {status : ExecCredentialStatus}
    (h : (renewal debug utf8Error cache).renew call = .ok status) : Printed cache status call := by
  unfold renewal at h
  dsimp only at h
  rcases @tokenAt_none debug utf8Error cache call with ⟨e, heq⟩ | ⟨status', heq, hprinted⟩
  · rw [heq] at h
    cases h
  · rw [heq] at h
    obtain rfl := Except.ok.inj h
    exact hprinted

/-- The cache holds what a renewed value holds, and returns its token. -/
theorem tokenAt_get (cache : ExecCredentialCache) (current : Option ExecCredentialStatus) (call : Call) :
    ((tokenAt debug utf8Error cache current call).result,
      (tokenAt debug utf8Error cache current call).current) =
        (((renewal debug utf8Error cache).get current call).1.map ExecCredentialStatus.token,
          ((renewal debug utf8Error cache).get current call).2) := by
  rcases Renewal.served_or_stale (renewal debug utf8Error cache) current call with
    ⟨status, rfl, hfresh⟩ | hstale
  · rw [Renewal.get_served rfl hfresh, tokenAt_served hfresh]
    rfl
  · rw [Renewal.get_renewed hstale, tokenAt_stale hstale]
    unfold renewal
    dsimp only
    rcases @tokenAt_none debug utf8Error cache call with ⟨e, heq⟩ | ⟨status, heq, -⟩
    · rw [heq]
      rfl
    · rw [heq]
      rfl

theorem after_eq (cache : ExecCredentialCache) (calls : List Call) :
    after debug utf8Error cache calls = (renewal debug utf8Error cache).heldAfter calls := by
  unfold after Renewal.heldAfter
  congr 1
  funext current call
  exact congrArg Prod.snd (tokenAt_get cache current call)

/-- What holds of a call after these calls. -/
structure Sound (cache : ExecCredentialCache) (calls : List Call) (call : Call)
    (current : Option ExecCredentialStatus) (got : Got) : Prop where
  /-- A fresh token is served, and the plugin is not run for it. -/
  serves : ∀ status, current = some status →
    status.isFresh call.now cache.refreshBefore = true → got = ⟨.ok status.token, [], current⟩
  /-- Without one the plugin is run once, as configured. -/
  runs : (∀ status ∈ current, status.isFresh call.now cache.refreshBefore = false) →
    got.ran = [⟨cache.cfg.command, cache.cfg.args, cache.cfg.env⟩]
  /-- A token is not empty; it is fresh and an earlier call's, or it was just printed. -/
  returns : ∀ token, got.result = .ok token → ∃ status, token = status.token ∧ token ≠ "" ∧
    got.current = some status ∧
      ((status.isFresh call.now cache.refreshBefore = true ∧ ∃ c ∈ calls, Printed cache status c) ∨
        Printed cache status call)
  keeps : ∀ e, got.result = .error e → got.current = current
  /-- A status without an expiry serves no call. -/
  unexpiring : (∀ status ∈ current, status.expirationTimestamp = none) → got.ran ≠ []

theorem tokenAt_runs {cache : ExecCredentialCache} {current : Option ExecCredentialStatus} {call : Call}
    (hstale : ∀ status ∈ current, status.isFresh call.now cache.refreshBefore = false) :
    (tokenAt debug utf8Error cache current call).ran = [cache.cfg.invocation] := by
  rw [tokenAt_stale hstale]
  split <;> rfl

theorem isFresh_of_no_expiry {status : ExecCredentialStatus} (h : status.expirationTimestamp = none)
    (now : SystemTime) (refreshBefore : Duration) : status.isFresh now refreshBefore = false := by
  unfold ExecCredentialStatus.isFresh
  rw [h]

/-- **Over any run of calls**, a fresh token is served without a run, any other call runs the plugin
once, and failures keep what is held. -/
theorem execTokens_sound (cache : ExecCredentialCache) (calls : List Call) (call : Call) :
    Sound cache calls call (after debug utf8Error cache calls)
      (tokenAt debug utf8Error cache (after debug utf8Error cache calls) call) := by
  have hget := @tokenAt_get debug utf8Error cache (after debug utf8Error cache calls) call
  rw [after_eq] at hget
  obtain ⟨hresult, hcurrent⟩ := Prod.mk.inj hget
  rw [after_eq]
  refine ⟨fun status hheld hfresh => ?_, tokenAt_runs, fun token h => ?_, fun e h => ?_, fun h => ?_⟩
  · rw [hheld]
    exact tokenAt_served hfresh
  · rw [hresult] at h
    cases hval : ((renewal debug utf8Error cache).get
      ((renewal debug utf8Error cache).heldAfter calls) call).1 with
    | error e =>
        rw [hval] at h
        cases h
    | ok status =>
        rw [hval] at h
        obtain rfl := Except.ok.inj h
        obtain ⟨hheld, ⟨hbefore, hfresh⟩ | ⟨hrenew, -⟩⟩ := Renewal.get_ok hval
        · obtain ⟨before, c, since, rfl, ho⟩ := Renewal.heldAfter_origin hbefore
          have hprinted := printed_of_renew ho.renew
          exact ⟨status, rfl, hprinted.nonempty, hcurrent.trans hheld,
            .inl ⟨hfresh, c, by simp, hprinted⟩⟩
        · have hprinted := printed_of_renew hrenew
          exact ⟨status, rfl, hprinted.nonempty, hcurrent.trans hheld, .inr hprinted⟩
  · rw [hresult] at h
    cases hval : ((renewal debug utf8Error cache).get
      ((renewal debug utf8Error cache).heldAfter calls) call).1 with
    | ok status =>
        rw [hval] at h
        cases h
    | error e' => exact hcurrent.trans (Renewal.get_error hval).1
  · rw [tokenAt_runs fun status hs => isFresh_of_no_expiry (h status hs) _ _]
    exact List.cons_ne_nil _ _

end

end SynchrotronCD.Exec
