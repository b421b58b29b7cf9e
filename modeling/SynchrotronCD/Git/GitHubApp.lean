import Mathlib.Data.List.DropRight
import SynchrotronCD.Kube.Oidc
import SynchrotronCD.Lib.Renewal

/-!
# GitHub App tokens

A cache presents a short-lived JWT to GitHub and keeps the installation token it gets
for it until shortly before that expires. The exchange tries again where the answer is
a passing failure, and waits between the attempts, twice as long each time.

Over any run of calls, a fresh token is served and nothing is sent; any other call sends
its request, signed for the time of the call, a bounded number of times and again only
after failures that pass, and returns what it was issued (`installationTokens_sound`).
-/

namespace SynchrotronCD.GitHubApp

open Lib
open Oidc (Answer isSuccess take)

structure GitHubAppConfig where
  appId : UInt64
  installationId : UInt64
  privateKeyPem : List UInt8
  apiBase : String
deriving DecidableEq, Repr

def GitHubAppConfig.tokenUrl (cfg : GitHubAppConfig) : String :=
  String.ofList (cfg.apiBase.toList.rdropWhile (· == '/')) ++ "/app/installations/"
    ++ toString cfg.installationId ++ "/access_tokens"

structure InstallationToken where
  token : String
  expiresAt : SystemTime
deriving DecidableEq, Repr

def InstallationToken.isFresh (t : InstallationToken) (now : SystemTime) (refreshBefore : Duration) :
    Bool :=
  match t.expiresAt.checkedSub refreshBefore with
  | some deadline => now < deadline
  | none => false

/-! ## The JWT -/

structure Claims where
  iat : Int64
  exp : Int64
  iss : String
deriving DecidableEq, Repr

/-- Reading a private key, and signing with it. -/
structure Signer where
  Key : Type
  fromRsaPem : List UInt8 → Except String Key
  encode : Claims → Key → Except String String

/-- A minute back and nine minutes ahead; the sums wrap around. -/
def claims (cfg : GitHubAppConfig) (nowSecs : Int64) : Claims :=
  ⟨nowSecs - 60, nowSecs + 9 * 60, toString cfg.appId⟩

def mintJwt (signer : Signer) (cfg : GitHubAppConfig) (now : SystemTime) : Except String String :=
  if now.nanos < 0 then
    .error "system clock before UNIX epoch: second time provided was later than self"
  else
    let nowSecs := Int64.ofInt (now.nanos / NANOS_PER_SEC)
    match signer.fromRsaPem cfg.privateKeyPem with
    | .error e => .error ("invalid GitHub App private key: " ++ e)
    | .ok key =>
      match signer.encode (claims cfg nowSecs) key with
      | .error e => .error ("JWT signing failed: " ++ e)
      | .ok jwt => .ok jwt

/-! ## The exchange -/

structure ReqwestFetcherConfig where
  requestTimeout : Duration
  maxAttempts : UInt32
  backoffBase : Duration
  userAgent : String
deriving DecidableEq, Repr

structure TokenResponse where
  token : String
  expiresAt : String
deriving DecidableEq, Repr

structure TokenRequest where
  url : String
  bearerAuth : String
  headers : List (String × String)
deriving DecidableEq, Repr

def tokenRequest (config : ReqwestFetcherConfig) (jwt url : String) : TokenRequest :=
  { url
    bearerAuth := jwt
    headers := [("Accept", "application/vnd.github+json"), ("User-Agent", config.userAgent),
      ("X-GitHub-Api-Version", "2022-11-28")] }

/-- The loop's variables, with the requests sent and the sleeps between them. -/
structure Exchanging where
  delay : Duration
  lastErr : Option String
  requests : List TokenRequest
  sleeps : List Duration

/-- How an exchange ended, and what it sent and slept. -/
structure Exchanged where
  result : Except String InstallationToken
  requests : List TokenRequest
  sleeps : List Duration

section

-- how a status is printed, and how a time is read
variable (display : UInt16 → String) (rfc3339 : String → Except String SystemTime)

def parseRfc3339 (s : String) : Except String SystemTime :=
  match rfc3339 s with
  | .ok t => .ok t
  | .error e => .error ("github expires_at not RFC3339 (`" ++ s ++ "`): " ++ e)

/-- After a failure that can pass: sleep, unless it was the last attempt. -/
def retry (config : ReqwestFetcherConfig) (attempt : Nat) (err : String) (p : Exchanging) :
    Exchanging :=
  let p := { p with lastErr := some err }
  if attempt = config.maxAttempts.toNat then p
  else { p with delay := p.delay.saturatingMul 2, sleeps := p.sleeps ++ [p.delay] }

/-- One attempt of `exchange`. -/
def exchangeOnce (config : ReqwestFetcherConfig) (request : TokenRequest)
    (answer : Nat → Answer TokenResponse) (attempt : Nat) (p : Exchanging) :
    Flow Exchanging Exchanged :=
  let p := { p with requests := p.requests ++ [request] }
  match answer attempt with
  | .http status body json =>
    if isSuccess status then
      match json with
      | .error e =>
        .ret ⟨.error ("failed to parse GitHub token response: " ++ e), p.requests, p.sleeps⟩
      | .ok resp =>
        match parseRfc3339 rfc3339 resp.expiresAt with
        | .error e => .ret ⟨.error e, p.requests, p.sleeps⟩
        | .ok expiresAt => .ret ⟨.ok ⟨resp.token, expiresAt⟩, p.requests, p.sleeps⟩
    else
      let snippet := take 512 body
      if Oidc.isRetryableStatus status then
        .next (retry config attempt ("HTTP " ++ display status ++ ": " ++ snippet) p)
      else
        .ret ⟨.error ("github installation-token request failed: HTTP " ++ display status ++ ": "
          ++ snippet), p.requests, p.sleeps⟩
  | .failed e => .next (retry config attempt e p)

def exchange (config : ReqwestFetcherConfig) (jwt url : String)
    (answer : Nat → Answer TokenResponse) : Exchanged :=
  match forRange (exchangeOnce display rfc3339 config (tokenRequest config jwt url) answer) 1
    config.maxAttempts.toNat ⟨config.backoffBase, none, [], []⟩ with
  | .ret r => r
  | .next p =>
    ⟨.error ("github installation-token request gave up after " ++ toString config.maxAttempts
      ++ " attempts: " ++ p.lastErr.getD "no error captured"), p.requests, p.sleeps⟩

/-! ## The cache -/

/-- What does not change: `TokenCache` without its token, and its fetcher. -/
structure TokenCache where
  cfg : GitHubAppConfig
  signer : Signer
  fetcher : ReqwestFetcherConfig
  refreshBefore : Duration

/-- A call of `get_at`, with what its exchange meets if there is one. -/
structure Call where
  now : SystemTime
  answer : Nat → Answer TokenResponse

/-- What a call returns and sends, and what it leaves in the cache. -/
structure Got extends Exchanged where
  current : Option InstallationToken

/-- `get_at`, which holds the lock from here to its end. -/
def getAt (cache : TokenCache) (current : Option InstallationToken) (call : Call) : Got :=
  match current.filter (·.isFresh call.now cache.refreshBefore) with
  | some tok => ⟨⟨.ok tok, [], []⟩, current⟩
  | none =>
    match mintJwt cache.signer cache.cfg call.now with
    | .error e => ⟨⟨.error e, [], []⟩, current⟩
    | .ok jwt =>
      let done := exchange display rfc3339 cache.fetcher jwt cache.cfg.tokenUrl call.answer
      match done.result with
      | .error _ => ⟨done, current⟩
      | .ok token => ⟨done, some token⟩

/-- What the cache holds after these calls. -/
def after (cache : TokenCache) (calls : List Call) : Option InstallationToken :=
  exec (fun current call => (getAt display rfc3339 cache current call).current) none calls

/-! ## One exchange -/

/-- The token in an answer. -/
def issuedBy : Answer TokenResponse → Option InstallationToken
  | .http status _ (.ok resp) =>
    if isSuccess status then
      (parseRfc3339 rfc3339 resp.expiresAt).toOption.map fun expiresAt => ⟨resp.token, expiresAt⟩
    else none
  | .http _ _ (.error _) | .failed _ => none

/-- The requests of an exchange and the sleeps between them. -/
structure Sent (config : ReqwestFetcherConfig) (request : TokenRequest)
    (answer : Nat → Answer TokenResponse) (done : Exchanged) : Prop where
  same : ∀ r ∈ done.requests, r = request
  sent : 0 < config.maxAttempts.toNat → done.requests ≠ []
  bounded : done.requests.length ≤ config.maxAttempts.toNat
  /-- It was sent again only after a failure that can pass. -/
  retried : ∀ j, 1 ≤ j → j < done.requests.length → (answer j).retryable = true
  /-- It was not sent again only after something else, or after the last attempt. -/
  stops : done.requests.length < config.maxAttempts.toNat →
    (answer done.requests.length).retryable = false
  slept : done.sleeps.map Duration.nanos
    = (List.range (done.requests.length - 1)).map (doubled config.backoffBase.nanos Duration.MAX.nanos)

variable {display rfc3339}

/-- The loop before an attempt: everything sent so far has failed. -/
structure Before (config : ReqwestFetcherConfig) (request : TokenRequest) (attempt : Nat)
    (p : Exchanging) : Prop where
  requests : p.requests = List.replicate (attempt - 1) request
  delay : attempt ≤ config.maxAttempts.toNat →
    p.delay.nanos = doubled config.backoffBase.nanos Duration.MAX.nanos (attempt - 1)
  -- no sleep follows the last attempt
  sleeps : p.sleeps.map Duration.nanos = (List.range (min (attempt - 1) (config.maxAttempts.toNat - 1))).map
    (doubled config.backoffBase.nanos Duration.MAX.nanos)

theorem retry_before {config : ReqwestFetcherConfig} {request : TokenRequest} {attempt : Nat}
    {p : Exchanging} (hpos : 1 ≤ attempt) (hle : attempt ≤ config.maxAttempts.toNat) (err : String)
    (h : Before config request attempt p) :
    Before config request (attempt + 1)
      (retry config attempt err { p with requests := p.requests ++ [request] }) := by
  obtain ⟨n, rfl⟩ := Nat.exists_eq_add_of_le' hpos
  have hrequests : p.requests ++ [request] = List.replicate (n + 1) request := by
    rw [h.requests, Nat.add_sub_cancel, ← List.replicate_succ']
  have hsleeps := h.sleeps
  rw [Nat.add_sub_cancel, Nat.min_eq_left (by omega)] at hsleeps
  unfold retry
  dsimp only
  by_cases hlast : n + 1 = config.maxAttempts.toNat
  · rw [if_pos hlast]
    refine ⟨hrequests, fun hlt => absurd hlt (by omega), ?_⟩
    rw [hsleeps, Nat.min_eq_right (by omega), ← hlast, Nat.add_sub_cancel]
  · rw [if_neg hlast]
    have hdelay := h.delay hle
    refine ⟨hrequests, fun _ => ?_, ?_⟩
    · show (p.delay.saturatingMul 2).nanos = doubled _ _ (n + 1)
      rw [Duration.nanos_saturatingMul, hdelay]
      rfl
    · show (p.sleeps ++ [p.delay]).map Duration.nanos = _
      rw [List.map_append, List.map_singleton, hsleeps, hdelay, Nat.min_eq_left (by omega)]
      simp only [Nat.add_sub_cancel]
      rw [List.range_succ, List.map_append, List.map_singleton]

theorem exchangeOnce_next {config : ReqwestFetcherConfig} {request : TokenRequest}
    {answer : Nat → Answer TokenResponse} {attempt : Nat} {p : Exchanging}
    (h : (answer attempt).retryable = true) :
    ∃ err, exchangeOnce display rfc3339 config request answer attempt p
      = .next (retry config attempt err { p with requests := p.requests ++ [request] }) := by
  unfold exchangeOnce
  cases hanswer : answer attempt with
  | failed e => exact ⟨_, rfl⟩
  | http status body json =>
      rw [hanswer] at h
      obtain ⟨hsuccess, hretry⟩ := Bool.and_eq_true_iff.mp h
      dsimp only
      rw [if_neg (by simpa using hsuccess), if_pos hretry]
      exact ⟨_, rfl⟩

theorem exchangeOnce_ret {config : ReqwestFetcherConfig} {request : TokenRequest}
    {answer : Nat → Answer TokenResponse} {attempt : Nat} {p : Exchanging}
    (h : (answer attempt).retryable = false) :
    ∃ r : Exchanged, exchangeOnce display rfc3339 config request answer attempt p = .ret r ∧
      r.requests = p.requests ++ [request] ∧ r.sleeps = p.sleeps ∧
      r.result.toOption = issuedBy rfc3339 (answer attempt) := by
  unfold exchangeOnce
  cases hanswer : answer attempt with
  | failed e => rw [hanswer] at h; cases h
  | http status body json =>
      rw [hanswer] at h
      dsimp only
      by_cases hsuccess : isSuccess status = true
      · rw [if_pos hsuccess]
        cases json with
        | error e => exact ⟨_, rfl, rfl, rfl, rfl⟩
        | ok resp =>
            dsimp only [issuedBy]
            rw [if_pos hsuccess]
            cases hparse : parseRfc3339 rfc3339 resp.expiresAt with
            | error e => exact ⟨_, rfl, rfl, rfl, rfl⟩
            | ok expiresAt => exact ⟨_, rfl, rfl, rfl, rfl⟩
      · have hretry : Oidc.isRetryableStatus status = false := by
          simpa [Answer.retryable, hsuccess] using h
        rw [if_neg hsuccess, if_neg (by simp [hretry])]
        refine ⟨_, rfl, rfl, rfl, ?_⟩
        cases json with
        | ok resp => exact (if_neg hsuccess).symm
        | error e => rfl

/-- **An exchange** sends its request until an answer is not a passing failure, and returns what
is in the last answer. -/
theorem exchange_spec (config : ReqwestFetcherConfig) (jwt url : String)
    (answer : Nat → Answer TokenResponse) :
    Sent config (tokenRequest config jwt url) answer
        (exchange display rfc3339 config jwt url answer) ∧
      ∀ token, (exchange display rfc3339 config jwt url answer).result = .ok token →
        1 ≤ (exchange display rfc3339 config jwt url answer).requests.length ∧
          issuedBy rfc3339 (answer (exchange display rfc3339 config jwt url answer).requests.length)
            = some token := by
  have hloop := @forRange_rule _ _
    (exchangeOnce display rfc3339 config (tokenRequest config jwt url) answer)
    (fun attempt => !(answer attempt).retryable)
    (Before config (tokenRequest config jwt url))
    (fun attempt r => r.requests = List.replicate attempt (tokenRequest config jwt url) ∧
      r.sleeps.map Duration.nanos = (List.range (attempt - 1)).map
        (doubled config.backoffBase.nanos Duration.MAX.nanos) ∧
      r.result.toOption = issuedBy rfc3339 (answer attempt))
    1 config.maxAttempts.toNat ⟨config.backoffBase, none, [], []⟩ ?_ ?_ ⟨rfl, fun _ => rfl, by simp⟩
  · unfold exchange
    rcases hloop with ⟨i, r, hfirst, hr, hrequests, hsleeps, hresult⟩ | ⟨p, hfirst, hp, hbefore⟩
    · obtain ⟨hend, hrange, hfail⟩ := firstEnd_eq_some.mp hfirst
      have hlen : r.requests.length = i := by rw [hrequests, List.length_replicate]
      rw [hr]
      dsimp only
      refine ⟨⟨fun x hx => ?_, fun _ => ?_, by omega, ?_, fun _ => ?_, ?_⟩,
        fun token htoken => ⟨by omega, ?_⟩⟩
      · rw [hrequests] at hx
        exact List.eq_of_mem_replicate hx
      · exact List.ne_nil_of_length_pos (by omega)
      · rw [hlen]
        exact fun j hj hji => by simpa using hfail j hj hji
      · rw [hlen]
        simpa using hend
      · rw [hlen, hsleeps]
      · rw [hlen, ← hresult, htoken]
        rfl
    · have hall := firstEnd_eq_none.mp hfirst
      have hlen : p.requests.length = config.maxAttempts.toNat := by
        rw [hbefore.requests, List.length_replicate]
        omega
      rw [hp]
      dsimp only
      refine ⟨⟨fun x hx => ?_, fun hpos => ?_, Nat.le_of_eq hlen, ?_,
        fun hlt => absurd hlen (Nat.ne_of_lt hlt), ?_⟩, fun token htoken => ?_⟩
      · rw [hbefore.requests] at hx
        exact List.eq_of_mem_replicate hx
      · exact List.ne_nil_of_length_pos (hlen ▸ hpos)
      · rw [hlen]
        exact fun j hj hji => by simpa using hall j hj (Nat.lt_add_left 1 hji)
      · rw [hlen, hbefore.sleeps, Nat.min_eq_right (by omega)]
      · cases htoken
  · intro i p hpos hlt hends hp
    obtain ⟨err, hbody⟩ := @exchangeOnce_next display rfc3339 config (tokenRequest config jwt url) answer
      i p (by simpa using hends)
    exact ⟨_, hbody, retry_before hpos (by omega) err hp⟩
  · intro i p hpos hlt hends hp
    obtain ⟨r, hbody, hrequests, hsleeps, hresult⟩ := @exchangeOnce_ret display rfc3339 config
      (tokenRequest config jwt url) answer i p (by simpa using hends)
    refine ⟨r, hbody, ?_, ?_, hresult⟩
    · rw [hrequests, hp.requests, ← List.replicate_succ']
      congr 1
      omega
    · rw [hsleeps, hp.sleeps, Nat.min_eq_left (by omega)]

/-! ## Runs -/

variable (display rfc3339) in
/-- The cache as a value that is renewed: a call signs for its time and exchanges. -/
def renewal (cache : TokenCache) : Renewal InstallationToken Call String where
  fresh token call := token.isFresh call.now cache.refreshBefore
  renew call :=
    match mintJwt cache.signer cache.cfg call.now with
    | .error e => .error e
    | .ok jwt => (exchange display rfc3339 cache.fetcher jwt cache.cfg.tokenUrl call.answer).result

theorem getAt_get (cache : TokenCache) (current : Option InstallationToken) (call : Call) :
    ((getAt display rfc3339 cache current call).result,
      (getAt display rfc3339 cache current call).current)
        = (renewal display rfc3339 cache).get current call := by
  unfold getAt Renewal.get renewal
  dsimp only
  cases current.filter (·.isFresh call.now cache.refreshBefore) with
  | some tok => rfl
  | none =>
      cases mintJwt cache.signer cache.cfg call.now with
      | error e => rfl
      | ok jwt =>
          dsimp only
          cases hresult : (exchange display rfc3339 cache.fetcher jwt cache.cfg.tokenUrl
            call.answer).result with
          | error e => simp only [hresult]
          | ok token => simp only [hresult]

theorem after_eq (cache : TokenCache) (calls : List Call) :
    after display rfc3339 cache calls = (renewal display rfc3339 cache).heldAfter calls := by
  unfold after Renewal.heldAfter
  congr 1
  funext current call
  exact congrArg Prod.snd (getAt_get cache current call)

variable (rfc3339) in
/-- GitHub issued the token to this call: it is in the last answer of an exchange whose JWT was
signed for the time of the call. -/
structure IssuedTo (cache : TokenCache) (token : InstallationToken) (call : Call) : Prop where
  signed : ∃ jwt, mintJwt cache.signer cache.cfg call.now = .ok jwt
  answered : ∃ n, 1 ≤ n ∧ n ≤ cache.fetcher.maxAttempts.toNat ∧
    issuedBy rfc3339 (call.answer n) = some token ∧
    ∀ j, 1 ≤ j → j < n → (call.answer j).retryable = true

theorem issuedTo_of_renew {cache : TokenCache} {call : Call} {token : InstallationToken}
    (h : (renewal display rfc3339 cache).renew call = .ok token) :
    IssuedTo rfc3339 cache token call := by
  unfold renewal at h
  dsimp only at h
  cases hjwt : mintJwt cache.signer cache.cfg call.now with
  | error e =>
      rw [hjwt] at h
      cases h
  | ok jwt =>
      rw [hjwt] at h
      obtain ⟨hsent, hok⟩ := @exchange_spec display rfc3339 cache.fetcher jwt cache.cfg.tokenUrl
        call.answer
      obtain ⟨hpos, hissued⟩ := hok token h
      exact ⟨⟨jwt, hjwt⟩, _, hpos, hsent.bounded, hissued, hsent.retried⟩

variable (rfc3339) in
/-- What holds of a call after these calls. -/
structure Sound (cache : TokenCache) (calls : List Call) (call : Call)
    (current : Option InstallationToken) (got : Got) : Prop where
  /-- A fresh token is served, and nothing is sent for it. -/
  serves : ∀ token, current = some token →
    token.isFresh call.now cache.refreshBefore = true → got = ⟨⟨.ok token, [], []⟩, current⟩
  /-- What is returned is fresh and was issued to an earlier call, or is issued to this one. -/
  returns : ∀ token, got.result = .ok token → got.current = some token ∧
    ((token.isFresh call.now cache.refreshBefore = true ∧ got.requests = [] ∧
        ∃ c ∈ calls, IssuedTo rfc3339 cache token c) ∨
      IssuedTo rfc3339 cache token call)
  /-- A failure costs nothing: the token is kept. -/
  keeps : ∀ e, got.result = .error e → got.current = current
  /-- Without a fresh token, one request with a JWT for this time is sent again and again; or there
  is no such JWT, and nothing is sent. -/
  sends : (∀ token ∈ current, token.isFresh call.now cache.refreshBefore = false) →
    (∃ jwt, mintJwt cache.signer cache.cfg call.now = .ok jwt ∧
      Sent cache.fetcher (tokenRequest cache.fetcher jwt cache.cfg.tokenUrl) call.answer
        got.toExchanged) ∨
    ∃ e, mintJwt cache.signer cache.cfg call.now = .error e ∧ got.toExchanged = ⟨.error e, [], []⟩

theorem getAt_sends {cache : TokenCache} {current : Option InstallationToken} {call : Call}
    (hstale : ∀ token ∈ current, token.isFresh call.now cache.refreshBefore = false) :
    (∃ jwt, mintJwt cache.signer cache.cfg call.now = .ok jwt ∧
      Sent cache.fetcher (tokenRequest cache.fetcher jwt cache.cfg.tokenUrl) call.answer
        (getAt display rfc3339 cache current call).toExchanged) ∨
    ∃ e, mintJwt cache.signer cache.cfg call.now = .error e ∧
      (getAt display rfc3339 cache current call).toExchanged = ⟨.error e, [], []⟩ := by
  have hfilter : current.filter (·.isFresh call.now cache.refreshBefore) = none :=
    Option.filter_eq_none_iff.mpr fun token htoken => by simp [hstale token htoken]
  unfold getAt
  rw [hfilter]
  cases hjwt : mintJwt cache.signer cache.cfg call.now with
  | error e => exact .inr ⟨e, rfl, rfl⟩
  | ok jwt =>
      obtain ⟨hsent, -⟩ := @exchange_spec display rfc3339 cache.fetcher jwt cache.cfg.tokenUrl
        call.answer
      refine .inl ⟨jwt, rfl, ?_⟩
      dsimp only
      split <;> exact hsent

theorem getAt_served {cache : TokenCache} {current : Option InstallationToken} {call : Call}
    {token : InstallationToken} (hcurrent : current = some token)
    (hfresh : token.isFresh call.now cache.refreshBefore = true) :
    getAt display rfc3339 cache current call = ⟨⟨.ok token, [], []⟩, current⟩ := by
  subst hcurrent
  unfold getAt
  rw [Option.filter_some, if_pos hfresh]

/-- **Over any run of calls**, a fresh token is served without a request, any other call sends one,
and failures keep the token. -/
theorem installationTokens_sound (cache : TokenCache) (calls : List Call) (call : Call) :
    Sound rfc3339 cache calls call (after display rfc3339 cache calls)
      (getAt display rfc3339 cache (after display rfc3339 cache calls) call) := by
  have hget := @getAt_get display rfc3339 cache (after display rfc3339 cache calls) call
  rw [after_eq] at hget
  obtain ⟨hresult, hcurrent⟩ := Prod.mk.inj hget
  rw [after_eq]
  refine ⟨fun token => getAt_served, fun token h => ?_, fun e h => ?_, getAt_sends⟩
  · rw [hresult] at h
    obtain ⟨hheld, ⟨hbefore, hfresh⟩ | ⟨hrenew, -⟩⟩ := Renewal.get_ok h
    · obtain ⟨before, c, since, rfl, ho⟩ := Renewal.heldAfter_origin hbefore
      exact ⟨hcurrent.trans hheld, .inl ⟨hfresh, by rw [getAt_served hbefore hfresh], c, by simp,
        issuedTo_of_renew ho.renew⟩⟩
    · exact ⟨hcurrent.trans hheld, .inr (issuedTo_of_renew hrenew)⟩
  · rw [hresult] at h
    exact hcurrent.trans (Renewal.get_error h).1

end

end SynchrotronCD.GitHubApp
