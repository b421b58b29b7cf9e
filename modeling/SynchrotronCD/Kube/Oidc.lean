import SynchrotronCD.Lib.Assoc
import SynchrotronCD.Lib.Attempts
import SynchrotronCD.Lib.Durations
import SynchrotronCD.Lib.Runs

/-!
# OIDC tokens

A cache holds a token and renews it before it expires: it presents the refresh token
to the issuer, tries again where the issuer's answer is a passing failure, and keeps
what it gets, with the refresh token that the issuer put in place of the old one.

The lifetime of a token is the issuer's choice, and is added to the time without a
check. Runs keep to everything else, and panic only where a token would outlast the
clock (`tokens_sound_iff`).
-/

namespace SynchrotronCD.Oidc

open Lib

structure OidcConfig where
  issuerUrl : String
  clientId : String
  clientSecret : Option String
deriving DecidableEq, Repr

structure OidcToken where
  idToken : String
  refreshToken : String
  expiresAt : SystemTime
deriving DecidableEq, Repr

def OidcToken.isFresh (t : OidcToken) (now : SystemTime) (refreshBefore : Duration) : Bool :=
  match t.expiresAt.checkedSub refreshBefore with
  | some deadline => now < deadline
  | none => false

/-! ## The exchange -/

structure ReqwestRefresherConfig where
  requestTimeout : Duration
  maxAttempts : UInt32
  backoffBase : Duration
  userAgent : String
deriving DecidableEq, Repr

structure TokenResponse where
  idToken : Option String
  accessToken : Option String
  refreshToken : Option String
  expiresIn : Option UInt64
deriving DecidableEq, Repr

/-- What a request gives: an error of the transport, or a status, a body and what the body is
read as. -/
inductive Answer (α : Type) where
  | failed (e : String)
  | http (status : UInt16) (body : String) (json : Except String α)

/-- What a request to the token endpoint sends. -/
structure TokenRequest where
  endpoint : String
  headers : List (String × String)
  form : List (String × String)
deriving DecidableEq, Repr

def isSuccess (status : UInt16) : Bool := 200 ≤ status && status < 300

def isRetryableStatus (status : UInt16) : Bool := (500 ≤ status && status < 600) || status == 429

def take (n : Nat) (s : String) : String := String.ofList (s.toList.take n)

/-- The refresh tokens that a form presents. -/
def TokenRequest.presented (r : TokenRequest) : List String :=
  (r.form.filter fun field => field.1 == "refresh_token").map Prod.snd

/-- The loop's variables, with the requests sent and the sleeps between them. -/
structure Posting where
  delay : Duration
  lastErr : Option String
  requests : List TokenRequest
  sleeps : List Duration

section

-- how a status is printed
variable (display : UInt16 → String)

def tokenRequest (config : ReqwestRefresherConfig) (cfg : OidcConfig) (endpoint currentRefresh : String) :
    TokenRequest :=
  let secret := match cfg.clientSecret with
    | some secret => [("client_secret", secret)]
    | none => []
  { endpoint
    headers := [("User-Agent", config.userAgent), ("Accept", "application/json")]
    form := [("grant_type", "refresh_token"), ("refresh_token", currentRefresh),
      ("client_id", cfg.clientId)] ++ secret }

/-- After a failure that can pass: sleep, unless it was the last attempt. -/
def retry (config : ReqwestRefresherConfig) (attempt : Nat) (err : String) (p : Posting) : Posting :=
  let p := { p with lastErr := some err }
  if attempt = config.maxAttempts.toNat then p
  else { p with delay := p.delay.saturatingMul 2, sleeps := p.sleeps ++ [p.delay] }

/-- One attempt of `post_with_retry`. -/
def postOnce (config : ReqwestRefresherConfig) (request : TokenRequest)
    (answer : Nat → Answer TokenResponse) (attempt : Nat) (p : Posting) :
    Flow Posting (Except String TokenResponse × List TokenRequest) :=
  let p := { p with requests := p.requests ++ [request] }
  match answer attempt with
  | .http status body json =>
    if isSuccess status then
      match json with
      | .ok resp => .ret (.ok resp, p.requests)
      | .error e => .ret (.error ("OIDC token response not JSON: " ++ e), p.requests)
    else
      let snippet := take 512 body
      if isRetryableStatus status then
        .next (retry config attempt ("HTTP " ++ display status ++ ": " ++ snippet) p)
      else
        .ret (.error ("OIDC token endpoint returned HTTP " ++ display status ++ ": " ++ snippet),
          p.requests)
  | .failed e => .next (retry config attempt e p)

def postWithRetry (config : ReqwestRefresherConfig) (request : TokenRequest)
    (answer : Nat → Answer TokenResponse) : Except String TokenResponse × List TokenRequest :=
  match forRange (postOnce display config request answer) 1 config.maxAttempts.toNat
    ⟨config.backoffBase, none, [], []⟩ with
  | .ret r => r
  | .next p =>
    (.error ("OIDC token endpoint gave up after " ++ toString config.maxAttempts ++ " attempts: "
      ++ p.lastErr.getD "no error captured"), p.requests)

/-- `token_endpoint`, with what the issuer's discovery document gives. -/
def tokenEndpoint (discovery : HashMap String String) (issuer : String) (answer : Answer String) :
    Except String String × HashMap String String :=
  match discovery.lookup issuer with
  | some cached => (.ok cached, discovery)
  | none =>
    let url := String.ofList (issuer.toList.reverse.dropWhile (· == '/')).reverse
      ++ "/.well-known/openid-configuration"
    match answer with
    | .failed e => (.error ("OIDC discovery GET " ++ url ++ " failed: " ++ e), discovery)
    | .http status body json =>
      if isSuccess status then
        match json with
        | .error e => (.error ("OIDC discovery body not JSON/missing token_endpoint: " ++ e), discovery)
        | .ok endpoint => (.ok endpoint, discovery.insert issuer endpoint)
      else
        (.error ("OIDC discovery returned HTTP " ++ display status ++ ": " ++ take 256 body), discovery)

/-- How an exchange ends. -/
inductive Refreshed where
  | ok (token : OidcToken)
  | err (e : String)
  /-- The token's lifetime was added to the time, and the sum is out of range. -/
  | panicked
deriving DecidableEq, Repr

/-- A call of `get_at`, with what its exchange meets if there is one: the clock, and the answers
of the issuer. -/
structure Call where
  now : SystemTime
  clock : SystemTime
  discovery : Answer String
  answer : Nat → Answer TokenResponse

/-- What is made of a token response. -/
def TokenResponse.token (resp : TokenResponse) (clock : SystemTime) (currentRefresh : String) : Refreshed :=
  match resp.idToken.or resp.accessToken with
  | none => .err "OIDC token response missing both id_token and access_token"
  | some idToken =>
    match clock.checkedAdd (.fromSecs (resp.expiresIn.getD 300)) with
    | none => .panicked
    | some expiresAt => .ok ⟨idToken, resp.refreshToken.getD currentRefresh, expiresAt⟩

/-- `Inner::refresh`. -/
def refresh (config : ReqwestRefresherConfig) (discovery : HashMap String String) (cfg : OidcConfig)
    (currentRefresh : String) (call : Call) :
    Refreshed × HashMap String String × List TokenRequest :=
  match tokenEndpoint display discovery cfg.issuerUrl call.discovery with
  | (.error e, discovery) => (.err e, discovery, [])
  | (.ok endpoint, discovery) =>
    match postWithRetry display config (tokenRequest config cfg endpoint currentRefresh) call.answer with
    | (.error e, requests) => (.err e, discovery, requests)
    | (.ok resp, requests) => (resp.token call.clock currentRefresh, discovery, requests)

/-! ## The cache -/

/-- What does not change: `OidcTokenCache` without its token, and its refresher. -/
structure OidcTokenCache where
  cfg : OidcConfig
  refresher : ReqwestRefresherConfig
  refreshBefore : Duration

/-- What a call returns. -/
inductive Got where
  | cached (token : OidcToken)
  | refreshed (token : OidcToken)
  | err (e : String)
  | panicked
deriving DecidableEq, Repr

/-- A call that is over: what the cache held before and after it, and what it sent. -/
structure Entry where
  call : Call
  before : OidcToken
  got : Got
  requests : List TokenRequest
  after : OidcToken

/-- The token, the refresher's endpoints, and the calls so far. -/
structure State where
  current : OidcToken
  discovery : HashMap String String
  log : List Entry

/-- A call is over. -/
def State.over (s : State) (call : Call) (got : Got) (requests : List TokenRequest)
    (discovery : HashMap String String) (current : OidcToken) : State :=
  ⟨current, discovery, s.log ++ [⟨call, s.current, got, requests, current⟩]⟩

/-- `get_at`. -/
def getAt (cache : OidcTokenCache) (s : State) (call : Call) : State :=
  if s.current.isFresh call.now cache.refreshBefore then
    s.over call (.cached s.current) [] s.discovery s.current
  else
    match refresh display cache.refresher s.discovery cache.cfg s.current.refreshToken call with
    | (.panicked, discovery, requests) => s.over call .panicked requests discovery s.current
    | (.err e, discovery, requests) => s.over call (.err e) requests discovery s.current
    | (.ok token, discovery, requests) =>
      if token.refreshToken.isEmpty then
        s.over call (.err "refresher returned empty refresh_token") requests discovery s.current
      else s.over call (.refreshed token) requests discovery token

/-- The state after these calls. -/
def after (cache : OidcTokenCache) (seed : OidcToken) (calls : List Call) : State :=
  exec (getAt display cache) ⟨seed, ∅, []⟩ calls

/-! ## One exchange -/

/-- The loop tries again after this answer. -/
def Answer.retryable {α : Type} : Answer α → Bool
  | .failed _ => true
  | .http status _ _ => !isSuccess status && isRetryableStatus status

/-- The token response in an answer. -/
def Answer.accepted : Answer TokenResponse → Option TokenResponse
  | .http status _ (.ok resp) => if isSuccess status then some resp else none
  | .http _ _ (.error _) | .failed _ => none

/-- The response among these answers that an exchange accepts. -/
def response (config : ReqwestRefresherConfig) (answer : Nat → Answer TokenResponse) :
    Option TokenResponse :=
  (firstEnd (fun attempt => !(answer attempt).retryable) 1 config.maxAttempts.toNat).bind
    fun attempt => (answer attempt).accepted

variable {display}

theorem retry_requests (config : ReqwestRefresherConfig) (attempt : Nat) (err : String) (p : Posting) :
    (retry config attempt err p).requests = p.requests := by
  unfold retry
  dsimp only
  split <;> rfl

theorem postOnce_next {config : ReqwestRefresherConfig} {request : TokenRequest}
    {answer : Nat → Answer TokenResponse} {attempt : Nat} {p : Posting}
    (h : (answer attempt).retryable = true) :
    ∃ p', postOnce display config request answer attempt p = .next p' ∧
      p'.requests = p.requests ++ [request] := by
  unfold postOnce
  cases hanswer : answer attempt with
  | failed e => exact ⟨_, rfl, retry_requests config attempt e _⟩
  | http status body json =>
      rw [hanswer] at h
      obtain ⟨hsuccess, hretry⟩ := Bool.and_eq_true_iff.mp h
      dsimp only
      rw [if_neg (by simpa using hsuccess), if_pos hretry]
      exact ⟨_, rfl, retry_requests config attempt _ _⟩

theorem postOnce_ret {config : ReqwestRefresherConfig} {request : TokenRequest}
    {answer : Nat → Answer TokenResponse} {attempt : Nat} {p : Posting}
    (h : (answer attempt).retryable = false) :
    ∃ r, postOnce display config request answer attempt p = .ret r ∧
      r.2 = p.requests ++ [request] ∧ r.1.toOption = (answer attempt).accepted := by
  unfold postOnce
  cases hanswer : answer attempt with
  | failed e => rw [hanswer] at h; cases h
  | http status body json =>
      rw [hanswer] at h
      dsimp only
      by_cases hsuccess : isSuccess status = true
      · rw [if_pos hsuccess]
        cases json with
        | ok resp => exact ⟨_, rfl, rfl, (if_pos hsuccess).symm⟩
        | error e => exact ⟨_, rfl, rfl, rfl⟩
      · have hretry : isRetryableStatus status = false := by
          simpa [Answer.retryable, hsuccess] using h
        rw [if_neg hsuccess, if_neg (by simp [hretry])]
        refine ⟨_, rfl, rfl, ?_⟩
        cases json with
        | ok resp => exact (if_neg hsuccess).symm
        | error e => rfl

/-- **An exchange** sends one request, up to so many times: again only after a failure that can
pass, and what it accepts is the response to the last. -/
theorem postWithRetry_spec (config : ReqwestRefresherConfig) (request : TokenRequest)
    (answer : Nat → Answer TokenResponse) :
    ∃ n, (postWithRetry display config request answer).2 = List.replicate n request ∧
      n ≤ config.maxAttempts.toNat ∧ (∀ j, 1 ≤ j → j < n → (answer j).retryable = true) ∧
      (postWithRetry display config request answer).1.toOption = response config answer ∧
      ∀ resp, response config answer = some resp → (answer n).accepted = some resp := by
  have hloop := @forRange_rule _ _ (postOnce display config request answer)
    (fun attempt => !(answer attempt).retryable)
    (fun attempt p => p.requests = List.replicate (attempt - 1) request)
    (fun attempt r => r.2 = List.replicate attempt request ∧
      r.1.toOption = (answer attempt).accepted)
    1 config.maxAttempts.toNat ⟨config.backoffBase, none, [], []⟩ ?_ ?_ rfl
  · unfold postWithRetry response
    rcases hloop with ⟨i, r, hfirst, hr, hrequests, hresult⟩ | ⟨p, hfirst, hp, hrequests⟩
    · obtain ⟨-, hrange, hbefore⟩ := firstEnd_eq_some.mp hfirst
      rw [hr, hfirst]
      exact ⟨i, hrequests, by omega, fun j hj hji => by simpa using hbefore j hj hji, hresult,
        fun _ h => h⟩
    · have hall := firstEnd_eq_none.mp hfirst
      rw [hp, hfirst]
      exact ⟨config.maxAttempts.toNat, by simpa using hrequests, Nat.le_refl _,
        fun j hj hji => by simpa using hall j hj (by omega), rfl, nofun⟩
  · intro i p hpos _ hends hp
    have hretryable : (answer i).retryable = true := by simpa using hends
    obtain ⟨p', hbody, hrequests⟩ := @postOnce_next display config request _ _ p hretryable
    refine ⟨p', hbody, ?_⟩
    rw [hrequests, hp, ← List.replicate_succ']
    congr 1
    omega
  · intro i p hpos _ hends hp
    have hfinal : (answer i).retryable = false := by simpa using hends
    obtain ⟨r, hbody, hrequests, hresult⟩ := @postOnce_ret display config request _ _ p hfinal
    refine ⟨r, hbody, ?_, hresult⟩
    rw [hrequests, hp, ← List.replicate_succ']
    congr 1
    omega

/-! ## One call -/

/-- The lifetime that a response gives the token, in nanoseconds. -/
def TokenResponse.lifetime (resp : TokenResponse) : Nat :=
  (resp.expiresIn.getD 300).toNat * NANOS_PER_SEC

/-- The token would outlast the clock. -/
def TokenResponse.Outlasts (resp : TokenResponse) (clock : SystemTime) : Prop :=
  (resp.idToken.or resp.accessToken).isSome = true ∧
    2 ^ 63 * NANOS_PER_SEC ≤ clock.nanos + resp.lifetime

theorem token_panicked_iff {resp : TokenResponse} {clock : SystemTime} {currentRefresh : String} :
    resp.token clock currentRefresh = .panicked ↔ resp.Outlasts clock := by
  unfold TokenResponse.token TokenResponse.Outlasts
  cases resp.idToken.or resp.accessToken with
  | none => exact ⟨nofun, fun h => nomatch h.1⟩
  | some idToken =>
      dsimp only
      cases hadd : clock.checkedAdd (.fromSecs (resp.expiresIn.getD 300)) with
      | none => exact ⟨fun _ => ⟨rfl, SystemTime.checkedAdd_eq_none.mp hadd⟩, fun _ => rfl⟩
      | some expiresAt =>
          refine ⟨nofun, fun h => ?_⟩
          rw [SystemTime.checkedAdd_eq_none.mpr h.2] at hadd
          cases hadd

/-- The refresh token of a token that is made is the one issued with it, if there is one. -/
theorem token_ok {resp : TokenResponse} {clock : SystemTime} {currentRefresh : String}
    {token : OidcToken} (h : resp.token clock currentRefresh = .ok token) :
    token.refreshToken = resp.refreshToken.getD currentRefresh := by
  unfold TokenResponse.token at h
  split at h
  · cases h
  · split at h
    · cases h
    · obtain rfl := Refreshed.ok.inj h
      rfl

/-- What the state says of the call to come: the exchange panics. -/
def Overflows (display : UInt16 → String) (cache : OidcTokenCache) (s : State) (call : Call) : Prop :=
  s.current.isFresh call.now cache.refreshBefore = false ∧
    (∃ endpoint, (tokenEndpoint display s.discovery cache.cfg.issuerUrl call.discovery).1 = .ok endpoint) ∧
    ∃ resp, response cache.refresher call.answer = some resp ∧ resp.Outlasts call.clock

/-- The requests of an exchange: one form, as often as there are failures that can pass. -/
structure Requests (cache : OidcTokenCache) (call : Call) (presented : String)
    (requests : List TokenRequest) : Prop where
  presents : ∀ r ∈ requests, r.presented = [presented]
  bounded : requests.length ≤ cache.refresher.maxAttempts.toNat
  stops : ∀ j, 1 ≤ j → j < requests.length → (call.answer j).retryable = true

theorem presented_tokenRequest (config : ReqwestRefresherConfig) (cfg : OidcConfig)
    (endpoint currentRefresh : String) :
    (tokenRequest config cfg endpoint currentRefresh).presented = [currentRefresh] := by
  unfold TokenRequest.presented tokenRequest
  cases cfg.clientSecret <;> simp

theorem Requests.nil {cache : OidcTokenCache} {call : Call} {presented : String} :
    Requests cache call presented [] :=
  ⟨nofun, Nat.zero_le _, fun _ _ hj => absurd hj (Nat.not_lt_zero _)⟩

/-- An exchange posts its one form again and again. -/
theorem Requests.replicate {cache : OidcTokenCache} {call : Call} (endpoint currentRefresh : String)
    {n : Nat} (hmax : n ≤ cache.refresher.maxAttempts.toNat)
    (hstops : ∀ j, 1 ≤ j → j < n → (call.answer j).retryable = true) :
    Requests cache call currentRefresh
      (List.replicate n (tokenRequest cache.refresher cache.cfg endpoint currentRefresh)) := by
  refine ⟨fun r hr => ?_, ?_, ?_⟩
  · rw [List.eq_of_mem_replicate hr]
    exact presented_tokenRequest cache.refresher cache.cfg endpoint currentRefresh
  · rwa [List.length_replicate]
  · rwa [List.length_replicate]

/-- **A refresh** panics exactly if the accepted response outlasts the clock, and makes its token
of that response. -/
theorem refresh_spec (cache : OidcTokenCache) (discovery : HashMap String String)
    (currentRefresh : String) (call : Call) :
    Requests cache call currentRefresh
        (refresh display cache.refresher discovery cache.cfg currentRefresh call).2.2 ∧
      ((refresh display cache.refresher discovery cache.cfg currentRefresh call).1 = .panicked ↔
        (∃ endpoint, (tokenEndpoint display discovery cache.cfg.issuerUrl call.discovery).1 = .ok endpoint) ∧
          ∃ resp, response cache.refresher call.answer = some resp ∧ resp.Outlasts call.clock) ∧
      ∀ token, (refresh display cache.refresher discovery cache.cfg currentRefresh call).1 = .ok token →
        ∃ resp, (call.answer (refresh display cache.refresher discovery cache.cfg currentRefresh
            call).2.2.length).accepted = some resp ∧
          token.refreshToken = resp.refreshToken.getD currentRefresh := by
  unfold refresh
  rcases hendpoint : tokenEndpoint display discovery cache.cfg.issuerUrl call.discovery
    with ⟨endpoint | endpoint, discovery'⟩
  · -- without an endpoint nothing is sent
    refine ⟨Requests.nil, ⟨?_, ?_⟩, ?_⟩
    · intro h
      cases h
    · rintro ⟨⟨endpoint', h⟩, -⟩
      cases h
    · intro token h
      cases h
  · dsimp only
    obtain ⟨n, hrequests, hmax, hstops, hresult, hlast⟩ := @postWithRetry_spec display cache.refresher
      (tokenRequest cache.refresher cache.cfg endpoint currentRefresh) call.answer
    have hsent := Requests.replicate endpoint currentRefresh hmax hstops
    rcases hpost : postWithRetry display cache.refresher
      (tokenRequest cache.refresher cache.cfg endpoint currentRefresh) call.answer
      with ⟨result, requests⟩
    rw [hpost] at hrequests hresult
    dsimp only at hrequests hresult ⊢
    subst hrequests
    cases result with
    | error e =>
        refine ⟨hsent, ⟨?_, ?_⟩, ?_⟩
        · intro h
          cases h
        · rintro ⟨-, resp, hresp, -⟩
          rw [← hresult] at hresp
          cases hresp
        · intro token h
          cases h
    | ok resp =>
        have hresp : response cache.refresher call.answer = some resp := hresult.symm
        refine ⟨hsent, ?_, fun token htoken => ⟨resp, ?_, token_ok htoken⟩⟩
        · show resp.token call.clock currentRefresh = .panicked ↔ _
          -- only the expiry can overflow
          rw [token_panicked_iff]
          refine ⟨fun h => ⟨⟨endpoint, rfl⟩, resp, hresp, h⟩, ?_⟩
          rintro ⟨-, resp', hresp', h⟩
          obtain rfl := Option.some.inj (hresp.symm.trans hresp')
          exact h
        · show (call.answer (List.replicate n _).length).accepted = _
          rw [List.length_replicate]
          exact hlast resp hresp

/-! ## Runs -/

/-- The refresh token issued last, after a call: that of the response if it has one. -/
def issue (current : String) (e : Entry) : String :=
  match e.got with
  | .refreshed _ =>
    ((e.call.answer e.requests.length).accepted.bind TokenResponse.refreshToken).getD current
  | .cached _ | .err _ | .panicked => current

/-- The refresh token most recently issued to the cache. -/
def issued (seed : OidcToken) (log : List Entry) : String := log.foldl issue seed.refreshToken

/-- The token that the last call left. -/
def held (seed : OidcToken) (log : List Entry) : OidcToken := (log.getLast?.map Entry.after).getD seed

/-- What holds of a call, given the calls before it. -/
structure Sound (cache : OidcTokenCache) (seed : OidcToken) (earlier : List Entry) (e : Entry) : Prop where
  returns : e.got ≠ .panicked
  before : e.before = held seed earlier
  fresh : ∀ t, e.got = .cached t →
    t = e.before ∧ t.isFresh e.call.now cache.refreshBefore = true ∧ e.requests = []
  requests : Requests cache e.call (issued seed earlier) e.requests
  installs : ∀ t, e.got = .refreshed t → e.after = t
  keeps : (∀ t, e.got ≠ .refreshed t) → e.after = e.before

/-- What one call does. -/
structure Did (cache : OidcTokenCache) (s s' : State) (e : Entry) : Prop where
  log : s'.log = s.log ++ [e]
  before : e.before = s.current
  after : e.after = s'.current
  fresh : ∀ t, e.got = .cached t →
    t = e.before ∧ t.isFresh e.call.now cache.refreshBefore = true ∧ e.requests = []
  requests : Requests cache e.call s.current.refreshToken e.requests
  installs : ∀ t, e.got = .refreshed t → e.after = t
  keeps : (∀ t, e.got ≠ .refreshed t) → e.after = e.before
  issues : issue s.current.refreshToken e = s'.current.refreshToken

/-- A call that fails leaves the token. -/
theorem Did.failure {cache : OidcTokenCache} {s : State} {call : Call} {got : Got}
    {requests : List TokenRequest} (discovery : HashMap String String)
    (hgot : got = .panicked ∨ ∃ e, got = .err e)
    (hrequests : Requests cache call s.current.refreshToken requests) :
    Did cache s (s.over call got requests discovery s.current)
      ⟨call, s.current, got, requests, s.current⟩ := by
  rcases hgot with rfl | ⟨e, rfl⟩
  · exact ⟨rfl, rfl, rfl, fun t h => (by cases h), hrequests, fun t h => (by cases h), fun _ => rfl,
      rfl⟩
  · exact ⟨rfl, rfl, rfl, fun t h => (by cases h), hrequests, fun t h => (by cases h), fun _ => rfl,
      rfl⟩

/-- **One call** returns what it has, or exchanges; it panics exactly if the new token would
outlast the clock. -/
theorem getAt_did (cache : OidcTokenCache) (s : State) (call : Call) :
    ∃ e, Did cache s (getAt display cache s call) e ∧
      (e.got = .panicked ↔ Overflows display cache s call) := by
  obtain ⟨hrequests, hpanics, htoken⟩ :=
    @refresh_spec display cache s.discovery s.current.refreshToken call
  unfold getAt Overflows
  rw [← hpanics]
  clear hpanics
  by_cases hfresh : s.current.isFresh call.now cache.refreshBefore = true
  · rw [if_pos hfresh]
    refine ⟨_, ⟨rfl, rfl, rfl, ?_, Requests.nil, ?_, fun _ => rfl, rfl⟩, ?_⟩
    · rintro t ⟨⟩
      exact ⟨rfl, hfresh, rfl⟩
    · intro t h
      cases h
    · rw [hfresh]
      simp
  · rw [if_neg hfresh]
    have hstale : s.current.isFresh call.now cache.refreshBefore = false := by simpa using hfresh
    rcases hrefresh : refresh display cache.refresher s.discovery cache.cfg s.current.refreshToken call
      with ⟨refreshed, discovery, requests⟩
    rw [hrefresh] at hrequests htoken
    dsimp only at hrequests htoken ⊢
    cases refreshed with
    | panicked => exact ⟨_, .failure discovery (.inl rfl) hrequests, by simp [hstale]⟩
    | err e => exact ⟨_, .failure discovery (.inr ⟨e, rfl⟩) hrequests, by simp⟩
    | ok token =>
        obtain ⟨resp, hresp, hrefreshToken⟩ := htoken token rfl
        dsimp only
        split
        · exact ⟨_, .failure discovery (.inr ⟨_, rfl⟩) hrequests, by simp⟩
        · refine ⟨_, ⟨rfl, rfl, rfl, ?_, hrequests, ?_, ?_, ?_⟩, by simp⟩
          · intro t h
            cases h
          · exact fun t h => Got.refreshed.inj h
          · exact fun h => absurd rfl (h token)
          · show Option.getD (Option.bind (call.answer requests.length).accepted _) _ = _
            rw [hresp]
            exact hrefreshToken.symm

/-- The cache holds what the last call left, with the refresh token issued last. -/
structure Follows (seed : OidcToken) (s : State) : Prop where
  held : s.current = held seed s.log
  issued : s.current.refreshToken = issued seed s.log

theorem Follows.step {cache : OidcTokenCache} {seed : OidcToken} {s s' : State} {e : Entry}
    (h : Follows seed s) (hdid : Did cache s s' e) : Follows seed s' := by
  refine ⟨?_, ?_⟩
  · rw [Oidc.held, hdid.log, List.getLast?_concat, ← hdid.after]
    rfl
  · rw [Oidc.issued, hdid.log, List.foldl_append, List.foldl_cons, List.foldl_nil, ← hdid.issues,
      h.issued]
    rfl

/-- A call is sound if it does not panic. -/
theorem sound_iff_returns {cache : OidcTokenCache} {seed : OidcToken} {s s' : State} {e : Entry}
    (h : Follows seed s) (hdid : Did cache s s' e) : Sound cache seed s.log e ↔ e.got ≠ .panicked :=
  ⟨Sound.returns, fun hreturns => ⟨hreturns, hdid.before.trans h.held, hdid.fresh,
    h.issued ▸ hdid.requests, hdid.installs, hdid.keeps⟩⟩

variable (display)

theorem follows_after (cache : OidcTokenCache) (seed : OidcToken) (calls : List Call) :
    Follows seed (after display cache seed calls) := by
  refine exec_inv (fun s call h => ?_) ⟨rfl, rfl⟩ calls
  obtain ⟨e, hdid, -⟩ := getAt_did cache s call
  exact h.step hdid

/--
**A run is sound exactly if none of its tokens outlasts the clock.**

Then no call panics; a call returns the cached token only while that is fresh; every
request presents the refresh token most recently issued; a call that fails leaves the
token as it was; and a call sends no more requests than it may, another one only after
a failure that can pass.
-/
theorem tokens_sound_iff (cache : OidcTokenCache) (seed : OidcToken) (calls : List Call) :
    Along (Sound cache seed) (after display cache seed calls).log ↔
      Each (getAt display cache) (fun s call => ¬ Overflows display cache s call) ⟨seed, ∅, []⟩ calls := by
  induction calls using List.reverseRecOn with
  | nil => exact ⟨fun _ => each_nil, fun _ => along_nil⟩
  | append_singleton calls call ih =>
      obtain ⟨e, hdid, hpanics⟩ := @getAt_did display cache (after display cache seed calls) call
      have hlog : (after display cache seed (calls ++ [call])).log
          = (after display cache seed calls).log ++ [e] := by
        unfold after
        rw [exec_snoc]
        exact hdid.log
      rw [hlog, along_snoc, each_snoc, ih,
        sound_iff_returns (follows_after display cache seed calls) hdid, Ne, hpanics]
      rfl

end

/-! ### A token without end -/

/-- A second of the epoch. -/
def atSecond (n : UInt32) : SystemTime :=
  ⟨n.toNat * NANOS_PER_SEC, by unfold NANOS_PER_SEC; omega, by
    have := n.toNat_lt
    unfold NANOS_PER_SEC
    omega⟩

def sampleCache : OidcTokenCache :=
  ⟨⟨"https://issuer", "cli", none⟩, ⟨.fromSecs 10, 3, .ZERO, "synchrotron-cd"⟩, .fromSecs 60⟩

def sampleSeed : OidcToken := ⟨"id-0", "refresh-0", atSecond 1000⟩

/-- The issuer answers with a new refresh token, and the longest lifetime there is. -/
def endlessCall : Call where
  now := atSecond 2000
  clock := atSecond 2000
  discovery := .http 200 "" (.ok "https://issuer/token")
  answer := fun _ => .http 200 "" (.ok ⟨some "id-1", none, some "refresh-1", some 18446744073709551615⟩)

/-- A lifetime that no clock holds panics the call, and the new refresh token is lost. -/
theorem endless_token_panics :
    (after (fun _ => "200 OK") sampleCache sampleSeed [endlessCall]).log.map Entry.got = [.panicked] ∧
      (after (fun _ => "200 OK") sampleCache sampleSeed [endlessCall]).current = sampleSeed ∧
      ¬ Along (Sound sampleCache sampleSeed)
        (after (fun _ => "200 OK") sampleCache sampleSeed [endlessCall]).log := by
  have hgot : (after (fun _ => "200 OK") sampleCache sampleSeed [endlessCall]).log.map Entry.got
      = [.panicked] := by rfl
  refine ⟨hgot, by rfl, fun h => ?_⟩
  obtain ⟨e, rest, hlog, hpanics, -⟩ := List.map_eq_cons_iff.mp hgot
  exact (h [] e rest hlog).returns hpanics

end SynchrotronCD.Oidc
