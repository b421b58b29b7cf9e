import SynchrotronCD.Lib.Durations
import SynchrotronCD.Lib.Runs
import SynchrotronCD.Plugins.Value
import SynchrotronCD.Reconcile.Wave

/-!
# Local plugins

A plugin process is sent one request at a time and answers with a line of JSON. A
request that cannot be written, or that no line answers in time, kills the process.

A line that is read is checked, but a line that is no answer does not kill the process,
and lines that a killed process has left behind can still be read. Sessions that keep
to the rule that an unhealthy process is never reused are those whose lines answer
exactly as long as nothing has failed (`session_sound_iff`).
-/

namespace SynchrotronCD.LocalPlugin

open Lib Value

/-! ## Responses -/

/-- `serde_json`: the document of a text if it is one, and what it says of a text that it does not
read as a response. -/
class JsonText where
  parse : String → Option Doc
  errorText : String → String

/-- The member of this name, if there is one; `none` if there are two. -/
def member (kvs : List (String × Doc)) (key : String) : Option (Option Doc) :=
  match kvs.filter fun kv => kv.1 == key with
  | [] => some none
  | [kv] => some (some kv.2)
  | _ => none

/-- The fields of a derived struct, which is read from an object, with other members, or from an
array. -/
def fields (keys : List String) : Doc → Option (List (Option Doc))
  | .obj kvs => keys.mapM (member kvs)
  | .arr xs => if xs.length = keys.length then some (xs.map some) else none
  | .null | .bool _ | .num _ | .str _ => none

/-- An `Option`: `null` is nothing. -/
def optional {α : Type} (read : Doc → Option α) : Option Doc → Option (Option α)
  | none | some .null => some none
  | some d => (read d).map some

def required {α : Type} (read : Doc → Option α) (d : Option Doc) : Option α := d.bind read

def readString : Doc → Option String
  | .str s => some s
  | _ => none

def readU64 : Doc → Option UInt64
  | .num (.posInt n) => some n
  | _ => none

def readI64 : Doc → Option Int
  | .num (.posInt n) => if n.toNat < 2 ^ 63 then some n.toNat else none
  | .num (.negInt k) => some (-(k.val + 1))
  | _ => none

def readStrings : Doc → Option (List String)
  | .arr xs => xs.mapM readString
  | _ => none

structure RpcError where
  code : Int
  message : String
deriving DecidableEq, Repr

structure RpcResponse (R : Type) where
  jsonrpc : Option String
  id : Option UInt64
  result : Option R
  error : Option RpcError

def RpcError.read (d : Doc) : Option RpcError := do
  match ← fields ["code", "message"] d with
  | [code, message] => return ⟨← required readI64 code, ← required readString message⟩
  | _ => none

def RpcResponse.read {R : Type} (read : Doc → Option R) (d : Doc) : Option (RpcResponse R) := do
  match ← fields ["jsonrpc", "id", "result", "error"] d with
  | [jsonrpc, id, result, error] =>
    return ⟨← optional readString jsonrpc, ← optional readU64 id, ← optional read result,
      ← optional RpcError.read error⟩
  | _ => none

/-! ## Requests -/

inductive Method where
  /-- The handshake, `initialize`. -/
  | handshake
  | render
deriving DecidableEq, Repr

/-- `InitializeResult` or `RenderResponse`. -/
inductive Reply where
  | initialized (pluginVersion : String)
  | rendered (manifests : List String)
deriving DecidableEq, Repr

/-- How the result of a method is read. -/
def Method.read : Method → Doc → Option Reply
  | .handshake, d => do
    match ← fields ["plugin_version"] d with
    | [version] => return .initialized (← required readString version)
    | _ => none
  | .render, d => do
    match ← fields ["manifests"] d with
    | [manifests] => return .rendered (← required readStrings manifests)
    | _ => none

structure PluginSpec where
  name : String
  timeout : Duration
deriving DecidableEq, Repr

inductive PluginError where
  | io (name source : String)
  | timeout (name : String) (timeout : Duration)
  | protocol (name message : String)
  | earlyExit (name : String)
  | pluginSide (name : String) (code : Int) (message : String)
deriving DecidableEq, Repr

/-- A plugin, and whether its process was killed. -/
structure Plugin where
  spec : PluginSpec
  nextId : UInt64
  killed : Bool
deriving DecidableEq, Repr

/-- What writing a request and reading a line comes to. -/
inductive Exchange where
  | io (source : String)
  | eof
  | timedOut
  | line (text : String)
deriving DecidableEq, Repr

/-- No line was read. -/
def Exchange.failed : Exchange → Bool
  | .io _ | .eof | .timedOut => true
  | .line _ => false

def Plugin.killOnFailure (p : Plugin) : Plugin := { p with killed := true }

/-- `{:?}` of an optional id. -/
def debugId : Option UInt64 → String
  | none => "None"
  | some id => "Some(" ++ toString id ++ ")"

section

variable [JsonText]

/-- The response in a line. -/
def responseOf (method : Method) (line : String) : Option (RpcResponse Reply) :=
  (JsonText.parse (String.ofList (trim line.toList))).bind (RpcResponse.read method.read)

/-- What is made of the line that is read for a request. -/
def answer (name : String) (id : UInt64) (method : Method) (line : String) : Except PluginError Reply :=
  match responseOf method line with
  | none =>
    .error (.protocol name
      ("malformed response: " ++ JsonText.errorText (String.ofList (trim line.toList))))
  | some resp =>
    if resp.id ≠ some id then
      .error (.protocol name ("response id mismatch: expected " ++ toString id ++ ", got "
        ++ debugId resp.id))
    else
      match resp.result, resp.error with
      | some r, none => .ok r
      | none, some e => .error (.pluginSide name e.code e.message)
      | _, _ => .error (.protocol name "response must contain exactly one of result/error")

/-- `Plugin::request`. -/
def request (p : Plugin) (method : Method) (exchange : Exchange) : Plugin × Except PluginError Reply :=
  let p := { p with nextId := p.nextId + 1 }
  match exchange with
  | .io source => (p.killOnFailure, .error (.io p.spec.name source))
  | .eof => (p.killOnFailure, .error (.earlyExit p.spec.name))
  | .timedOut => (p.killOnFailure, .error (.timeout p.spec.name p.spec.timeout))
  | .line text => (p, answer p.spec.name p.nextId method text)

/-! ## Sessions -/

/-- A request that is over: whether the process has been killed is as of its end. -/
structure Entry where
  id : UInt64
  method : Method
  exchange : Exchange
  result : Except PluginError Reply
  killed : Bool

structure Session where
  plugin : Plugin
  log : List Entry

/-- One request of a session. -/
def Session.step (s : Session) (e : Method × Exchange) : Session :=
  let (plugin, result) := request s.plugin e.1 e.2
  ⟨plugin, s.log ++ [⟨plugin.nextId, e.1, e.2, result, plugin.killed⟩]⟩

/-- The session after these requests. -/
def session (spec : PluginSpec) (es : List (Method × Exchange)) : Session :=
  exec Session.step ⟨⟨spec, 0, false⟩, []⟩ es

/-- The result stands for the plugin's own answer, or for its own error. -/
def answered : Except PluginError Reply → Bool
  | .ok _ | .error (.pluginSide _ _ _) => true
  | .error (.io _ _) | .error (.timeout _ _) | .error (.protocol _ _) | .error (.earlyExit _) => false

/-- The request failed, and not because the plugin says so. -/
def Entry.failed (e : Entry) : Bool := !answered e.result

/-- The line carries the request's id, and exactly one of a result and an error. -/
def Answers (id : UInt64) (method : Method) (line : String) : Prop :=
  ∃ resp, responseOf method line = some resp ∧ resp.id = some id ∧
    (resp.result.isSome = true ↔ resp.error = none)

/-- What holds of a request, given those before it. -/
structure Sound (earlier : List Entry) (e : Entry) : Prop where
  answered : ∀ r, e.result = .ok r → ∃ line, e.exchange = .line line ∧
    Answers e.id e.method line ∧ ∃ resp, responseOf e.method line = some resp ∧ resp.result = some r
  killed : e.failed = true → e.killed = true
  refused : (∃ e' ∈ earlier, e'.failed = true) → e.failed = true

/-! ### One request -/

/-- A line counts as the plugin's answer exactly if it answers the request. -/
theorem answered_answer_iff {name : String} {id : UInt64} {method : Method} {line : String} :
    answered (answer name id method line) = true ↔ Answers id method line := by
  unfold answer Answers
  cases responseOf method line with
  | none => exact ⟨fun h => (by cases h), fun ⟨_, h, _⟩ => (by cases h)⟩
  | some resp =>
      simp only [Option.some.injEq, exists_eq_left']
      by_cases hid : resp.id = some id
      · rw [if_neg (not_not.mpr hid)]
        cases resp.result with
        | none => cases resp.error <;> simp [answered, hid]
        | some r => cases resp.error <;> simp [answered, hid]
      · rw [if_pos hid]
        exact ⟨fun h => (by cases h), fun h => absurd h.1 hid⟩

/-- What is returned is the result of a line that answers the request. -/
theorem answer_ok {name : String} {id : UInt64} {method : Method} {line : String} {r : Reply}
    (h : answer name id method line = .ok r) :
    Answers id method line ∧ ∃ resp, responseOf method line = some resp ∧ resp.result = some r := by
  refine ⟨answered_answer_iff.mp (by rw [h]; rfl), ?_⟩
  unfold answer at h
  cases hresp : responseOf method line with
  | none => rw [hresp] at h; cases h
  | some resp =>
      rw [hresp] at h
      dsimp only at h
      split at h
      · cases h
      · cases hresult : resp.result with
        | none =>
            rw [hresult] at h
            cases herror : resp.error with
            | none => rw [herror] at h; cases h
            | some e => rw [herror] at h; cases h
        | some r' =>
            rw [hresult] at h
            cases herror : resp.error with
            | some e => rw [herror] at h; cases h
            | none =>
                rw [herror] at h
                obtain rfl := Except.ok.inj h
                exact ⟨resp, rfl, hresult⟩

/-- A line is read that answers the request exactly as long as the process has not been killed. -/
def Orderly (s : Session) (e : Method × Exchange) : Prop :=
  ∀ line, e.2 = .line line → (Answers (s.plugin.nextId + 1) e.1 line ↔ s.plugin.killed = false)

/-- The process was killed exactly if a request got no line, which failed then. -/
structure Follows (s : Session) : Prop where
  killed : s.plugin.killed = true ↔ ∃ e ∈ s.log, e.exchange.failed = true
  fails : ∀ e ∈ s.log, e.exchange.failed = true → e.failed = true
  stays : ∀ e ∈ s.log, e.killed = true → s.plugin.killed = true

/-- In a sound session, whatever has failed has killed the process. -/
theorem exists_failed_iff {s : Session} (h : Follows s) (hlog : Along Sound s.log) :
    (∃ e ∈ s.log, e.failed = true) ↔ s.plugin.killed = true := by
  constructor
  · rintro ⟨e, he, hfailed⟩
    obtain ⟨pre, post, heq⟩ := List.append_of_mem he
    exact h.stays e he ((hlog pre e post heq).killed hfailed)
  · intro hkilled
    obtain ⟨e, he, hexchange⟩ := h.killed.mp hkilled
    exact ⟨e, he, h.fails e he hexchange⟩

/-- A line is read: it answers the request, or the request fails and nothing is killed. -/
theorem sound_line_iff {s : Session} (h : Follows s) (hlog : Along Sound s.log) {method : Method}
    {line : String} {entry : Entry} (hid : entry.id = s.plugin.nextId + 1)
    (hmethod : entry.method = method) (hexchange : entry.exchange = .line line)
    (hresult : entry.result = answer s.plugin.spec.name (s.plugin.nextId + 1) method line)
    (hkilled : entry.killed = s.plugin.killed) :
    Sound s.log entry ↔ (Answers (s.plugin.nextId + 1) method line ↔ s.plugin.killed = false) := by
  have hfailed : entry.failed = true ↔ ¬ Answers (s.plugin.nextId + 1) method line := by
    unfold Entry.failed
    have hiff : answered (answer s.plugin.spec.name (s.plugin.nextId + 1) method line) = true ↔ _ :=
      answered_answer_iff
    rw [hresult, ← hiff]
    simp
  constructor
  · intro hsound
    constructor
    · intro hanswers
      by_contra hnot
      have hrefused := hsound.refused ((exists_failed_iff h hlog).mpr (by simpa using hnot))
      exact hfailed.mp hrefused hanswers
    · intro halive
      by_contra hnot
      have := hsound.killed (hfailed.mpr hnot)
      rw [hkilled, halive] at this
      cases this
  · intro hiff
    refine ⟨fun r hr => ⟨line, hexchange, ?_⟩, fun hfails => ?_, fun hearlier => ?_⟩
    · rw [hid, hmethod]
      exact answer_ok (hresult.symm.trans hr)
    · rw [hkilled]
      by_contra hnot
      exact hfailed.mp hfails (hiff.mpr (by simpa using hnot))
    · rw [hfailed, hiff]
      have := (exists_failed_iff h hlog).mp hearlier
      simp [this]

/-- A request without a line kills the process. -/
theorem sound_failure {earlier : List Entry} {entry : Entry} (hresult : answered entry.result = false)
    (hkilled : entry.killed = true) : Sound earlier entry := by
  have hfailed : entry.failed = true := by
    unfold Entry.failed
    rw [hresult]
    rfl
  refine ⟨fun r hr => ?_, fun _ => hkilled, fun _ => hfailed⟩
  rw [hr] at hresult
  cases hresult

/-- **One request** is sound exactly if its line, if there is one, comes at the right time. -/
theorem step_sound_iff {s : Session} (h : Follows s) (e : Method × Exchange) :
    ∃ entry, (s.step e).log = s.log ++ [entry] ∧
      (Along Sound s.log → (Sound s.log entry ↔ Orderly s e)) := by
  obtain ⟨method, exchange⟩ := e
  cases exchange with
  | io source => exact ⟨_, rfl, fun _ => ⟨fun _ _ => nofun, fun _ => sound_failure rfl rfl⟩⟩
  | eof => exact ⟨_, rfl, fun _ => ⟨fun _ _ => nofun, fun _ => sound_failure rfl rfl⟩⟩
  | timedOut => exact ⟨_, rfl, fun _ => ⟨fun _ _ => nofun, fun _ => sound_failure rfl rfl⟩⟩
  | line text =>
      refine ⟨_, rfl, fun hlog => (sound_line_iff h hlog rfl rfl rfl rfl rfl).trans ?_⟩
      constructor
      · intro hiff line heq
        obtain rfl := Exchange.line.inj heq
        exact hiff
      · exact fun ho => ho text rfl

omit [JsonText] in
/-- What is recorded of a request, and whether it has killed the process. -/
theorem Follows.snoc {s s' : Session} {entry : Entry} (h : Follows s)
    (hlog : s'.log = s.log ++ [entry]) (hfails : entry.exchange.failed = true → entry.failed = true)
    (hentry : entry.killed = s'.plugin.killed)
    (hkilled : s'.plugin.killed = (s.plugin.killed || entry.exchange.failed)) : Follows s' := by
  refine ⟨?_, ?_, ?_⟩
  · rw [hkilled, hlog, Bool.or_eq_true, h.killed]
    simp [or_and_right, exists_or]
  · rw [hlog]
    intro e he
    rcases List.mem_append.mp he with he | he
    · exact h.fails e he
    · rwa [List.mem_singleton.mp he]
  · rw [hlog]
    intro e he hk
    rcases List.mem_append.mp he with he | he
    · rw [hkilled, h.stays e he hk, Bool.true_or]
    · rw [← hentry, ← List.mem_singleton.mp he, hk]

theorem Follows.step {s : Session} (h : Follows s) (e : Method × Exchange) : Follows (s.step e) := by
  obtain ⟨method, exchange⟩ := e
  cases exchange with
  | io source => exact h.snoc rfl (fun _ => rfl) rfl (Bool.or_true _).symm
  | eof => exact h.snoc rfl (fun _ => rfl) rfl (Bool.or_true _).symm
  | timedOut => exact h.snoc rfl (fun _ => rfl) rfl (Bool.or_true _).symm
  | line text => exact h.snoc rfl nofun rfl (Bool.or_false _).symm

theorem follows_session (spec : PluginSpec) (es : List (Method × Exchange)) :
    Follows (session spec es) :=
  exec_inv (fun _ e h => h.step e) ⟨by simp, nofun, nofun⟩ es

/--
**A session is sound exactly if its lines answer as long as nothing has failed, and no
longer.**

A line that is no answer does not kill the process; a killed process may have left
lines that are.
-/
theorem session_sound_iff (spec : PluginSpec) (es : List (Method × Exchange)) :
    Along Sound (session spec es).log ↔ Each Session.step Orderly ⟨⟨spec, 0, false⟩, []⟩ es := by
  induction es using List.reverseRecOn with
  | nil => exact ⟨fun _ => each_nil, fun _ => along_nil⟩
  | append_singleton es e ih =>
      have hstep : (session spec (es ++ [e])) = (session spec es).step e := by
        unfold session
        exact exec_snoc _ es e
      obtain ⟨entry, hlog, hiff⟩ := step_sound_iff (follows_session spec es) e
      rw [hstep, each_snoc, ← ih, hlog, along_snoc]
      exact and_congr_right hiff

end

/-! ### A process that is reused -/

/-- The line with which a plugin answers its second request. -/
def secondLine : String := "\x7b\"id\":2,\"result\":\x7b\"manifests\":[]\x7d\x7d\n"

/-- A reader of that line. -/
abbrev JsonText.ofSecondLine : JsonText where
  parse text := if text = String.ofList (trim secondLine.toList) then
      some (.obj [("id", .num (.posInt 2)), ("result", .obj [("manifests", .arr [])])])
    else none
  errorText _ := "expected value at line 1 column 1"

/-- The first request reads a line that is no JSON and fails; the process is not killed, and
answers the second. -/
theorem stray_line_not_killed :
    ((@session .ofSecondLine ⟨"charts", .fromSecs 60⟩
        [(.render, .line "warming up\n"), (.render, .line secondLine)]).log.map
          fun e => (e.failed, e.killed)) = [(true, false), (false, false)] ∧
      ¬ Along (@Sound .ofSecondLine) (@session .ofSecondLine ⟨"charts", .fromSecs 60⟩
        [(.render, .line "warming up\n"), (.render, .line secondLine)]).log := by
  have hlog : ((@session .ofSecondLine ⟨"charts", .fromSecs 60⟩
      [(.render, .line "warming up\n"), (.render, .line secondLine)]).log.map
        fun e => (e.failed, e.killed)) = [(true, false), (false, false)] := by decide
  refine ⟨hlog, fun h => ?_⟩
  obtain ⟨e, rest, heq, hfirst, -⟩ := List.map_eq_cons_iff.mp hlog
  obtain ⟨hfailed, hkilled⟩ := Prod.mk.inj hfirst
  have hdead := @Sound.killed .ofSecondLine _ _ (h [] e rest heq) hfailed
  rw [hkilled] at hdead
  cases hdead

end SynchrotronCD.LocalPlugin
