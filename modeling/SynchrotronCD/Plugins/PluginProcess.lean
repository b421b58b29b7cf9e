import SynchrotronCD.Git.HostKeysOnDisk
import SynchrotronCD.Plugins.JsonReader
import SynchrotronCD.Plugins.LocalPlugin

/-!
# A plugin and its process

The host writes requests to the standard input of a plugin process and reads its
standard output; the plugins that are shipped read one line after the other and
answer each request under the id it came with. Requests that take too long, errors
of the pipes and crashes can come at any point of the exchange, a crash also in the
middle of an answer, of which the host then reads the front.

Once a request has failed the process is dead, and no later request is answered, whatever
was left in the pipe (`processes_retired`). What is taken for an answer is what the plugin
made of this very request (`answers_own`).

Assumed is that a request that runs out of time has read nothing of a line that is not
finished. What a process has written of its answer when it is killed is in the pipe as if it
had crashed there.
-/

namespace SynchrotronCD.PluginProcess

open Lib Value LocalPlugin

/-- `serde_json::from_str` reads the bytes of the text. -/
class LawfulJsonText [JsonReader] [JsonText] : Prop where
  /-- The front of an object's text is no document. -/
  parse_cut : ∀ (kvs : List (String × Doc)) (cs : List Char), cs <+: Json.print (.obj kvs) →
    cs ≠ Json.print (.obj kvs) → JsonText.parse (String.ofList cs) = none
  parse_text : ∀ s, JsonText.parse s = JsonReader.parse (String.toUTF8 s).data.toList

/-! ## The plugin's side -/

/-- `Value::get`: of members with one name the last is kept. -/
def get (d : Doc) (key : String) : Option Doc :=
  match d with
  | .obj kvs => (kvs.filter fun kv => kv.1 == key).getLast?.map Prod.snd
  | _ => none

/-- What tells one plugin from another. -/
structure Served where
  version : String
  /-- The code of its errors is this below -1. -/
  code : Fin (2 ^ 63)
  /-- The rendered manifests, or the text of the error, for the params of a request. -/
  render : Doc → Except String String

/-- Rendering with params that have to be read first. -/
def renderParams {P : Type} (readParams : Doc → Except String P) (run : P → Except String String)
    (params : Doc) : Except String String :=
  match readParams params with
  | .ok p => run p
  | .error e => .error ("bad params: " ++ e)

section

variable {P : Type} (version : String) (readParams : Doc → Except String P)
  (run : P → Except String String)

/-- `CODE_HELM_FAILURE` is -32001. -/
def helm : Served := ⟨version, 32000, renderParams readParams run⟩

/-- `CODE_KUSTOMIZE_FAILURE` is -32001. -/
def kustomize : Served := ⟨version, 32000, renderParams readParams run⟩

/-- `CODE_LABELER_FAILURE` is -32002. -/
def labeler : Served := ⟨version, 32001, renderParams readParams run⟩

end

def resultResponse (id result : Doc) : Doc :=
  .obj [("id", id), ("jsonrpc", .str "2.0"), ("result", result)]

def errorResponse (id : Doc) (code : Fin (2 ^ 63)) (message : String) : Doc :=
  .obj [("error", .obj [("code", .num (.negInt code)), ("message", .str message)]), ("id", id),
    ("jsonrpc", .str "2.0")]

/-- `run_render`. -/
def runRender (p : Served) (params id : Doc) : Doc :=
  match p.render params with
  | .ok rendered => resultResponse id (.obj [("manifests", .arr [.str rendered])])
  | .error message => errorResponse id p.code message

/-- How a response with a result is read. -/
theorem read_result (m : Method) (id : UInt64) (result : Doc) :
    RpcResponse.read m.read (resultResponse (.num (.posInt id)) result)
      = (LocalPlugin.optional m.read (some result)).map fun r => ⟨some "2.0", some id, r, none⟩ := by
  cases h : LocalPlugin.optional m.read (some result) with
  | none =>
      simp [RpcResponse.read, resultResponse, fields, member, LocalPlugin.optional, readString,
        readU64] at h ⊢
      simp [h]
  | some r =>
      simp [RpcResponse.read, resultResponse, fields, member, LocalPlugin.optional, readString,
        readU64] at h ⊢
      simp [h]

theorem read_error (m : Method) (id : UInt64) (code : Fin (2 ^ 63)) (message : String) :
    RpcResponse.read m.read (errorResponse (.num (.posInt id)) code message)
      = some ⟨some "2.0", some id, none, some ⟨-(code.val + 1), message⟩⟩ := by
  simp [RpcResponse.read, errorResponse, fields, member, LocalPlugin.optional, readString, readU64,
    RpcError.read, readI64, required]

/-- What a line makes the plugin do. -/
inductive Handled where
  | reply (resp : Doc)
  | ignored
  | exit

section

variable [JsonText]

/-- The body of the plugin's loop. -/
def handle (p : Served) (line : String) : Handled :=
  match JsonText.parse line with
  | none => .ignored
  | some req =>
    let method := match get req "method" with
      | some (.str m) => m
      | _ => ""
    let id := (get req "id").getD .null
    if method = "initialize" then
      .reply (resultResponse id (.obj [("plugin_version", .str p.version)]))
    else if method = "render" then .reply (runRender p ((get req "params").getD .null) id)
    else if method = "shutdown" then .exit
    else .ignored

end

/-! ## The host's side -/

/-- A call of `initialize` or `render`. -/
structure Call where
  method : Method
  params : Doc

/-- The name a method goes by on the wire. -/
def methodName : Method → String
  | .handshake => "initialize"
  | .render => "render"

def requestDoc (id : UInt64) (c : Call) : Doc :=
  .obj [("id", .num (.posInt id)), ("jsonrpc", .str "2.0"), ("method", .str (methodName c.method)),
    ("params", c.params)]

section

variable [FloatText]

/-- `serde_json::to_string`. -/
def lineOf (d : Doc) : String := String.ofList d.print

theorem printMembers_ends (kvs : List (String × Doc)) :
    ∃ mid, Json.printMembers kvs = mid ++ ['}'] := by
  induction kvs with
  | nil => exact ⟨[], rfl⟩
  | cons kv kvs ih =>
      obtain ⟨mid, h⟩ := ih
      refine ⟨',' :: (Json.quote kv.1 ++ ':' :: (kv.2.print ++ mid)), ?_⟩
      rw [Json.printMembers, h]
      simp

theorem print_obj_ends (kvs : List (String × Doc)) :
    ∃ mid, Json.print (.obj kvs) = '{' :: (mid ++ ['}']) := by
  cases kvs with
  | nil => exact ⟨[], rfl⟩
  | cons kv kvs =>
      obtain ⟨mid, h⟩ := printMembers_ends kvs
      refine ⟨Json.quote kv.1 ++ ':' :: (kv.2.print ++ mid), ?_⟩
      rw [Json.print, h]
      simp

/-- The host trims the end of the line, and nothing else. -/
theorem trim_lineOf (kvs : List (String × Doc)) :
    String.ofList (trim (lineOf (.obj kvs) ++ "\n").toList) = lineOf (.obj kvs) := by
  obtain ⟨mid, h⟩ := print_obj_ends kvs
  have htext : (lineOf (.obj kvs) ++ "\n").toList = [] ++ (Json.print (.obj kvs) ++ ['\n']) := by
    simp [lineOf]
  have hnewline : Git.HostKeys.Blank ['\n'] := by
    intro c hc
    rw [List.mem_singleton.mp hc]
    decide
  rw [htext, Git.HostKeys.trim_between (by simp [Git.HostKeys.Blank]) hnewline, lineOf]
  · rw [h]
    exact List.cons_ne_nil _ _
  · rw [h]
    intro c hc
    rw [← Option.mem_some_iff.mp hc]
    decide
  · rw [h, ← List.cons_append, List.getLast?_concat]
    intro c hc
    rw [← Option.mem_some_iff.mp hc]
    decide

end

/-- Host and process. -/
structure System where
  session : Session
  /-- The calls that are over, in order. -/
  calls : List Call
  /-- The call under way. -/
  waiting : Option Call
  /-- The lines the process has not read, and those the host has not. -/
  stdin : List String
  stdout : List String
  /-- What the process has written of the line that it did not finish. -/
  cut : String
  running : Bool

def System.start (spec : PluginSpec) : System :=
  ⟨⟨⟨spec, 0, false⟩, []⟩, [], none, [], [], "", true⟩

inductive Event where
  /-- The host writes a request. -/
  | call (c : Call)
  /-- The process handles the next line. -/
  | serve
  /-- The host reads a line. -/
  | read
  /-- Writing or reading fails. -/
  | fail (source : String)
  | timeOut
  /-- The host finds the output closed. -/
  | endOfFile
  /-- The process ends of its own accord. -/
  | crash
  /-- It ends while it writes an answer, after so many characters. -/
  | crashWriting (n : Nat)

variable [JsonReader] [JsonText]

/-- The call under way is over. -/
def System.complete (s : System) (c : Call) (exchange : Exchange) : System :=
  let s := { s with
    session := s.session.step (c.method, exchange)
    calls := s.calls ++ [c]
    waiting := none }
  if exchange.failed then { s with running := false, stdin := [] } else s

def step (p : Served) (s : System) : Event → System
  | .call c =>
    match s.waiting with
    | some _ => s
    | none =>
      let line := lineOf (requestDoc (s.session.plugin.nextId + 1) c)
      { s with waiting := some c, stdin := if s.running then s.stdin ++ [line] else s.stdin }
  | .serve =>
    match s.running, s.stdin with
    | true, line :: rest =>
      match handle p line with
      | .reply resp => { s with stdin := rest, stdout := s.stdout ++ [lineOf resp] }
      | .ignored => { s with stdin := rest }
      | .exit => { s with stdin := [], running := false }
    | _, _ => s
  | .read =>
    match s.waiting, s.stdout with
    | some c, line :: rest => { s with stdout := rest }.complete c (.line (line ++ "\n"))
    | some c, [] =>
      -- the end of the output ends a line, too
      if s.cut = "" then s else { s with cut := "" }.complete c (.line s.cut)
    | none, _ => s
  | .fail source =>
    match s.waiting with
    | some c => s.complete c (.io source)
    | none => s
  | .timeOut =>
    match s.waiting with
    | some c => s.complete c .timedOut
    | none => s
  | .endOfFile =>
    match s.waiting, s.stdout, s.running with
    | some c, [], false => if s.cut = "" then s.complete c .eof else s
    | _, _, _ => s
  | .crash => { s with running := false, stdin := [] }
  | .crashWriting n =>
    match s.running, s.stdin with
    | true, line :: _ =>
      match handle p line with
      | .reply resp =>
        { s with running := false, stdin := [], cut := String.ofList (resp.print.take n) }
      | .ignored | .exit => s
    | _, _ => s

/-! ## Lines, read back -/

variable [LawfulJsonText]

/-- What is read of a document that is written. -/
theorem parse_lineOf (d : Doc) : JsonText.parse (lineOf d)
    = if d.depth < recursionLimit then d.mapNums (readNumber JsonReader.readFloat) else none := by
  rw [LawfulJsonText.parse_text]
  exact JsonReader.parse_jsonBytes d

omit [LawfulJsonText] in
theorem responseOf_lineOf (method : Method) (kvs : List (String × Doc)) :
    responseOf method (lineOf (.obj kvs) ++ "\n")
      = (JsonText.parse (lineOf (.obj kvs))).bind (RpcResponse.read method.read) := by
  rw [responseOf, trim_lineOf]

/-- The params as the process reads them, unless they are nested too deep. -/
def sentParams (params : Doc) : Option Doc :=
  if params.depth + 1 < recursionLimit then params.mapNums (readNumber JsonReader.readFloat)
  else none

theorem parse_request (id : UInt64) (c : Call) :
    JsonText.parse (lineOf (requestDoc id c))
      = (sentParams c.params).map fun params => requestDoc id ⟨c.method, params⟩ := by
  have hdepth : (requestDoc id c).depth = c.params.depth + 1 := by
    simp [requestDoc, Json.depth, Json.depthMembers]
  rw [parse_lineOf, hdepth, sentParams]
  split
  · cases h : c.params.mapNums (readNumber JsonReader.readFloat) with
    | none => simp [requestDoc, Json.mapNums, Json.mapMembers, readNumber, h]
    | some params => simp [requestDoc, Json.mapNums, Json.mapMembers, readNumber, h]
  · rfl

/-! ## What a request makes the plugin answer -/

/-- The response to a request. -/
def replyDoc (p : Served) (id : UInt64) (method : Method) (params : Doc) : Doc :=
  match method with
  | .handshake => resultResponse (.num (.posInt id)) (.obj [("plugin_version", .str p.version)])
  | .render => runRender p params (.num (.posInt id))

/-- What the host is to be told. -/
def replyTo (p : Served) (name : String) (method : Method) (params : Doc) :
    Except PluginError Reply :=
  match method with
  | .handshake => .ok (.initialized p.version)
  | .render =>
    match p.render params with
    | .ok rendered => .ok (.rendered [rendered])
    | .error message => .error (.pluginSide name (-(p.code.val + 1)) message)

/-- **The plugin answers what it can read,** and is silent otherwise. -/
theorem handle_request (p : Served) (id : UInt64) (c : Call) :
    handle p (lineOf (requestDoc id c)) =
      match sentParams c.params with
      | some params => .reply (replyDoc p id c.method params)
      | none => .ignored := by
  rw [handle, parse_request]
  cases sentParams c.params with
  | none => rfl
  | some params => cases c.method <;> rfl

/-- The response of a plugin is a document that is read as it was written. -/
theorem parse_reply (p : Served) (id : UInt64) (method : Method) (params : Doc) :
    ∃ kvs, replyDoc p id method params = .obj kvs ∧
      JsonText.parse (lineOf (.obj kvs)) = some (.obj kvs) := by
  have hread : ∀ kvs : List (String × Doc), (Json.obj kvs).depth < recursionLimit →
      (Json.obj kvs).mapNums (readNumber JsonReader.readFloat) = some (.obj kvs) →
      JsonText.parse (lineOf (.obj kvs)) = some (.obj kvs) := by
    intro kvs hdepth hnums
    rw [parse_lineOf, if_pos hdepth, hnums]
  cases method with
  | handshake =>
      refine ⟨_, rfl, hread _ ?_ ?_⟩
      · simp [Json.depth, Json.depthMembers, recursionLimit]
      · simp [Json.mapNums, Json.mapMembers, readNumber]
  | render =>
      rw [replyDoc, runRender]
      cases p.render params with
      | ok rendered =>
          refine ⟨_, rfl, hread _ ?_ ?_⟩
          · simp [Json.depth, Json.depthMembers, Json.depthElems, recursionLimit]
          · simp [Json.mapNums, Json.mapMembers, Json.mapElems, readNumber]
      | error message =>
          refine ⟨_, rfl, hread _ ?_ ?_⟩
          · simp [Json.depth, Json.depthMembers, recursionLimit]
          · simp [Json.mapNums, Json.mapMembers, readNumber]

theorem responseOf_reply (p : Served) (id : UInt64) (method m : Method) (params : Doc) :
    responseOf m (lineOf (replyDoc p id method params) ++ "\n")
      = RpcResponse.read m.read (replyDoc p id method params) := by
  obtain ⟨kvs, hkvs, hparse⟩ := parse_reply p id method params
  rw [hkvs, responseOf_lineOf, hparse]
  rfl

/-- **What the host makes of the answer** is what the plugin made of the request. -/
theorem answer_reply (p : Served) (name : String) (id : UInt64) (method : Method) (params : Doc) :
    answer name id method (lineOf (replyDoc p id method params) ++ "\n")
      = replyTo p name method params := by
  rw [answer, responseOf_reply]
  cases method with
  | handshake =>
      rw [replyDoc, read_result]
      simp [LocalPlugin.optional, Method.read, fields, member, required, readString, replyTo]
  | render =>
      rw [replyDoc, runRender, replyTo]
      cases p.render params with
      | ok rendered =>
          simp only [read_result]
          simp [LocalPlugin.optional, Method.read, fields, member, required, readStrings, readString]
      | error message =>
          simp only [read_error]
          simp

/-- A response carries the id of its request, whatever it is read for. -/
theorem id_reply {p : Served} {id : UInt64} {method m : Method} {params : Doc}
    {resp : RpcResponse Reply}
    (h : responseOf m (lineOf (replyDoc p id method params) ++ "\n") = some resp) :
    resp.id = some id := by
  rw [responseOf_reply] at h
  have hresult : ∀ result, RpcResponse.read m.read (resultResponse (.num (.posInt id)) result)
      = some resp → resp.id = some id := by
    intro result hr
    rw [read_result, Option.map_eq_some_iff] at hr
    obtain ⟨r, -, rfl⟩ := hr
    rfl
  cases method with
  | handshake => exact hresult _ h
  | render =>
      rw [replyDoc, runRender] at h
      cases hp : p.render params with
      | ok rendered => rw [hp] at h; exact hresult _ h
      | error message =>
          rw [hp] at h
          simp only [read_error, Option.some.injEq] at h
          rw [← h]

/-! ## Lines that are cut short -/

omit [JsonReader] [JsonText] [LawfulJsonText] in
/-- A text that does not begin with a blank loses at most its end. -/
theorem trim_isPrefix {cs : List Char} (h : ∀ c ∈ cs.head?, isWhitespace c = false) : trim cs <+: cs := by
  have hleft : cs.dropWhile isWhitespace = cs := Git.HostKeys.dropWhile_self h
  unfold trim
  rw [hleft, ← List.reverse_suffix, List.reverse_reverse]
  exact List.dropWhile_suffix _

/-- The front of a line is no response, unless it is the whole line. -/
theorem responseOf_cut (m : Method) {kvs : List (String × Doc)} {cut : String}
    (h : cut.toList <+: (lineOf (.obj kvs)).toList) :
    responseOf m cut = none ∨ responseOf m cut = responseOf m (lineOf (.obj kvs) ++ "\n") := by
  have hprint : (lineOf (.obj kvs)).toList = Json.print (.obj kvs) := String.toList_ofList
  rw [hprint] at h
  have hhead : ∀ c ∈ cut.toList.head?, isWhitespace c = false := by
    intro c hc
    obtain ⟨mid, hmid⟩ := print_obj_ends kvs
    rw [hmid] at h
    cases hcut : cut.toList with
    | nil => rw [hcut] at hc; cases hc
    | cons d ds =>
        rw [hcut] at h hc
        obtain rfl : d = '{' := (List.cons_prefix_cons.mp h).1
        rw [← Option.mem_some_iff.mp hc]
        decide
  have hprefix : trim cut.toList <+: Json.print (.obj kvs) := (trim_isPrefix hhead).trans h
  unfold responseOf
  rw [trim_lineOf]
  by_cases hwhole : trim cut.toList = Json.print (.obj kvs)
  · exact .inr (by rw [hwhole]; rfl)
  · exact .inl (by rw [LawfulJsonText.parse_cut kvs _ hprefix hwhole]; rfl)

omit [JsonReader] [LawfulJsonText] in
/-- A response is read alike, whatever the rest of the text. -/
theorem answer_congr {name text text' : String} {id : UInt64} {m : Method}
    (h : responseOf m text = responseOf m text') (hsome : responseOf m text' ≠ none) :
    answer name id m text = answer name id m text' := by
  unfold answer
  rw [h]
  cases hresp : responseOf m text' with
  | none => exact absurd hresp hsome
  | some resp => rfl

omit [JsonText] [LawfulJsonText] [JsonReader] in
theorem answered_replyTo (p : Served) (name : String) (method : Method) (params : Doc) :
    answered (replyTo p name method params) = true := by
  unfold replyTo
  cases method with
  | handshake => rfl
  | render => cases p.render params <;> rfl

/-- The front of a line that answers something is that answer, or nothing. -/
theorem answer_cut (p : Served) (name : String) (id : UInt64) (method : Method) (params : Doc)
    {cut : String} (h : cut.toList <+: (lineOf (replyDoc p id method params)).toList) :
    answer name id method cut = replyTo p name method params ∨
      answered (answer name id method cut) = false := by
  obtain ⟨kvs, hkvs, -⟩ := parse_reply p id method params
  rw [hkvs] at h
  rcases responseOf_cut method h with hnone | hwhole
  · refine .inr ?_
    unfold answer
    rw [hnone]
    rfl
  · refine .inl ?_
    rw [← hkvs] at hwhole
    have hsome : responseOf method (lineOf (replyDoc p id method params) ++ "\n") ≠ none := by
      intro hnone
      have hanswered := answered_replyTo p name method params
      rw [← answer_reply p name id method params] at hanswered
      unfold answer at hanswered
      rw [hnone] at hanswered
      cases hanswered
    rw [answer_congr hwhole hsome, answer_reply]

/-! ## Runs -/

variable {spec : PluginSpec} {p : Served}

/-- What the host was told is what the plugin made of the request. -/
def Own (p : Served) (name : String) (c : Call) (e : Entry) : Prop :=
  answered e.result = true →
    ∃ params, sentParams c.params = some params ∧ e.result = replyTo p name c.method params

/-- Once a request has failed, the process is dead and no request is answered. -/
structure Retired (s : System) : Prop where
  refused : s.session.log.Pairwise fun e e' => e.failed = true → e'.failed = true
  dead : (∃ e ∈ s.session.log, e.failed = true) → s.running = false

/-- A line that answers one of the first so many requests. -/
def Stale (p : Served) (n : Nat) (line : String) : Prop :=
  ∃ k ≤ n, ∃ method params, line = lineOf (replyDoc p (UInt64.ofNat k) method params)

/-- Nothing is in the pipes. -/
structure System.Clean (s : System) : Prop where
  stdin : s.stdin = []
  stdout : s.stdout = []
  cut : s.cut = ""

/-- How far the call under way has come: the request is unread, or it was read and is answered, in
full or in part, or not. -/
inductive Stage (p : Served) (s : System) (c : Call) : Prop where
  | unread : s.stdin = [lineOf (requestDoc (s.session.plugin.nextId + 1) c)] → s.stdout = [] →
      s.cut = "" → Stage p s c
  | silent : s.Clean → Stage p s c
  | answered (params : Doc) : sentParams c.params = some params → s.stdin = [] →
      s.stdout = [lineOf (replyDoc p (s.session.plugin.nextId + 1) c.method params)] → s.cut = "" →
      Stage p s c
  | broken (params : Doc) : sentParams c.params = some params → s.stdin = [] → s.stdout = [] →
      s.running = false →
      s.cut.toList <+: (lineOf (replyDoc p (s.session.plugin.nextId + 1) c.method params)).toList →
      Stage p s c

/-- **What holds of host and process** after any events. -/
structure Inv (p : Served) (spec : PluginSpec) (s : System) : Prop where
  spec_eq : s.session.plugin.spec = spec
  nextId : s.session.plugin.nextId = UInt64.ofNat s.calls.length
  refused : s.session.log.Pairwise fun e e' => e.failed = true → e'.failed = true
  own : List.Forall₂ (Own p spec.name) s.calls s.session.log
  /-- A request fails that kills the process, or finds it dead and takes the last of what it left. -/
  failed : (∃ e ∈ s.session.log, e.failed = true) → s.session.plugin.killed = false →
    s.running = false ∧ s.Clean
  idle : s.session.plugin.killed = false → s.waiting = none → s.Clean
  busy : s.session.plugin.killed = false → ∀ c, s.waiting = some c → Stage p s c
  dead : s.session.plugin.killed = true → s.running = false ∧
    (∀ line ∈ s.stdout, Stale p s.calls.length line) ∧
    (s.cut = "" ∨ ∃ line, Stale p s.calls.length line ∧ s.cut.toList <+: line.toList)

omit [JsonText] [LawfulJsonText] in
theorem inv_start : Inv p spec (.start spec) where
  spec_eq := rfl
  nextId := rfl
  refused := .nil
  own := .nil
  failed := fun ⟨_, he, _⟩ => absurd he List.not_mem_nil
  idle := fun _ _ => ⟨rfl, rfl, rfl⟩
  busy := nofun
  dead := nofun

omit [JsonText] [LawfulJsonText] in
theorem Inv.retired {s : System} (h : Inv p spec s) : Retired s where
  refused := h.refused
  dead hfailed := by
    cases hk : s.session.plugin.killed with
    | true => exact (h.dead hk).1
    | false => exact (h.failed hfailed hk).1

omit [JsonReader] [LawfulJsonText] in
/-- What a request that is over changes. -/
theorem session_step (s : Session) (method : Method) (exchange : Exchange) :
    (s.step (method, exchange)).plugin = ⟨s.plugin.spec, s.plugin.nextId + 1,
      s.plugin.killed || exchange.failed⟩ ∧
    ∃ entry, (s.step (method, exchange)).log = s.log ++ [entry] ∧
      entry.result = (request s.plugin method exchange).2 := by
  cases exchange with
  | line text => exact ⟨by simp [Session.step, request, Exchange.failed], _, rfl, rfl⟩
  | io source => exact ⟨by simp [Session.step, request, Exchange.failed, Plugin.killOnFailure],
      _, rfl, rfl⟩
  | eof => exact ⟨by simp [Session.step, request, Exchange.failed, Plugin.killOnFailure],
      _, rfl, rfl⟩
  | timedOut => exact ⟨by simp [Session.step, request, Exchange.failed, Plugin.killOnFailure],
      _, rfl, rfl⟩

omit [JsonReader] [JsonText] [LawfulJsonText] in
/-- A request that fails may come after any others, one that does not only after such. -/
theorem refused_snoc {log : List Entry} {entry : Entry}
    (h : log.Pairwise fun e e' => e.failed = true → e'.failed = true)
    (hentry : (∃ e ∈ log, e.failed = true) → entry.failed = true) :
    (log ++ [entry]).Pairwise fun e e' => e.failed = true → e'.failed = true := by
  refine List.pairwise_append.mpr ⟨h, List.pairwise_singleton _ _, fun e he e' he' hfailed => ?_⟩
  rw [List.mem_singleton.mp he']
  exact hentry ⟨e, he, hfailed⟩

omit [JsonText] [LawfulJsonText] in
theorem Stale.mono {n : Nat} {line : String} (h : Stale p n line) : Stale p (n + 1) line := by
  obtain ⟨k, hle, hrest⟩ := h
  exact ⟨k, Nat.le_succ_of_le hle, hrest⟩

omit [JsonText] [LawfulJsonText] in
/-- What the host has not read when a call is over is of requests so far. -/
theorem Inv.stale {s : System} (h : Inv p spec s) {c : Call} (hw : s.waiting = some c) :
    (∀ line ∈ s.stdout, Stale p (s.calls.length + 1) line) ∧
    (s.cut = "" ∨ ∃ line, Stale p (s.calls.length + 1) line ∧ s.cut.toList <+: line.toList) := by
  have hthis : ∀ params, Stale p (s.calls.length + 1)
      (lineOf (replyDoc p (s.session.plugin.nextId + 1) c.method params)) := by
    intro params
    refine ⟨s.calls.length + 1, Nat.le_refl _, c.method, params, ?_⟩
    rw [h.nextId]
    simp
  cases hk : s.session.plugin.killed with
  | true =>
      obtain ⟨-, hout, hcut⟩ := h.dead hk
      refine ⟨fun line hline => (hout line hline).mono, hcut.imp id ?_⟩
      rintro ⟨line, hline, hprefix⟩
      exact ⟨line, hline.mono, hprefix⟩
  | false =>
      cases h.busy hk c hw with
      | unread _ hout hcut => exact ⟨by rw [hout]; exact nofun, .inl hcut⟩
      | silent hclean => exact ⟨by rw [hclean.stdout]; exact nofun, .inl hclean.cut⟩
      | answered params _ _ hout hcut =>
          refine ⟨fun line hline => ?_, .inl hcut⟩
          rw [hout, List.mem_singleton] at hline
          rw [hline]
          exact hthis params
      | broken params _ _ hout _ hprefix =>
          exact ⟨by rw [hout]; exact nofun, .inr ⟨_, hthis params, hprefix⟩⟩

/-! ### Calls that are over -/

omit [JsonReader] [LawfulJsonText] in
theorem session_complete (s : System) (c : Call) (x : Exchange) :
    (s.complete c x).session = s.session.step (c.method, x) := by
  unfold System.complete
  split
  · rfl
  · rfl

omit [JsonReader] [LawfulJsonText] in
/-- A call that is over is recorded. -/
theorem calls_complete (s : System) (c : Call) (x : Exchange) :
    (s.complete c x).calls = s.calls ++ [c] := by
  unfold System.complete
  split
  · rfl
  · rfl

omit [JsonReader] [LawfulJsonText] in
theorem calls_complete_length (s : System) (c : Call) (x : Exchange) :
    (s.complete c x).calls.length = s.calls.length + 1 := by
  rw [calls_complete, List.length_append, List.length_singleton]

omit [JsonReader] [LawfulJsonText] in
theorem killed_complete (s : System) (c : Call) (x : Exchange) :
    (s.complete c x).session.plugin.killed = (s.session.plugin.killed || x.failed) := by
  rw [session_complete, (session_step s.session c.method x).1]

omit [LawfulJsonText] in
/-- **However a call ended,** it is counted and logged: it fails if one before it has, and what it
is answered is its own. -/
theorem Inv.logged {s t : System} (h : Inv p spec s) (hsession : t.session = s.session)
    (hcalls : t.calls = s.calls) (c : Call) (x : Exchange)
    (hrefused : (∃ e ∈ s.session.log, e.failed = true) →
      answered (request s.session.plugin c.method x).2 = false)
    (hown : answered (request s.session.plugin c.method x).2 = true →
      ∃ params, sentParams c.params = some params ∧
        (request s.session.plugin c.method x).2 = replyTo p spec.name c.method params) :
    (t.complete c x).session.plugin.spec = spec ∧
    (t.complete c x).session.plugin.nextId = UInt64.ofNat (t.complete c x).calls.length ∧
    (t.complete c x).session.log.Pairwise (fun e e' => e.failed = true → e'.failed = true) ∧
    List.Forall₂ (Own p spec.name) (t.complete c x).calls (t.complete c x).session.log := by
  obtain ⟨hplugin, entry, hlog, hresult⟩ := session_step s.session c.method x
  rw [session_complete, calls_complete, hsession, hcalls, hplugin, hlog]
  refine ⟨h.spec_eq, ?_, refused_snoc h.refused fun hany => ?_,
    List.rel_append h.own (.cons (fun ha => ?_) .nil)⟩
  · show s.session.plugin.nextId + 1 = UInt64.ofNat (s.calls ++ [c]).length
    rw [List.length_append, h.nextId]
    simp
  · unfold Entry.failed
    rw [hresult, hrefused hany]
    rfl
  · rw [hresult] at ha
    obtain ⟨params, hsent, hreply⟩ := hown ha
    exact ⟨params, hsent, hresult.trans hreply⟩

omit [LawfulJsonText] in
/-- A call that gets no line ends with the process. -/
theorem inv_failed {s : System} (h : Inv p spec s) {c : Call} (hw : s.waiting = some c)
    {exchange : Exchange} (hf : exchange.failed = true) : Inv p spec (s.complete c exchange) := by
  have hno : answered (request s.session.plugin c.method exchange).2 = false := by
    cases exchange with
    | line text => cases hf
    | _ => rfl
  obtain ⟨hspec, hnext, hrefused, hown⟩ := h.logged rfl rfl c exchange (fun _ => hno)
    fun ha => absurd (hno.symm.trans ha) (by simp)
  have hkilled : (s.complete c exchange).session.plugin.killed = true := by
    rw [killed_complete, hf, Bool.or_true]
  have hstale := h.stale hw
  refine ⟨hspec, hnext, hrefused, hown, fun _ hk => absurd (hkilled.symm.trans hk) (by simp),
    fun hk _ => absurd (hkilled.symm.trans hk) (by simp),
    fun hk => absurd (hkilled.symm.trans hk) (by simp), fun _ => ?_⟩
  rw [calls_complete_length]
  -- what it has left in the pipes stays there
  rw [System.complete, if_pos hf]
  exact ⟨rfl, hstale⟩

omit [LawfulJsonText] in
/-- A call reads a text that leaves `t`. If the process was not killed, the text is the answer and
the pipes are empty, or it is none and the process is dead; if it was killed it is no answer. -/
theorem inv_text {s t : System} (h : Inv p spec s) {c : Call} {text : String}
    (hsession : t.session = s.session) (hcalls : t.calls = s.calls) (hrunning : t.running = s.running)
    (halive : s.session.plugin.killed = false → t.Clean)
    (hdead : s.session.plugin.killed = true →
      (∀ line ∈ t.stdout, Stale p (s.calls.length + 1) line) ∧
      (t.cut = "" ∨ ∃ line, Stale p (s.calls.length + 1) line ∧ t.cut.toList <+: line.toList))
    (htext : (answered (answer spec.name (s.session.plugin.nextId + 1) c.method text) = false ∧
        (s.session.plugin.killed = false → s.running = false)) ∨
      (s.session.plugin.killed = false ∧ (∀ e ∈ s.session.log, e.failed = false) ∧
        ∃ params, sentParams c.params = some params ∧
          answer spec.name (s.session.plugin.nextId + 1) c.method text
            = replyTo p spec.name c.method params)) :
    Inv p spec (t.complete c (.line text)) := by
  have hresult : (request s.session.plugin c.method (.line text)).2
      = answer spec.name (s.session.plugin.nextId + 1) c.method text := by
    rw [← h.spec_eq]
    rfl
  have hkilled : (t.complete c (.line text)).session.plugin.killed = s.session.plugin.killed := by
    rw [killed_complete, hsession]
    exact Bool.or_false _
  obtain ⟨hspec, hnext, hrefused, hown⟩ := h.logged hsession hcalls c (.line text)
    (fun hany => by
      rcases htext with ⟨hno, -⟩ | ⟨-, hnone, -⟩
      · rw [hresult, hno]
      · obtain ⟨e, he, hf⟩ := hany
        exact absurd ((hnone e he).symm.trans hf) (by simp))
    (fun ha => by
      rcases htext with ⟨hno, -⟩ | ⟨-, -, params, hsent, hreply⟩
      · rw [hresult, hno] at ha
        cases ha
      · exact ⟨params, hsent, hresult.trans hreply⟩)
  have hclean (hk : (t.complete c (.line text)).session.plugin.killed = false) :
      (t.complete c (.line text)).Clean := by
    obtain ⟨hin, hout, hcut⟩ := halive (hkilled.symm.trans hk)
    exact ⟨hin, hout, hcut⟩
  refine ⟨hspec, hnext, hrefused, hown, fun hany hk => ⟨?_, hclean hk⟩, fun hk _ => hclean hk,
    fun _ _ hc => (nomatch hc), fun hk => ?_⟩
  · show t.running = false
    rw [hrunning]
    rcases htext with ⟨-, hrun⟩ | ⟨-, hnone, params, -, hreply⟩
    · exact hrun (hkilled.symm.trans hk)
    · -- nothing had failed before, and an answer is no failure
      obtain ⟨e, he, hf⟩ := hany
      obtain ⟨-, entry, hlog, hentry⟩ := session_step s.session c.method (.line text)
      rw [session_complete, hsession, hlog] at he
      rcases List.mem_append.mp he with he | he
      · exact absurd ((hnone e he).symm.trans hf) (by simp)
      · rw [List.mem_singleton.mp he, Entry.failed, hentry, hresult, hreply, answered_replyTo] at hf
        cases hf
  · have hk : s.session.plugin.killed = true := hkilled.symm.trans hk
    rw [calls_complete_length, hcalls]
    exact ⟨hrunning.trans (h.dead hk).1, hdead hk⟩

/-! ### Calls that read something -/

/-- What a killed process has left, all of it or the front of it, answers no request to come. -/
theorem not_answered_of_stale {s : System} (h : Inv p spec s) {line text : String} (m : Method)
    (hline : Stale p s.calls.length line)
    (htext : responseOf m text = none ∨ responseOf m text = responseOf m (line ++ "\n"))
    (hcount : s.calls.length + 1 < 2 ^ 64) :
    answered (answer spec.name (s.session.plugin.nextId + 1) m text) = false := by
  refine Bool.eq_false_iff.mpr fun ha => ?_
  obtain ⟨resp, hresp, hid, -⟩ := answered_answer_iff.mp ha
  obtain ⟨k, hle, method, params, rfl⟩ := hline
  rcases htext with hnone | hwhole
  · rw [hnone] at hresp
    cases hresp
  · rw [hwhole] at hresp
    have hnext : s.session.plugin.nextId + 1 = UInt64.ofNat (s.calls.length + 1) := by
      rw [h.nextId]
      simp
    have hsame := (id_reply hresp).symm.trans hid
    rw [hnext, Option.some.injEq, ← UInt64.toNat_inj, UInt64.toNat_ofNat', UInt64.toNat_ofNat',
      Nat.mod_eq_of_lt (by omega), Nat.mod_eq_of_lt hcount] at hsame
    omega

omit [JsonText] [LawfulJsonText] in
/-- As long as something is in the pipe of a process that was not killed, nothing has failed. -/
theorem Inv.none_failed {s : System} (h : Inv p spec s) (hk : s.session.plugin.killed = false)
    (hleft : s.stdout ≠ [] ∨ s.cut ≠ "") : ∀ e ∈ s.session.log, e.failed = false := by
  intro e he
  refine Bool.eq_false_iff.mpr fun hf => ?_
  obtain ⟨-, hclean⟩ := h.failed ⟨e, he, hf⟩ hk
  exact hleft.elim (fun hout => hout hclean.stdout) fun hcut => hcut hclean.cut

/-- **A call that reads a line.** Of a live process it is the answer; a killed one has left it
behind, and it is refused. -/
theorem inv_line {s : System} (h : Inv p spec s) {c : Call} (hw : s.waiting = some c)
    {line : String} {rest : List String} (hout : s.stdout = line :: rest)
    (hcount : s.calls.length + 1 < 2 ^ 64) :
    Inv p spec ({ s with stdout := rest }.complete c (.line (line ++ "\n"))) := by
  have hstale := h.stale hw
  have hreply : s.session.plugin.killed = false → ∃ params, sentParams c.params = some params ∧
      line = lineOf (replyDoc p (s.session.plugin.nextId + 1) c.method params) ∧ rest = [] ∧
      s.stdin = [] ∧ s.cut = "" := by
    intro hk
    cases h.busy hk c hw with
    | unread _ hnil _ => rw [hnil] at hout; cases hout
    | silent hclean => rw [hclean.stdout] at hout; cases hout
    | broken _ _ _ hnil _ _ => rw [hnil] at hout; cases hout
    | answered params hsent hin hone hcut =>
        rw [hone] at hout
        obtain ⟨rfl, rfl⟩ := List.cons.inj hout
        exact ⟨params, hsent, rfl, rfl, hin, hcut⟩
  refine inv_text h rfl rfl rfl (fun hk => ?_) (fun hk => ⟨fun l hl => ?_, hstale.2⟩) ?_
  · obtain ⟨params, -, -, hrest, hin, hcut⟩ := hreply hk
    exact ⟨hin, hrest, hcut⟩
  · exact hstale.1 l (by rw [hout]; exact List.mem_cons_of_mem _ hl)
  · cases hk : s.session.plugin.killed with
    | false =>
        obtain ⟨params, hsent, hline, -⟩ := hreply hk
        refine .inr ⟨rfl, h.none_failed hk (.inl (by rw [hout]; exact List.cons_ne_nil _ _)), params,
          hsent, ?_⟩
        rw [hline, answer_reply]
    | true =>
        have hline := (h.dead hk).2.1 line (by rw [hout]; exact List.mem_cons_self)
        exact .inl ⟨not_answered_of_stale h c.method hline (.inr rfl) hcount, nofun⟩

/-- **A call that reads the front of a line** from a process that is dead. -/
theorem inv_cut {s : System} (h : Inv p spec s) {c : Call} (hw : s.waiting = some c)
    (hout : s.stdout = []) (hne : s.cut ≠ "") (hcount : s.calls.length + 1 < 2 ^ 64) :
    Inv p spec ({ s with cut := "" }.complete c (.line s.cut)) := by
  have hbroken : s.session.plugin.killed = false → ∃ params, sentParams c.params = some params ∧
      s.stdin = [] ∧ s.running = false ∧
      s.cut.toList <+: (lineOf (replyDoc p (s.session.plugin.nextId + 1) c.method params)).toList := by
    intro hk
    cases h.busy hk c hw with
    | unread _ _ hcut => exact absurd hcut hne
    | silent hclean => exact absurd hclean.cut hne
    | answered _ _ _ hone _ => rw [hone] at hout; cases hout
    | broken params hsent hin _ hrun hprefix => exact ⟨params, hsent, hin, hrun, hprefix⟩
  refine inv_text h rfl rfl rfl (fun hk => ?_) (fun hk => ⟨fun l hl => ?_, .inl rfl⟩) ?_
  · obtain ⟨-, -, hin, -, -⟩ := hbroken hk
    exact ⟨hin, hout, rfl⟩
  · exact (h.stale hw).1 l hl
  · cases hk : s.session.plugin.killed with
    | false =>
        obtain ⟨params, hsent, -, hrun, hprefix⟩ := hbroken hk
        rcases answer_cut p spec.name (s.session.plugin.nextId + 1) c.method params hprefix with
          hwhole | hno
        · exact .inr ⟨rfl, h.none_failed hk (.inr hne), params, hsent, hwhole⟩
        · exact .inl ⟨hno, fun _ => hrun⟩
    | true =>
        obtain ⟨line, hline, hprefix⟩ := (h.dead hk).2.2.resolve_left hne
        have hread : responseOf c.method s.cut = none ∨
            responseOf c.method s.cut = responseOf c.method (line ++ "\n") := by
          obtain ⟨k, -, method, params, rfl⟩ := hline
          obtain ⟨kvs, hkvs, -⟩ := parse_reply p (UInt64.ofNat k) method params
          rw [hkvs] at hprefix ⊢
          exact responseOf_cut c.method hprefix
        exact .inl ⟨not_answered_of_stale h c.method hline hread hcount, nofun⟩

/-! ### The events -/

omit [LawfulJsonText] in
theorem inv_call {s : System} (h : Inv p spec s) (c : Call) : Inv p spec (step p s (.call c)) := by
  cases hw : s.waiting with
  | some c' =>
      simp only [step, hw]
      exact h
  | none =>
      simp only [step, hw]
      refine { h with
        failed := fun hany hk => ?_
        idle := nofun
        busy := fun hk c' hc => ?_ }
      · obtain ⟨hrun, hclean⟩ := h.failed hany hk
        exact ⟨hrun, by simp [hrun, hclean.stdin], hclean.stdout, hclean.cut⟩
      · obtain ⟨hin, hout, hcut⟩ := h.idle hk hw
        obtain rfl : c = c' := Option.some.inj hc
        cases hr : s.running with
        | true => exact .unread (by simp [hin]) hout hcut
        | false => exact .silent ⟨by simp [hin], hout, hcut⟩

omit [JsonText] [LawfulJsonText] in
/-- A process that runs has a request to read only while its call is under way. -/
theorem Inv.serving {s : System} (h : Inv p spec s) (hr : s.running = true) {line : String}
    {rest : List String} (hin : s.stdin = line :: rest) :
    s.session.plugin.killed = false ∧ (∀ e ∈ s.session.log, e.failed = false) ∧
      ∃ c, s.waiting = some c ∧ line = lineOf (requestDoc (s.session.plugin.nextId + 1) c) ∧
        rest = [] ∧ s.stdout = [] ∧ s.cut = "" := by
  have hk : s.session.plugin.killed = false := by
    refine Bool.eq_false_iff.mpr fun hk => ?_
    rw [(h.dead hk).1] at hr
    cases hr
  refine ⟨hk, fun e he => Bool.eq_false_iff.mpr fun hf => ?_, ?_⟩
  · rw [(h.failed ⟨e, he, hf⟩ hk).1] at hr
    cases hr
  · cases hw : s.waiting with
    | none => rw [(h.idle hk hw).stdin] at hin; cases hin
    | some c =>
        cases h.busy hk c hw with
        | unread hreq hout hcut =>
            rw [hreq] at hin
            obtain ⟨rfl, rfl⟩ := List.cons.inj hin
            exact ⟨c, rfl, rfl, rfl, hout, hcut⟩
        | silent hclean => rw [hclean.stdin] at hin; cases hin
        | answered _ _ hnil _ _ => rw [hnil] at hin; cases hin
        | broken _ _ hnil _ _ _ => rw [hnil] at hin; cases hin

omit [JsonText] [LawfulJsonText] in
/-- While nothing has failed and a call is under way, the process may go on. -/
theorem Inv.serve {s t : System} (h : Inv p spec s) (hk : s.session.plugin.killed = false)
    (hnone : ∀ e ∈ s.session.log, e.failed = false) {c : Call} (hw : s.waiting = some c)
    (hsession : t.session = s.session) (hcalls : t.calls = s.calls) (hwaiting : t.waiting = s.waiting)
    (hstage : Stage p t c) : Inv p spec t where
  spec_eq := hsession ▸ h.spec_eq
  nextId := by rw [hsession, hcalls]; exact h.nextId
  refused := hsession ▸ h.refused
  own := by rw [hsession, hcalls]; exact h.own
  failed := by
    rintro ⟨e, he, hf⟩
    rw [hsession] at he
    rw [hnone e he] at hf
    cases hf
  idle := fun _ hn => by rw [hwaiting, hw] at hn; cases hn
  busy := fun _ c' hc => by
    rw [hwaiting, hw] at hc
    exact Option.some.inj hc ▸ hstage
  dead := fun hd => by rw [hsession, hk] at hd; cases hd

theorem inv_serve {s : System} (h : Inv p spec s) : Inv p spec (step p s .serve) := by
  cases hr : s.running with
  | false =>
      simp only [step, hr]
      exact h
  | true =>
      cases hin : s.stdin with
      | nil =>
          simp only [step, hr, hin]
          exact h
      | cons line rest =>
          obtain ⟨hk, hnone, c, hw, rfl, rfl, hout, hcut⟩ := h.serving hr hin
          simp only [step, hr, hin, handle_request]
          cases hsent : sentParams c.params with
          | none => exact h.serve hk hnone hw rfl rfl rfl (.silent ⟨rfl, hout, hcut⟩)
          | some params =>
              refine h.serve hk hnone hw rfl rfl rfl (.answered params hsent rfl ?_ hcut)
              simp only [hout, List.nil_append]

theorem inv_crashWriting {s : System} (h : Inv p spec s) (n : Nat) :
    Inv p spec (step p s (.crashWriting n)) := by
  cases hr : s.running with
  | false =>
      simp only [step, hr]
      exact h
  | true =>
      cases hin : s.stdin with
      | nil =>
          simp only [step, hr, hin]
          exact h
      | cons line rest =>
          obtain ⟨hk, hnone, c, hw, rfl, rfl, hout, hcut⟩ := h.serving hr hin
          simp only [step, hr, hin, handle_request]
          cases hsent : sentParams c.params with
          | none => exact h
          | some params =>
              refine h.serve hk hnone hw rfl rfl rfl (.broken params hsent rfl hout rfl ?_)
              rw [String.toList_ofList, lineOf, String.toList_ofList]
              exact List.take_prefix _ _

omit [LawfulJsonText] in
theorem inv_crash {s : System} (h : Inv p spec s) : Inv p spec (step p s .crash) := by
  refine { h with
    failed := fun hany hk => ?_
    idle := fun hk hn => ?_
    busy := fun hk c hc => ?_
    dead := fun hk => ⟨rfl, (h.dead hk).2⟩ }
  · obtain ⟨-, hclean⟩ := h.failed hany hk
    exact ⟨rfl, rfl, hclean.stdout, hclean.cut⟩
  · exact ⟨rfl, (h.idle hk hn).stdout, (h.idle hk hn).cut⟩
  · cases h.busy hk c hc with
    | unread _ hout hcut => exact .silent ⟨rfl, hout, hcut⟩
    | silent hclean => exact .silent ⟨rfl, hclean.stdout, hclean.cut⟩
    | answered params hsent _ hout hcut => exact .answered params hsent rfl hout hcut
    | broken params hsent _ hout _ hprefix => exact .broken params hsent rfl hout rfl hprefix

omit [LawfulJsonText] in
/-- A call that gets no line ends like this. -/
theorem inv_unanswered {s : System} (h : Inv p spec s) {exchange : Exchange}
    (hf : exchange.failed = true) :
    Inv p spec (match s.waiting with
      | some c => s.complete c exchange
      | none => s) := by
  cases hw : s.waiting with
  | none => exact h
  | some c => exact inv_failed h hw hf

omit [LawfulJsonText] in
theorem inv_endOfFile {s : System} (h : Inv p spec s) : Inv p spec (step p s .endOfFile) := by
  simp only [step]
  split
  · rename_i c hw _ _
    split
    · exact inv_failed h hw rfl
    · exact h
  · exact h

omit [LawfulJsonText] in
theorem step_read_line {s : System} {c : Call} (hw : s.waiting = some c) {line : String}
    {rest : List String} (hout : s.stdout = line :: rest) :
    step p s .read = { s with stdout := rest }.complete c (.line (line ++ "\n")) := by
  simp only [step, hw, hout]

omit [LawfulJsonText] in
theorem step_read_cut {s : System} {c : Call} (hw : s.waiting = some c) (hout : s.stdout = [])
    (hcut : s.cut ≠ "") :
    step p s .read = { s with cut := "" }.complete c (.line s.cut) := by
  simp only [step, hw, hout, if_neg hcut]

theorem inv_read {s : System} (h : Inv p spec s)
    (hcount : (step p s .read).calls.length < 2 ^ 64) : Inv p spec (step p s .read) := by
  cases hw : s.waiting with
  | none =>
      simp only [step, hw]
      exact h
  | some c =>
      cases hout : s.stdout with
      | nil =>
          by_cases hcut : s.cut = ""
          · simp only [step, hw, hout, if_pos hcut]
            exact h
          · rw [step_read_cut hw hout hcut] at hcount ⊢
            rw [calls_complete_length] at hcount
            exact inv_cut h hw hout hcut hcount
      | cons line rest =>
          rw [step_read_line hw hout] at hcount ⊢
          rw [calls_complete_length] at hcount
          exact inv_line h hw hout hcount

/-- **One event** keeps what holds, as long as the ids have not all been used. -/
theorem inv_step {s : System} (e : Event) (h : Inv p spec s)
    (hcount : (step p s e).calls.length < 2 ^ 64) : Inv p spec (step p s e) := by
  cases e with
  | call c => exact inv_call h c
  | serve => exact inv_serve h
  | read => exact inv_read h hcount
  | fail source => exact inv_unanswered h rfl
  | timeOut => exact inv_unanswered h rfl
  | endOfFile => exact inv_endOfFile h
  | crash => exact inv_crash h
  | crashWriting n => exact inv_crashWriting h n

omit [LawfulJsonText] in
/-- An event ends one call at most, and what is over stays over. -/
theorem calls_step (s : System) (e : Event) :
    (step p s e).calls = s.calls ∨ ∃ c, (step p s e).calls = s.calls ++ [c] := by
  cases e with
  | call c =>
      simp only [step]
      split
      · exact .inl rfl
      · exact .inl rfl
  | serve =>
      simp only [step]
      split
      · split
        · exact .inl rfl
        · exact .inl rfl
        · exact .inl rfl
      · exact .inl rfl
  | read =>
      simp only [step]
      split
      · exact .inr ⟨_, calls_complete _ _ _⟩
      · split
        · exact .inl rfl
        · exact .inr ⟨_, calls_complete _ _ _⟩
      · exact .inl rfl
  | fail source =>
      simp only [step]
      split
      · exact .inr ⟨_, calls_complete _ _ _⟩
      · exact .inl rfl
  | timeOut =>
      simp only [step]
      split
      · exact .inr ⟨_, calls_complete _ _ _⟩
      · exact .inl rfl
  | endOfFile =>
      simp only [step]
      split
      · split
        · exact .inr ⟨_, calls_complete _ _ _⟩
        · exact .inl rfl
      · exact .inl rfl
  | crash => exact .inl rfl
  | crashWriting n =>
      simp only [step]
      split
      · split
        · exact .inl rfl
        · exact .inl rfl
        · exact .inl rfl
      · exact .inl rfl

omit [LawfulJsonText] in
theorem calls_step_length (s : System) (e : Event) :
    s.calls.length ≤ (step p s e).calls.length ∧
      (step p s e).calls.length ≤ s.calls.length + 1 := by
  rcases @calls_step _ _ p s e with h | ⟨c, h⟩
  · rw [h]; omega
  · rw [h, List.length_append, List.length_singleton]; omega

/-- **Every run,** up to the last id there is. -/
theorem inv_run (es : List Event)
    (hcount : (exec (step p) (.start spec) es).calls.length < 2 ^ 64) :
    Inv p spec (exec (step p) (.start spec) es) := by
  induction es using List.reverseRecOn with
  | nil => exact inv_start
  | append_singleton es e ih =>
      rw [exec_snoc] at hcount ⊢
      exact inv_step e (ih (Nat.lt_of_le_of_lt (calls_step_length _ e).1 hcount)) hcount

omit [LawfulJsonText] in
theorem calls_length_le (es : List Event) :
    (exec (step p) (.start spec) es).calls.length ≤ es.length := by
  induction es using List.reverseRecOn with
  | nil => exact Nat.le_refl _
  | append_singleton es e ih =>
      rw [exec_snoc, List.length_append]
      exact (calls_step_length _ e).2.trans (Nat.succ_le_succ ih)

/--
**A process that has failed is not used again.**

However calls, crashes, errors of the pipes and requests that run out of time follow one
another: once a request has failed, other than by the plugin's own error, the process is
dead, and no later request is answered from what it has left.
-/
theorem processes_retired (p : Served) (spec : PluginSpec) (es : List Event)
    (hcount : (exec (step p) (.start spec) es).calls.length < 2 ^ 64) :
    Retired (exec (step p) (.start spec) es) :=
  (inv_run es hcount).retired

/-- A reader of texts that goes by their bytes. -/
@[reducible] def textOf (reader : JsonReader) : JsonText where
  parse s := reader.parse (String.toUTF8 s).data.toList
  errorText _ := "expected value at line 1 column 1"

omit [JsonReader] [JsonText] [LawfulJsonText] in
theorem lawful_ofBits :
    letI := JsonReader.ofBits
    letI := textOf JsonReader.ofBits
    LawfulJsonText := by
  let _ := JsonReader.ofBits
  let _ := textOf JsonReader.ofBits
  refine ⟨fun kvs cs hprefix hne => ?_, fun _ => rfl⟩
  obtain ⟨rest, hrest⟩ := hprefix
  show (Function.partialInv jsonBytes (String.ofList cs).toUTF8.data.toList).bind _ = none
  cases hinv : Function.partialInv jsonBytes (String.ofList cs).toUTF8.data.toList with
  | none => rfl
  | some j =>
      have hbytes : jsonBytes j = (String.ofList cs).toUTF8.data.toList :=
        (jsonBytes_injective.isPartialInv j _).mp hinv
      have htext : j.print = cs :=
        String.ofList_inj.mp (String.toByteArray_inj.mp (ByteArray.ext (Array.toList_inj.mp hbytes)))
      -- the text of an object ends where it ends
      have hsame : Json.print j ++ rest = Json.print (.obj kvs) ++ [] := by
        rw [htext, hrest, List.append_nil]
      obtain ⟨rfl, rfl⟩ := Json.print_inj_of_ends j (.obj kvs) nofun hsame
      exact absurd htext.symm hne

omit [JsonReader] [JsonText] [LawfulJsonText] in
/-- The process crashes in the middle of its first answer. -/
theorem broken_handshake_retired :
    letI := JsonReader.ofBits
    letI := textOf JsonReader.ofBits
    Retired (exec (step (labeler "0.1.0" .ok fun _ => .ok "kind: ConfigMap\n"))
      (.start ⟨"labeler", .fromSecs 60⟩) [.call ⟨.handshake, .obj []⟩, .crashWriting 20, .read,
        .call ⟨.render, .obj []⟩, .endOfFile]) := by
  let _ := JsonReader.ofBits
  let _ := textOf JsonReader.ofBits
  have : LawfulJsonText := lawful_ofBits
  exact processes_retired _ _ _ (Nat.lt_of_le_of_lt (calls_length_le _) (by decide))

/--
**What a caller is told is what the plugin made of its own request.**

Every manifest and every error of the plugin that is returned for a call is what
rendering the params of this call came to, as the process read them.
-/
theorem answers_own (p : Served) (spec : PluginSpec) (es : List Event)
    (hcount : (exec (step p) (.start spec) es).calls.length < 2 ^ 64) :
    List.Forall₂ (Own p spec.name) (exec (step p) (.start spec) es).calls
      (exec (step p) (.start spec) es).session.log :=
  (inv_run es hcount).own

omit [JsonReader] [JsonText] [LawfulJsonText] in
/-- A chart is rendered after the handshake. -/
theorem rendered_own :
    letI := JsonReader.ofBits
    letI := textOf JsonReader.ofBits
    let served := helm "0.1.0" .ok fun _ => .ok "kind: ConfigMap\n"
    let s := exec (step served) (.start ⟨"helm", .fromSecs 60⟩) [.call ⟨.handshake, .obj []⟩,
      .serve, .read, .call ⟨.render, .obj []⟩, .serve, .read]
    List.Forall₂ (Own served "helm") s.calls s.session.log := by
  let _ := JsonReader.ofBits
  let _ := textOf JsonReader.ofBits
  have : LawfulJsonText := lawful_ofBits
  exact answers_own _ ⟨"helm", .fromSecs 60⟩ _
    (Nat.lt_of_le_of_lt (calls_length_le _) (by decide))

end SynchrotronCD.PluginProcess
